import DanubeBsp.CreditRing
import DanubeBsp.Errno
import DanubeBsp.Runs
import DanubeBsp.WordMemory

namespace DanubeBsp

/-- A card, as far as its transmit schedule table goes: `tst_num` comes from the size of the SRAM,
`max_pcr` from the PHY. -/
structure NsCard where
  largeSram : Bool
  oc3 : Bool

def NsCard.tstNum (card : NsCard) : Nat := if card.largeSram then 4095 else 2047

/-- `ATM_OC3_PCR` and `ATM_25_PCR`. -/
def NsCard.maxPcr (card : NsCard) : Nat :=
  if card.oc3 then 155520000 / 270 * 260 / 8 / 53 else (25600000 / 8 - 8000) / 54

/-- `NS_TST_RESERVED`. -/
def nsTstReserved : Int := 340

/-- `NS_SCD_NUM`. -/
def nsScdNum : Nat := 250

/-- `NS_TST_OPCODE_VARIABLE`. -/
def nsTsteVariable : Word := 0x40000000#32

/-- `ns_tste_make(NS_TST_OPCODE_FIXED, conn)`. -/
def nsTsteFixed (conn : Nat) : Word := 0x20000000#32 ||| BitVec.ofNat 32 conn

/-- The cell rates of `struct atm_trafprm`. -/
structure TrafParm where
  maxPcr : BitVec 32
  pcr : BitVec 32
  minPcr : BitVec 32
  deriving DecidableEq

/-- `ATM_MAX_PCR`. -/
def atmMaxPcr : BitVec 32 := -1#32

/-- `atm_pcr_goal`: a rate to be rounded up, the negative of one to be rounded down, or zero. -/
def atmPcrGoal (tp : TrafParm) : BitVec 32 :=
  if tp.pcr ≠ 0#32 ∧ tp.pcr ≠ atmMaxPcr then -tp.pcr
  else if tp.minPcr ≠ 0#32 ∧ tp.pcr = 0#32 then tp.minPcr
  else if tp.maxPcr ≠ atmMaxPcr then -tp.maxPcr
  else 0#32

/-- A virtual channel of the class `ATM_CBR` in the directions that it uses, one at least. -/
structure NsVcc where
  conn : Nat
  tx : Bool
  rx : Bool
  tp : TrafParm
  used : (tx || rx) = true
  deriving DecidableEq

/-- `tste2vc`, the words of the table in the SRAM, `tst_free_entries`, `scd2vc` and, for each
connection, the index of its SCD and the flags `tx` and `rx`; beside them the channels that are open,
with the entries that each was given. -/
structure NsTst where
  tste2vc : Nat → Option Nat
  tst : Nat → Word
  tstFree : Int
  scd2vc : Nat → Option Nat
  scd : Nat → Nat
  tx : Nat → Bool
  rx : Nat → Bool
  vccs : List (NsVcc × Int)

/-- An entry of the table for a connection. -/
def NsTst.put (s : NsTst) (conn e : Nat) : NsTst :=
  { s with tste2vc := Function.update s.tste2vc e (some conn),
           tst := Function.update s.tst e (nsTsteFixed conn) }

/-- The loop of `fill_tst`, with a bound for its rounds: `r` entries are left. -/
def fillLoop (card : NsCard) (numEntries conn : Nat) :
    (rounds e cl r : Nat) → NsTst → Option NsTst
  | _, _, _, 0, s => some s
  | 0, _, _, _ + 1, _ => none
  | rounds + 1, e, cl, r + 1, s =>
    let e' := if e + 1 = card.tstNum then 0 else e + 1
    if card.tstNum ≤ cl ∧ s.tste2vc e = none then
      fillLoop card numEntries conn rounds e' ((cl - card.tstNum + numEntries) % 2 ^ 32) r
        (s.put conn e)
    else fillLoop card numEntries conn rounds e' ((cl + numEntries) % 2 ^ 32) (r + 1) s

/-- `fill_tst`, with the rounds of two laps. -/
def fillTst (card : NsCard) (s : NsTst) (numEntries conn : Nat) : Option NsTst :=
  match (List.range card.tstNum).find? fun e => (s.tste2vc e).isNone with
  | none => some s
  | some e => fillLoop card numEntries conn (2 * card.tstNum) e card.tstNum numEntries s

/-- The number of entries that `ns_init_tx_cbr` computes for the cell rates. -/
def cbrEntries (card : NsCard) (tstFree : Int) (tp : TrafParm) : Int :=
  let tcr := (atmPcrGoal tp).toInt
  let tmpl := tcr.natAbs * card.tstNum % 2 ^ 32
  let n : Int := (tmpl / card.maxPcr : Nat)
  if 0 < tcr then (if 0 < tmpl % card.maxPcr then n + 1 else n)
  else if tcr = 0 then tstFree - nsTstReserved
  else n

/-- `ns_init_tx_cbr`; `scqOk` tells whether `get_scq` finds memory. -/
def nsInitTxCbr (card : NsCard) (s : NsTst) (conn : Nat) (tp : TrafParm) (scqOk : Bool) :
    Option (NsTst × Int) :=
  let n := cbrEntries card s.tstFree tp
  if tp.maxPcr = 0#32 ∧ tp.pcr = 0#32 ∧ tp.minPcr = 0#32 then some (s, eInval)
  else if atmPcrGoal tp = 0#32 ∧ n ≤ 0 then some (s, eInval)
  else if n = 0 then some (s, eInval)
  else if s.tstFree - nsTstReserved < n then some (s, eInval)
  else
    match (List.range nsScdNum).find? fun i => (s.scd2vc i).isNone with
    | none => some (s, eBusy)
    | some scdi =>
      let s := { s with scd := Function.update s.scd conn scdi }
      if scqOk then
        (fillTst card { s with tstFree := s.tstFree - n,
                               scd2vc := Function.update s.scd2vc scdi (some conn) }
          n.toNat conn).map fun s => (s, 0)
      else some (s, eNoMem)

/-- `ns_open`. -/
def nsOpen (card : NsCard) (s : NsTst) (v : NsVcc) (scqOk : Bool) : Option (NsTst × Int) :=
  if (v.tx && s.tx v.conn) || (v.rx && s.rx v.conn) then some (s, eInval)
  else do
    let r ← nsInitTxCbr card s v.conn v.tp scqOk
    if r.2 ≠ 0 then pure r
    else pure ({ r.1 with
      tx := if v.tx then Function.update r.1.tx v.conn true else r.1.tx
      rx := if v.rx then Function.update r.1.rx v.conn true else r.1.rx
      vccs := (v, s.tstFree - r.1.tstFree) :: r.1.vccs }, 0)

/-- What `ns_close` frees of the table for a channel that transmits. -/
def NsTst.freeEntries (card : NsCard) (s : NsTst) (conn : Nat) : NsTst :=
  { s with
    tste2vc := fun e => if e < card.tstNum ∧ s.tste2vc e = some conn then none else s.tste2vc e
    tst := fun e =>
      if e < card.tstNum ∧ s.tste2vc e = some conn then nsTsteVariable else s.tst e
    tstFree := s.tstFree + (List.range card.tstNum).countP fun e => s.tste2vc e == some conn }

/-- `ns_close`, once the queue of the channel is empty. The queue itself is not in the model: where a
channel that only receives has been opened on the connection of another, `vc->scq` is the queue of the
younger one, and the two closes free it twice. -/
def nsClose (card : NsCard) (s : NsTst) (g : NsVcc × Int) : NsTst :=
  let v := g.1
  let s := if v.tx then s.freeEntries card v.conn else s
  { s with
    tx := if v.tx then Function.update s.tx v.conn false else s.tx
    rx := if v.rx then Function.update s.rx v.conn false else s.rx
    scd2vc := Function.update s.scd2vc (s.scd v.conn) none
    vccs := s.vccs.erase g }

inductive NsEvent
  | opened (v : NsVcc) (scqOk : Bool)
  | closed (g : NsVcc × Int)

def nsStep (card : NsCard) (s : NsTst) : NsEvent → Option NsTst
  | .opened v scqOk => (nsOpen card s v scqOk).map Prod.fst
  | .closed g => if g ∈ s.vccs then some (nsClose card s g) else none

/-- The table after `ns_init_card`. -/
def nsTstInit (card : NsCard) : NsTst where
  tste2vc _ := none
  tst _ := nsTsteVariable
  tstFree := card.tstNum
  scd2vc _ := none
  scd _ := 0
  tx _ := false
  rx _ := false
  vccs := []

/-- The table with some entries given to a connection. -/
def NsTst.place (s : NsTst) (conn : Nat) (ps : List Nat) : NsTst :=
  { s with
    tste2vc := fun e => if e ∈ ps then some conn else s.tste2vc e
    tst := fun e => if e ∈ ps then nsTsteFixed conn else s.tst e }

def NsTst.free (s : NsTst) (e : Nat) : Bool := (s.tste2vc e).isNone

/-- How many entries of the table a connection has. -/
def NsTst.entries (card : NsCard) (s : NsTst) (conn : Nat) : Nat :=
  (List.range card.tstNum).countP fun e => s.tste2vc e == some conn

section

variable {card : NsCard} {s : NsTst} {conn : Nat} {ps : List Nat}

theorem NsCard.tstNum_bounds (card : NsCard) : 2047 ≤ card.tstNum ∧ card.tstNum ≤ 4095 := by
  unfold NsCard.tstNum
  split <;> omega

theorem NsTst.place_nil : s.place conn [] = s := by
  simp [NsTst.place]

theorem NsTst.put_place {e : Nat} : (s.put conn e).place conn ps = s.place conn (e :: ps) := by
  unfold NsTst.put NsTst.place
  congr 1
  · funext q
    by_cases hq : q = e
    · simp [hq]
    · simp [hq]
  · funext q
    by_cases hq : q = e
    · simp [hq]
    · simp [hq]

theorem NsTst.put_free {e : Nat} : (s.put conn e).free = Function.update s.free e false := by
  funext q
  by_cases hq : q = e
  · simp [NsTst.put, NsTst.free, hq]
  · simp [NsTst.put, NsTst.free, hq]

theorem NsTst.place_free : (s.place conn ps).free = leftFree s.free ps := by
  funext q
  by_cases hq : q ∈ ps
  · simp [NsTst.place, NsTst.free, leftFree, hq]
  · simp [NsTst.place, NsTst.free, leftFree, hq]

/-- The loop places by credit, as long as the credit does not wrap. -/
theorem fillLoop_eq {numEntries rounds p e cl r : Nat} (he : e = p % card.tstNum)
    (hfit : cl + rounds * numEntries < 2 ^ 32) :
    fillLoop card numEntries conn rounds e cl r s =
      (creditRing card.tstNum numEntries rounds s.free p cl r).map (s.place conn) := by
  induction rounds generalizing s p e cl r with
  | zero =>
    cases r with
    | zero => simp [fillLoop, creditRing, NsTst.place_nil]
    | succ r => rfl
  | succ rounds ih =>
    cases r with
    | zero => simp [fillLoop, creditRing, NsTst.place_nil]
    | succ r =>
      have hsize := card.tstNum_bounds.1
      have hmul : (rounds + 1) * numEntries = rounds * numEntries + numEntries :=
        Nat.succ_mul rounds numEntries
      have hnext : (if e + 1 = card.tstNum then 0 else e + 1) = (p + 1) % card.tstNum := by
        rw [he]
        exact ringNext_end (by omega) p
      have hfree : s.tste2vc e = none ↔ s.free (p % card.tstNum) = true := by
        rw [← he, NsTst.free, Option.isNone_iff_eq_none]
      unfold fillLoop creditRing
      simp only [hnext, hfree]
      split
      next htake =>
        have hsmall : (cl - card.tstNum + numEntries) % 2 ^ 32 = cl - card.tstNum + numEntries :=
          Nat.mod_eq_of_lt (by omega)
        rw [hsmall, ih (s := s.put conn e) (p := p + 1) rfl (by omega), NsTst.put_free, ← he,
          Option.map_map]
        congr 1
        funext ps
        exact NsTst.put_place
      next hskip =>
        have hsmall : (cl + numEntries) % 2 ^ 32 = cl + numEntries := Nat.mod_eq_of_lt (by omega)
        rw [hsmall, ih (p := p + 1) rfl (by omega)]

theorem NsTst.find_free {n : Nat} (hn : 0 < n) (h : n ≤ (List.range card.tstNum).countP s.free) :
    ∃ e, ((List.range card.tstNum).find? fun e => (s.tste2vc e).isNone) = some e ∧
      e < card.tstNum := by
  obtain ⟨e, he, hfree⟩ := List.countP_pos_iff.mp (show 0 < (List.range card.tstNum).countP s.free by
    omega)
  have hsome : ((List.range card.tstNum).find? fun e => (s.tste2vc e).isNone).isSome :=
    List.find?_isSome.mpr ⟨e, he, hfree⟩
  obtain ⟨first, hfirst⟩ := Option.isSome_iff_exists.mp hsome
  exact ⟨first, hfirst, List.mem_range.mp (List.mem_of_find?_eq_some hfirst)⟩

/-- `fill_tst` with enough free entries gives the connection as many as it asks for. -/
theorem fillTst_spec {n : Nat} (hn : 0 < n) (h : n ≤ (List.range card.tstNum).countP s.free) :
    ∃ ps, fillTst card s n conn = some (s.place conn ps) ∧ ps.length = n ∧
      Placed card.tstNum s.free ps := by
  obtain ⟨e, hfirst, he⟩ := NsTst.find_free hn h
  obtain ⟨hlow, hhigh⟩ := card.tstNum_bounds
  have hle : (List.range card.tstNum).countP s.free ≤ card.tstNum := by
    simpa using List.countP_le_length (p := s.free) (l := List.range card.tstNum)
  have hcredit : 2 * card.tstNum * n ≤ 2 * 4095 * 4095 :=
    Nat.mul_le_mul (by omega) (by omega)
  obtain ⟨ps, hps, hlen, hplaced⟩ := creditRing_spec (by omega) (p := e) h
  refine ⟨ps, ?_, hlen, hplaced⟩
  unfold fillTst
  rw [hfirst]
  show fillLoop card n conn (2 * card.tstNum) e card.tstNum n s = _
  rw [fillLoop_eq (p := e) (Nat.mod_eq_of_lt he).symm (by omega), hps]
  rfl

/-- The books of the table: the free entries are counted, those that other classes need are kept, and
the words in the SRAM are those of the owners. -/
structure TstBooks (card : NsCard) (s : NsTst) : Prop where
  counted : s.tstFree = (List.range card.tstNum).countP s.free
  reserve : nsTstReserved ≤ s.tstFree
  words : ∀ e, e < card.tstNum → s.tst e = (s.tste2vc e).elim nsTsteVariable nsTsteFixed

theorem tstBooks_init : TstBooks card (nsTstInit card) := by
  refine ⟨?_, ?_, fun _ _ => rfl⟩
  · have hall : (List.range card.tstNum).countP (nsTstInit card).free =
        (List.range card.tstNum).length := List.countP_eq_length.mpr fun _ _ => rfl
    rw [hall, List.length_range]
    rfl
  · have hlow := card.tstNum_bounds.1
    show (340 : Int) ≤ card.tstNum
    omega

/-- What an accepted channel changes of the table. -/
structure TstGranted (card : NsCard) (s : NsTst) (conn : Nat) (tp : TrafParm) (t : NsTst) :
    Prop where
  scdi : ∃ scdi ps, Placed card.tstNum s.free ps ∧ (ps.length : Int) = cbrEntries card s.tstFree tp ∧
    0 < ps.length ∧ ps.length ≤ s.tstFree - nsTstReserved ∧
    t = { s with
      tstFree := s.tstFree - ps.length
      scd2vc := Function.update s.scd2vc scdi (some conn)
      scd := Function.update s.scd conn scdi }.place conn ps

theorem cbrEntries_pos {tstFree : Int} {tp : TrafParm}
    (hzero : ¬(atmPcrGoal tp = 0#32 ∧ cbrEntries card tstFree tp ≤ 0))
    (hne : cbrEntries card tstFree tp ≠ 0) : 0 < cbrEntries card tstFree tp := by
  by_cases hgoal : atmPcrGoal tp = 0#32
  · have hle : ¬cbrEntries card tstFree tp ≤ 0 := fun hle => hzero ⟨hgoal, hle⟩
    omega
  · have htcr : (atmPcrGoal tp).toInt ≠ 0 := fun h => hgoal (BitVec.eq_of_toInt_eq h)
    have hnonneg : 0 ≤ cbrEntries card tstFree tp := by
      unfold cbrEntries
      simp only [if_neg htcr]
      generalize (atmPcrGoal tp).toInt.natAbs * card.tstNum % 2 ^ 32 / card.maxPcr = quotient
      split
      · split <;> omega
      · omega
    omega

/-- All that `ns_init_tx_cbr` does: a refusal leaves the table as it is. -/
theorem nsInitTxCbr_cases (h : TstBooks card s) (conn : Nat) (tp : TrafParm) (scqOk : Bool) :
    (∃ scd e, nsInitTxCbr card s conn tp scqOk = some ({ s with scd := scd }, e) ∧ e ≠ 0) ∨
      ∃ t, nsInitTxCbr card s conn tp scqOk = some (t, 0) ∧ TstGranted card s conn tp t := by
  unfold nsInitTxCbr
  simp only []
  split
  next => exact .inl ⟨s.scd, eInval, rfl, by decide⟩
  next =>
    split
    next => exact .inl ⟨s.scd, eInval, rfl, by decide⟩
    next hzero =>
      split
      next => exact .inl ⟨s.scd, eInval, rfl, by decide⟩
      next hnonzero =>
        split
        next => exact .inl ⟨s.scd, eInval, rfl, by decide⟩
        next hroom =>
          split
          next => exact .inl ⟨s.scd, eBusy, rfl, by decide⟩
          next scdi _ =>
            split
            next =>
              right
              have hpos := cbrEntries_pos hzero hnonzero
              have hreserve : (340 : Int) = nsTstReserved := rfl
              have hcounted := h.counted
              obtain ⟨ps, hfill, hlen, hplaced⟩ := @fillTst_spec card
                { s with
                  scd := Function.update s.scd conn scdi
                  tstFree := s.tstFree - cbrEntries card s.tstFree tp
                  scd2vc := Function.update s.scd2vc scdi (some conn) } conn
                (cbrEntries card s.tstFree tp).toNat (by omega)
                (show (cbrEntries card s.tstFree tp).toNat ≤
                  (List.range card.tstNum).countP s.free by omega)
              have hn : (ps.length : Int) = cbrEntries card s.tstFree tp := by omega
              rw [hfill]
              refine ⟨_, rfl, scdi, ps, hplaced, hn, by omega, by omega, ?_⟩
              rw [hn]
            next => exact .inl ⟨Function.update s.scd conn scdi, eNoMem, rfl, by decide⟩

/-- All that `ns_open` does. -/
theorem nsOpen_cases (h : TstBooks card s) (v : NsVcc) (scqOk : Bool) :
    (∃ scd e, nsOpen card s v scqOk = some ({ s with scd := scd }, e) ∧ e ≠ 0) ∨
      ∃ t, TstGranted card s v.conn v.tp t ∧ (v.tx = true → s.tx v.conn = false) ∧
        nsOpen card s v scqOk = some ({ t with
          tx := if v.tx then Function.update t.tx v.conn true else t.tx
          rx := if v.rx then Function.update t.rx v.conn true else t.rx
          vccs := (v, s.tstFree - t.tstFree) :: t.vccs }, 0) := by
  unfold nsOpen
  by_cases hused : ((v.tx && s.tx v.conn) || (v.rx && s.rx v.conn)) = true
  · rw [if_pos hused]
    exact .inl ⟨s.scd, eInval, rfl, by decide⟩
  · rw [if_neg hused]
    rcases nsInitTxCbr_cases h v.conn v.tp scqOk with ⟨scd, e, hr, hne⟩ | ⟨t, ht, hgranted⟩
    · left
      refine ⟨scd, e, ?_, hne⟩
      rw [hr]
      exact if_pos hne
    · right
      refine ⟨t, hgranted, ?_, ?_⟩
      · intro htx
        cases hflag : s.tx v.conn with
        | false => rfl
        | true => exact absurd (by simp [htx, hflag]) hused
      · rw [ht]
        rfl

theorem TstGranted.books {tp : TrafParm} {t : NsTst} (h : TstBooks card s)
    (hg : TstGranted card s conn tp t) : TstBooks card t := by
  obtain ⟨scdi, ps, hplaced, -, hpos, hroom, ht⟩ := hg.scdi
  subst ht
  have hcount := hplaced.countP_leftFree
  have hcounted := h.counted
  refine ⟨?_, ?_, ?_⟩
  · rw [NsTst.place_free]
    show s.tstFree - ps.length = ((List.range card.tstNum).countP (leftFree s.free ps) : Int)
    omega
  · show nsTstReserved ≤ s.tstFree - ps.length
    omega
  · intro e he
    unfold NsTst.place
    by_cases hmem : e ∈ ps
    · simp [hmem]
    · simp only [hmem, if_false]
      exact h.words e he

theorem countP_or_of_disjoint {α : Type*} {p q : α → Bool} (l : List α)
    (h : ∀ a, p a = true → q a = false) :
    l.countP (fun a => p a || q a) = l.countP p + l.countP q := by
  induction l with
  | nil => rfl
  | cons a l ih =>
    rw [List.countP_cons, List.countP_cons, List.countP_cons, ih]
    have ha := h a
    cases hp : p a with
    | false => simp [Nat.add_assoc]
    | true =>
      simp only [ha hp, Bool.true_or, if_true, Bool.false_eq_true, if_false]
      omega

theorem freeEntries_books (h : TstBooks card s) : TstBooks card (s.freeEntries card conn) := by
  have hfree : (List.range card.tstNum).countP (s.freeEntries card conn).free =
      (List.range card.tstNum).countP fun e => s.free e || s.tste2vc e == some conn := by
    apply List.countP_congr
    intro e he
    have hin := List.mem_range.mp he
    by_cases hown : s.tste2vc e = some conn
    · simp [NsTst.freeEntries, NsTst.free, hin, hown]
    · simp [NsTst.freeEntries, NsTst.free, hown]
  have hcounted := h.counted
  have hreserve := h.reserve
  refine ⟨?_, ?_, ?_⟩
  · rw [hfree, countP_or_of_disjoint]
    · show s.tstFree + _ = _
      rw [hcounted]
      push_cast
      rfl
    · intro e he
      rw [NsTst.free, Option.isNone_iff_eq_none] at he
      rw [he]
      rfl
  · show nsTstReserved ≤ s.tstFree + _
    omega
  · intro e he
    unfold NsTst.freeEntries
    by_cases hown : s.tste2vc e = some conn
    · simp [he, hown]
    · simp only [hown, and_false, if_false]
      exact h.words e he

theorem nsClose_books {g : NsVcc × Int} (h : TstBooks card s) : TstBooks card (nsClose card s g) := by
  unfold nsClose
  by_cases htx : g.1.tx = true
  · have hfreed : TstBooks card (s.freeEntries card g.1.conn) := freeEntries_books h
    simp only [htx, if_true]
    exact ⟨hfreed.counted, hfreed.reserve, hfreed.words⟩
  · simp only [htx]
    exact ⟨h.counted, h.reserve, h.words⟩

/-- Whatever is opened and closed, the books of the table are right. -/
theorem nsStep_books {t : NsTst} {e : NsEvent} (h : TstBooks card s)
    (hstep : nsStep card s e = some t) : TstBooks card t := by
  cases e with
  | opened v scqOk =>
    obtain ⟨r, hr, ht⟩ := Option.map_eq_some_iff.mp hstep
    subst ht
    rcases nsOpen_cases h v scqOk with ⟨scd, e, hopen, -⟩ | ⟨t, hgranted, -, hopen⟩
    · cases Option.some.inj (hr.symm.trans hopen)
      exact ⟨h.counted, h.reserve, h.words⟩
    · cases Option.some.inj (hr.symm.trans hopen)
      have hbooks := hgranted.books h
      exact ⟨hbooks.counted, hbooks.reserve, hbooks.words⟩
  | closed g =>
    unfold nsStep at hstep
    simp only [] at hstep
    split at hstep
    next =>
      cases Option.some.inj hstep
      exact nsClose_books h
    next => cases hstep

end

end DanubeBsp
