import DanubeBsp.ByteOrder
import DanubeBsp.PackedWord
import DanubeBsp.RingSlice
import DanubeBsp.WordMemory

namespace DanubeBsp

/-- The four words of an entry of a segmentation channel queue, as the card reads them. -/
structure NsScqe where
  word1 : Word
  word2 : Word
  word3 : Word
  word4 : Word
  deriving DecidableEq

/-- `ns_scqe_is_tsr`. -/
def NsScqe.isTsr (e : NsScqe) : Bool := e.word1 &&& 0x80000000#32 != 0#32

/-- What a transmit buffer descriptor is made of on the side of the channel. -/
structure NsTxAddress where
  aal5 : Bool
  vpi : Word
  vci : Word
  aalOptions : Word
  deriving DecidableEq

/-- What it is made of on the side of the packet: the bus address, the length and the first word of
the data, the mark 0xAB of an OAM cell and `ATM_ATMOPT_CLP`. -/
structure NsTxBuf where
  addr : Word
  len : Nat
  header : Word
  oam : Bool
  clp : Bool
  len_lt : len < 65536
  deriving DecidableEq

/-- `ns_tbd_mkword_4`. -/
def nsTbdMkword4 (gfc vpi vci pt clp : Word) : Word :=
  gfc <<< 28 ||| vpi <<< 20 ||| vci <<< 4 ||| pt <<< 1 ||| clp

/-- `NS_TBD_VC_MASK`. -/
def nsTbdVcMask : Word := 0x0FFFFFF0#32

/-- The descriptor that `ns_push_on_scq` makes. -/
def nsTbd (v : NsTxAddress) (b : NsTxBuf) : NsScqe :=
  if v.aal5 then
    let flags : Word := (if b.oam then 0x10000000#32 else 0x08000000#32) ||| 0x40000000#32
    { word1 := flags ||| BitVec.ofNat 32 b.len
      word2 := b.addr
      word3 := BitVec.ofNat 32 b.len
      word4 := nsTbdMkword4 0#32 v.vpi v.vci v.aalOptions (if b.clp then 1#32 else 0#32) }
  else
    let flags : Word := if b.oam then 0x10000000#32 else 0#32
    -- the first byte of the data, on a big-endian machine
    let flags := if (b.header >>> 24) &&& 0x02#32 ≠ 0#32 then flags ||| 0x40000000#32 else flags
    { word1 := flags ||| 48#32
      word2 := b.addr + 4#32
      word3 := 0#32
      word4 := (b.header &&& ~~~nsTbdVcMask) |||
        (((v.vpi <<< 20 ||| v.vci <<< 4) &&& nsTbdVcMask) ||| ((v.aalOptions <<< 1) &&& 0x0E#32)) }

/-- `scq_type`. -/
inductive ScqType
  | ubr
  | cbr
  | vbr
  | abr
  deriving DecidableEq

/-- `NS_TSR_SCDISUBR0`. -/
def nsTsrScdIsUbr0 : Nat := 0xFFFF

/-- A transmit status request, with the tag of a CBR queue. -/
def nsTsr (type : ScqType) (scdi scqi : Nat) : NsScqe where
  word1 := 0x80000000#32 ||| (if type = .cbr then 0x20100000#32 else 0x20000000#32)
  word2 := BitVec.ofNat 32 scdi <<< 16 ||| 0x00008000#32 ||| BitVec.ofNat 32 scqi
  word3 := 0#32
  word4 := 0#32

/-- A packet in the hands of the driver; `vcc` is `ATM_SKB(skb)->vcc`. -/
structure NsTxSkb where
  vcc : Option Nat
  buf : NsTxBuf
  deriving DecidableEq

/-- A `scq_info` with the tail pointer in its SCD and the entry that the card reads next, and, beside
them, the packets that were accepted for it, the descriptors that the card has taken and the packets
that were given back with `pop`. The pointers into the queue and `scd` are indices. -/
structure NsScq where
  type : ScqType
  scd : Nat
  scqe : Nat → NsScqe
  skb : Nat → Option NsTxSkb
  next : Nat
  tail : Nat
  waiting : List NsTxSkb
  tailPtr : Nat
  head : Nat
  accepted : List NsTxSkb
  sent : List NsScqe
  popped : List NsTxSkb

/-- `SCQ_NUM_ENTRIES`. -/
def scqNumEntries : Nat := 64

/-- `get_scq`, and the SCD of the queue; the entries are as they are in the memory. -/
def getScq (type : ScqType) (scd : Nat) (scqe : Nat → NsScqe) : NsScq where
  type := type
  scd := scd
  scqe := scqe
  skb _ := none
  next := 0
  tail := scqNumEntries - 1
  waiting := []
  tailPtr := 0
  head := 0
  accepted := []
  sent := []
  popped := []

/-- The entry behind `i`: `if (p == scq->last) p = scq->base; else p++;`. -/
def scqAfter (i : Nat) : Nat := if i = scqNumEntries - 1 then 0 else i + 1

/-- The entry before `i`. -/
def scqBefore (i : Nat) : Nat := if i = 0 then scqNumEntries - 1 else i - 1

/-- An entry is put at `next`, which moves on. -/
def NsScq.put (q : NsScq) (e : NsScqe) (skb : Option NsTxSkb) : NsScq :=
  { q with
    scqe := Function.update q.scqe q.next e
    skb := Function.update q.skb q.next skb
    next := scqAfter q.next }

/-- The tail pointer in the SCD is updated. -/
def NsScq.tell (q : NsScq) : NsScq := { q with tailPtr := q.next }

/-- `push_scqe`; `none` is the result 1, no room. -/
def pushScqe (q : NsScq) (scdi : Nat) (tbd : NsScqe) (p : NsTxSkb) : Option NsScq :=
  if q.next = q.tail then none
  else if scqAfter q.next = q.tail then none
  else
    let q := q.put tbd (some p)
    some (q.put (nsTsr q.type scdi q.next) none).tell

/-- The loop of `drain_scq`, with a bound for its rounds; `none` is the access to the `vcc` of a
packet that has lost it. -/
def drainLoop : (rounds i pos : Nat) → NsScq → Option NsScq
  | 0, _, _, _ => none
  | rounds + 1, i, pos, q =>
    if i = pos then some q
    else
      let i' := if i + 1 = scqNumEntries then 0 else i + 1
      match q.skb i with
      | none => drainLoop rounds i' pos q
      | some p =>
        match p.vcc with
        | none => none
        | some _ => drainLoop rounds i' pos
            { q with skb := Function.update q.skb i none, popped := q.popped ++ [p] }

/-- `drain_scq`. -/
def drainScq (q : NsScq) (pos : Nat) : Option NsScq :=
  if scqNumEntries ≤ pos then some q
  else do
    let i := if q.tail + 1 = scqNumEntries then 0 else q.tail + 1
    let q ← drainLoop scqNumEntries i pos q
    pure { q with tail := pos }

/-- A TSI of the transmit status queue. -/
structure NsTsi where
  word1 : Word
  word2 : Word
  deriving DecidableEq

/-- The card takes the next entry of a queue that is not empty for it: a descriptor is sent, a request
gives the status word of a report. -/
def NsScq.cardTakes (q : NsScq) : Option (NsScq × Option Word) :=
  if q.head = q.tailPtr then none
  else
    let e := q.scqe q.head
    let q := { q with head := scqAfter q.head }
    if e.isTsr then some (q, some e.word2) else some ({ q with sent := q.sent ++ [e] }, none)

/-- `ns_tsi_getscdindex` and `ns_tsi_getscqpos`. -/
def nsTsiScdIndex (word1 : Word) : Nat := ((word1 &&& 0xFFFF0000#32) >>> 16).toNat

def nsTsiScqPos (word1 : Word) : Nat := (word1 &&& 0x00007FFF#32).toNat

section Words

/-- A report names the queue and the entry of its request. -/
theorem nsTsr_word2 {type : ScqType} {scdi scqi : Nat} (hscdi : scdi < 65536) (hscqi : scqi < 32768) :
    nsTsiScdIndex (nsTsr type scdi scqi).word2 = scdi ∧
      nsTsiScqPos (nsTsr type scdi scqi).word2 = scqi := by
  let index : PackedField 32 := ⟨16, 16, BitVec.ofNat 32 scdi⟩
  let mark : PackedField 32 := ⟨15, 1, 1#32⟩
  let pos : PackedField 32 := ⟨0, 15, BitVec.ofNat 32 scqi⟩
  have hpack : (nsTsr type scdi scqi).word2 = packFields [index, mark, pos] := by
    simp only [nsTsr, packFields, index, mark, pos, BitVec.or_assoc]
    congr 1
    simp
  have hfit : ∀ f ∈ [index, mark, pos], f.Fits := by
    intro f hf
    simp only [List.mem_cons, List.not_mem_nil, or_false] at hf
    rcases hf with rfl | rfl | rfl
    · exact PackedField.fits_ofNat hscdi
    · exact PackedField.fits_ofNat (show 1 < 2 ^ 1 by omega)
    · exact PackedField.fits_ofNat hscqi
  have hapart : [index, mark, pos].Pairwise PackedField.Apart := by
    simp [PackedField.Apart, index, mark, pos]
  constructor
  · have hmask : MasksBits index.lo index.width 0xFFFF0000#32 := by
      show MasksBits 16 16 0xFFFF0000#32
      decide
    have hroom : index.lo + index.width ≤ 32 := Nat.le_refl 32
    have hread := field_packFields hfit hapart (f := index) (by simp) hroom hmask
    rw [nsTsiScdIndex, hpack]
    show ((packFields [index, mark, pos] &&& 0xFFFF0000#32) >>> index.lo).toNat = scdi
    rw [hread]
    show (BitVec.ofNat 32 scdi).toNat = scdi
    simp only [BitVec.toNat_ofNat]
    omega
  · have hmask : MasksBits pos.lo pos.width 0x00007FFF#32 := by
      show MasksBits 0 15 0x00007FFF#32
      decide
    have hroom : pos.lo + pos.width ≤ 32 := show 15 ≤ 32 by omega
    have hread := field_packFields hfit hapart (f := pos) (by simp) hroom hmask
    have hshift : ∀ x : Word, x >>> 0 = x := fun x => BitVec.ushiftRight_zero x
    rw [nsTsiScqPos, hpack]
    rw [show pos.lo = 0 from rfl, hshift] at hread
    rw [hread]
    show (BitVec.ofNat 32 scqi).toNat = scqi
    simp only [BitVec.toNat_ofNat]
    omega

theorem nsTsr_isTsr (type : ScqType) (scdi scqi : Nat) : (nsTsr type scdi scqi).isTsr = true := by
  cases type <;> simp [NsScqe.isTsr, nsTsr]

/-- A descriptor is no request: its length is below the mark of one. -/
theorem nsTbd_isTsr (v : NsTxAddress) (b : NsTxBuf) : (nsTbd v b).isTsr = false := by
  have hlen : BitVec.ofNat 32 b.len &&& 0x80000000#32 = 0#32 := by
    have hlt := b.len_lt
    apply BitVec.eq_of_getLsbD_eq
    intro i hi
    rw [BitVec.getLsbD_and, BitVec.getLsbD_zero]
    by_cases hlow : i < 31
    · have hbit : (0x80000000#32).getLsbD i = false := by
        revert hlow
        revert i
        decide
      rw [hbit, Bool.and_false]
    · have hbig : b.len < 2 ^ i :=
        Nat.lt_of_lt_of_le (show b.len < 2 ^ 31 by omega) (Nat.pow_le_pow_right (by omega) (by omega))
      simp [BitVec.getLsbD_ofNat, Nat.testBit_lt_two_pow hbig]
  have hor : ∀ x y : Word, x &&& 0x80000000#32 = 0#32 → y &&& 0x80000000#32 = 0#32 →
      (x ||| y) &&& 0x80000000#32 = 0#32 := by
    intro x y hx hy
    rw [BitVec.and_comm, BitVec.and_or_distrib_left, BitVec.and_comm, hx, BitVec.and_comm, hy]
    rfl
  have hword : (nsTbd v b).word1 &&& 0x80000000#32 = 0#32 := by
    unfold nsTbd
    split
    · exact hor _ _ (by cases b.oam <;> rfl) hlen
    · refine hor _ _ ?_ rfl
      split
      · exact hor _ _ (by cases b.oam <;> rfl) rfl
      · cases b.oam <;> rfl
  unfold NsScqe.isTsr
  rw [hword]
  rfl

end Words

/-- The descriptor that the card has to find for a packet. -/
def NsTxSkb.tbd (addr : Nat → NsTxAddress) (p : NsTxSkb) : Option NsScqe :=
  p.vcc.map fun i => nsTbd (addr i) p.buf

/-- The queue holds the packets `held`, each with a descriptor and a request; the packets before them
were given back. The card has taken `taken` entries in all, and `reports` are the numbers of the
packets whose reports are under way. -/
structure ScqRing (addr : Nat → NsTxAddress) (scdi : Nat) (q : NsScq) (held : List NsTxSkb)
    (taken : Nat) (reports : List Nat) : Prop where
  next : q.next = 2 * (q.popped.length + held.length) % 64
  tail : q.tail = (2 * q.popped.length + 63) % 64
  tailPtr : q.tailPtr = q.next
  head : q.head = taken % 64
  room : held.length ≤ 31
  skb : ∀ k < 64, q.skb ((2 * q.popped.length + k) % 64) =
    if k % 2 = 0 then held[k / 2]? else none
  tbd : ∀ j p, held[j]? = some p → p.tbd addr = some (q.scqe (2 * (q.popped.length + j) % 64))
  tsr : ∀ j < held.length, q.scqe ((2 * (q.popped.length + j) + 1) % 64) =
    nsTsr q.type scdi ((2 * (q.popped.length + j) + 1) % 64)
  takenLow : 2 * q.popped.length ≤ taken
  takenHigh : taken ≤ 2 * (q.popped.length + held.length)
  sent : q.sent.map some = ((q.popped ++ held).take ((taken + 1) / 2)).map (NsTxSkb.tbd addr)
  ordered : reports.Pairwise (· < ·)
  reported : ∀ r ∈ reports, q.popped.length ≤ r ∧ 2 * r + 1 < taken

section Ring

variable {addr : Nat → NsTxAddress} {scdi : Nat} {q : NsScq} {held : List NsTxSkb} {taken : Nat}
  {reports : List Nat}

theorem scqAfter_mod (a : Nat) : scqAfter (a % 64) = (a + 1) % 64 := by
  unfold scqAfter scqNumEntries
  by_cases hlast : a % 64 = 64 - 1
  · rw [if_pos hlast]
    omega
  · rw [if_neg hlast]
    omega

theorem getScq_ring (type : ScqType) (scd : Nat) (stale : Nat → NsScqe) :
    ScqRing addr scdi (getScq type scd stale) [] 0 [] := by
  constructor
  · rfl
  · rfl
  · rfl
  · rfl
  · exact Nat.zero_le 31
  · intro k _
    split <;> rfl
  · intro j p h
    cases h
  · intro j h
    cases h
  · exact Nat.le_refl _
  · exact Nat.le_refl _
  · rfl
  · exact .nil
  · intro r h
    cases h

/-- With 31 packets there is no room for the request of one more. -/
theorem pushScqe_full (h : ScqRing addr scdi q held taken reports) (hfull : held.length = 31)
    (scdi' : Nat) (tbd : NsScqe) (p : NsTxSkb) : pushScqe q scdi' tbd p = none := by
  have hahead : scqAfter q.next = q.tail := by
    rw [h.next, scqAfter_mod, h.tail]
    omega
  unfold pushScqe
  rw [if_pos hahead, ite_self]

/-- A packet for which there is room is put behind the others. -/
theorem pushScqe_room (h : ScqRing addr scdi q held taken reports) (hroom : held.length < 31)
    {p : NsTxSkb} {tbd : NsScqe} (htbd : p.tbd addr = some tbd) :
    ∃ q', pushScqe q scdi tbd p = some q' ∧ ScqRing addr scdi q' (held ++ [p]) taken reports ∧
      q'.popped = q.popped ∧ q'.waiting = q.waiting ∧ q'.accepted = q.accepted ∧
      q'.scd = q.scd := by
  have hnext := h.next
  have htail := h.tail
  generalize hd : q.popped.length = d at hnext htail
  have hafter : scqAfter q.next = (2 * (d + held.length) + 1) % 64 := by rw [hnext, scqAfter_mod]
  have hplace : ¬q.next = q.tail := by omega
  have hahead : ¬scqAfter q.next = q.tail := by omega
  have hnext' : scqAfter (scqAfter q.next) = 2 * (d + (held ++ [p]).length) % 64 := by
    rw [hafter, scqAfter_mod, List.length_append, List.length_singleton]
    congr 1
  refine ⟨((q.put tbd (some p)).put (nsTsr q.type scdi (scqAfter q.next)) none).tell, ?_, ?_,
    rfl, rfl, rfl, rfl⟩
  · unfold pushScqe
    rw [if_neg hplace, if_neg hahead]
    rfl
  have hskb : ∀ i, i ≠ q.next → i ≠ scqAfter q.next →
      Function.update (Function.update q.skb q.next (some p)) (scqAfter q.next) none i =
        q.skb i := by
    intro i hi hi'
    rw [Function.update_of_ne hi', Function.update_of_ne hi]
  have hscqe : ∀ (e e' : NsScqe) i, i ≠ q.next → i ≠ scqAfter q.next →
      Function.update (Function.update q.scqe q.next e) (scqAfter q.next) e' i = q.scqe i := by
    intro e e' i hi hi'
    rw [Function.update_of_ne hi', Function.update_of_ne hi]
  constructor
  · exact hnext'.trans (by rw [← hd]; rfl)
  · exact htail.trans (by rw [← hd]; rfl)
  · rfl
  · exact h.head
  · rw [List.length_append, List.length_singleton]
    omega
  · intro k hk
    show Function.update (Function.update q.skb q.next (some p)) (scqAfter q.next) none
      ((2 * q.popped.length + k) % 64) = _
    rw [hd]
    by_cases hlast : k = 2 * held.length
    · have hslot : (2 * d + k) % 64 = q.next := by
        rw [hnext, hlast]
        congr 1
        omega
      have heven : k % 2 = 0 := by omega
      have hindex : k / 2 = held.length := by omega
      rw [hslot, Function.update_of_ne (by omega), Function.update_self, if_pos heven, hindex]
      simp
    · by_cases hrequest : k = 2 * held.length + 1
      · have hslot : (2 * d + k) % 64 = scqAfter q.next := by
          rw [hafter, hrequest]
          congr 1
          omega
        have hodd : ¬k % 2 = 0 := by omega
        rw [hslot, Function.update_self, if_neg hodd]
      · rw [hskb _ (by omega) (by omega), ← hd, h.skb k hk]
        by_cases heven : k % 2 = 0
        · rw [if_pos heven, if_pos heven]
          by_cases hin : k / 2 < held.length
          · rw [List.getElem?_append_left hin]
          · rw [List.getElem?_eq_none (by omega), List.getElem?_eq_none]
            rw [List.length_append, List.length_singleton]
            omega
        · rw [if_neg heven, if_neg heven]
  · intro j p' hj
    show p'.tbd addr = some (Function.update (Function.update q.scqe q.next tbd) (scqAfter q.next) _
      (2 * (q.popped.length + j) % 64))
    rw [hd]
    by_cases hin : j < held.length
    · rw [hscqe _ _ _ (by omega) (by omega), ← hd]
      exact h.tbd j p' (by rw [← hj, List.getElem?_append_left hin])
    · have hj' : j = held.length := by
        have hlt := (List.getElem?_eq_some_iff.mp hj).1
        rw [List.length_append, List.length_singleton] at hlt
        omega
      subst hj'
      have hp : p' = p := by simpa using hj.symm
      rw [hp, htbd, Function.update_of_ne (by omega), ← hnext, Function.update_self]
  · intro j hj
    rw [List.length_append, List.length_singleton] at hj
    show Function.update (Function.update q.scqe q.next tbd) (scqAfter q.next)
      (nsTsr q.type scdi (scqAfter q.next)) ((2 * (q.popped.length + j) + 1) % 64) =
        nsTsr q.type scdi ((2 * (q.popped.length + j) + 1) % 64)
    by_cases hin : j < held.length
    · rw [hscqe _ _ _ (by omega) (by omega)]
      exact h.tsr j hin
    · have hj' : j = held.length := by omega
      rw [hj', hd, ← hafter, Function.update_self]
  · exact h.takenLow
  · have hhigh := h.takenHigh
    show taken ≤ 2 * (q.popped.length + (held ++ [p]).length)
    rw [List.length_append]
    omega
  · show q.sent.map some = ((q.popped ++ (held ++ [p])).take ((taken + 1) / 2)).map _
    have hhigh := h.takenHigh
    rw [← List.append_assoc, List.take_append_of_le_length, h.sent]
    rw [List.length_append]
    omega
  · exact h.ordered
  · exact h.reported

/-- The card waits, or takes a descriptor, or takes a request and reports it. -/
theorem cardTakes_cases (h : ScqRing addr scdi q held taken reports) :
    (taken = 2 * (q.popped.length + held.length) ∧ q.cardTakes = none) ∨
      (∃ q', q.cardTakes = some (q', none) ∧ taken % 2 = 0 ∧
        ScqRing addr scdi q' held (taken + 1) reports ∧ q'.popped = q.popped ∧
        q'.waiting = q.waiting ∧ q'.accepted = q.accepted ∧ q'.scd = q.scd) ∨
      ∃ q' r, q.cardTakes = some (q', some (nsTsr q.type scdi ((2 * r + 1) % 64)).word2) ∧
        taken = 2 * r + 1 ∧ ScqRing addr scdi q' held (taken + 1) reports ∧
        ScqRing addr scdi q' held (taken + 1) (reports ++ [r]) ∧ q'.popped = q.popped ∧
        q'.waiting = q.waiting ∧ q'.accepted = q.accepted ∧ q'.scd = q.scd := by
  have hlow := h.takenLow
  have hhigh := h.takenHigh
  have hroom := h.room
  have hhead := h.head
  have htailPtr := h.tailPtr.trans h.next
  have hafter : scqAfter q.head = (taken + 1) % 64 := by rw [hhead, scqAfter_mod]
  by_cases hdone : taken = 2 * (q.popped.length + held.length)
  · left
    refine ⟨hdone, ?_⟩
    unfold NsScq.cardTakes
    rw [if_pos (by rw [hhead, htailPtr, hdone])]
  · right
    have hmore : ¬q.head = q.tailPtr := by omega
    have hhigh' : taken + 1 ≤ 2 * (q.popped.length + held.length) := by omega
    by_cases heven : taken % 2 = 0
    · left
      obtain ⟨j, hj⟩ : ∃ j, taken = 2 * (q.popped.length + j) :=
        ⟨taken / 2 - q.popped.length, by omega⟩
      have hlt : j < held.length := by omega
      have hp := List.getElem?_eq_getElem hlt
      have htbd := h.tbd j _ hp
      rw [← hj, ← hhead] at htbd
      obtain ⟨i, -, hword⟩ := Option.map_eq_some_iff.mp htbd
      have hkind : (q.scqe q.head).isTsr = false := by
        rw [← hword]
        exact nsTbd_isTsr _ _
      refine ⟨{ q with head := scqAfter q.head, sent := q.sent ++ [q.scqe q.head] }, ?_, heven, ?_,
        rfl, rfl, rfl, rfl⟩
      · unfold NsScq.cardTakes
        simp only [if_neg hmore, hkind, Bool.false_eq_true, if_false]
      · have hsent : ((q.popped ++ held).take ((taken + 1 + 1) / 2)) =
            (q.popped ++ held).take ((taken + 1) / 2) ++ [held[j]] := by
          have hhalf : (taken + 1 + 1) / 2 = q.popped.length + j + 1 := by omega
          have hhalf' : (taken + 1) / 2 = q.popped.length + j := by omega
          rw [hhalf, hhalf', List.take_add_one, List.getElem?_append_right (Nat.le_add_right _ _),
            Nat.add_sub_cancel_left, hp]
          rfl
        refine ⟨h.next, h.tail, h.tailPtr, hafter, h.room, h.skb, h.tbd, h.tsr,
          Nat.le_succ_of_le hlow, hhigh', ?_, h.ordered, ?_⟩
        · show (q.sent ++ [q.scqe q.head]).map some = _
          rw [hsent, List.map_append, List.map_append, h.sent, List.map_singleton,
            List.map_singleton, htbd]
        · intro r hr
          obtain ⟨hr₁, hr₂⟩ := h.reported r hr
          exact ⟨hr₁, by omega⟩
    · right
      obtain ⟨j, hj⟩ : ∃ j, taken = 2 * (q.popped.length + j) + 1 :=
        ⟨taken / 2 - q.popped.length, by omega⟩
      have hlt : j < held.length := by omega
      have htsr := h.tsr j hlt
      rw [← hj, ← hhead] at htsr
      have hkind : (q.scqe q.head).isTsr = true := by
        rw [htsr]
        exact nsTsr_isTsr _ _ _
      have hhalf : (taken + 1 + 1) / 2 = (taken + 1) / 2 := by omega
      have hring : ∀ reports', reports'.Pairwise (· < ·) →
          (∀ r ∈ reports', q.popped.length ≤ r ∧ 2 * r + 1 < taken + 1) →
          ScqRing addr scdi { q with head := scqAfter q.head } held (taken + 1) reports' := by
        intro reports' hordered hreported
        refine ⟨h.next, h.tail, h.tailPtr, hafter, h.room, h.skb, h.tbd, h.tsr,
          Nat.le_succ_of_le hlow, hhigh', ?_, hordered, hreported⟩
        rw [hhalf]
        exact h.sent
      have hold : ∀ r ∈ reports, q.popped.length ≤ r ∧ 2 * r + 1 < taken + 1 := by
        intro r hr
        obtain ⟨hr₁, hr₂⟩ := h.reported r hr
        exact ⟨hr₁, by omega⟩
      refine ⟨{ q with head := scqAfter q.head }, q.popped.length + j, ?_, hj,
        hring _ h.ordered hold, hring _ ?_ ?_, rfl, rfl, rfl, rfl⟩
      · unfold NsScq.cardTakes
        simp only [if_neg hmore, hkind, if_true]
        rw [htsr, hhead, hj]
      · rw [List.pairwise_append]
        refine ⟨h.ordered, List.pairwise_singleton _ _, ?_⟩
        intro a ha b hb
        have hlt := (h.reported a ha).2
        rw [List.mem_singleton.mp hb]
        omega
      · intro r hr
        rcases List.mem_append.mp hr with hr | hr
        · exact hold r hr
        · rw [List.mem_singleton.mp hr]
          omega

/-- The first packet of the queue is given back. -/
theorem layout_pop {skb : Nat → Option NsTxSkb} {d : Nat} {p : NsTxSkb}
    (hroom : (p :: held).length ≤ 31)
    (hskb : ∀ k < 64, skb ((2 * d + k) % 64) = if k % 2 = 0 then (p :: held)[k / 2]? else none) :
    ∀ k < 64, Function.update skb (2 * d % 64) none ((2 * (d + 1) + k) % 64) =
      if k % 2 = 0 then held[k / 2]? else none := by
  intro k hk
  rw [List.length_cons] at hroom
  by_cases hlast : k = 62
  · have hslot : (2 * (d + 1) + k) % 64 = 2 * d % 64 := by omega
    have heven : k % 2 = 0 := by omega
    rw [hslot, Function.update_self, if_pos heven, List.getElem?_eq_none (by omega)]
  · rw [Function.update_of_ne (by omega)]
    by_cases hend : k = 63
    · have hslot : (2 * (d + 1) + k) % 64 = (2 * d + 1) % 64 := by omega
      have hodd : ¬k % 2 = 0 := by omega
      rw [hslot, hskb 1 (by omega), if_neg hodd]
      rfl
    · have hslot : (2 * (d + 1) + k) % 64 = (2 * d + (k + 2)) % 64 := by omega
      have hhalf : (k + 2) / 2 = k / 2 + 1 := by omega
      rw [hslot, hskb (k + 2) (by omega), hhalf, Nat.add_mod_right, List.getElem?_cons_succ]

/-- The loop gives back the packets up to that of the request at `pos`, and leaves the others. -/
theorem drainLoop_packets {n rounds : Nat} (hroom : held.length ≤ 31)
    (hskb : ∀ k < 64, q.skb ((2 * q.popped.length + k) % 64) =
      if k % 2 = 0 then held[k / 2]? else none)
    (howned : ∀ p ∈ held, p.vcc ≠ none) (hn : n < held.length) (hrounds : 2 * n + 2 ≤ rounds) :
    ∃ skb, drainLoop rounds (2 * q.popped.length % 64)
        ((2 * (q.popped.length + n) + 1) % 64) q =
        some { q with skb := skb, popped := q.popped ++ held.take (n + 1) } ∧
      ∀ k < 64, skb ((2 * (q.popped.length + (n + 1)) + k) % 64) =
        if k % 2 = 0 then (held.drop (n + 1))[k / 2]? else none := by
  induction n generalizing q held rounds with
  | zero =>
    obtain ⟨p, rest, rfl⟩ := List.exists_cons_of_ne_nil (List.ne_nil_of_length_pos hn)
    obtain ⟨r, rfl⟩ : ∃ r, rounds = r + 2 := ⟨rounds - 2, by omega⟩
    obtain ⟨i, hi⟩ := Option.ne_none_iff_exists'.mp (howned p List.mem_cons_self)
    have hfirst : q.skb (2 * q.popped.length % 64) = some p := hskb 0 (by omega)
    have hgo : ¬2 * q.popped.length % 64 = (2 * (q.popped.length + 0) + 1) % 64 := by omega
    have hnext : (if 2 * q.popped.length % 64 + 1 = scqNumEntries then 0
        else 2 * q.popped.length % 64 + 1) = (2 * (q.popped.length + 0) + 1) % 64 :=
      ringNext_end (by decide) _
    refine ⟨Function.update q.skb (2 * q.popped.length % 64) none, ?_, layout_pop hroom hskb⟩
    unfold drainLoop
    rw [if_neg hgo]
    simp only [hfirst, hi, hnext]
    unfold drainLoop
    rw [if_pos rfl]
    rfl
  | succ n ih =>
    have hpos : 0 < held.length := by omega
    obtain ⟨p, rest, rfl⟩ := List.exists_cons_of_ne_nil (List.ne_nil_of_length_pos hpos)
    obtain ⟨r, rfl⟩ : ∃ r, rounds = r + 2 := ⟨rounds - 2, by omega⟩
    obtain ⟨i, hi⟩ := Option.ne_none_iff_exists'.mp (howned p List.mem_cons_self)
    rw [List.length_cons] at hn
    have hsmall : n < 30 := by
      rw [List.length_cons] at hroom
      omega
    have hfirst : q.skb (2 * q.popped.length % 64) = some p := hskb 0 (by omega)
    have hsecond : q.skb ((2 * q.popped.length + 1) % 64) = none := hskb 1 (by omega)
    have hgo : ¬2 * q.popped.length % 64 = (2 * (q.popped.length + (n + 1)) + 1) % 64 := by
      omega
    have hgo' : ¬(2 * q.popped.length + 1) % 64 =
        (2 * (q.popped.length + (n + 1)) + 1) % 64 := by omega
    have hnext : (if 2 * q.popped.length % 64 + 1 = scqNumEntries then 0
        else 2 * q.popped.length % 64 + 1) = (2 * q.popped.length + 1) % 64 :=
      ringNext_end (by decide) _
    have hnext' : (if (2 * q.popped.length + 1) % 64 + 1 = scqNumEntries then 0
        else (2 * q.popped.length + 1) % 64 + 1) = 2 * (q.popped.length + 1) % 64 :=
      ringNext_end (by decide) _
    have hcleared : Function.update q.skb (2 * q.popped.length % 64) none
        ((2 * q.popped.length + 1) % 64) = none := by
      rw [Function.update_of_ne (by omega), hsecond]
    obtain ⟨skb, hloop, hleft⟩ := @ih
      { q with
        skb := Function.update q.skb (2 * q.popped.length % 64) none
        popped := q.popped ++ [p] } rest r
      (by rw [List.length_cons] at hroom; omega)
      (by
        intro k hk
        rw [List.length_append, List.length_singleton]
        exact layout_pop hroom hskb k hk)
      (fun p' hp' => howned p' (List.mem_cons_of_mem p hp')) (by omega) (by omega)
    simp only [List.length_append, List.length_singleton] at hloop hleft
    have hcount : q.popped.length + 1 + n = q.popped.length + (n + 1) := by omega
    have hcount' : q.popped.length + 1 + (n + 1) = q.popped.length + (n + 1 + 1) := by omega
    rw [hcount] at hloop
    rw [hcount'] at hleft
    refine ⟨skb, ?_, hleft⟩
    unfold drainLoop
    rw [if_neg hgo]
    simp only [hfirst, hi, hnext]
    unfold drainLoop
    rw [if_neg hgo']
    simp only [hcleared, hnext', hloop, List.append_assoc]
    rfl

/-- A report gives back the packets up to its own. -/
theorem drainScq_report {r : Nat} (h : ScqRing addr scdi q held taken (r :: reports)) :
    ∃ q' n, drainScq q ((2 * r + 1) % 64) = some q' ∧ n < held.length ∧
      q.popped.length + n = r ∧
      ScqRing addr scdi q' (held.drop (n + 1)) taken reports ∧
      q'.popped = q.popped ++ held.take (n + 1) ∧ q'.waiting = q.waiting ∧
      q'.accepted = q.accepted ∧ q'.scd = q.scd := by
  obtain ⟨hlow, hdone⟩ := h.reported r List.mem_cons_self
  have hhigh := h.takenHigh
  obtain ⟨n, rfl⟩ : ∃ n, r = q.popped.length + n := ⟨r - q.popped.length, by omega⟩
  have hn : n < held.length := by omega
  have hroom := h.room
  have howned : ∀ p ∈ held, p.vcc ≠ none := by
    intro p hp hnone
    obtain ⟨j, hj⟩ := List.mem_iff_getElem?.mp hp
    have htbd := h.tbd j p hj
    rw [NsTxSkb.tbd, hnone] at htbd
    cases htbd
  have hpos : ¬scqNumEntries ≤ (2 * (q.popped.length + n) + 1) % 64 := by
    unfold scqNumEntries
    omega
  have hstart : (if q.tail + 1 = scqNumEntries then 0 else q.tail + 1) =
      2 * q.popped.length % 64 := by
    rw [h.tail, scqNumEntries, ringNext_end (by omega)]
    omega
  obtain ⟨skb, hloop, hleft⟩ := drainLoop_packets hroom h.skb howned hn
    (show 2 * n + 2 ≤ scqNumEntries by unfold scqNumEntries; omega)
  have hpopped : (q.popped ++ held.take (n + 1)).length = q.popped.length + (n + 1) := by
    rw [List.length_append, List.length_take]
    omega
  refine ⟨{ q with
      skb := skb
      popped := q.popped ++ held.take (n + 1)
      tail := (2 * (q.popped.length + n) + 1) % 64 }, n, ?_, hn, rfl, ?_, rfl, rfl, rfl, rfl⟩
  · unfold drainScq
    rw [if_neg hpos, hstart]
    dsimp only
    rw [hloop]
    rfl
  · have hcount : q.popped.length + (n + 1) + (held.drop (n + 1)).length =
        q.popped.length + held.length := by
      rw [List.length_drop]
      omega
    constructor
    · show q.next = 2 * ((q.popped ++ held.take (n + 1)).length + (held.drop (n + 1)).length) % 64
      rw [hpopped, hcount]
      exact h.next
    · show (2 * (q.popped.length + n) + 1) % 64 =
        (2 * (q.popped ++ held.take (n + 1)).length + 63) % 64
      rw [hpopped]
      omega
    · exact h.tailPtr
    · exact h.head
    · rw [List.length_drop]
      omega
    · show ∀ k < 64, skb ((2 * (q.popped ++ held.take (n + 1)).length + k) % 64) = _
      rw [hpopped]
      exact hleft
    · intro j p hj
      show p.tbd addr = some (q.scqe (2 * ((q.popped ++ held.take (n + 1)).length + j) % 64))
      rw [List.getElem?_drop] at hj
      rw [hpopped, h.tbd _ p hj, Nat.add_assoc q.popped.length]
    · intro j hj
      rw [List.length_drop] at hj
      show q.scqe ((2 * ((q.popped ++ held.take (n + 1)).length + j) + 1) % 64) =
        nsTsr q.type scdi ((2 * ((q.popped ++ held.take (n + 1)).length + j) + 1) % 64)
      rw [hpopped, Nat.add_assoc]
      exact h.tsr (n + 1 + j) (by omega)
    · show 2 * (q.popped ++ held.take (n + 1)).length ≤ taken
      rw [hpopped]
      omega
    · show taken ≤ 2 * ((q.popped ++ held.take (n + 1)).length + (held.drop (n + 1)).length)
      rw [hpopped, hcount]
      exact hhigh
    · show q.sent.map some =
        ((q.popped ++ held.take (n + 1) ++ held.drop (n + 1)).take ((taken + 1) / 2)).map _
      rw [List.append_assoc, List.take_append_drop]
      exact h.sent
    · exact h.ordered.of_cons
    · intro r' hr'
      have hlater := List.rel_of_pairwise_cons h.ordered hr'
      show (q.popped ++ held.take (n + 1)).length ≤ r' ∧ 2 * r' + 1 < taken
      rw [hpopped]
      exact ⟨by omega, (h.reported r' (List.mem_cons_of_mem _ hr')).2⟩

/-- The test of `ns_close`: the entry before `next` is the tail when nothing is left. -/
theorem scqBefore_next (h : ScqRing addr scdi q held taken reports) :
    scqBefore q.next = q.tail ↔ held = [] := by
  have hroom := h.room
  have hnext := h.next
  have htail := h.tail
  rw [← List.length_eq_zero_iff]
  unfold scqBefore scqNumEntries
  by_cases hzero : q.next = 0
  · rw [if_pos hzero]
    omega
  · rw [if_neg hzero]
    omega

/-- The last entry of a queue that is not empty is a request. -/
theorem scqBefore_isTsr (h : ScqRing addr scdi q held taken reports) (hheld : held ≠ []) :
    (q.scqe (scqBefore q.next)).isTsr = true := by
  have hpos := List.length_pos_iff.mpr hheld
  have hnext := h.next
  have hbefore : scqBefore q.next =
      (2 * (q.popped.length + (held.length - 1)) + 1) % 64 := by
    unfold scqBefore scqNumEntries
    by_cases hzero : q.next = 0
    · rw [if_pos hzero]
      omega
    · rw [if_neg hzero]
      omega
  rw [hbefore, h.tsr _ (by omega)]
  exact nsTsr_isTsr _ _ _

end Ring

end DanubeBsp
