import Mathlib.Algebra.BigOperators.Group.Finset.Piecewise
import Mathlib.Tactic.IntervalCases
import DanubeBsp.Eth1Tx
import DanubeBsp.TableSum
import DanubeBsp.RingSlice

namespace DanubeBsp

/-- The buffer at an index of `eth1_skb_pointers_addr`, the array of all channels. -/
def held (e : Eth1) (i : Nat) : Skb :=
  (e.txCh (i / eth1TxDescNum)).skbPointers (i % eth1TxDescNum)

/-- A packet that finds a descriptor: the buffer of the last lap is freed, and its slot taken. -/
def Eth1.store (e : Eth1) (skb : Skb) (c : Nat) : Nat → EthDevTxCh :=
  let pch := e.txCh c
  Function.update e.txCh c {
    base := Function.update pch.base pch.allocPos (txDescriptorOf skb)
    allocPos := if pch.allocPos + 1 = eth1TxDescNum then 0 else pch.allocPos + 1
    skbPointers := Function.update pch.skbPointers pch.allocPos skb }

theorem eth1Full_txCh (e : Eth1) (ch : Nat) (full : Bool) :
    (if full then eth1Full e ch else e).txCh = e.txCh := by
  cases full <;> rfl

theorem mailboxIrqHandler_txCh (e : Eth1) (isr : Word) (ch2Own : Bool) :
    (mailboxIrqHandler e isr ch2Own).txCh = e.txCh := by
  unfold mailboxIrqHandler
  dsimp only
  split <;> split <;> rfl

theorem eth1Xmit_refused {e : Eth1} {ch : Nat} (skb : Skb)
    (h : ((e.txCh (eth1Channel ch)).base (e.txCh (eth1Channel ch)).allocPos).own = true) :
    (eth1Xmit e skb ch).1.txCh = e.txCh ∧ (eth1Xmit e skb ch).2 = [skb] := by
  have halloc : eth1AllocTxDesc (e.txCh (eth1Channel ch)) =
      (e.txCh (eth1Channel ch), none, true) := by
    unfold eth1AllocTxDesc
    exact if_pos h
  unfold eth1Xmit
  simp only [halloc, Function.update_eq_self]
  exact ⟨eth1Full_txCh _ _ true, trivial⟩

theorem eth1Xmit_accepted {e : Eth1} {ch : Nat} (skb : Skb)
    (h : ((e.txCh (eth1Channel ch)).base (e.txCh (eth1Channel ch)).allocPos).own = false) :
    (eth1Xmit e skb ch).1.txCh = e.store skb (eth1Channel ch) ∧
      (eth1Xmit e skb ch).2 =
        [(e.txCh (eth1Channel ch)).skbPointers (e.txCh (eth1Channel ch)).allocPos] := by
  have hown : ¬((e.txCh (eth1Channel ch)).base (e.txCh (eth1Channel ch)).allocPos).own = true := by
    rw [h]
    decide
  unfold eth1Xmit eth1AllocTxDesc Eth1.store
  simp only [if_neg hown, eth1Full_txCh, Function.update_idem, and_self]

/-- A packet is dropped or stored, by the owner of the next descriptor. -/
theorem eth1Xmit_cases (e : Eth1) (skb : Skb) (ch : Nat) :
    let pch := e.txCh (eth1Channel ch)
    ((pch.base pch.allocPos).own = true ∧ (eth1Xmit e skb ch).1.txCh = e.txCh ∧
      (eth1Xmit e skb ch).2 = [skb]) ∨
    ((pch.base pch.allocPos).own = false ∧
      (eth1Xmit e skb ch).1.txCh = e.store skb (eth1Channel ch) ∧
      (eth1Xmit e skb ch).2 = [pch.skbPointers pch.allocPos]) := by
  intro pch
  cases hown : (pch.base pch.allocPos).own with
  | true => exact Or.inl ⟨rfl, eth1Xmit_refused skb hown⟩
  | false => exact Or.inr ⟨rfl, eth1Xmit_accepted skb hown⟩

theorem TxDescriptor.release_own (d : TxDescriptor) : d.release.own = false := by
  simp [TxDescriptor.own, TxDescriptor.release]

theorem txDescriptorOf_own (skb : Skb) : (txDescriptorOf skb).own = true := by
  unfold TxDescriptor.own txDescriptorOf
  simp only [BitVec.getLsbD_or]
  simp

theorem eth1Channel_lt {ch : Nat} (h : ch < 4) : eth1Channel ch < 4 := by
  unfold eth1Channel
  split
  · omega
  · exact h

/-- What holds in every state: a descriptor of the firmware is the one of the buffer at its index,
and every buffer handed out so far is either freed, once, or held, at one index. -/
structure Eth1Inv (s : Eth1Sys) : Prop where
  pos : ∀ c, (s.drv.txCh c).allocPos < eth1TxDescNum
  carries : ∀ c p, ((s.drv.txCh c).base p).own = true →
    (s.drv.txCh c).base p = txDescriptorOf ((s.drv.txCh c).skbPointers p)
  once : ∀ id, s.freed.count id +
    ∑ i ∈ Finset.range (eth1TxTotalChannelUsed * eth1TxDescNum),
      (if (held s.drv i).id = id then 1 else 0) = if id < s.next then 1 else 0

theorem held_congr {e e' : Eth1} (h : e'.txCh = e.txCh) : held e' = held e := by
  funext i
  simp only [held, h]

theorem held_store (e : Eth1) (skb : Skb) {c : Nat} (hpos : (e.txCh c).allocPos < eth1TxDescNum)
    {e' : Eth1} (h : e'.txCh = e.store skb c) :
    held e' = Function.update (held e) (c * eth1TxDescNum + (e.txCh c).allocPos) skb := by
  funext i
  have hdiv := Nat.div_add_mod i eth1TxDescNum
  simp only [eth1TxDescNum] at hpos hdiv
  by_cases hi : i = c * eth1TxDescNum + (e.txCh c).allocPos
  · have hc : i / 32 = c := by simp only [eth1TxDescNum] at hi; omega
    have hp : i % 32 = (e.txCh c).allocPos := by simp only [eth1TxDescNum] at hi; omega
    rw [hi, Function.update_self, ← hi]
    simp only [held, h, Eth1.store, eth1TxDescNum, hc, hp, Function.update_self]
  · rw [Function.update_of_ne hi]
    by_cases hc : i / eth1TxDescNum = c
    · have hp : i % eth1TxDescNum ≠ (e.txCh c).allocPos := by
        intro hp
        simp only [eth1TxDescNum] at hi hc hp
        omega
      simp only [held, h, Eth1.store, hc, Function.update_self, Function.update_of_ne hp]
    · simp only [held, h, Eth1.store, Function.update_of_ne hc]

theorem held_slot (e : Eth1) {c p : Nat} (hp : p < eth1TxDescNum) :
    held e (c * eth1TxDescNum + p) = (e.txCh c).skbPointers p := by
  have hpos : 0 < eth1TxDescNum := Nat.zero_lt_succ 31
  have hdiv : (c * eth1TxDescNum + p) / eth1TxDescNum = c := by
    rw [Nat.mul_comm, Nat.mul_add_div hpos, Nat.div_eq_of_lt hp, Nat.add_zero]
  have hmod : (c * eth1TxDescNum + p) % eth1TxDescNum = p := by
    rw [Nat.mul_comm, Nat.mul_add_mod, Nat.mod_eq_of_lt hp]
  rw [held, hdiv, hmod]

theorem slot_lt {c p : Nat} (hc : c < 4) (hp : p < eth1TxDescNum) :
    c * eth1TxDescNum + p < eth1TxTotalChannelUsed * eth1TxDescNum := by
  simp only [eth1TxDescNum, eth1TxTotalChannelUsed] at hp ⊢
  omega

theorem lt_succ_count (id n : Nat) :
    (if id < n + 1 then 1 else 0) = (if id < n then 1 else 0) + if n = id then 1 else 0 := by
  by_cases heq : n = id
  · simp [heq]
  · have hiff : id < n + 1 ↔ id < n := by omega
    simp [heq, hiff]

/-- A packet finds a descriptor: the buffer in its slot is freed, the new one takes its place. -/
theorem Eth1Inv.store {s t : Eth1Sys} (h : Eth1Inv s) {c : Nat} (hc : c < 4) {skb : Skb}
    (hid : skb.id = s.next) (htx : t.drv.txCh = s.drv.store skb c) (hnext : t.next = s.next + 1)
    (hfreed : t.freed =
      s.freed ++ [((s.drv.txCh c).skbPointers (s.drv.txCh c).allocPos).id]) : Eth1Inv t := by
  have hpos := h.pos c
  constructor
  · intro k
    rw [htx, Eth1.store]
    by_cases hk : k = c
    · rw [hk, Function.update_self]
      dsimp only
      split
      · decide
      next hne =>
        simp only [eth1TxDescNum] at hpos hne ⊢
        omega
    · rw [Function.update_of_ne hk]
      exact h.pos k
  · intro k p
    rw [htx, Eth1.store]
    by_cases hk : k = c
    · rw [hk, Function.update_self]
      dsimp only
      by_cases hp : p = (s.drv.txCh c).allocPos
      · rw [hp, Function.update_self, Function.update_self]
        intro _
        rfl
      · rw [Function.update_of_ne hp, Function.update_of_ne hp]
        exact h.carries c p
    · rw [Function.update_of_ne hk]
      exact h.carries k p
  · intro id
    have hsum := sum_table_update (Finset.mem_range.mpr (slot_lt hc hpos)) (held s.drv) skb
      fun _ skb => if skb.id = id then 1 else 0
    have honce := h.once id
    rw [hfreed, held_store s.drv skb hpos htx, List.count_append, hnext, lt_succ_count, ← honce]
    rw [held_slot s.drv hpos, hid] at hsum
    simp only [List.count_singleton, beq_iff_eq]
    omega

theorem Eth1Inv.drop {s t : Eth1Sys} (h : Eth1Inv s) (htx : t.drv.txCh = s.drv.txCh)
    (hnext : t.next = s.next + 1) (hfreed : t.freed = s.freed ++ [s.next]) : Eth1Inv t := by
  constructor
  · intro k
    rw [htx]
    exact h.pos k
  · intro k p
    rw [htx]
    exact h.carries k p
  · intro id
    have honce := h.once id
    rw [hfreed, held_congr htx, List.count_append, hnext, lt_succ_count, ← honce]
    simp only [List.count_singleton, beq_iff_eq]
    omega

/-- Only the `own` bit of a descriptor changes. -/
theorem Eth1Inv.release {s t : Eth1Sys} (h : Eth1Inv s) {c p : Nat}
    (htx : t.drv.txCh = Function.update s.drv.txCh c
      { s.drv.txCh c with
        base := Function.update (s.drv.txCh c).base p ((s.drv.txCh c).base p).release })
    (hnext : t.next = s.next) (hfreed : t.freed = s.freed) : Eth1Inv t := by
  have hch : ∀ k, (t.drv.txCh k).allocPos = (s.drv.txCh k).allocPos ∧
      (t.drv.txCh k).skbPointers = (s.drv.txCh k).skbPointers := by
    intro k
    rw [htx]
    by_cases hk : k = c
    · rw [hk, Function.update_self]
      exact ⟨rfl, rfl⟩
    · rw [Function.update_of_ne hk]
      exact ⟨rfl, rfl⟩
  constructor
  · intro k
    rw [(hch k).1]
    exact h.pos k
  · intro k q hown
    rw [(hch k).2]
    rw [htx] at hown ⊢
    by_cases hk : k = c
    · rw [hk, Function.update_self] at hown ⊢
      dsimp only at hown ⊢
      by_cases hq : q = p
      · rw [hq, Function.update_self, TxDescriptor.release_own] at hown
        cases hown
      · rw [Function.update_of_ne hq] at hown ⊢
        exact h.carries c q hown
    · rw [Function.update_of_ne hk] at hown ⊢
      exact h.carries k q hown
  · intro id
    have hheld : held t.drv = held s.drv := by
      funext i
      simp only [held, (hch _).2]
    rw [hfreed, hheld, hnext]
    exact h.once id

theorem eth1Step_inv {s t : Eth1Sys} {e : Eth1Event} (h : Eth1Inv s) (hstep : eth1Step s e = some t) :
    Eth1Inv t := by
  cases e with
  | xmit ch data len =>
    cases Option.some.inj hstep
    rcases eth1Xmit_cases s.drv ⟨s.next, data, len⟩ ch with ⟨_, htx, hfreed⟩ | ⟨_, htx, hfreed⟩
    · apply h.drop htx rfl
      dsimp only
      rw [hfreed]
      rfl
    · apply h.store (eth1Channel_lt ch.isLt) rfl htx rfl
      dsimp only
      rw [hfreed]
      rfl
  | complete ch =>
    unfold eth1Step at hstep
    dsimp only at hstep
    split at hstep
    · cases Option.some.inj hstep
      exact h.release rfl rfl rfl
    · cases hstep
  | mailboxIrq isr ch2Own =>
    cases Option.some.inj hstep
    have htx := mailboxIrqHandler_txCh s.drv isr ch2Own
    constructor
    · intro k
      dsimp only
      rw [htx]
      exact h.pos k
    · intro k p
      dsimp only
      rw [htx]
      exact h.carries k p
    · intro id
      have honce := h.once id
      rwa [← held_congr htx] at honce

/-- The descriptor gives the buffer's data address, and its length padded to the least of a frame. -/
structure TxDescriptor.Carries (d : TxDescriptor) (skb : Skb) : Prop where
  address : d.address = skb.data.toNat
  dataptr : 4 * d.dataptr.toNat + d.byteoff.toNat = skb.data.toNat % 2 ^ 30
  datalen : d.datalen.toNat = max skb.len.toNat 60

theorem txDescriptorOf_carries {skb : Skb} (hlen : skb.len.toNat < 2 ^ 16) :
    (txDescriptorOf skb).Carries skb := by
  have hmax : (if skb.len < minTxPacketLength then minTxPacketLength else skb.len).toNat =
      max skb.len.toNat 60 := by
    have h60 : minTxPacketLength.toNat = 60 := rfl
    split
    next h =>
      rw [BitVec.lt_def] at h
      omega
    next h =>
      rw [BitVec.lt_def] at h
      omega
  generalize hw : (if skb.len < minTxPacketLength then minTxPacketLength else skb.len) = w at hmax
  have hhigh : ∀ j, 16 ≤ j → w.getLsbD j = false := by
    intro j hj
    apply Nat.testBit_lt_two_pow
    calc w.toNat < 2 ^ 16 := by omega
      _ ≤ 2 ^ j := Nat.pow_le_pow_right (by omega) hj
  have hoff : (txDescriptorOf skb).byteoff = (skb.data &&& 3#32).setWidth 5 := by
    unfold TxDescriptor.byteoff txDescriptorOf
    rw [hw]
    apply BitVec.eq_of_getLsbD_eq
    intro i hi
    simp only [BitVec.getLsbD_extractLsb', BitVec.getLsbD_or, BitVec.getLsbD_shiftLeft,
      BitVec.getLsbD_setWidth, hhigh (23 + i) (by omega)]
    interval_cases i <;> simp
  have hdl : (txDescriptorOf skb).datalen = w.setWidth 16 := by
    unfold TxDescriptor.datalen txDescriptorOf
    rw [hw]
    apply BitVec.eq_of_getLsbD_eq
    intro i hi
    simp only [BitVec.getLsbD_extractLsb', BitVec.getLsbD_or, BitVec.getLsbD_shiftLeft,
      BitVec.getLsbD_setWidth]
    interval_cases i <;> simp
  have hbyte : (txDescriptorOf skb).byteoff.toNat = skb.data.toNat % 4 := by
    have hand := Nat.and_two_pow_sub_one_eq_mod skb.data.toNat 2
    rw [hoff, BitVec.toNat_setWidth, BitVec.toNat_and]
    change (skb.data.toNat &&& (2 ^ 2 - 1)) % 2 ^ 5 = _
    rw [hand]
    omega
  have hword : (txDescriptorOf skb).word1.toNat = skb.data.toNat / 4 := by
    unfold txDescriptorOf
    rw [BitVec.toNat_ushiftRight, Nat.shiftRight_eq_div_pow]
  refine ⟨?_, ?_, ?_⟩
  · rw [TxDescriptor.address, hbyte, hword]
    omega
  · rw [TxDescriptor.dataptr, hbyte, BitVec.extractLsb'_toNat, hword, Nat.shiftRight_zero]
    omega
  · rw [hdl, BitVec.toNat_setWidth, hmax]
    omega

theorem initSkbPointers_succ (alloc : Nat → Option Word) (n : Nat) :
    initSkbPointers alloc (n + 1) = (initSkbPointers alloc n).bind fun skbs =>
      match alloc n with
      | some data => .ok (skbs ++ [⟨n, data, 0#32⟩])
      | none => .error skbs.reverse := rfl

/-- The buffers that `init_local_variables` allocates are numbered in order. -/
theorem initSkbPointers_ok {alloc : Nat → Option Word} {n : Nat} {skbs : List Skb}
    (h : initSkbPointers alloc n = .ok skbs) : skbs.map Skb.id = List.range n := by
  induction n generalizing skbs with
  | zero =>
    cases h
    rfl
  | succ n ih =>
    rw [initSkbPointers_succ] at h
    cases hprev : initSkbPointers alloc n with
    | error freed =>
      rw [hprev] at h
      cases h
    | ok prev =>
      rw [hprev] at h
      cases hdata : alloc n with
      | none => simp [Except.bind, hdata] at h
      | some data =>
        simp only [Except.bind, hdata, Except.ok.injEq] at h
        rw [← h, List.map_append, ih hprev, List.range_succ]
        rfl

/-- A failed load frees what it has allocated, each buffer once, the last one first. -/
theorem initSkbPointers_error {alloc : Nat → Option Word} {n : Nat} {freed : List Skb}
    (h : initSkbPointers alloc n = .error freed) :
    ∃ i < n, alloc i = none ∧ freed.map Skb.id = (List.range i).reverse := by
  induction n generalizing freed with
  | zero => cases h
  | succ n ih =>
    rw [initSkbPointers_succ] at h
    cases hprev : initSkbPointers alloc n with
    | error freed' =>
      rw [hprev] at h
      cases h
      obtain ⟨i, hi, hrest⟩ := ih hprev
      exact ⟨i, by omega, hrest⟩
    | ok prev =>
      rw [hprev] at h
      cases hdata : alloc n with
      | some data => simp [Except.bind, hdata] at h
      | none =>
        simp only [Except.bind, hdata, Except.error.injEq] at h
        refine ⟨n, by omega, hdata, ?_⟩
        rw [← h, List.map_reverse, initSkbPointers_ok hprev]

theorem eth1Load_some (data : Nat → Word) :
    eth1Load (fun i => some (data i)) = .ok (eth1Ready
      ((List.range (eth1TxTotalChannelUsed * eth1TxDescNum)).map fun i => ⟨i, data i, 0#32⟩)) := by
  unfold eth1Load
  generalize eth1TxTotalChannelUsed * eth1TxDescNum = n
  have hinit : initSkbPointers (fun i => some (data i)) n =
      .ok ((List.range n).map fun i => ⟨i, data i, 0#32⟩) := by
    induction n with
    | zero => rfl
    | succ n ih =>
      rw [initSkbPointers, ih, List.range_succ, List.map_append]
      rfl
  rw [hinit]
  rfl

theorem eth1Load_ok {alloc : Nat → Option Word} {s : Eth1Sys} (h : eth1Load alloc = .ok s) :
    ∃ skbs, skbs.map Skb.id = List.range (eth1TxTotalChannelUsed * eth1TxDescNum) ∧
      s = eth1Ready skbs := by
  unfold eth1Load at h
  cases hskbs : initSkbPointers alloc (eth1TxTotalChannelUsed * eth1TxDescNum) with
  | error freed =>
    rw [hskbs] at h
    cases h
  | ok skbs =>
    rw [hskbs] at h
    cases h
    exact ⟨skbs, initSkbPointers_ok hskbs, rfl⟩

theorem eth1Ready_own (skbs : List Skb) (c p : Nat) :
    (((eth1Ready skbs).drv.txCh c).base p).own = false := by
  change (if c = 1 then (_ : TxDescriptor) else ⟨0#32, 0#32⟩).own = false
  split
  · simp [TxDescriptor.own]
  · simp [TxDescriptor.own]

theorem eth1Load_inv {alloc : Nat → Option Word} {s : Eth1Sys} (h : eth1Load alloc = .ok s) :
    Eth1Inv s := by
  obtain ⟨skbs, hids, rfl⟩ := eth1Load_ok h
  constructor
  · intro c
    exact Nat.zero_lt_succ 31
  · intro c p hown
    rw [eth1Ready_own] at hown
    cases hown
  · intro id
    have hheld : ∀ i, held (eth1Ready skbs).drv i = skbs.getD i ⟨0, 0#32, 0#32⟩ := by
      intro i
      simp only [held, eth1Ready, initTxCh, Nat.div_add_mod']
    have hid : ∀ i ∈ Finset.range (eth1TxTotalChannelUsed * eth1TxDescNum),
        (if (held (eth1Ready skbs).drv i).id = id then 1 else 0) = if i = id then 1 else 0 := by
      intro i hi
      have hget : (skbs.map Skb.id)[i]? = some i := by
        rw [hids, List.getElem?_range (Finset.mem_range.mp hi)]
      rw [List.getElem?_map, Option.map_eq_some_iff] at hget
      obtain ⟨skb, hskb, hid⟩ := hget
      rw [hheld, List.getD_eq_getElem?_getD, hskb, Option.getD_some, hid]
    rw [Finset.sum_congr rfl hid, Finset.sum_ite_eq']
    simp only [Finset.mem_range]
    exact Nat.zero_add _

/-- The sum over all slots counts the buffers that `clear_local_variables` frees. -/
theorem count_clearLocalVariables (e : Eth1) (id : Nat) :
    ((clearLocalVariables e).map Skb.id).count id =
      ∑ i ∈ Finset.range (eth1TxTotalChannelUsed * eth1TxDescNum),
        (if (held e i).id = id then 1 else 0) := by
  unfold clearLocalVariables
  rw [List.map_map]
  generalize eth1TxTotalChannelUsed * eth1TxDescNum = n
  induction n with
  | zero => rfl
  | succ n ih =>
    rw [List.range_succ, List.map_append, List.count_append, ih, Finset.sum_range_succ]
    simp only [List.map_cons, List.map_nil, List.count_singleton, beq_iff_eq]
    rfl

/-- A buffer in a slot is one that was handed out, has not been freed, and is in no other slot. -/
theorem Eth1Inv.slot {s : Eth1Sys} (h : Eth1Inv s) {i : Nat}
    (hi : i < eth1TxTotalChannelUsed * eth1TxDescNum) :
    (held s.drv i).id ∉ s.freed ∧ (held s.drv i).id < s.next ∧
      ∀ j < eth1TxTotalChannelUsed * eth1TxDescNum, (held s.drv j).id = (held s.drv i).id → j = i := by
  have honce := h.once (held s.drv i).id
  rw [← Finset.add_sum_erase _ _ (Finset.mem_range.mpr hi), if_pos rfl] at honce
  have hlt : (held s.drv i).id < s.next := by
    by_contra hge
    rw [if_neg hge] at honce
    omega
  rw [if_pos hlt] at honce
  refine ⟨?_, hlt, ?_⟩
  · rw [← List.count_eq_zero]
    omega
  · intro j hj heq
    by_contra hne
    have hmem := Finset.mem_erase.mpr ⟨hne, Finset.mem_range.mpr hj⟩
    rw [← Finset.add_sum_erase _ _ hmem, if_pos heq] at honce
    omega

/-- What the ring keeps, in one state: the position is inside the ring; what belongs to the firmware
describes the buffer at its index, and no step frees that buffer; a packet is refused, and freed at
once, when the next descriptor belongs to the firmware, and stored else; a buffer is freed at most
once, and exactly once when the driver is unloaded. -/
structure Eth1RingOk (s : Eth1Sys) : Prop where
  allocPos : ∀ c < 4, (s.drv.txCh c).allocPos < 32
  carries : ∀ c < 4, ∀ p < 32, ((s.drv.txCh c).base p).own = true →
    ((s.drv.txCh c).skbPointers p).len.toNat < 2 ^ 16 →
    ((s.drv.txCh c).base p).Carries ((s.drv.txCh c).skbPointers p)
  kept : ∀ e t, eth1Step s e = some t → ∀ c < 4, ∀ p < 32, ((s.drv.txCh c).base p).own = true →
    ((s.drv.txCh c).skbPointers p).id ∉ t.freed
  refused : ∀ (ch : Fin 4) data len t, eth1Step s (.xmit ch data len) = some t →
    let pch := s.drv.txCh (eth1Channel ch)
    (s.next ∈ t.freed ↔ (pch.base pch.allocPos).own = true) ∧
      ((pch.base pch.allocPos).own = false →
        (t.drv.txCh (eth1Channel ch)).skbPointers pch.allocPos = ⟨s.next, data, len⟩)
  atMostOnce : ∀ id, s.freed.count id ≤ 1
  exactlyOnce : ∀ id < s.next,
    (s.freed ++ (clearLocalVariables s.drv).map Skb.id).count id = 1

theorem Eth1Inv.next_not_freed {s : Eth1Sys} (h : Eth1Inv s) : s.next ∉ s.freed := by
  have honce := h.once s.next
  rw [if_neg (Nat.lt_irrefl _)] at honce
  rw [← List.count_eq_zero]
  omega

/-- No step frees a buffer whose descriptor belongs to the firmware. -/
theorem Eth1Inv.kept {s t : Eth1Sys} (h : Eth1Inv s) {e : Eth1Event} (hstep : eth1Step s e = some t)
    {c p : Nat} (hc : c < 4) (hp : p < eth1TxDescNum)
    (hown : ((s.drv.txCh c).base p).own = true) :
    ((s.drv.txCh c).skbPointers p).id ∉ t.freed := by
  obtain ⟨hfree, hlt, huniq⟩ := h.slot (slot_lt hc hp)
  rw [held_slot s.drv hp] at hfree hlt huniq
  cases e with
  | xmit ch data len =>
    cases Option.some.inj hstep
    dsimp only
    have hc' := eth1Channel_lt ch.isLt
    have hp' := h.pos (eth1Channel ch)
    rcases eth1Xmit_cases s.drv ⟨s.next, data, len⟩ ch with ⟨_, _, hfreed⟩ | ⟨hown', _, hfreed⟩
    · rw [hfreed]
      simp [hfree, Nat.ne_of_lt hlt]
    · -- the freed buffer is in a slot of the driver, hence in another one
      rw [hfreed, List.map_singleton, List.mem_append, List.mem_singleton]
      rintro (hmem | heq)
      · exact hfree hmem
      · have hsame := huniq _ (slot_lt hc' hp') (by rw [held_slot s.drv hp', heq])
        have hcc : eth1Channel ch = c := by
          simp only [eth1TxDescNum] at hsame hp hp'
          omega
        rw [hcc] at hsame hown'
        have hpp := Nat.add_left_cancel hsame
        rw [hpp, hown] at hown'
        cases hown'
  | complete ch =>
    unfold eth1Step at hstep
    dsimp only at hstep
    split at hstep
    · cases Option.some.inj hstep
      exact hfree
    · cases hstep
  | mailboxIrq isr ch2Own =>
    cases Option.some.inj hstep
    exact hfree

/-- A packet is freed at once when the next descriptor belongs to the firmware, and stored else. -/
theorem Eth1Inv.xmit {s t : Eth1Sys} (h : Eth1Inv s) {ch : Fin 4} {data len : Word}
    (hstep : eth1Step s (.xmit ch data len) = some t) :
    let pch := s.drv.txCh (eth1Channel ch)
    (s.next ∈ t.freed ↔ (pch.base pch.allocPos).own = true) ∧
      ((pch.base pch.allocPos).own = false →
        (t.drv.txCh (eth1Channel ch)).skbPointers pch.allocPos = ⟨s.next, data, len⟩) := by
  cases Option.some.inj hstep
  dsimp only
  rcases eth1Xmit_cases s.drv ⟨s.next, data, len⟩ ch with ⟨hown, _, hfreed⟩ | ⟨hown, htx, hfreed⟩
  · rw [hfreed, hown]
    simp
  · have hpos := h.pos (eth1Channel ch)
    obtain ⟨_, hlt, _⟩ := h.slot (slot_lt (eth1Channel_lt ch.isLt) hpos)
    rw [held_slot s.drv hpos] at hlt
    rw [hfreed, hown, htx]
    refine ⟨?_, ?_⟩
    · simp [h.next_not_freed, (Nat.ne_of_lt hlt).symm]
    · intro _
      simp [Eth1.store]

theorem Eth1Inv.ringOk {s : Eth1Sys} (h : Eth1Inv s) : Eth1RingOk s := by
  refine ⟨?_, ?_, ?_, ?_, ?_, ?_⟩
  · intro c _
    exact h.pos c
  · intro c _ p _ hown hlen
    rw [h.carries c p hown]
    exact txDescriptorOf_carries hlen
  · intro e t hstep c hc p hp hown
    exact h.kept hstep hc hp hown
  · intro ch data len t hstep
    exact h.xmit hstep
  · intro id
    have honce := h.once id
    split at honce <;> omega
  · intro id hid
    have honce := h.once id
    rw [if_pos hid] at honce
    rw [List.count_append, count_clearLocalVariables]
    exact honce

/-- Every state of every run keeps the ring. -/
theorem eth1_tx_ring {alloc : Nat → Option Word} {s₀ s : Eth1Sys} (es : List Eth1Event)
    (hload : eth1Load alloc = .ok s₀) (hrun : run eth1Step s₀ es = some s) : Eth1RingOk s := by
  have hinv : Eth1Inv s := run_invariant eth1Step_inv (eth1Load_inv hload) hrun
  exact hinv.ringOk

/-- Two packets, the first of which is completed, and an interrupt. -/
theorem eth1_tx_ring_two : ∃ s₀ s,
    eth1Load (fun i => some (BitVec.ofNat 32 (0x80200000 + 2048 * i))) = .ok s₀ ∧
      run eth1Step s₀ [.xmit 1 0x80100002#32 20#32, .xmit 3 0x80100800#32 1514#32, .complete 0,
        .mailboxIrq 0x10001#32 true] = some s ∧ Eth1RingOk s := by
  have hload := eth1Load_some fun i => BitVec.ofNat 32 (0x80200000 + 2048 * i)
  refine ⟨_, _, hload, rfl, ?_⟩
  exact eth1_tx_ring [.xmit 1 0x80100002#32 20#32, .xmit 3 0x80100800#32 1514#32, .complete 0,
    .mailboxIrq 0x10001#32 true] hload rfl

/-- The descriptor of a packet of 20 bytes says 60. -/
theorem eth1_short_packet_padded : ∃ s₀ s,
    eth1Load (fun i => some (BitVec.ofNat 32 (0x80200000 + 2048 * i))) = .ok s₀ ∧
      run eth1Step s₀ [.xmit 3 0x80100000#32 20#32] = some s ∧
      ((s.drv.txCh 3).base 0).own = true ∧
      ((s.drv.txCh 3).skbPointers 0).len.toNat = 20 ∧
      ((s.drv.txCh 3).base 0).datalen.toNat = 60 :=
  ⟨_, _, eth1Load_some _, rfl, rfl, rfl, rfl⟩

/-- The firmware's descriptors are the consecutive ones from its own position up to the driver's; the
counts of a channel are those of the packets completed and stored so far. -/
structure TxChOrder (pch : EthDevTxCh) (fw completed stored : Nat) : Prop where
  fw : fw = completed % eth1TxDescNum
  allocPos : pch.allocPos = stored % eth1TxDescNum
  le : completed ≤ stored
  room : stored ≤ completed + eth1TxDescNum
  owned : ∀ i, completed ≤ i → i < stored → (pch.base (i % eth1TxDescNum)).own = true
  free : ∀ i, stored ≤ i → i < completed + eth1TxDescNum →
    (pch.base (i % eth1TxDescNum)).own = false

def Eth1Order (s : Eth1Sys) : Prop :=
  ∀ c, ∃ completed stored, TxChOrder (s.drv.txCh c) (s.fw c) completed stored

theorem TxChOrder.store {pch : EthDevTxCh} {fw completed stored : Nat}
    (h : TxChOrder pch fw completed stored) (hown : (pch.base pch.allocPos).own = false) (skb : Skb) :
    TxChOrder {
      base := Function.update pch.base pch.allocPos (txDescriptorOf skb)
      allocPos := if pch.allocPos + 1 = eth1TxDescNum then 0 else pch.allocPos + 1
      skbPointers := Function.update pch.skbPointers pch.allocPos skb } fw completed (stored + 1) := by
  have hpos : 0 < eth1TxDescNum := Nat.zero_lt_succ 31
  have hle := h.le
  have hroom : stored < completed + eth1TxDescNum := by
    by_contra hfull
    have heq : stored = completed + eth1TxDescNum := Nat.le_antisymm h.room (Nat.le_of_not_lt hfull)
    have howned := h.owned completed (Nat.le_refl _) (by omega)
    rw [h.allocPos, heq, Nat.add_mod_right] at hown
    rw [hown] at howned
    cases howned
  have hother : ∀ i, completed ≤ i → i < completed + eth1TxDescNum → i ≠ stored →
      i % eth1TxDescNum ≠ pch.allocPos := by
    intro i hi hi' hne
    rw [h.allocPos]
    exact ringPos_ne hi hi' hle hroom hne
  refine ⟨h.fw, ?_, by omega, by omega, ?_, ?_⟩
  · dsimp only
    rw [h.allocPos]
    exact ringNext_end hpos stored
  · intro i hi hi'
    dsimp only
    by_cases hlast : i = stored
    · rw [hlast, ← h.allocPos, Function.update_self]
      exact txDescriptorOf_own skb
    · rw [Function.update_of_ne (hother i hi (by omega) hlast)]
      exact h.owned i hi (by omega)
  · intro i hi hi'
    dsimp only
    rw [Function.update_of_ne (hother i (by omega) hi' (by omega))]
    exact h.free i (by omega) hi'

theorem TxChOrder.release {pch : EthDevTxCh} {fw completed stored : Nat}
    (h : TxChOrder pch fw completed stored) (hown : (pch.base fw).own = true) :
    TxChOrder { pch with base := Function.update pch.base fw (pch.base fw).release }
      ((fw + 1) % eth1TxDescNum) (completed + 1) stored := by
  have hroom := h.room
  have hlt : completed < stored := by
    by_contra hempty
    have heq : stored = completed := Nat.le_antisymm (Nat.le_of_not_lt hempty) h.le
    have hfree := h.free completed (Nat.le_of_eq heq) (Nat.lt_add_of_pos_right (Nat.zero_lt_succ 31))
    rw [← h.fw, hown] at hfree
    cases hfree
  have hother : ∀ i, completed ≤ i → i < completed + eth1TxDescNum → i ≠ completed →
      i % eth1TxDescNum ≠ fw := by
    intro i hi hi' hne
    rw [h.fw]
    exact ringPos_ne hi hi' (Nat.le_refl _) (Nat.lt_add_of_pos_right (Nat.zero_lt_succ 31)) hne
  refine ⟨?_, h.allocPos, hlt, by omega, ?_, ?_⟩
  · rw [h.fw, Nat.mod_add_mod]
  · intro i hi hi'
    dsimp only
    rw [Function.update_of_ne (hother i (by omega) (by omega) (by omega))]
    exact h.owned i (by omega) hi'
  · intro i hi hi'
    dsimp only
    by_cases hlast : i = completed + eth1TxDescNum
    · rw [hlast, Nat.add_mod_right, ← h.fw, Function.update_self]
      exact TxDescriptor.release_own _
    · rw [Function.update_of_ne (hother i (by omega) (by omega) (by omega))]
      exact h.free i hi (by omega)

theorem eth1Load_order {alloc : Nat → Option Word} {s : Eth1Sys} (h : eth1Load alloc = .ok s) :
    Eth1Order s := by
  obtain ⟨skbs, _, rfl⟩ := eth1Load_ok h
  intro c
  refine ⟨0, 0, rfl, rfl, Nat.le_refl 0, Nat.zero_le _, ?_, ?_⟩
  · intro i _ hi
    exact absurd hi (Nat.not_lt_zero i)
  · intro i _ _
    exact eth1Ready_own skbs c _

theorem eth1Step_order {s t : Eth1Sys} {e : Eth1Event} (h : Eth1Order s)
    (hstep : eth1Step s e = some t) : Eth1Order t := by
  intro c
  obtain ⟨completed, stored, hc⟩ := h c
  cases e with
  | xmit ch data len =>
    cases Option.some.inj hstep
    dsimp only
    rcases eth1Xmit_cases s.drv ⟨s.next, data, len⟩ ch with ⟨_, htx, _⟩ | ⟨hown, htx, _⟩
    · rw [htx]
      exact ⟨completed, stored, hc⟩
    · rw [htx, Eth1.store]
      by_cases hk : c = eth1Channel ch
      · rw [← hk] at hown ⊢
        rw [Function.update_self]
        exact ⟨completed, stored + 1, hc.store hown _⟩
      · rw [Function.update_of_ne hk]
        exact ⟨completed, stored, hc⟩
  | complete ch =>
    unfold eth1Step at hstep
    dsimp only at hstep
    split at hstep
    next hown =>
      cases Option.some.inj hstep
      dsimp only
      by_cases hk : c = ch
      · rw [← hk] at hown ⊢
        rw [Function.update_self, Function.update_self]
        exact ⟨completed + 1, stored, hc.release hown⟩
      · rw [Function.update_of_ne hk, Function.update_of_ne hk]
        exact ⟨completed, stored, hc⟩
    next => cases hstep
  | mailboxIrq isr ch2Own =>
    cases Option.some.inj hstep
    dsimp only
    rw [mailboxIrqHandler_txCh]
    exact ⟨completed, stored, hc⟩

/-- Since the firmware completes in order, the next descriptor belongs to it only when all do. -/
theorem eth1_ring_full {alloc : Nat → Option Word} {s₀ s : Eth1Sys} (es : List Eth1Event)
    (hload : eth1Load alloc = .ok s₀) (hrun : run eth1Step s₀ es = some s) (c : Nat) :
    ((s.drv.txCh c).base (s.drv.txCh c).allocPos).own = true ↔
      ∀ p < eth1TxDescNum, ((s.drv.txCh c).base p).own = true := by
  have horder : Eth1Order s := run_invariant eth1Step_order (eth1Load_order hload) hrun
  obtain ⟨completed, stored, hc⟩ := horder c
  have hpos : 0 < eth1TxDescNum := Nat.zero_lt_succ 31
  constructor
  · intro hown p hp
    have hfull : completed + eth1TxDescNum ≤ stored := by
      by_contra hlt
      have hfree := hc.free stored (Nat.le_refl _) (Nat.lt_of_not_le hlt)
      rw [← hc.allocPos, hown] at hfree
      cases hfree
    have hmod := Nat.mod_lt completed hpos
    have hi : (completed + (p + eth1TxDescNum - completed % eth1TxDescNum) % eth1TxDescNum) %
        eth1TxDescNum = p := by
      simp only [eth1TxDescNum] at hp ⊢
      omega
    have hlt := Nat.mod_lt (p + eth1TxDescNum - completed % eth1TxDescNum) hpos
    rw [← hi]
    exact hc.owned _ (by omega) (by omega)
  · intro hall
    rw [hc.allocPos]
    exact hall _ (Nat.mod_lt _ hpos)

end DanubeBsp
