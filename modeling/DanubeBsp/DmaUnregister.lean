import DanubeBsp.DmaTxRing
import DanubeBsp.DmaRx
import Mathlib.Tactic.IntervalCases

namespace DanubeBsp

/-- The test of `dma_device_unregister`: the descriptor is completed, or the hardware owns it and
its data length is not zero. -/
def DmaDesc.holdsBuffer (d : DmaDesc) : Bool :=
  d.done || (d.dmaOwn && decide (0 < dataLength d))

/-- The `buffer_free` call for descriptor `j`, if there is one. -/
def slotFree (desc : Nat → DmaDesc) (opt : Nat → Word) (j : Nat) : List FreeCall :=
  if (desc j).holdsBuffer then [⟨kernelVa (desc j).dataPointer, opt j⟩] else []

/-- The descriptor loop of `dma_device_unregister` over a transmit channel: free, then clear. -/
def txUnregisterLoop : Nat → TxChan → TxChan × List FreeCall
  | 0, ch => (ch, [])
  | n + 1, ch =>
    let (ch, freed) := txUnregisterLoop n ch
    ({ ch with desc := Function.update ch.desc n .zero }, freed ++ slotFree ch.desc ch.opt n)

/-- `dma_device_unregister` on a transmit channel that is on. -/
def txUnregister (ch : TxChan) : TxChan × List FreeCall :=
  txUnregisterLoop ch.descLen { ch with currDesc := 0, prevDesc := 0, cctrlOn := false }

def txClear : Nat → (Nat → DmaDesc) → Nat → DmaDesc
  | 0, desc => desc
  | n + 1, desc => Function.update (txClear n desc) n .zero

/-- `dma_device_register` on a transmit channel. It leaves `curr_desc` and `prev_desc` alone. -/
def txRegister (ch : TxChan) : TxChan :=
  { ch with desc := txClear ch.descLen ch.desc, cctrlOn := false }

/-- A transmit ring over several registrations, with the packets accepted and the buffers freed in
those that are over. -/
structure TxLife where
  sys : TxSys
  closed : List TxPacket
  released : List FreeCall

inductive TxLifeEvent
  | use (e : TxEvent)
  | reopen

/-- The device is unregistered and registered again; in between its driver sets `control` to
`DANUBE_DMA_CH_ON` again, which the unregistration has cleared. The channel reset takes the hardware
back to the first descriptor. -/
def txReopen (l : TxLife) : TxLife :=
  let (ch, freed) := txUnregister l.sys.ch
  { sys := { ch := txRegister ch, hw := 0, accepted := [], freed := [], completed := 0 }
    closed := l.closed ++ l.sys.accepted
    released := l.released ++ (l.sys.freed ++ freed) }

def txLifeStep (txBurstLen : ℕ+) (l : TxLife) : TxLifeEvent → Option TxLife
  | .use e => (txStep txBurstLen l.sys e).map fun s => { l with sys := s }
  | .reopen => some (txReopen l)

def txLifeInit (descLen : Nat) (opt : Nat → Word) : TxLife :=
  { sys := txInit descLen opt, closed := [], released := [] }

/-- The packets that the hardware still has when the device goes. -/
def TxSys.pending (s : TxSys) : List TxPacket := s.accepted.drop s.completed

/-- The data length field of the packet's descriptor is not zero. -/
def TxPacket.counted (p : TxPacket) : Bool := decide (0 < p.len &&& 0xffff#32)

/-- No packet that the hardware still has at an unregistration has a length of zero in the
descriptor's 16-bit field. -/
def PendingCounted (l : TxLife) : TxLifeEvent → Prop
  | .use _ => True
  | .reopen => ∀ p ∈ l.sys.pending, p.counted

theorem DmaDesc.holdsBuffer_of_done {d : DmaDesc} (h : d.done = true) : d.holdsBuffer = true := by
  rw [holdsBuffer, h, Bool.true_or]

theorem DmaDesc.holdsBuffer_of_own {d : DmaDesc} (hown : d.dmaOwn = true)
    (hlen : 0 < dataLength d) : d.holdsBuffer = true := by
  rw [holdsBuffer, hown, decide_eq_true hlen, Bool.true_and, Bool.or_true]

theorem slotFree_of_holds {desc : Nat → DmaDesc} {opt : Nat → Word} {j : Nat}
    (h : (desc j).holdsBuffer = true) :
    slotFree desc opt j = [⟨kernelVa (desc j).dataPointer, opt j⟩] := if_pos h

/-! What a write leaves alone. -/

theorem reclaim_frame {fuel : Nat} {ch ch' : TxChan} {freed : List FreeCall}
    (h : reclaim fuel ch = some (ch', freed)) :
    ch'.currDesc = ch.currDesc ∧ ch'.descLen = ch.descLen ∧
      ∀ i, (ch.desc i).dmaOwn = true → ch'.desc i = ch.desc i := by
  induction fuel generalizing ch freed with
  | zero => simp [reclaim] at h
  | succ fuel ih =>
    rw [reclaim] at h
    split at h
    next hdone =>
      obtain ⟨⟨c, f⟩, hc, he⟩ := Option.bind_eq_some_iff.mp h
      cases Option.some.inj he
      obtain ⟨hcurr, hlen, hkept⟩ := ih hc
      refine ⟨hcurr, hlen, ?_⟩
      intro i hown
      have hne : i ≠ ch.prevDesc := by
        intro he
        subst he
        simp [DmaDesc.done, hown] at hdone
      have hsame : (reclaimOne ch).1.desc i = ch.desc i := Function.update_of_ne hne _ _
      have hown' : ((reclaimOne ch).1.desc i).dmaOwn = true := by rw [hsame, hown]
      exact (hkept i hown').trans hsame
    next =>
      cases Option.some.inj h
      exact ⟨rfl, rfl, fun _ _ => rfl⟩

theorem txStatus_dataLength (txBurstLen : ℕ+) (p : TxPacket) (a : Word) :
    dataLength ⟨txStatus txBurstLen p, a⟩ = p.len &&& 0xffff#32 := by
  apply BitVec.eq_of_getLsbD_eq
  intro i hi
  simp only [dataLength, txStatus, BitVec.getLsbD_and, BitVec.getLsbD_or, BitVec.getLsbD_shiftLeft]
  interval_cases i <;> simp

/-- The length fields of the descriptors that the hardware still has are those of their packets. -/
def PendingLengths (s : TxSys) : Prop :=
  ∀ i p, s.completed ≤ i → s.accepted[i]? = some p →
    dataLength (s.ch.desc (i % s.ch.descLen)) = p.len &&& 0xffff#32

theorem TxInv.write_lengths {txBurstLen : ℕ+} {s : TxSys} {p : TxPacket} {w : TxWrite}
    (h : TxInv txBurstLen s) (hlen : PendingLengths s)
    (hw : dmaDeviceWrite txBurstLen s.ch p = some w) : PendingLengths (afterWrite s p w) := by
  obtain ⟨⟨ch, freed⟩, hr, he⟩ := Option.bind_eq_some_iff.mp hw
  cases Option.some.inj he
  obtain ⟨hcurr, hdl, hkept⟩ := reclaim_frame hr
  have hold : ∀ i q, s.completed ≤ i → s.accepted[i]? = some q →
      (ch.desc (i % ch.descLen)).dmaOwn = true ∧
        dataLength (ch.desc (i % ch.descLen)) = q.len &&& 0xffff#32 := by
    intro i q hi hq
    have hlt : i < s.accepted.length := (List.getElem?_eq_some_iff.mp hq).1
    have hown := h.pending i hi hlt
    rw [hdl, hkept _ hown]
    exact ⟨hown, hlen i q hi hq⟩
  intro i q hi hq
  dsimp only [queuePacket] at hi hq ⊢
  split at hi
  next hfull =>
    simp only [hfull, if_true, afterWrite, Bool.false_eq_true, if_false] at hi hq ⊢
    exact (hold i q hi hq).2
  next hfree =>
    simp only [hfree, if_false, afterWrite, if_true, DanubeBsp.submit, Bool.false_eq_true]
      at hi hq ⊢
    by_cases hlast : i = s.accepted.length
    · rw [hlast, List.getElem?_concat_length] at hq
      cases Option.some.inj hq
      rw [hlast, hdl, hcurr, ← h.curr, Function.update_self]
      exact txStatus_dataLength _ _ _
    · have hlt := (List.getElem?_eq_some_iff.mp hq).1
      simp only [List.length_append, List.length_singleton] at hlt
      rw [List.getElem?_append_left (by omega)] at hq
      obtain ⟨hown, hl⟩ := hold i q hi hq
      have hne : i % ch.descLen ≠ ch.currDesc := by
        intro heq
        rw [heq] at hown
        simp [hown] at hfree
      rw [Function.update_of_ne hne]
      exact hl

theorem TxInv.complete_lengths {txBurstLen : ℕ+} {s t : TxSys} {status : Word}
    (h : TxInv txBurstLen s) (hlen : PendingLengths s) (hs : txComplete s status = some t) :
    PendingLengths t := by
  have hroom := h.room
  have hfc := h.freedLe
  have hinv := txComplete_inv h hs
  simp only [txComplete] at hs
  split at hs
  next =>
    cases Option.some.inj hs
    have hle := hinv.completedLe
    intro i q hi hq
    dsimp only at hle hi hq ⊢
    have hlt : i < s.accepted.length := (List.getElem?_eq_some_iff.mp hq).1
    have hne : i % s.ch.descLen ≠ s.hw := by
      rw [h.hw]
      exact ringPos_ne (p := s.freed.length) (by omega) (by omega) hfc (by omega) (by omega)
    rw [Function.update_of_ne hne]
    exact hlen i q (by omega) hq
  next => simp at hs

theorem txStep_lengths {txBurstLen : ℕ+} {s t : TxSys} {e : TxEvent} (h : TxInv txBurstLen s)
    (hlen : PendingLengths s) (hs : txStep txBurstLen s e = some t) : PendingLengths t := by
  cases e with
  | write p =>
    obtain ⟨w, hw, rfl⟩ := Option.map_eq_some_iff.mp hs
    exact h.write_lengths hlen hw
  | complete status => exact h.complete_lengths hlen hs

/-! What the unregistration frees. -/

theorem txUnregisterLoop_spec (n : Nat) (ch : TxChan) :
    txUnregisterLoop n ch = ({ ch with desc := txClear n ch.desc },
      (List.range n).flatMap (slotFree ch.desc ch.opt)) := by
  induction n with
  | zero => rfl
  | succ n ih =>
    have hkept : ∀ m, m ≤ n → txClear m ch.desc n = ch.desc n := by
      intro m
      induction m with
      | zero => exact fun _ => rfl
      | succ m ihm =>
        intro hm
        rw [txClear, Function.update_of_ne (by omega)]
        exact ihm (by omega)
    have hslot : slotFree (txClear n ch.desc) ch.opt n = slotFree ch.desc ch.opt n := by
      simp only [slotFree, hkept n (le_refl n)]
    rw [txUnregisterLoop, ih, List.range_succ, List.flatMap_append]
    simp [hslot, txClear]

theorem txClear_lt {n j : Nat} (desc : Nat → DmaDesc) (hj : j < n) : txClear n desc j = .zero := by
  induction n with
  | zero => omega
  | succ n ih =>
    rw [txClear]
    by_cases he : j = n
    · rw [he, Function.update_self]
    · rw [Function.update_of_ne he]
      exact ih (by omega)

/-- Over a lap of the ring from any slot on, up to order. -/
theorem txUnregister_frees (ch : TxChan) (r : Nat) :
    (ringSlice ch.descLen (slotFree ch.desc ch.opt) r ch.descLen).flatten.Perm
      (txUnregister ch).2 := by
  have hlap := (ringSlice_lap_perm ch.descLen r).flatMap_right (slotFree ch.desc ch.opt)
  have hslice : (ringSlice ch.descLen id r ch.descLen).flatMap (slotFree ch.desc ch.opt) =
      (ringSlice ch.descLen (slotFree ch.desc ch.opt) r ch.descLen).flatten := by
    simp [ringSlice, List.flatMap_def, Function.comp_def]
  rw [hslice] at hlap
  rw [txUnregister, txUnregisterLoop_spec]
  exact hlap

/-- The ring from the oldest buffer on: the completed packets, those that the hardware still has
unless their length field is zero, and cleared descriptors. -/
theorem TxInv.slots {txBurstLen : ℕ+} {s : TxSys} (h : TxInv txBurstLen s)
    (hlen : PendingLengths s) :
    (ringSlice s.ch.descLen (slotFree s.ch.desc s.ch.opt) s.freed.length s.ch.descLen).flatten =
      (((s.accepted.take s.completed).drop s.freed.length) ++
        s.pending.filter TxPacket.counted).map (owedFree txBurstLen) := by
  have hfc := h.freedLe
  have hca := h.completedLe
  have hroom := h.room
  have hlap : s.ch.descLen = ((s.accepted.take s.completed).drop s.freed.length).length +
      (s.pending.length + (s.freed.length + s.ch.descLen - s.accepted.length)) := by
    simp only [TxSys.pending, List.length_drop, List.length_take]
    omega
  have hfirst : ringSlice s.ch.descLen (slotFree s.ch.desc s.ch.opt) s.freed.length
      ((s.accepted.take s.completed).drop s.freed.length).length =
      ((s.accepted.take s.completed).drop s.freed.length).map fun p => [owedFree txBurstLen p] := by
    apply ringSlice_eq_map
    intro k p hk
    rw [List.getElem?_drop, List.getElem?_take] at hk
    split at hk
    next hlt =>
      have hdone := h.done (s.freed.length + k) (by omega) hlt
      have howed := h.owed (s.freed.length + k) p (by omega) hk
      rw [slotFree_of_holds (DmaDesc.holdsBuffer_of_done hdone), howed]
    next => simp at hk
  have hsecond : ringSlice s.ch.descLen (slotFree s.ch.desc s.ch.opt)
      (s.freed.length + ((s.accepted.take s.completed).drop s.freed.length).length)
      s.pending.length =
      s.pending.map fun p => if p.counted then [owedFree txBurstLen p] else [] := by
    apply ringSlice_eq_map
    intro k p hk
    have hpos : s.freed.length + ((s.accepted.take s.completed).drop s.freed.length).length + k =
        s.completed + k := by
      simp only [List.length_drop, List.length_take]
      omega
    rw [TxSys.pending, List.getElem?_drop] at hk
    have hlt := (List.getElem?_eq_some_iff.mp hk).1
    have hown := h.pending (s.completed + k) (by omega) hlt
    have howed := h.owed (s.completed + k) p (by omega) hk
    have hl := hlen (s.completed + k) p (by omega) hk
    rw [hpos]
    simp [slotFree, DmaDesc.holdsBuffer, DmaDesc.done, hown, howed, hl, TxPacket.counted]
  have hthird : (ringSlice s.ch.descLen (slotFree s.ch.desc s.ch.opt)
      (s.freed.length + ((s.accepted.take s.completed).drop s.freed.length).length +
        s.pending.length) (s.freed.length + s.ch.descLen - s.accepted.length)).flatten = [] := by
    rw [List.flatten_eq_nil_iff]
    intro l hl
    obtain ⟨k, hk, rfl⟩ := List.mem_map.mp hl
    have hk := List.mem_range.mp hk
    have hpos : s.freed.length + ((s.accepted.take s.completed).drop s.freed.length).length +
        s.pending.length + k = s.accepted.length + k := by
      simp only [TxSys.pending, List.length_drop, List.length_take]
      omega
    have hzero := h.free (s.accepted.length + k) (by omega) (by omega)
    rw [hpos]
    simp only [slotFree, hzero]
    rfl
  have hparts : ringSlice s.ch.descLen (slotFree s.ch.desc s.ch.opt) s.freed.length s.ch.descLen =
      ringSlice s.ch.descLen (slotFree s.ch.desc s.ch.opt) s.freed.length
        (((s.accepted.take s.completed).drop s.freed.length).length +
          (s.pending.length + (s.freed.length + s.ch.descLen - s.accepted.length))) := by
    rw [← hlap]
  have hkept : ∀ l : List TxPacket,
      (l.map fun p => if p.counted then [owedFree txBurstLen p] else []).flatten =
        (l.filter TxPacket.counted).map (owedFree txBurstLen) := by
    intro l
    induction l with
    | nil => rfl
    | cons p l ih => cases hp : p.counted <;> simp [hp, ih]
  rw [hparts, ringSlice_append, ringSlice_append, List.flatten_append, List.flatten_append, hfirst,
    hsecond, hthird, hkept, List.append_nil, List.map_append, ← List.flatMap_def,
    ← List.map_eq_flatMap]

/-- The buffers freed over a registration and at its end are those of the accepted packets but
for the pending ones of length zero. -/
theorem TxInv.unregister_perm {txBurstLen : ℕ+} {s : TxSys} (h : TxInv txBurstLen s)
    (hlen : PendingLengths s) :
    (s.freed ++ (txUnregister s.ch).2 ++
      (s.pending.filter fun p => !p.counted).map (owedFree txBurstLen)).Perm
      (s.accepted.map (owedFree txBurstLen)) := by
  have hfc := h.freedLe
  have hfrees := txUnregister_frees s.ch s.freed.length
  rw [h.slots hlen] at hfrees
  have hdone : s.freed ++ ((s.accepted.take s.completed).drop s.freed.length).map
      (owedFree txBurstLen) = (s.accepted.take s.completed).map (owedFree txBurstLen) := by
    have hfirst : s.freed =
        ((s.accepted.take s.completed).take s.freed.length).map (owedFree txBurstLen) := by
      rw [List.take_take, Nat.min_eq_left hfc]
      exact h.order
    have hjoin := congrArg (· ++ ((s.accepted.take s.completed).drop s.freed.length).map
      (owedFree txBurstLen)) hfirst
    rw [← List.map_append, List.take_append_drop] at hjoin
    exact hjoin
  have hpend : (s.pending.filter TxPacket.counted ++
      s.pending.filter fun p => !p.counted).Perm s.pending := List.filter_append_perm _ _
  have hall := (hpend.map (owedFree txBurstLen)).append_left
    ((s.accepted.take s.completed).map (owedFree txBurstLen))
  have hsplit : (s.accepted.take s.completed).map (owedFree txBurstLen) ++
      s.pending.map (owedFree txBurstLen) = s.accepted.map (owedFree txBurstLen) := by
    rw [← List.map_append, TxSys.pending, List.take_append_drop]
  rw [hsplit, ← hdone, List.map_append, ← List.append_assoc] at hall
  rw [List.map_append] at hfrees
  refine List.Perm.trans (List.Perm.append_right _ ?_) hall
  rw [List.append_assoc]
  exact hfrees.symm.append_left s.freed

/-! Several registrations of one channel. -/

theorem txReopen_inv {txBurstLen : ℕ+} {l : TxLife} (h : TxInv txBurstLen l.sys) :
    TxInv txBurstLen (txReopen l).sys ∧ PendingLengths (txReopen l).sys := by
  have hpos := h.pos
  rw [txReopen, txUnregister, txUnregisterLoop_spec]
  have hzero : ∀ i, txClear l.sys.ch.descLen (txClear l.sys.ch.descLen l.sys.ch.desc)
      (i % l.sys.ch.descLen) = .zero := fun i => txClear_lt _ (Nat.mod_lt i hpos)
  refine ⟨⟨hpos, ?_, ?_, ?_, le_refl 0, le_refl 0, Nat.zero_le _, ?_, ?_, fun i _ _ => hzero i, ?_,
    rfl⟩, ?_⟩
  · exact (Nat.zero_mod _).symm
  · exact (Nat.zero_mod _).symm
  · exact (Nat.zero_mod _).symm
  · intro i _ hi
    exact absurd hi (Nat.not_lt_zero i)
  · intro i _ hi
    exact absurd hi (Nat.not_lt_zero i)
  · intro i p _ hp
    simp at hp
  · intro i p _ hp
    simp at hp

/-- What every sequence of uses and registrations keeps: the ring's own invariant, and the buffers
of the closed registrations freed up to those of a list of lost packets. -/
structure TxLifeInv (txBurstLen : ℕ+) (l : TxLife) : Prop where
  ring : TxInv txBurstLen l.sys
  lengths : PendingLengths l.sys
  books : ∃ lost, (l.released ++ lost).Perm (l.closed.map (owedFree txBurstLen))

theorem txLifeInit_inv {txBurstLen : ℕ+} {descLen : Nat} (opt : Nat → Word) (hpos : 0 < descLen) :
    TxLifeInv txBurstLen (txLifeInit descLen opt) := by
  refine ⟨txInit_inv opt hpos, ?_, [], List.Perm.refl _⟩
  intro i p _ hp
  simp [txLifeInit, txInit] at hp

/-- The buffers not freed in the closed registrations. -/
def TxLife.missing (l : TxLife) : Nat := l.closed.length - l.released.length

theorem TxLifeInv.length {txBurstLen : ℕ+} {l : TxLife} (h : TxLifeInv txBurstLen l) :
    l.released.length ≤ l.closed.length := by
  obtain ⟨lost, hperm⟩ := h.books
  have hlen := hperm.length_eq
  rw [List.length_append, List.length_map] at hlen
  omega

theorem TxLifeInv.balanced {txBurstLen : ℕ+} {l : TxLife} (h : TxLifeInv txBurstLen l) :
    l.released.Perm (l.closed.map (owedFree txBurstLen)) ↔ l.missing = 0 := by
  obtain ⟨lost, hperm⟩ := h.books
  have hlen := hperm.length_eq
  rw [List.length_append, List.length_map] at hlen
  rw [TxLife.missing]
  constructor
  · intro hp
    have hl := hp.length_eq
    rw [List.length_map] at hl
    omega
  · intro hm
    have hnil : lost = [] := List.length_eq_zero_iff.mp (by omega)
    simpa [hnil] using hperm

theorem TxLifeInv.reopen {txBurstLen : ℕ+} {l : TxLife} (h : TxLifeInv txBurstLen l) :
    TxLifeInv txBurstLen (txReopen l) ∧ (txReopen l).missing = l.missing +
      (l.sys.pending.filter fun p => !p.counted).length := by
  have hle := h.length
  obtain ⟨lost, hperm⟩ := h.books
  have hnow := h.ring.unregister_perm h.lengths
  obtain ⟨hring, hlengths⟩ := txReopen_inv h.ring
  have hcount := hnow.length_eq
  simp only [List.length_append, List.length_map] at hcount
  refine ⟨⟨hring, hlengths, lost ++
    (l.sys.pending.filter fun p => !p.counted).map (owedFree txBurstLen), ?_⟩, ?_⟩
  · have hboth := hperm.append hnow
    rw [← List.map_append] at hboth
    refine List.Perm.trans ?_ hboth
    simp only [txReopen, List.append_assoc]
    refine List.Perm.append_left _ ?_
    simp only [← List.append_assoc]
    refine List.Perm.append_right _ ?_
    rw [List.append_assoc lost]
    exact List.perm_append_comm
  · simp only [TxLife.missing, txReopen, List.length_append]
    omega

theorem txLifeStep_inv {txBurstLen : ℕ+} {l m : TxLife} {e : TxLifeEvent}
    (h : TxLifeInv txBurstLen l) (hs : txLifeStep txBurstLen l e = some m) :
    TxLifeInv txBurstLen m := by
  cases e with
  | use e =>
    obtain ⟨s, hstep, rfl⟩ := Option.map_eq_some_iff.mp hs
    exact ⟨txStep_inv h.ring hstep, txStep_lengths h.ring h.lengths hstep, h.books⟩
  | reopen =>
    cases Option.some.inj hs
    exact h.reopen.1

theorem txLifeStep_missing {txBurstLen : ℕ+} {l m : TxLife} {e : TxLifeEvent}
    (h : TxLifeInv txBurstLen l) (hs : txLifeStep txBurstLen l e = some m) :
    l.missing ≤ m.missing ∧ (PendingCounted l e ↔ m.missing = l.missing) := by
  cases e with
  | use e =>
    obtain ⟨s, hs, rfl⟩ := Option.map_eq_some_iff.mp hs
    exact ⟨le_refl _, iff_of_true trivial rfl⟩
  | reopen =>
    cases Option.some.inj hs
    rw [h.reopen.2]
    refine ⟨Nat.le_add_right _ _, ?_⟩
    rw [Nat.add_eq_left, List.length_eq_zero_iff, List.filter_eq_nil_iff]
    simp [PendingCounted]

/-- Over any sequence of uses and registrations of a transmit channel, the buffers freed in the
registrations that are over are exactly those of the packets accepted in them, each once, if and
only if no packet of length zero was still pending when its registration ended; the ring of the
present registration accounts for its packets in either case. -/
theorem dmaTx_unregister_books (txBurstLen : ℕ+) (descLen : Nat) (opt : Nat → Word)
    (hpos : 0 < descLen) (es : List TxLifeEvent) (l : TxLife)
    (h : run (txLifeStep txBurstLen) (txLifeInit descLen opt) es = some l) :
    (l.released.Perm (l.closed.map (owedFree txBurstLen)) ↔
      RunMeets (txLifeStep txBurstLen) PendingCounted (txLifeInit descLen opt) es) ∧
    TxAccounting txBurstLen l.sys := by
  have hinit : TxLifeInv txBurstLen (txLifeInit descLen opt) := txLifeInit_inv opt hpos
  have hinv := run_invariant txLifeStep_inv hinit h
  obtain ⟨-, hmeets⟩ := runMeets_iff_measure (m := TxLife.missing) txLifeStep_inv
    (fun hi hs => (txLifeStep_missing hi hs).1) (fun hi hs => (txLifeStep_missing hi hs).2) hinit h
  exact ⟨hinv.balanced.trans hmeets.symm, hinv.ring.accounting⟩

/-- A packet of length zero that the hardware never sends is lost with its registration. -/
theorem dmaTx_unregister_books_small :
    ∃ l, run (txLifeStep 8) (txLifeInit 2 fun _ => 0) [.use (.write ⟨0x80001000, 60, 1⟩),
        .use (.write ⟨0x80002000, 0, 2⟩), .reopen] = some l ∧ l.released = [⟨0x80001000, 1⟩] ∧
      ¬ l.released.Perm (l.closed.map (owedFree 8)) := by
  refine ⟨_, rfl, by decide, ?_⟩
  intro hperm
  have hmeets := (dmaTx_unregister_books 8 2 (fun _ => 0) (by decide)
    [.use (.write ⟨0x80001000, 60, 1⟩), .use (.write ⟨0x80002000, 0, 2⟩), .reopen] _ rfl).1.mp hperm
  have hlast := ((hmeets.2 _ rfl).2 _ rfl).1
  exact absurd hlast (by unfold PendingCounted; decide)

end DanubeBsp
