import DanubeBsp.DmaTxRing

namespace DanubeBsp

/-- The pointer is a cached kernel address and its physical address a multiple of the burst. -/
def BurstAligned (txBurstLen : ℕ+) (p : TxPacket) : Prop :=
  0x80000000 ≤ p.dataptr.toNat ∧ p.dataptr.toNat < 0xa0000000 ∧ txByteOffset txBurstLen p = 0

/-- Every `buffer_free` call got the pointer of the packet that was written at its turn. -/
def PointersReturned (s : TxSys) : Prop :=
  ∀ (i : Nat) (f : FreeCall) (p : TxPacket), s.freed[i]? = some f → s.accepted[i]? = some p →
    f.dataptr = p.dataptr

theorem cphysaddr_toNat (a : Word) : (cphysaddr a).toNat = a.toNat % 2 ^ 29 := by
  rw [cphysaddr, BitVec.toNat_and]
  exact Nat.and_two_pow_sub_one_eq_mod a.toNat 29

theorem txDataPointer_toNat (txBurstLen : ℕ+) (p : TxPacket) :
    (txDataPointer txBurstLen p).toNat = p.dataptr.toNat % 2 ^ 29 - txByteOffset txBurstLen p := by
  have hphys := cphysaddr_toNat p.dataptr
  have hle : txByteOffset txBurstLen p ≤ (cphysaddr p.dataptr).toNat := Nat.mod_le _ _
  have hlt : (cphysaddr p.dataptr).toNat < 2 ^ 29 := by
    rw [hphys]
    exact Nat.mod_lt _ (by decide)
  rw [txDataPointer, BitVec.toNat_sub_of_le, BitVec.toNat_ofNat, Nat.mod_eq_of_lt (by omega), hphys]
  rw [BitVec.le_def, BitVec.toNat_ofNat, Nat.mod_eq_of_lt (by omega)]
  exact hle

/-- The descriptor gives the pointer back exactly when there was no offset to take away. -/
theorem owedFree_dataptr_iff (txBurstLen : ℕ+) (p : TxPacket) :
    (owedFree txBurstLen p).dataptr = p.dataptr ↔ BurstAligned txBurstLen p := by
  have hlt := p.dataptr.isLt
  have hptr := txDataPointer_toNat txBurstLen p
  have hle : txByteOffset txBurstLen p ≤ p.dataptr.toNat % 2 ^ 29 := by
    rw [← cphysaddr_toNat]
    exact Nat.mod_le _ _
  have hva : (owedFree txBurstLen p).dataptr.toNat =
      (txDataPointer txBurstLen p).toNat + 0x80000000 := by
    rw [owedFree, kernelVa, BitVec.toNat_add, BitVec.toNat_ofNat, hptr]
    omega
  rw [← BitVec.toNat_inj, hva, hptr, BurstAligned]
  omega

theorem TxInv.pointersReturned_iff {txBurstLen : ℕ+} {s : TxSys} (h : TxInv txBurstLen s) :
    PointersReturned s ↔ ∀ p ∈ s.accepted.take s.freed.length, BurstAligned txBurstLen p := by
  have hlen : s.freed.length ≤ s.accepted.length := Nat.le_trans h.freedLe h.completedLe
  have hcall : ∀ i p, i < s.freed.length → s.accepted[i]? = some p →
      s.freed[i]? = some (owedFree txBurstLen p) := by
    intro i p hi hp
    rw [h.order, List.getElem?_map, List.getElem?_take_of_lt hi, hp]
    rfl
  constructor
  · intro hret p hp
    obtain ⟨i, hi⟩ := List.mem_iff_getElem?.mp hp
    have hlt : i < s.freed.length := by
      have hbound := (List.getElem?_eq_some_iff.mp hi).1
      rw [List.length_take] at hbound
      omega
    rw [List.getElem?_take_of_lt hlt] at hi
    exact (owedFree_dataptr_iff txBurstLen p).mp (hret i _ p (hcall i p hlt hi) hi)
  · intro hall i f p hf hp
    have hlt := (List.getElem?_eq_some_iff.mp hf).1
    have hmem : p ∈ s.accepted.take s.freed.length :=
      List.mem_iff_getElem?.mpr ⟨i, by rw [List.getElem?_take_of_lt hlt, hp]⟩
    obtain rfl := Option.some.inj (hf.symm.trans (hcall i p hlt hp))
    exact (owedFree_dataptr_iff txBurstLen p).mpr (hall p hmem)

/-- The packets that the next write reclaims were written with aligned pointers. -/
def ReclaimsAligned (txBurstLen : ℕ+) (s : TxSys) : TxEvent → Prop
  | .write _ => ∀ p ∈ (s.accepted.take s.completed).drop s.freed.length, BurstAligned txBurstLen p
  | .complete _ => True

/-- The invariant with the pointers returned so far. -/
structure TxPointerInv (txBurstLen : ℕ+) (s : TxSys) : Prop where
  ring : TxInv txBurstLen s
  returned : PointersReturned s

/-- A write reclaims everything completed. -/
theorem TxInv.write_reclaims {txBurstLen : ℕ+} {s t : TxSys} {p : TxPacket}
    (h : TxInv txBurstLen s) (hs : txStep txBurstLen s (.write p) = some t) :
    t.freed.length = s.completed ∧ t.accepted.take s.completed = s.accepted.take s.completed := by
  obtain ⟨w, hw, _, hlen, _⟩ := h.write p
  simp only [txStep, hw, Option.map_some] at hs
  obtain rfl := Option.some.inj hs
  refine ⟨hlen, ?_⟩
  change (if w.queued then s.accepted ++ [p] else s.accepted).take s.completed = _
  split
  next => rw [List.take_append_of_le_length h.completedLe]
  next => rfl

theorem take_split {α : Type*} {l : List α} {m n : Nat} (hmn : m ≤ n) :
    l.take n = l.take m ++ (l.take n).drop m := by
  have h := (List.take_append_drop m (l.take n)).symm
  rwa [List.take_take, Nat.min_eq_left hmn] at h

theorem TxPointerInv.write_iff {txBurstLen : ℕ+} {s t : TxSys} {p : TxPacket}
    (h : TxPointerInv txBurstLen s) (hs : txStep txBurstLen s (.write p) = some t) :
    PointersReturned t ↔ ReclaimsAligned txBurstLen s (.write p) := by
  obtain ⟨hlen, htake⟩ := h.ring.write_reclaims hs
  have hold := h.ring.pointersReturned_iff.mp h.returned
  rw [(txStep_inv h.ring hs).pointersReturned_iff, hlen, htake, take_split h.ring.freedLe]
  constructor
  · intro hall q hq
    exact hall q (List.mem_append_right _ hq)
  · intro hnew q hq
    rcases List.mem_append.mp hq with hq | hq
    · exact hold q hq
    · exact hnew q hq

theorem TxPointerInv.step {txBurstLen : ℕ+} {s t : TxSys} {e : TxEvent}
    (h : TxPointerInv txBurstLen s) (hok : ReclaimsAligned txBurstLen s e)
    (hs : txStep txBurstLen s e = some t) : TxPointerInv txBurstLen t := by
  refine ⟨txStep_inv h.ring hs, ?_⟩
  cases e with
  | write p => exact (h.write_iff hs).mpr hok
  | complete status =>
    simp only [txStep, txComplete] at hs
    split at hs
    next =>
      obtain rfl := Option.some.inj hs
      exact h.returned
    next => cases hs

theorem TxPointerInv.needs {txBurstLen : ℕ+} {s t : TxSys} {e : TxEvent}
    (h : TxPointerInv txBurstLen s) (hs : txStep txBurstLen s e = some t)
    (hret : PointersReturned t) : ReclaimsAligned txBurstLen s e := by
  cases e with
  | write p => exact (h.write_iff hs).mp hret
  | complete status => trivial

theorem TxPointerInv.none {txBurstLen : ℕ+} {s : TxSys} {e : TxEvent}
    (h : TxPointerInv txBurstLen s) (hs : txStep txBurstLen s e = none) :
    ReclaimsAligned txBurstLen s e := by
  cases e with
  | write p =>
    obtain ⟨w, hw, _⟩ := h.ring.write p
    simp only [txStep, hw, Option.map_some] at hs
    cases hs
  | complete status => trivial

/-- A run returns every pointer as it was given exactly when each write reclaims only packets whose
pointers were aligned to the burst. -/
theorem dmaTx_pointers_returned_iff (txBurstLen : ℕ+) (n : Nat) (opt : Nat → Word)
    (es : List TxEvent) :
    RunMeets (txStep txBurstLen) (ReclaimsAligned txBurstLen) (txInit (n + 1) opt) es ↔
      ∀ pre t, pre <+: es → run (txStep txBurstLen) (txInit (n + 1) opt) pre = some t →
        PointersReturned t := by
  have hinit : TxPointerInv txBurstLen (txInit (n + 1) opt) :=
    ⟨txInit_inv opt (Nat.succ_pos n), fun i f p hf => by cases hf⟩
  exact runMeets_iff_states TxPointerInv.returned TxPointerInv.step TxPointerInv.needs
    TxPointerInv.none hinit es

/-- A packet four bytes behind a burst boundary comes back as the boundary. -/
theorem unaligned_pointer_shifted :
    ∃ s, run (txStep 8) (txInit 2 fun _ => 0) [.write ⟨0x80001004, 60, 1⟩, .complete 0,
        .write ⟨0x80002000, 64, 2⟩] = some s ∧ ¬ PointersReturned s := by
  refine ⟨_, rfl, ?_⟩
  intro h
  have hshift := h 0 ⟨0x80001000, 1⟩ ⟨0x80001004, 60, 1⟩ (by decide) (by decide)
  exact absurd hshift (by decide)

end DanubeBsp
