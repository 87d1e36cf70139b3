import Mathlib.Data.BitVec

namespace DanubeBsp

/-- A read-modify-write of a register: the bits of `clear` go off, then those of `set` go on. -/
structure MaskedWrite (w : Nat) where
  clear : BitVec w
  set : BitVec w

namespace MaskedWrite

variable {w : Nat} {m : MaskedWrite w} {ms ms' : List (MaskedWrite w)} {r : BitVec w} {i : Nat}
  {b : Bool}

def keep : MaskedWrite w := ⟨0, 0⟩

def apply (m : MaskedWrite w) (r : BitVec w) : BitVec w := (r &&& ~~~m.clear) ||| m.set

def applyAll (ms : List (MaskedWrite w)) (r : BitVec w) : BitVec w :=
  ms.foldl (fun r m => m.apply r) r

/-- What the write makes of bit `i`, whatever that was. -/
def act (m : MaskedWrite w) (i : Nat) : Option Bool :=
  if m.set.getLsbD i = true then some true
  else if m.clear.getLsbD i = true then some false
  else none

theorem lt_of_act (h : m.act i = some b) : i < w := by
  by_contra hi
  simp only [act, BitVec.getLsbD_of_ge _ _ (Nat.le_of_not_lt hi), Bool.false_eq_true, if_false,
    reduceCtorEq] at h

theorem getLsbD_apply (m : MaskedWrite w) (r : BitVec w) (i : Nat) :
    (m.apply r).getLsbD i = (m.act i).getD (r.getLsbD i) := by
  unfold apply act
  rw [BitVec.getLsbD_or, BitVec.getLsbD_and]
  by_cases hi : i < w
  · rw [BitVec.getLsbD_not]
    cases hs : m.set.getLsbD i <;> cases hc : m.clear.getLsbD i <;> simp [hi]
  · simp [BitVec.getLsbD_of_ge _ _ (Nat.le_of_not_lt hi)]

@[simp] theorem apply_clear (c r : BitVec w) : (⟨c, 0⟩ : MaskedWrite w).apply r = r &&& ~~~c :=
  BitVec.or_zero

@[simp] theorem apply_set (s r : BitVec w) : (⟨0, s⟩ : MaskedWrite w).apply r = r ||| s := by
  unfold apply
  rw [show ~~~(0 : BitVec w) = BitVec.allOnes w from BitVec.not_zero, BitVec.and_allOnes]

@[simp] theorem apply_keep (r : BitVec w) : (keep : MaskedWrite w).apply r = r := by
  rw [keep, apply_set]
  exact BitVec.or_zero

theorem act_set (h : m.set.getLsbD i = true) : m.act i = some true := if_pos h

theorem act_clear (hs : m.set.getLsbD i = false) (hc : m.clear.getLsbD i = true) :
    m.act i = some false := by
  unfold act
  rw [hs, if_neg Bool.false_ne_true, if_pos hc]

theorem act_eq_some_iff : m.act i = some b ↔
    m.set.getLsbD i = b ∧ (m.set.getLsbD i = true ∨ m.clear.getLsbD i = true) := by
  unfold act
  cases hs : m.set.getLsbD i <;> cases hc : m.clear.getLsbD i <;> cases b <;> simp

/-- The write touches bits of `mask` only. -/
def Within (mask : BitVec w) (m : MaskedWrite w) : Prop :=
  m.clear &&& ~~~mask = 0 ∧ m.set &&& ~~~mask = 0

theorem getLsbD_of_and_not {x mask : BitVec w} (h : x &&& ~~~mask = 0)
    (hx : x.getLsbD i = true) : mask.getLsbD i = true := by
  have hbit := congrArg (fun y : BitVec w => y.getLsbD i) h
  simpa [BitVec.lt_of_getLsbD hx, hx] using hbit

theorem and_within {c mask : BitVec w} (h : c &&& ~~~mask = 0) (x : BitVec w) :
    x &&& c &&& ~~~mask = 0 := by
  rw [BitVec.and_assoc, h]
  exact BitVec.and_zero

theorem or_within {x y mask : BitVec w} (hx : x &&& ~~~mask = 0) (hy : y &&& ~~~mask = 0) :
    (x ||| y) &&& ~~~mask = 0 := by
  rw [BitVec.and_or_distrib_right, hx, hy]
  exact BitVec.or_self

theorem Within.getLsbD {mask : BitVec w} (h : m.Within mask) (hact : m.act i = some b) :
    mask.getLsbD i = true := by
  obtain ⟨-, hs | hc⟩ := act_eq_some_iff.mp hact
  · exact getLsbD_of_and_not h.2 hs
  · exact getLsbD_of_and_not h.1 hc

/-- What a write makes of the bits of `mask`. -/
theorem act_of_mask {mask value : BitVec w} (hset : m.set &&& mask = value &&& mask)
    (hmask : mask &&& ~~~(m.clear ||| m.set) = 0) (hi : mask.getLsbD i = true) :
    m.act i = some (value.getLsbD i) := by
  have hbit := congrArg (fun y : BitVec w => y.getLsbD i) hset
  simp only [BitVec.getLsbD_and, hi, Bool.and_true] at hbit
  refine act_eq_some_iff.mpr ⟨hbit, ?_⟩
  have hor := getLsbD_of_and_not hmask hi
  rw [BitVec.getLsbD_or, Bool.or_eq_true] at hor
  exact hor.symm

@[simp] theorem act_keep (i : Nat) : (keep : MaskedWrite w).act i = none := by
  simp [act, keep]

/-- Two writes that want the same bit want the same of it. -/
def Agree (ms : List (MaskedWrite w)) : Prop :=
  ∀ m ∈ ms, ∀ m' ∈ ms, ∀ i b b', m.act i = some b → m'.act i = some b' → b = b'

theorem applyAll_concat (ms : List (MaskedWrite w)) (m : MaskedWrite w) (r : BitVec w) :
    applyAll (ms ++ [m]) r = m.apply (applyAll ms r) := by
  unfold applyAll
  rw [List.foldl_append]
  rfl

/-- A bit that no write wants stays, and what has changed one of the writes has wanted. -/
theorem applyAll_bit (ms : List (MaskedWrite w)) (r : BitVec w) (i : Nat) :
    (applyAll ms r).getLsbD i = r.getLsbD i ∧ (∀ m ∈ ms, m.act i = none) ∨
      ∃ m ∈ ms, m.act i = some ((applyAll ms r).getLsbD i) := by
  induction ms using List.reverseRecOn with
  | nil => exact .inl ⟨rfl, fun m hm => absurd hm List.not_mem_nil⟩
  | append_singleton ms m ih =>
    rw [applyAll_concat, getLsbD_apply]
    cases ha : m.act i with
    | some b => exact .inr ⟨m, by simp, ha⟩
    | none =>
      rw [Option.getD_none]
      obtain ⟨heq, hall⟩ | ⟨m', hm', hact⟩ := ih
      · refine .inl ⟨heq, fun m' hm' => ?_⟩
        obtain hm' | hm' := List.mem_append.mp hm'
        · exact hall m' hm'
        · rw [List.mem_singleton.mp hm']
          exact ha
      · exact .inr ⟨m', List.mem_append_left _ hm', hact⟩

theorem Agree.getLsbD_applyAll (h : Agree ms) (hm : m ∈ ms) (hact : m.act i = some b)
    (r : BitVec w) : (applyAll ms r).getLsbD i = b := by
  obtain ⟨-, hall⟩ | ⟨m', hm', hact'⟩ := applyAll_bit ms r i
  · cases (hall m hm).symm.trans hact
  · exact h m' hm' m hm i _ _ hact' hact

/-- Only what the writes want counts, and not where a bit has it already. -/
theorem Agree.applyAll_eq (h : Agree ms')
    (hsub : ∀ m ∈ ms, ∀ i b, m.act i = some b → ∃ m' ∈ ms', m'.act i = some b)
    (hcover : ∀ m' ∈ ms', ∀ i b, m'.act i = some b →
      (∃ m ∈ ms, m.act i = some b) ∨ r.getLsbD i = b) :
    applyAll ms r = applyAll ms' r := by
  apply BitVec.eq_of_getLsbD_eq
  intro i _
  obtain ⟨heq, hall⟩ | ⟨m, hm, hact⟩ := applyAll_bit ms r i
  · rw [heq]
    obtain ⟨heq', -⟩ | ⟨m', hm', hact'⟩ := applyAll_bit ms' r i
    · rw [heq']
    · obtain ⟨m, hm, hact⟩ | hr := hcover m' hm' i _ hact'
      · cases (hall m hm).symm.trans hact
      · exact hr
  · obtain ⟨m', hm', hact'⟩ := hsub m hm i _ hact
    exact (h.getLsbD_applyAll hm' hact' r).symm

/-- Writes that agree may be made in any order. -/
theorem Agree.applyAll_congr (h : Agree ms') (hmem : ∀ m, m ∈ ms ↔ m ∈ ms') (r : BitVec w) :
    applyAll ms r = applyAll ms' r :=
  h.applyAll_eq (fun m hm _ _ hact => ⟨m, (hmem m).mp hm, hact⟩)
    (fun m hm _ _ hact => .inl ⟨m, (hmem m).mpr hm, hact⟩)

end MaskedWrite

end DanubeBsp
