import Mathlib.Data.BitVec

namespace DanubeBsp

/-- `p` is the lowest bit that is set. -/
structure LowestBit {w : Nat} (x : BitVec w) (p : Nat) : Prop where
  set : x.getLsbD p = true
  below : ∀ j, j < p → x.getLsbD j = false

/-- How far `x` can be shifted in a step of `k`, so that it does not become zero. -/
def bringUp {w : Nat} (k : Nat) (x : BitVec w) : Nat := if x <<< k = 0 then 0 else k

section LowestBit

variable {w k p q : Nat} {x : BitVec w}

theorem LowestBit.of_ne_zero (h : x ≠ 0) : LowestBit x x.ctz.toNat :=
  ⟨BitVec.getLsbD_true_ctz_of_ne_zero h, fun _ hj => BitVec.getLsbD_false_of_lt_ctz hj⟩

theorem LowestBit.lt (h : LowestBit x p) : p < w := BitVec.lt_of_getLsbD h.set

theorem LowestBit.unique (hp : LowestBit x p) (hq : LowestBit x q) : p = q := by
  have hpset := hp.set
  have hqset := hq.set
  rcases Nat.lt_trichotomy p q with hlt | heq | hgt
  · rw [hq.below p hlt] at hpset
    exact nomatch hpset
  · exact heq
  · rw [hp.below q hgt] at hqset
    exact nomatch hqset

theorem LowestBit.shiftLeft (h : LowestBit x p) (hk : p + k < w) :
    LowestBit (x <<< k) (p + k) := by
  refine ⟨?_, ?_⟩
  · rw [BitVec.getLsbD_shiftLeft, Nat.add_sub_cancel, h.set]
    simp only [hk, decide_true, Bool.true_and, Bool.and_true, Bool.not_eq_true', decide_eq_false_iff_not]
    omega
  · intro j hj
    rw [BitVec.getLsbD_shiftLeft]
    by_cases hlow : j < k
    · rw [decide_eq_true hlow, Bool.not_true, Bool.and_false, Bool.false_and]
    · rw [h.below (j - k) (by omega), Bool.and_false]

theorem LowestBit.shiftLeft_eq_zero_iff (h : LowestBit x p) : x <<< k = 0 ↔ w ≤ p + k := by
  constructor
  · intro hzero
    by_contra hlt
    have hset := (h.shiftLeft (Nat.lt_of_not_le hlt)).set
    rw [hzero] at hset
    exact nomatch (BitVec.getLsbD_zero.symm.trans hset)
  · intro hle
    apply BitVec.eq_of_getLsbD_eq
    intro i hi
    have hzero : (0 : BitVec w).getLsbD i = false := BitVec.getLsbD_zero
    rw [BitVec.getLsbD_shiftLeft, hzero]
    by_cases hlow : i < k
    · rw [decide_eq_true hlow, Bool.not_true, Bool.and_false, Bool.false_and]
    · rw [h.below (i - k) (by omega), Bool.and_false]

/-- One step of a binary search: the lowest bit gets into the upper `k` bits, if it was in the upper
`2 * k`. -/
theorem LowestBit.bringUp (h : LowestBit x p) (hroom : w ≤ p + 2 * k) :
    LowestBit (x <<< bringUp k x) (p + DanubeBsp.bringUp k x) ∧ w ≤ p + DanubeBsp.bringUp k x + k := by
  unfold DanubeBsp.bringUp
  split_ifs with hzero
  · refine ⟨?_, h.shiftLeft_eq_zero_iff.mp hzero⟩
    rw [BitVec.shiftLeft_zero]
    exact h
  · rw [h.shiftLeft_eq_zero_iff] at hzero
    exact ⟨h.shiftLeft (Nat.lt_of_not_le hzero), by omega⟩

end LowestBit

end DanubeBsp
