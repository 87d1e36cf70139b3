import DanubeBsp.WordMemory

namespace DanubeBsp

def setBit (w : Word) (i : Nat) : Word := w ||| (1#32 <<< i)

def clearBit (w : Word) (i : Nat) : Word := w &&& ~~~(1#32 <<< i)

theorem getLsbD_bit {i j : Nat} (hi : i < 32) : (1#32 <<< i).getLsbD j = decide (j = i) := by
  rw [BitVec.getLsbD_shiftLeft, BitVec.getLsbD_one]
  by_cases hj : j = i
  · subst hj
    simp [hi]
  · simp only [hj, decide_false]
    by_cases hlt : j < i
    · simp [hlt]
    · have hne : j - i ≠ 0 := by omega
      simp [hne]

theorem getLsbD_setBit {w : Word} {i j : Nat} (hi : i < 32) :
    (setBit w i).getLsbD j = (w.getLsbD j || decide (j = i)) := by
  rw [setBit, BitVec.getLsbD_or, getLsbD_bit hi]

theorem getLsbD_and_not (w mask : Word) (j : Nat) :
    (w &&& ~~~mask).getLsbD j = (w.getLsbD j && !mask.getLsbD j) := by
  by_cases hj : j < 32
  · simp [hj]
  · rw [BitVec.getLsbD_of_ge _ _ (by omega), BitVec.getLsbD_of_ge _ _ (by omega), Bool.false_and]

theorem getLsbD_clearBit {w : Word} {i j : Nat} (hi : i < 32) :
    (clearBit w i).getLsbD j = (w.getLsbD j && !decide (j = i)) := by
  rw [clearBit, getLsbD_and_not, getLsbD_bit hi]

theorem clearBit_zero (i : Nat) : clearBit 0 i = 0 := BitVec.zero_and

theorem and_eq_zero_iff (w mask : Word) :
    w &&& mask = 0 ↔ ∀ j, w.getLsbD j = true → mask.getLsbD j = false := by
  constructor
  · intro h j hw
    have hj := congrArg (fun x : Word => x.getLsbD j) h
    simpa [hw] using hj
  · intro h
    apply BitVec.eq_of_getLsbD_eq
    intro j hj
    cases hw : w.getLsbD j with
    | false => simp [hw]
    | true => simp [hw, h j hw]

/-- The test `(w & mask) ^ mask`: all bits of the mask are set. -/
theorem and_xor_eq_zero_iff (w mask : Word) :
    (w &&& mask) ^^^ mask = 0 ↔ ∀ j, mask.getLsbD j = true → w.getLsbD j = true := by
  constructor
  · intro h j hm
    have hj := congrArg (fun x : Word => x.getLsbD j) h
    simpa [hm] using hj
  · intro h
    apply BitVec.eq_of_getLsbD_eq
    intro j hj
    cases hm : mask.getLsbD j with
    | false => simp [hm]
    | true => simp [hm, h j hm]

theorem eq_zero_iff_getLsbD (w : Word) : w = 0 ↔ ∀ j, w.getLsbD j = false := by
  constructor
  · intro h j
    simp [h]
  · intro h
    apply BitVec.eq_of_getLsbD_eq
    intro j _
    simp [h j]

theorem toNat_alignDown (w : Word) : (w &&& ~~~3#32).toNat = w.toNat / 4 * 4 := by
  have hmask : ∀ i < 32, (~~~3#32).getLsbD i = decide (2 ≤ i) := by decide
  have hshift : w &&& ~~~3#32 = (w >>> 2) <<< 2 := by
    apply BitVec.eq_of_getLsbD_eq
    intro i hi
    rw [BitVec.getLsbD_and, hmask i hi, BitVec.getLsbD_shiftLeft, BitVec.getLsbD_ushiftRight,
      decide_eq_true hi]
    by_cases htwo : 2 ≤ i
    · have hsum : 2 + (i - 2) = i := by omega
      rw [hsum, decide_eq_true htwo, decide_eq_false (Nat.not_lt.mpr htwo), Bool.and_true,
        Bool.not_false, Bool.true_and, Bool.true_and]
    · rw [decide_eq_false htwo, decide_eq_true (Nat.not_le.mp htwo), Bool.and_false, Bool.not_true,
        Bool.and_false, Bool.false_and]
  have hlt := w.isLt
  rw [hshift, BitVec.toNat_shiftLeft, BitVec.toNat_ushiftRight, Nat.shiftRight_eq_div_pow,
    Nat.shiftLeft_eq]
  omega

end DanubeBsp
