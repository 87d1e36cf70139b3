import Mathlib.Data.BitVec
import Mathlib.Data.List.Pairwise

namespace DanubeBsp

/-- A value, and the bits of a word of `w` bits that are for it. -/
structure PackedField (w : Nat) where
  lo : Nat
  width : Nat
  val : BitVec w

namespace PackedField

variable {w : Nat}

def Fits (f : PackedField w) : Prop := ∀ j, f.width ≤ j → f.val.getLsbD j = false

def Apart (f g : PackedField w) : Prop := f.lo + f.width ≤ g.lo ∨ g.lo + g.width ≤ f.lo

instance (f g : PackedField w) : Decidable (f.Apart g) := inferInstanceAs (Decidable (_ ∨ _))

end PackedField

theorem PackedField.fits_ofNat {w lo width n : Nat} (hn : n < 2 ^ width) :
    (⟨lo, width, BitVec.ofNat w n⟩ : PackedField w).Fits := by
  intro j hj
  have hlt : n < 2 ^ j := Nat.lt_of_lt_of_le hn (Nat.pow_le_pow_right Nat.two_pos hj)
  simp [BitVec.getLsbD_ofNat, Nat.testBit_lt_two_pow hlt]

/-- The mask has the `width` bits from `lo` on. -/
def MasksBits {w : Nat} (lo width : Nat) (mask : BitVec w) : Prop :=
  ∀ i, i < w → mask.getLsbD i = decide (lo ≤ i ∧ i < lo + width)

instance {w : Nat} (lo width : Nat) (mask : BitVec w) : Decidable (MasksBits lo width mask) :=
  inferInstanceAs (Decidable (∀ i, i < w → _))

/-- Masked bits are all 0 if they are 0 when moved to the bottom. -/
theorem and_eq_zero_of_shift {w lo width : Nat} {mask : BitVec w} (hmask : MasksBits lo width mask)
    {x : BitVec w} (h : (x &&& mask) >>> lo = 0) : x &&& mask = 0 := by
  apply BitVec.eq_of_getLsbD_eq
  intro i hi
  rw [BitVec.getLsbD_and, hmask i hi]
  by_cases hin : lo ≤ i ∧ i < lo + width
  · have hbit := congrArg (fun y : BitVec w => y.getLsbD (i - lo)) h
    have hpos : lo + (i - lo) = i := by omega
    simp only [BitVec.getLsbD_ushiftRight, BitVec.getLsbD_and, hpos, hmask i hi,
      decide_eq_true hin, Bool.and_true] at hbit
    rw [hbit, BitVec.ofNat_eq_ofNat, BitVec.getLsbD_zero, BitVec.getLsbD_zero, Bool.false_and]
  · rw [decide_eq_false hin, Bool.and_false]
    exact BitVec.getLsbD_zero.symm

section Packing

variable {w : Nat} {fs : List (PackedField w)} {f : PackedField w}

def packFields : List (PackedField w) → BitVec w
  | [] => 0
  | f :: fs => f.val <<< f.lo ||| packFields fs

theorem PackedField.Fits.getLsbD_outside (hf : f.Fits) {i : Nat}
    (hi : ¬(f.lo ≤ i ∧ i < f.lo + f.width)) : (f.val <<< f.lo).getLsbD i = false := by
  rw [BitVec.getLsbD_shiftLeft]
  by_cases hlo : i < f.lo
  · simp [hlo]
  · rw [hf (i - f.lo) (by omega), Bool.and_false]

theorem packFields_outside (hfit : ∀ f ∈ fs, f.Fits) {i : Nat}
    (hi : ∀ f ∈ fs, ¬(f.lo ≤ i ∧ i < f.lo + f.width)) : (packFields fs).getLsbD i = false := by
  induction fs with
  | nil => exact BitVec.getLsbD_zero
  | cons f fs ih =>
    rw [packFields, BitVec.getLsbD_or,
      (hfit f List.mem_cons_self).getLsbD_outside (hi f List.mem_cons_self), Bool.false_or]
    exact ih (fun g hg => hfit g (List.mem_cons_of_mem f hg))
      fun g hg => hi g (List.mem_cons_of_mem f hg)

/-- The bits of a field hold its value if the fields are apart. -/
theorem getLsbD_packFields (hfit : ∀ f ∈ fs, f.Fits) (hapart : fs.Pairwise PackedField.Apart)
    (hf : f ∈ fs) {j : Nat} (hj : j < f.width) (hroom : f.lo + f.width ≤ w) :
    (packFields fs).getLsbD (f.lo + j) = f.val.getLsbD j := by
  induction fs with
  | nil => exact absurd hf List.not_mem_nil
  | cons g fs ih =>
    obtain ⟨hhead, htail⟩ := List.pairwise_cons.mp hapart
    rw [packFields, BitVec.getLsbD_or]
    rcases List.mem_cons.mp hf with rfl | hmem
    · have hrest : (packFields fs).getLsbD (f.lo + j) = false := by
        refine packFields_outside (fun g hg => hfit g (List.mem_cons_of_mem f hg)) ?_
        intro g hg hin
        rcases hhead g hg with hle | hle
        · omega
        · omega
      have hbit : f.lo + j < w := by omega
      rw [hrest, Bool.or_false, BitVec.getLsbD_shiftLeft, Nat.add_sub_cancel_left]
      simp [hbit]
    · have hout : ¬(g.lo ≤ f.lo + j ∧ f.lo + j < g.lo + g.width) := by
        intro hin
        rcases hhead f hmem with hle | hle
        · omega
        · omega
      rw [(hfit g List.mem_cons_self).getLsbD_outside hout, Bool.false_or]
      exact ih (fun h hh => hfit h (List.mem_cons_of_mem g hh)) htail hmem

/-- A field that is read back with its mask has its value. -/
theorem field_packFields (hfit : ∀ f ∈ fs, f.Fits) (hapart : fs.Pairwise PackedField.Apart)
    (hf : f ∈ fs) (hroom : f.lo + f.width ≤ w) {mask : BitVec w}
    (hmask : MasksBits f.lo f.width mask) :
    (packFields fs &&& mask) >>> f.lo = f.val := by
  apply BitVec.eq_of_getLsbD_eq
  intro j hj
  rw [BitVec.getLsbD_ushiftRight, BitVec.getLsbD_and]
  by_cases hin : j < f.width
  · have hbit : mask.getLsbD (f.lo + j) = true := by
      rw [hmask _ (by omega)]
      exact decide_eq_true ⟨by omega, by omega⟩
    rw [hbit, Bool.and_true, getLsbD_packFields hfit hapart hf hin hroom]
  · rw [hfit f hf j (by omega)]
    by_cases hw : f.lo + j < w
    · rw [hmask _ hw, decide_eq_false (by omega), Bool.and_false]
    · rw [BitVec.getLsbD_of_ge _ _ (by omega), Bool.false_and]

end Packing

end DanubeBsp
