import DanubeBsp.PciConfig
import DanubeBsp.WordBits

namespace DanubeBsp

section Bytes

variable {w : Word} {i j k size : Nat} {bytes : Byte → Byte} {off x : Byte}

theorem getLsbD_leByte (hi : i < 4) (w : Word) (t : Nat) :
    (leByte w i).getLsbD t = (decide (t < 8) && w.getLsbD (8 * i + t)) := by
  unfold leByte beByte
  rw [BitVec.getLsbD_extractLsb', show 24 - 8 * (3 - i) + t = 8 * i + t by omega]

theorem leByte_leWord {b₀ b₁ b₂ b₃ : Byte} :
    leByte (leWord b₀ b₁ b₂ b₃) 0 = b₀ ∧ leByte (leWord b₀ b₁ b₂ b₃) 1 = b₁ ∧
      leByte (leWord b₀ b₁ b₂ b₃) 2 = b₂ ∧ leByte (leWord b₀ b₁ b₂ b₃) 3 = b₃ :=
  ⟨beByte_beWord_three _ _ _ _, beByte_beWord_two _ _ _ _, beByte_beWord_one _ _ _ _,
    beByte_beWord_zero _ _ _ _⟩

theorem leWord_leByte (w : Word) :
    leWord (leByte w 0) (leByte w 1) (leByte w 2) (leByte w 3) = w := beWord_beByte w

/-- A word is given by its bytes. -/
theorem eq_of_leByte {v w : Word} (h : ∀ i, i < 4 → leByte v i = leByte w i) : v = w := by
  rw [← leWord_leByte v, ← leWord_leByte w, h 0 (by decide), h 1 (by decide), h 2 (by decide),
    h 3 (by decide)]

theorem leByte_cfgDword (hi : i < 4) (bytes : Byte → Byte) (off : Byte) :
    leByte (cfgDword bytes off) i = bytes (off + BitVec.ofNat 8 i) := by
  obtain ⟨h0, h1, h2, h3⟩ := @leByte_leWord (bytes off) (bytes (off + 1)) (bytes (off + 2))
    (bytes (off + 3))
  unfold cfgDword
  match i with
  | 0 =>
    rw [h0]
    exact congrArg bytes (BitVec.add_zero off).symm
  | 1 => exact h1
  | 2 => exact h2
  | 3 => exact h3

theorem toNat_alignedOff (off : Byte) : (off &&& ~~~3).toNat = off.toNat / 4 * 4 := by
  revert off
  decide +kernel

/-- A word in which `size` bytes from byte `k` on are masked out and put in. -/
theorem leByte_merge {data val mask : Word} (hj : j < 4)
    (hmask : ∀ t, mask.getLsbD t = decide (t < 8 * size))
    (hval : ∀ t, 8 * size ≤ t → val.getLsbD t = false) :
    leByte ((data &&& ~~~(mask <<< (8 * k))) ||| (val <<< (8 * k))) j =
      if k ≤ j ∧ j < k + size then leByte val (j - k) else leByte data j := by
  apply BitVec.eq_of_getLsbD_eq
  intro t ht
  have hin : 8 * j + t < 32 := by omega
  rw [getLsbD_leByte hj, decide_eq_true ht, Bool.true_and, BitVec.getLsbD_or, getLsbD_and_not,
    BitVec.getLsbD_shiftLeft, BitVec.getLsbD_shiftLeft, decide_eq_true hin, Bool.true_and, hmask]
  by_cases hlow : 8 * j + t < 8 * k
  · rw [decide_eq_true hlow, if_neg (by omega), getLsbD_leByte hj, decide_eq_true ht]
    simp only [Bool.not_true, Bool.false_and, Bool.not_false, Bool.and_true, Bool.or_false,
      Bool.true_and]
  · rw [decide_eq_false hlow]
    by_cases hhigh : j < k + size
    · have hmasked : 8 * j + t - 8 * k < 8 * size := by omega
      have hpos : 8 * j + t - 8 * k = 8 * (j - k) + t := by omega
      rw [decide_eq_true hmasked, if_pos ⟨by omega, hhigh⟩, getLsbD_leByte (by omega),
        decide_eq_true ht, hpos]
      simp only [Bool.not_false, Bool.true_and, Bool.not_true, Bool.and_false, Bool.false_or]
    · have hout : ¬8 * j + t - 8 * k < 8 * size := by omega
      rw [decide_eq_false hout, if_neg (by omega), getLsbD_leByte hj, decide_eq_true ht,
        hval _ (by omega)]
      simp only [Bool.not_false, Bool.and_false, Bool.and_true, Bool.or_false, Bool.true_and]

/-- `size` bytes of a word from byte `k` on, brought down. -/
theorem leByte_extract {d mask : Word} (hj : j < 4) (hfit : k + size ≤ 4)
    (hmask : ∀ t, mask.getLsbD t = decide (t < 8 * size)) :
    leByte ((d >>> (8 * k)) &&& mask) j = if j < size then leByte d (k + j) else 0 := by
  apply BitVec.eq_of_getLsbD_eq
  intro t ht
  rw [getLsbD_leByte hj, decide_eq_true ht, Bool.true_and, BitVec.getLsbD_and,
    BitVec.getLsbD_ushiftRight, hmask]
  by_cases hin : j < size
  · have hpos : 8 * k + (8 * j + t) = 8 * (k + j) + t := by omega
    rw [if_pos hin, getLsbD_leByte (by omega), decide_eq_true ht, Bool.true_and, hpos,
      decide_eq_true (by omega), Bool.and_true]
  · have hzero : (0 : Byte).getLsbD t = false := BitVec.getLsbD_zero
    rw [if_neg hin, hzero, decide_eq_false (by omega), Bool.and_false]

theorem setWidth_setWidth_masked {n : Nat} {x : Word} (hhigh : ∀ t, n ≤ t → x.getLsbD t = false) :
    (x.setWidth n).setWidth 32 = x := by
  apply BitVec.eq_of_getLsbD_eq
  intro t ht
  rw [BitVec.getLsbD_setWidth, BitVec.getLsbD_setWidth, decide_eq_true ht, Bool.true_and]
  by_cases hn : t < n
  · rw [decide_eq_true hn, Bool.true_and]
  · rw [decide_eq_false hn, Bool.false_and, hhigh t (by omega)]

end Bytes

section Space

variable {bytes : Byte → Byte} {off x : Byte} {i : Nat}

theorem toNat_sub_alignedOff (hi : i < 256) :
    (off + BitVec.ofNat 8 i - off).toNat = i := by
  rw [BitVec.toNat_sub, BitVec.toNat_add, BitVec.toNat_ofNat]
  have hoff := off.isLt
  omega

theorem putDword_at (hi : i < 4) (bytes : Byte → Byte) (off : Byte) (d : Word) :
    putDword bytes off d (off + BitVec.ofNat 8 i) = leByte d i := by
  unfold putDword
  rw [toNat_sub_alignedOff (by omega), if_pos hi]

theorem cfgDword_putDword (bytes : Byte → Byte) (off : Byte) (d : Word) :
    cfgDword (putDword bytes off d) off = d := by
  apply eq_of_leByte
  intro i hi
  rw [leByte_cfgDword hi, putDword_at hi]

theorem eq_alignedOff_add (off : Byte) :
    off = (off &&& ~~~3) + BitVec.ofNat 8 (off.toNat % 4) := by
  have hoff := off.isLt
  apply BitVec.eq_of_toNat_eq
  rw [BitVec.toNat_add, toNat_alignedOff, BitVec.toNat_ofNat]
  omega

/-- A word that is put back with `size` bytes changed is a store of these bytes. -/
theorem putDword_eq_written {size : Nat} {d val : Word}
    (hfit : off.toNat % 4 + size ≤ 4)
    (hd : ∀ j, j < 4 → leByte d j = if off.toNat % 4 ≤ j ∧ j < off.toNat % 4 + size then
      leByte val (j - off.toNat % 4) else bytes ((off &&& ~~~3) + BitVec.ofNat 8 j)) :
    putDword bytes (off &&& ~~~3) d =
      fun x => if (x - off).toNat < size then leByte val (x - off).toNat else bytes x := by
  have hoff := off.isLt
  have halign := toNat_alignedOff off
  funext x
  have hx := x.isLt
  unfold putDword
  rw [BitVec.toNat_sub, BitVec.toNat_sub, halign]
  by_cases hin : (2 ^ 8 - off.toNat / 4 * 4 + x.toNat) % 2 ^ 8 < 4
  · rw [if_pos hin, hd _ hin]
    have hback : (off &&& ~~~3) +
        BitVec.ofNat 8 ((2 ^ 8 - off.toNat / 4 * 4 + x.toNat) % 2 ^ 8) = x := by
      apply BitVec.eq_of_toNat_eq
      rw [BitVec.toNat_add, BitVec.toNat_ofNat, halign]
      omega
    rw [hback]
    by_cases hbytes : (2 ^ 8 - off.toNat + x.toNat) % 2 ^ 8 < size
    · have hpos : (2 ^ 8 - off.toNat / 4 * 4 + x.toNat) % 2 ^ 8 - off.toNat % 4 =
          (2 ^ 8 - off.toNat + x.toNat) % 2 ^ 8 := by omega
      rw [if_pos hbytes, if_pos (by omega), hpos]
    · rw [if_neg hbytes, if_neg (by omega)]
  · rw [if_neg hin, if_neg (by omega)]

end Space

end DanubeBsp
