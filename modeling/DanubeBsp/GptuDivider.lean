import DanubeBsp.Uint64

namespace DanubeBsp

/-- The result of `cal_divider` and what it is calculated from: no intermediate word is cut, and the
hardware's divider, one more than the result, is a nearest one. -/
structure NearestDivider (fpiBusClock freq : Word) : Prop where
  product : value64 (uint64Multiply fpiBusClock 1000) = fpiBusClock.toNat * 1000
  quotient : (uint64Divide (uint64Multiply fpiBusClock 1000) freq).1.toNat =
    fpiBusClock.toNat * 1000 / freq.toNat
  doubled : ((uint64Divide (uint64Multiply fpiBusClock 1000) freq).2 <<< 1).toNat =
    2 * (uint64Divide (uint64Multiply fpiBusClock 1000) freq).2.toNat
  nearest : 2 * |((fpiBusClock.toNat * 1000 : ℕ) : ℤ) -
    ((calDivider fpiBusClock freq).toNat + 1) * freq.toNat| ≤ freq.toNat

/-- The quotient has 32 bits, and no prefix of the dividend leaves a residue of more than 31. -/
structure DividerFits (fpiBusClock freq : Word) : Prop where
  freq_ne : freq ≠ 0
  quotient_lt : fpiBusClock.toNat * 1000 / freq.toNat < 2 ^ 32
  residue_lt : ∀ m, fpiBusClock.toNat * 1000 / 2 ^ m % freq.toNat < 2 ^ 31

section Divider

variable {fpiBusClock freq : Word}

theorem product_exact (fpiBusClock : Word) :
    value64 (uint64Multiply fpiBusClock 1000) = fpiBusClock.toNat * 1000 := by
  have hlt := fpiBusClock.isLt
  refine uint64Multiply_exact (b := 1000) ?_
  show fpiBusClock.toNat * 1000 < 2 ^ 48
  omega

theorem toNat_double_eq_iff {x : Word} : (x <<< 1).toNat = 2 * x.toNat ↔ x.toNat < 2 ^ 31 := by
  have hlt := x.isLt
  rw [toNat_shiftLeft_one]
  omega

theorem DividerFits.divides (h : DividerFits fpiBusClock freq) :
    (uint64Divide (uint64Multiply fpiBusClock 1000) freq).1.toNat =
        fpiBusClock.toNat * 1000 / freq.toNat ∧
      (uint64Divide (uint64Multiply fpiBusClock 1000) freq).2.toNat =
        fpiBusClock.toNat * 1000 % freq.toNat := by
  have hprefixes : PrefixesFit 31 freq.toNat (fpiBusClock.toNat * 1000) := by
    intro m
    exact h.residue_lt (m + 1)
  rw [← product_exact] at hprefixes
  obtain ⟨hresidue, hquotient⟩ := (uint64Divide_exact_iff _ _ h.freq_ne).mpr hprefixes
  rw [product_exact] at hresidue hquotient
  rw [Nat.mod_eq_of_lt h.quotient_lt] at hquotient
  exact ⟨hquotient, hresidue⟩

/-- A divider that is found is the nearest one, halves up, less one. -/
theorem DividerFits.calDivider_eq (h : DividerFits fpiBusClock freq)
    (hd : calDivider fpiBusClock freq ≠ 0) :
    (calDivider fpiBusClock freq).toNat + 1 =
      DanubeBsp.nearest (fpiBusClock.toNat * 1000) freq.toNat := by
  have hpos := toNat_pos h.freq_ne
  obtain ⟨hquotient, hresidue⟩ := h.divides
  have hlast := h.residue_lt 0
  rw [Nat.pow_zero, Nat.div_one, ← hresidue] at hlast
  have hdouble := toNat_double_eq_iff.mpr hlast
  rw [nearest_eq hpos, ← hquotient, ← hresidue, ← hdouble]
  unfold calDivider at hd ⊢
  dsimp only at hd ⊢
  generalize uint64Divide (uint64Multiply fpiBusClock 1000) freq = ret at hd ⊢
  by_cases hup : freq.toNat ≤ (ret.2 <<< 1).toNat
  · have hnot : ¬(ret.2 <<< 1 < freq ∧ 0 < ret.1) := by
      intro hdown
      exact absurd (BitVec.lt_def.mp hdown.1) (Nat.not_lt_of_le hup)
    rw [if_neg hnot, if_pos hup]
  · have hdown : ret.2 <<< 1 < freq := BitVec.lt_def.mpr (Nat.lt_of_not_le hup)
    rw [if_neg hup]
    by_cases hret : 0 < ret.1
    · have hone : 0 < ret.1.toNat := BitVec.lt_def.mp hret
      have hle : 1 ≤ ret.1 := BitVec.le_def.mpr hone
      rw [if_pos ⟨hdown, hret⟩, BitVec.toNat_sub_of_le hle]
      show ret.1.toNat - 1 + 1 = ret.1.toNat + 0
      omega
    · rw [if_neg (fun hboth => hret hboth.2)] at hd
      have hone : (0#32).toNat < ret.1.toNat := toNat_pos hd
      exact absurd (BitVec.lt_def.mpr hone) hret

/-- A divider other than 0 is the nearest one exactly as long as the words of the division hold what
they are meant to. -/
theorem calDivider_nearest_iff (hd : calDivider fpiBusClock freq ≠ 0) :
    NearestDivider fpiBusClock freq ↔ DividerFits fpiBusClock freq := by
  constructor
  · intro h
    have hne : freq ≠ 0 := by
      intro hzero
      have hquotient := h.quotient
      rw [hzero] at hquotient hd
      have hret : (uint64Divide (uint64Multiply fpiBusClock 1000) 0).1 = 0 := by
        refine BitVec.eq_of_toNat_eq ?_
        rw [hquotient]
        exact Nat.div_zero _
      unfold calDivider at hd
      dsimp only at hd
      rw [hret, if_neg (fun hboth => absurd hboth.2 (by decide))] at hd
      exact hd rfl
    have hpos := toNat_pos hne
    have hquotient := h.quotient
    have hresidue := toNat_double_eq_iff.mp h.doubled
    obtain ⟨rest, s, heq, hruns⟩ := uint64Divide_runs (uint64Multiply fpiBusClock 1000) hpos
    rw [heq] at hquotient hresidue
    dsimp only at hquotient hresidue
    rw [hruns.quotient, product_exact] at hquotient
    rw [hruns.residue, product_exact] at hresidue
    have hlost := divided_lost_of_quotient hpos (Nat.le_of_lt freq.isLt) hquotient
    have hprefixes := (divided_lost_eq_zero_iff (w := 31) hpos _).mp hlost
    refine ⟨hne, ?_, ?_⟩
    · rw [← hquotient]
      exact Nat.mod_lt _ (Nat.two_pow_pos 32)
    · intro m
      cases m with
      | zero =>
        rw [Nat.pow_zero, Nat.div_one, ← (divided_exact hpos hlost).2]
        exact hresidue
      | succ m => exact hprefixes m
  · intro h
    obtain ⟨hquotient, hresidue⟩ := h.divides
    have hlast := h.residue_lt 0
    rw [Nat.pow_zero, Nat.div_one, ← hresidue] at hlast
    refine ⟨product_exact _, hquotient, toNat_double_eq_iff.mpr hlast, ?_⟩
    have hnearest : ((calDivider fpiBusClock freq).toNat : ℤ) + 1 =
        DanubeBsp.nearest (fpiBusClock.toNat * 1000) freq.toNat := by
      exact_mod_cast h.calDivider_eq hd
    rw [hnearest]
    exact two_mul_abs_sub_nearest_le (toNat_pos h.freq_ne)

/-- The divider for 1 MHz. -/
theorem calDivider_nearest_iff_megahertz :
    NearestDivider 133333333 1000000000 ↔ DividerFits 133333333 1000000000 :=
  calDivider_nearest_iff (by decide +kernel)

/-- 3 MHz would be the clock divided by 44: a bit is lost, and 31 is returned. -/
theorem calDivider_three_megahertz :
    calDivider 133333333 3000000000 ≠ 0 ∧ ¬ NearestDivider 133333333 3000000000 := by
  refine ⟨by decide +kernel, ?_⟩
  intro h
  have hquotient := h.quotient
  revert hquotient
  decide +kernel

end Divider

end DanubeBsp
