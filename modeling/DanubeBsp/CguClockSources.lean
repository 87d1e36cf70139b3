import DanubeBsp.CguClockPlan

namespace DanubeBsp

namespace Cgu

variable (c : Cgu)

/-- The three PLL frequencies fit in 32 bits. -/
structure Fits : Prop where
  pll0 : c.pll0Frequency < 2 ^ 32
  pll1 : c.pll1Frequency < 2 ^ 32
  pll2 : c.pll2Frequency < 2 ^ 32

def sourceFrequency : ClockSource → ℤ
  | .pll0 => c.pll0Frequency
  | .pll1 => c.pll1Frequency
  | .pll2 => c.pll2Frequency
  | .fixed => 1

/-- The getter of the source has a `return`, and the sum in the output divider of PLL0 fits where PLL2
starts from it. -/
def SourceGiven : ClockSource → Prop
  | .pll0 => c.pll0Bypass = false
  | .pll1 => c.pll1Bypass = false
  | .pll2 => c.pll2Src = 0 →
      c.pll0Bypass = false ∧ c.pll0Frequency + (c.pll2InputDiv.toNat + 1) / 2 < 2 ^ 32
  | .fixed => True

end Cgu

section Bounds

variable {clock b : ℤ} {m n : Nat} {f : ℚ}

theorem le_round {x : ℚ} (h : (b : ℚ) ≤ x) : b ≤ round x := by
  rw [round_eq]
  exact Int.le_floor.mpr (by linarith)

theorem pllFrequency_ge (hm : m < 16) (hf : 0 ≤ f) (hb : 0 ≤ b) (h : 16 * b ≤ clock) :
    b ≤ pllFrequency clock m n f := by
  have hm' : (m : ℚ) + 1 ≤ 16 := by exact_mod_cast Nat.succ_le_of_lt hm
  have hclock : (16 : ℚ) * b ≤ clock := by exact_mod_cast h
  have hb' : (0 : ℚ) ≤ b := by exact_mod_cast hb
  have hn : (0 : ℚ) ≤ n := Nat.cast_nonneg n
  refine le_round ?_
  rw [le_div_iff₀ (by positivity)]
  calc (b : ℚ) * (m + 1) ≤ b * 16 := mul_le_mul_of_nonneg_left hm' hb'
    _ ≤ clock * 1 := by linarith
    _ ≤ clock * (n + 1 + f) := mul_le_mul_of_nonneg_left (by linarith) (by linarith)

theorem pllFraction_nonneg (dsmsel phaseDivEn : Bool) (k : Nat) :
    0 ≤ pllFraction dsmsel phaseDivEn k := by
  unfold pllFraction
  split_ifs with hsel hdiv hk
  · positivity
  · positivity
  · have hk' : (512 : ℚ) ≤ k := by exact_mod_cast hk
    exact div_nonneg (by linarith) (by norm_num)
  · positivity

theorem inputFrequency_ge (usb phaseDiv : Bool) : 12000000 ≤ inputFrequency usb phaseDiv := by
  unfold inputFrequency
  split_ifs
  · norm_num
  · norm_num
  · norm_num

end Bounds

namespace Cgu

variable (c : Cgu)

theorem pll0Frequency_ge : 750000 ≤ c.pll0Frequency := by
  have hclock : 12000000 ≤ c.pll0Clock := inputFrequency_ge _ _
  have hm : c.pll0M.toNat < 2 ^ 4 := getBits_lt _ (by decide) rfl
  rw [pll0Frequency]
  cases c.pll0Bypass with
  | true =>
    rw [if_pos rfl]
    omega
  | false =>
    rw [if_neg Bool.false_ne_true]
    exact pllFrequency_ge hm (pllFraction_nonneg _ _ _) (by norm_num) (by omega)

/-- The third source of PLL2 is not slow, so that only the one that is not there gives a zero. -/
theorem pll2Clock_cases : c.pll2Clock = 0 ∧ c.pll2Src ≠ 0 ∨ 46875 ≤ c.pll2Clock := by
  unfold pll2Clock
  split_ifs with h0 h1 h2
  · right
    have hdiv : c.pll2InputDiv.toNat < 2 ^ 4 := getBits_lt _ (by decide) rfl
    have hdiv' : (c.pll2InputDiv.toNat : ℚ) + 1 ≤ 16 := by exact_mod_cast Nat.succ_le_of_lt hdiv
    have hge : (750000 : ℚ) ≤ c.pll0Frequency := by exact_mod_cast c.pll0Frequency_ge
    refine le_round ?_
    rw [le_div_iff₀ (by positivity)]
    push_cast
    linarith
  · exact Or.inr (le_trans (by norm_num) (inputFrequency_ge _ _))
  · exact Or.inr (le_trans (by norm_num) (inputFrequency_ge _ _))
  · exact Or.inl ⟨rfl, h0⟩

theorem pll2Frequency_cases : c.pll2Frequency = 0 ∧ c.pll2Src ≠ 0 ∨ 2929 ≤ c.pll2Frequency := by
  have hm : c.pll2M.toNat < 2 ^ 4 := getBits_lt _ (by decide) rfl
  unfold pll2Frequency
  rcases c.pll2Clock_cases with ⟨hzero, hsrc⟩ | hge
  · left
    refine ⟨?_, hsrc⟩
    rw [hzero]
    split_ifs
    · rfl
    · rw [pllFrequency, Int.cast_zero, zero_mul, zero_div, round_zero]
  · right
    split_ifs
    · omega
    · exact pllFrequency_ge hm le_rfl (by norm_num) (by omega)

section Words

variable {left : Word} {depth : Nat} {source : ClockSource} {w : Word}

/-- PLL0 has some value, bypassed or not. -/
theorem pll0_some (left : Word) (depth : Nat) : ∃ w, c.cguGetPll0Fosc left (depth + 1) = some w := by
  cases hb : c.pll0Bypass with
  | false =>
    obtain ⟨f, -, -, hvalue⟩ := c.pll0_value hb
    obtain ⟨w, hw, -⟩ := hvalue left depth
    exact ⟨w, hw⟩
  | true =>
    refine ⟨left, ?_⟩
    rw [cguGetPll0Fosc, pll0Fosc, if_pos hb]
    rfl

theorem pll1_some (left : Word) (depth : Nat) : ∃ w, c.cguGetPll1Fosc left (depth + 1) = some w := by
  cases hb : c.pll1Bypass with
  | false =>
    obtain ⟨f, -, -, hvalue⟩ := c.pll1_value hb
    obtain ⟨w, hw, -⟩ := hvalue left depth
    exact ⟨w, hw⟩
  | true =>
    refine ⟨left, ?_⟩
    rw [cguGetPll1Fosc, pll1Fosc, if_pos hb]
    rfl

theorem pll2_some (left : Word) (depth : Nat) : ∃ w, c.cguGetPll2Fosc left (depth + 2) = some w := by
  by_cases hsrc : c.pll2Src = 0
  · obtain ⟨fosc, hfosc⟩ := c.pll0_some left depth
    obtain ⟨clock, hget, -⟩ := c.pll2Clock_divided left hsrc hfosc
    obtain ⟨w, hw, -⟩ := c.pll2_value left hget
    exact ⟨w, hw⟩
  · obtain ⟨clock, hget, -⟩ := c.pll2Clock_outside left hsrc (depth + 1)
    obtain ⟨w, hw, -⟩ := c.pll2_value left hget
    exact ⟨w, hw⟩

theorem words_some (left : Word) (hdepth : 2 ≤ depth) :
    ∃ words : ClockSource → Word, ∀ source, c.sourceWord left depth source = some (words source) := by
  obtain ⟨depth, rfl⟩ := Nat.exists_eq_add_of_le' hdepth
  have hsome (source : ClockSource) : ∃ w, c.sourceWord left (depth + 2) source = some w := by
    cases source with
    | pll0 => exact c.pll0_some left (depth + 1)
    | pll1 => exact c.pll1_some left (depth + 1)
    | pll2 => exact c.pll2_some left depth
    | fixed => exact ⟨1#32, rfl⟩
  exact Classical.skolem.mp hsome

/-- The word of a source is its frequency. -/
theorem word_given (hfits : c.Fits) (h : c.SourceGiven source) (hdepth : 2 ≤ depth)
    (hw : c.sourceWord left depth source = some w) : (w.toNat : ℤ) = c.sourceFrequency source := by
  cases source with
  | pll0 =>
    obtain ⟨v, hv, heq⟩ := c.pll0_returns h left depth hdepth
    cases Option.some.inj (hv.symm.trans hw)
    exact heq hfits.pll0
  | pll1 =>
    obtain ⟨v, hv, heq⟩ := c.pll1_returns h left depth hdepth
    cases Option.some.inj (hv.symm.trans hw)
    exact heq hfits.pll1
  | pll2 =>
    obtain ⟨v, hv, heq⟩ :=
      c.pll2_returns (fun hsrc => (h hsrc).1) (fun hsrc _ => (h hsrc).2) left depth hdepth
    cases Option.some.inj (hv.symm.trans hw)
    exact heq hfits.pll2
  | fixed =>
    cases Option.some.inj hw
    rfl

theorem pll2Of_zero : c.pll2Of 0 = 0 := by
  unfold pll2Of
  split_ifs
  · rfl
  · rw [Nat.mul_zero, nearest, Nat.mul_zero, Nat.zero_add]
    exact Nat.div_eq_of_lt (by omega)

/-- PLL2 stands still where the quotient of PLL0 is nothing. -/
theorem pll2_stopped (hsrc : c.pll2Src = 0) {fosc : Word}
    (hfosc : c.cguGetPll0Fosc 0 1 = some fosc)
    (hsum : (fosc.toNat + (c.pll2InputDiv.toNat + 1) / 2) % 2 ^ 32 < c.pll2InputDiv.toNat + 1) :
    c.cguGetPll2Fosc 0 2 = some 0 := by
  obtain ⟨clock, hget, hword⟩ := c.pll2Clock_divided 0 hsrc hfosc
  rw [Nat.div_eq_of_lt hsum] at hword
  obtain ⟨w, hw, heq⟩ := c.pll2_value 0 hget
  rw [hword, pll2Of_zero] at heq
  rw [hw, BitVec.eq_of_toNat_eq (y := 0#32) heq]
  rfl

/-- A source that is not given can be found to stand still. -/
theorem word_missing (hfits : c.Fits) (h : ¬c.SourceGiven source) :
    c.sourceWord 0 2 source = some 0 := by
  cases source with
  | pll0 =>
    rw [sourceWord, cguGetPll0Fosc, pll0Fosc, if_pos (Bool.eq_true_of_not_eq_false h)]
    rfl
  | pll1 =>
    rw [sourceWord, cguGetPll1Fosc, pll1Fosc, if_pos (Bool.eq_true_of_not_eq_false h)]
    rfl
  | pll2 =>
    obtain ⟨hsrc, hnot⟩ := Classical.not_imp.mp h
    have hdiv : c.pll2InputDiv.toNat < 2 ^ 4 := getBits_lt _ (by decide) rfl
    cases hb : c.pll0Bypass with
    | true =>
      have hleft : c.cguGetPll0Fosc 0 1 = some 0 := by
        rw [cguGetPll0Fosc, pll0Fosc, if_pos hb]
        rfl
      refine c.pll2_stopped hsrc hleft ?_
      show (0 + (c.pll2InputDiv.toNat + 1) / 2) % 2 ^ 32 < c.pll2InputDiv.toNat + 1
      omega
    | false =>
      obtain ⟨f, hf, -, hvalue⟩ := c.pll0_value hb
      obtain ⟨fosc, hfosc, hmod⟩ := hvalue 0 0
      have hover : ¬c.pll0Frequency + (c.pll2InputDiv.toNat + 1) / 2 < 2 ^ 32 :=
        fun hlt => hnot ⟨hb, hlt⟩
      have hlt := hfits.pll0
      rw [hf] at hover hlt
      refine c.pll2_stopped hsrc hfosc ?_
      omega
  | fixed => exact absurd trivial h

end Words

end Cgu

end DanubeBsp
