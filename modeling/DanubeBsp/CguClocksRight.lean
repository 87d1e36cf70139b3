import DanubeBsp.CguClockSignal
import DanubeBsp.CguClockSources

namespace DanubeBsp

namespace Cgu

variable (c : Cgu)

/-- The exact frequency of a clock. -/
def ideal (g : CguClock) : ℚ := c.sourceFrequency (c.signal g).1 * (c.signal g).2

/-- A getter is right to one hertz and loses nothing on the way, for any value left by a missing
`return`. -/
def ClockRight (g : CguClock) : Prop :=
  ∀ left depth, 2 ≤ depth →
    ∃ t, c.clock left depth g = some t ∧ t.fits = true ∧ |(t.val.toNat : ℚ) - c.ideal g| ≤ 1

def SameNumber (g g' : CguClock) : Prop :=
  ∀ left depth, 2 ≤ depth →
    (c.clock left depth g).map FitWord.val = (c.clock left depth g').map FitWord.val

structure PairRight (g g' : CguClock) : Prop where
  fst : c.ClockRight g
  snd : c.ClockRight g'
  same : c.signal g = c.signal g' → c.SameNumber g g'

/-- The source is given, PLL2 does not go through the swapped dividers, and the largest number fits. -/
structure ClockOk (g : CguClock) : Prop where
  given : c.SourceGiven (c.plan g).source
  phase : c.rounding g = .swapped → c.pll2Frequency = 0
  largest : c.sourceFrequency (c.plan g).source * (c.plan g).mul + (c.plan g).add < 2 ^ 32

/-- Both clocks, and a twelfth of PLL2 that is rounded in two ways has no remainder for that it
matters. -/
structure PairOk (g g' : CguClock) : Prop where
  fst : c.ClockOk g
  snd : c.ClockOk g'
  same : c.signal g = c.signal g' → (c.rounding g = .quarter ↔ c.rounding g' = .quarter) ∨
    c.pll2Frequency % 12 < 6 ∨ 8 < c.pll2Frequency % 12

variable {c} {g g' : CguClock} {left : Word} {depth : Nat}

theorem ideal_eq_plan : c.ideal g = c.sourceFrequency (c.plan g).source * (c.signal g).2 := by
  rw [(plan_kind c g).source]
  rfl

theorem least_le {source : ClockSource} (h : ¬c.SourceGiven source) : leastFrequency source ≤ c.sourceFrequency source := by
  cases source with
  | pll0 =>
    show (12000000 : ℚ) ≤ c.pll0Frequency
    rw [pll0Frequency, if_pos (Bool.eq_true_of_not_eq_false h)]
    exact_mod_cast inputFrequency_ge _ _
  | pll1 =>
    show (12000000 : ℚ) ≤ c.pll1Frequency
    rw [pll1Frequency, if_pos (Bool.eq_true_of_not_eq_false h)]
    exact_mod_cast inputFrequency_ge _ _
  | pll2 =>
    obtain ⟨hsrc, -⟩ := Classical.not_imp.mp h
    rcases c.pll2Frequency_cases with ⟨-, hnot⟩ | hge
    · exact absurd hsrc hnot
    · show (2929 : ℚ) ≤ c.pll2Frequency
      exact_mod_cast hge
  | fixed => exact absurd trivial h

/-- What a getter returns when its source is given. -/
theorem clock_given (hfits : c.Fits) (hgiven : c.SourceGiven (c.plan g).source) (left : Word)
    (hdepth : 2 ≤ depth) : ∃ t f, c.clock left depth g = some t ∧
      c.sourceFrequency (c.plan g).source = ((f : ℕ) : ℤ) ∧
      t.Tracks ((c.plan g).value f) ((c.plan g).largest f) := by
  obtain ⟨words, hwords⟩ := c.words_some left hdepth
  obtain ⟨t, ht, htracks⟩ := clock_follows c hwords g
  exact ⟨t, _, ht, (c.word_given hfits hgiven hdepth (hwords _)).symm, htracks⟩

theorem ClockRight.given (hfits : c.Fits) (h : c.ClockRight g) :
    c.SourceGiven (c.plan g).source := by
  by_contra hmissing
  obtain ⟨words, hwords⟩ := c.words_some 0 (Nat.le_refl 2)
  obtain ⟨t, ht, htracks⟩ := clock_follows c hwords g
  obtain ⟨t', ht', hfit, hnear⟩ := h 0 2 (Nat.le_refl 2)
  cases Option.some.inj (ht.symm.trans ht')
  have hword : words (c.plan g).source = 0 :=
    Option.some.inj ((hwords _).symm.trans (c.word_missing hfits hmissing))
  have hzero := htracks.val hfit
  rw [hword, show (0 : Word).toNat = 0 from rfl, (plan_kind c g).value_zero] at hzero
  rw [hzero, Nat.cast_zero, zero_sub, abs_neg] at hnear
  have hsource := (plan_kind c g).source
  have hleast := least_le hmissing
  rcases signal_far c g with hfixed | hfar
  · rw [hsource, hfixed] at hmissing
    exact hmissing trivial
  · rw [← hsource] at hfar
    have hpos : 0 < (c.signal g).2 := by
      by_contra hneg
      have hbase : 0 < leastFrequency (c.plan g).source := by
        cases (c.plan g).source
        all_goals norm_num [leastFrequency]
      have := mul_nonpos_of_nonneg_of_nonpos hbase.le (not_lt.mp hneg)
      linarith
    have hmore := mul_le_mul_of_nonneg_right hleast hpos.le
    rw [ideal_eq_plan] at hnear
    have hle := le_trans (le_abs_self _) hnear
    linarith

theorem ClockRight.ok (hfits : c.Fits) (h : c.ClockRight g) : c.ClockOk g := by
  have hgiven := h.given hfits
  obtain ⟨t, f, ht, hf, htracks⟩ := clock_given hfits hgiven 0 (Nat.le_refl 2)
  obtain ⟨t', ht', hfit, hnear⟩ := h 0 2 (Nat.le_refl 2)
  cases Option.some.inj (ht.symm.trans ht')
  rw [htracks.val hfit, ideal_eq_plan, hf, Int.cast_natCast] at hnear
  refine ⟨hgiven, fun hswapped => ?_, ?_⟩
  · have hkind := plan_kind c g
    rw [hswapped] at hkind
    rw [hkind.source, hkind.swapped_source] at hf
    rcases c.pll2Frequency_cases with ⟨hzero, -⟩ | hge
    · exact hzero
    · have hle : 2929 ≤ f := by
        have hf' : c.pll2Frequency = f := hf
        omega
      exact absurd hnear (hkind.apart hle)
  · rw [hf]
    exact_mod_cast htracks.fits.mp hfit

theorem ClockOk.fits (hfits : c.Fits) (h : c.ClockOk g) (left : Word) (hdepth : 2 ≤ depth) :
    ∃ t f, c.clock left depth g = some t ∧ t.fits = true ∧
      c.sourceFrequency (c.plan g).source = ((f : ℕ) : ℤ) ∧ t.val.toNat = (c.plan g).value f := by
  obtain ⟨t, f, ht, hf, htracks⟩ := clock_given hfits h.given left hdepth
  have hlargest := h.largest
  rw [hf] at hlargest
  have hfit : t.fits = true := htracks.fits.mpr (by exact_mod_cast hlargest)
  exact ⟨t, f, ht, hfit, hf, htracks.val hfit⟩

theorem ClockOk.right (hfits : c.Fits) (h : c.ClockOk g) : c.ClockRight g := by
  intro left depth hdepth
  obtain ⟨t, f, ht, hfit, hf, hval⟩ := h.fits hfits left hdepth
  refine ⟨t, ht, hfit, ?_⟩
  rw [hval, ideal_eq_plan, hf, Int.cast_natCast]
  have hkind := plan_kind c g
  by_cases hswapped : c.rounding g = .swapped
  · -- nothing comes of nothing, through any divider
    rw [hswapped] at hkind
    have hzero : c.sourceFrequency (c.plan g).source = 0 := by
      rw [hkind.source, hkind.swapped_source]
      exact h.phase hswapped
    have hf0 : f = 0 := by
      rw [hzero] at hf
      exact_mod_cast hf.symm
    rw [hf0, hkind.value_zero, Nat.cast_zero, zero_mul, sub_zero, abs_zero]
    exact zero_le_one
  · exact hkind.near hswapped f

theorem SameNumber.of_value (hfits : c.Fits) (h : c.ClockOk g) (h' : c.ClockOk g')
    (hsource : (c.plan g).source = (c.plan g').source)
    (hvalue : ∀ f : ℕ, c.sourceFrequency (c.plan g).source = f →
      (c.plan g).value f = (c.plan g').value f) : c.SameNumber g g' := by
  intro left depth hdepth
  obtain ⟨t, f, ht, -, hf, hval⟩ := h.fits hfits left hdepth
  obtain ⟨t', f', ht', -, hf', hval'⟩ := h'.fits hfits left hdepth
  have hff : f = f' := by
    rw [← hsource, hf] at hf'
    exact_mod_cast hf'
  rw [ht, ht', Option.map_some, Option.map_some]
  refine congrArg some (BitVec.eq_of_toNat_eq ?_)
  rw [hval, hval', ← hff]
  exact hvalue f hf

/-- A twelfth with a quarter of the divisor, and to the nearest. -/
theorem twelfth_values (hquarter : c.rounding g = .quarter) (hnearest : c.rounding g' = .nearest)
    (hsignal : c.signal g = c.signal g') (f : ℕ) :
    (c.plan g).value f = (f + 3) / 12 ∧ (c.plan g').value f = (f + 6) / 12 := by
  have hkind := plan_kind c g
  have hkind' := plan_kind c g'
  rw [hquarter] at hkind
  rw [hnearest, ← hsignal] at hkind'
  obtain ⟨hplan, hs⟩ := hkind.quarter_eq
  refine ⟨?_, ?_⟩
  · rw [hplan]
    show ((f * 1 + 3) / 12 + 0) / 1 = _
    rw [Nat.mul_one, Nat.div_one, Nat.add_zero]
  · have hround := hkind'.value_nearest f
    have htwelve : (f : ℚ) * (1 / 12) = (f : ℚ) / (12 : ℕ) := by
      push_cast
      ring
    rw [hs, htwelve, round_div (by norm_num), nearest_eq_add_half (by norm_num)] at hround
    exact_mod_cast hround

theorem SameNumber.symm (h : c.SameNumber g g') : c.SameNumber g' g :=
  fun left depth hdepth => (h left depth hdepth).symm

theorem ClockOk.stopped (h : c.ClockOk g) (hswapped : c.rounding g = .swapped) {f : ℕ}
    (hf : c.sourceFrequency (c.plan g).source = f) : f = 0 := by
  have hkind := plan_kind c g
  rw [hswapped] at hkind
  rw [hkind.source, hkind.swapped_source] at hf
  have hzero : c.pll2Frequency = 0 := h.phase hswapped
  exact_mod_cast hf.symm.trans hzero

theorem same_source (hsignal : c.signal g = c.signal g') :
    (c.plan g).source = (c.plan g').source := by
  rw [(plan_kind c g).source, (plan_kind c g').source, hsignal]

theorem SameNumber.of_halved (hr : c.rounding g = .halved) (hsignal : c.signal g = c.signal g') :
    c.SameNumber g g' := by
  obtain ⟨hg, hs⟩ := halved_bus c hr
  have hg' := halved_alone c (hsignal.symm.trans hs)
  rw [hg, hg']
  exact fun _ _ _ => rfl

theorem ClockOk.same_swapped (hfits : c.Fits) (h : c.ClockOk g) (h' : c.ClockOk g')
    (hr : c.rounding g = .swapped) (hsignal : c.signal g = c.signal g') : c.SameNumber g g' := by
  refine .of_value hfits h h' (same_source hsignal) fun f hf => ?_
  rw [h.stopped hr hf, (plan_kind c g).value_zero, (plan_kind c g').value_zero]

theorem ClockOk.same_twelfth (hfits : c.Fits) (h : c.ClockOk g) (h' : c.ClockOk g')
    (hquarter : c.rounding g = .quarter) (hnearest : c.rounding g' = .nearest)
    (hsignal : c.signal g = c.signal g')
    (hrest : c.pll2Frequency % 12 < 6 ∨ 8 < c.pll2Frequency % 12) : c.SameNumber g g' := by
  have hkind := plan_kind c g
  rw [hquarter] at hkind
  have hplan := hkind.quarter_eq.1
  refine .of_value hfits h h' (same_source hsignal) fun f hf => ?_
  obtain ⟨hvalue, hvalue'⟩ := twelfth_values hquarter hnearest hsignal f
  have hf2 : c.pll2Frequency = f := by
    rw [hplan] at hf
    exact hf
  rw [hvalue, hvalue']
  omega

theorem ClockOk.same (hfits : c.Fits) (h : c.ClockOk g) (h' : c.ClockOk g')
    (hsignal : c.signal g = c.signal g')
    (hrest : (c.rounding g = .quarter ↔ c.rounding g' = .quarter) ∨
      c.pll2Frequency % 12 < 6 ∨ 8 < c.pll2Frequency % 12) : c.SameNumber g g' := by
  have hkind := plan_kind c g
  have hkind' := plan_kind c g'
  cases hr : c.rounding g with
  | halved => exact .of_halved hr hsignal
  | swapped => exact h.same_swapped hfits h' hr hsignal
  | nearest =>
    cases hr' : c.rounding g' with
    | halved => exact (SameNumber.of_halved hr' hsignal.symm).symm
    | swapped => exact (h'.same_swapped hfits h hr' hsignal.symm).symm
    | nearest =>
      rw [hr] at hkind
      rw [hr', ← hsignal] at hkind'
      refine .of_value hfits h h' (same_source hsignal) fun f _ => ?_
      exact_mod_cast (hkind.value_nearest f).trans (hkind'.value_nearest f).symm
    | quarter =>
      refine (h'.same_twelfth hfits h hr' hr hsignal.symm ?_).symm
      refine hrest.resolve_left fun hiff => ?_
      cases hr.symm.trans (hiff.mpr hr')
  | quarter =>
    cases hr' : c.rounding g' with
    | halved => exact (SameNumber.of_halved hr' hsignal.symm).symm
    | swapped => exact (h'.same_swapped hfits h hr' hsignal.symm).symm
    | nearest =>
      refine h.same_twelfth hfits h' hr hr' hsignal ?_
      refine hrest.resolve_left fun hiff => ?_
      cases hr'.symm.trans (hiff.mp hr)
    | quarter =>
      rw [hr] at hkind
      rw [hr'] at hkind'
      refine .of_value hfits h h' (same_source hsignal) fun f _ => ?_
      rw [hkind.quarter_eq.1, hkind'.quarter_eq.1]

/-- Where the two roundings of a twelfth give one number, the remainder does not matter. -/
theorem SameNumber.remainder (hfits : c.Fits) (h : c.ClockOk g) (h' : c.ClockOk g')
    (hsame : c.SameNumber g g') (hsignal : c.signal g = c.signal g')
    (hquarter : c.rounding g = .quarter) (hnot : c.rounding g' ≠ .quarter) :
    c.pll2Frequency % 12 < 6 ∨ 8 < c.pll2Frequency % 12 := by
  have hkind := plan_kind c g
  rw [hquarter] at hkind
  obtain ⟨hplan, hs⟩ := hkind.quarter_eq
  cases hr' : c.rounding g' with
  | quarter => exact absurd hr' hnot
  | halved =>
    obtain ⟨-, hs'⟩ := halved_bus c hr'
    rw [← hsignal, hs] at hs'
    cases congrArg Prod.fst hs'
  | swapped =>
    rw [h'.phase hr']
    exact Or.inl (by norm_num)
  | nearest =>
    obtain ⟨t, f, ht, -, hf, hval⟩ := h.fits hfits 0 (Nat.le_refl 2)
    obtain ⟨t', f', ht', -, hf', hval'⟩ := h'.fits hfits 0 (Nat.le_refl 2)
    have hff : f = f' := by
      rw [← same_source hsignal, hf] at hf'
      exact_mod_cast hf'
    have hnumber := hsame 0 2 (Nat.le_refl 2)
    rw [ht, ht', Option.map_some, Option.map_some] at hnumber
    obtain ⟨hvalue, hvalue'⟩ := twelfth_values hquarter hr' hsignal f
    have hequal := congrArg BitVec.toNat (Option.some.inj hnumber)
    rw [hval, hval', ← hff, hvalue, hvalue'] at hequal
    have hf2 : c.pll2Frequency = f := by
      rw [hplan] at hf
      exact hf
    omega

theorem PairRight.ok (hfits : c.Fits) (h : c.PairRight g g') : c.PairOk g g' := by
  have hok := h.fst.ok hfits
  have hok' := h.snd.ok hfits
  refine ⟨hok, hok', fun hsignal => ?_⟩
  have hsame := h.same hsignal
  by_cases hq : c.rounding g = .quarter
  · by_cases hq' : c.rounding g' = .quarter
    · exact Or.inl (iff_of_true hq hq')
    · exact Or.inr (hsame.remainder hfits hok hok' hsignal hq hq')
  · by_cases hq' : c.rounding g' = .quarter
    · exact Or.inr (hsame.symm.remainder hfits hok' hok hsignal.symm hq' hq)
    · exact Or.inl (iff_of_false hq hq')

theorem PairOk.right (hfits : c.Fits) (h : c.PairOk g g') : c.PairRight g g' :=
  ⟨h.fst.right hfits, h.snd.right hfits,
    fun hsignal => h.fst.same hfits h.snd hsignal (h.same hsignal)⟩

end Cgu

/-- Just which clocks are right, each by itself and any two of them to each other. -/
theorem cgu_clocks_right_iff {c : Cgu} (hfits : c.Fits) (g g' : CguClock) :
    c.PairRight g g' ↔ c.PairOk g g' :=
  ⟨fun h => h.ok hfits, fun h => h.right hfits⟩

/-- All registers at zero: three PLLs at 36 MHz. -/
theorem zero_frequencies : (⟨0, 0, 0, 0, 0⟩ : Cgu).pll0Frequency = 36000000 ∧
    (⟨0, 0, 0, 0, 0⟩ : Cgu).pll1Frequency = 36000000 ∧
    (⟨0, 0, 0, 0, 0⟩ : Cgu).pll2Frequency = 36000000 := by
  have hone : pllFrequency 36000000 0 0 0 = 36000000 := by
    rw [pllFrequency]
    norm_num
  have hfrac : pllFraction false false 0 = 0 := by
    unfold pllFraction
    norm_num
  have h0 : (⟨0, 0, 0, 0, 0⟩ : Cgu).pll0Frequency = 36000000 := by
    show pllFrequency 36000000 0 0 (pllFraction false false 0) = 36000000
    rw [hfrac, hone]
  have h1 : (⟨0, 0, 0, 0, 0⟩ : Cgu).pll1Frequency = 36000000 := by
    show pllFrequency 36000000 0 0 (pllFraction false false 0) = 36000000
    rw [hfrac, hone]
  have hclock : (⟨0, 0, 0, 0, 0⟩ : Cgu).pll2Clock = 36000000 := by
    show round (((⟨0, 0, 0, 0, 0⟩ : Cgu).pll0Frequency : ℚ) / ((0 : ℕ) + 1)) = 36000000
    rw [h0]
    norm_num
  refine ⟨h0, h1, ?_⟩
  show pllFrequency (⟨0, 0, 0, 0, 0⟩ : Cgu).pll2Clock 0 0 0 = 36000000
  rw [hclock, hone]

theorem cgu_clocks_right_mii : (⟨0, 0, 0, 0, 0⟩ : Cgu).Fits ∧
    (⟨0, 0, 0, 0, 0⟩ : Cgu).PairRight (.ethernet 0) (.clockout 2) := by
  obtain ⟨h0, h1, h2⟩ := zero_frequencies
  have hfits : (⟨0, 0, 0, 0, 0⟩ : Cgu).Fits := by
    refine ⟨?_, ?_, ?_⟩
    · rw [h0]
      norm_num
    · rw [h1]
      norm_num
    · rw [h2]
      norm_num
  have hgiven : (⟨0, 0, 0, 0, 0⟩ : Cgu).SourceGiven .pll2 := by
    refine fun _ => ⟨rfl, ?_⟩
    rw [h0]
    show (36000000 : ℤ) + ((0 : ℕ) + 1) / 2 < 2 ^ 32
    norm_num
  refine ⟨hfits, (cgu_clocks_right_iff hfits _ _).mpr ⟨⟨hgiven, fun h => ?_, ?_⟩,
    ⟨hgiven, fun h => ?_, ?_⟩, fun _ => Or.inr (Or.inl ?_)⟩⟩
  · cases h
  · show (⟨0, 0, 0, 0, 0⟩ : Cgu).pll2Frequency * (1 : ℕ) + (3 : ℕ) < 2 ^ 32
    rw [h2]
    norm_num
  · cases h
  · show (⟨0, 0, 0, 0, 0⟩ : Cgu).pll2Frequency * (1 : ℕ) + (6 : ℕ) < 2 ^ 32
    rw [h2]
    norm_num
  · rw [h2]
    norm_num

/-- PLL2 at 36 MHz makes 32 MHz by the divider of 1.125, and the getter says 28.8 MHz. -/
theorem cgu_pp32_swapped : (⟨0, 0, 0, 0, 0⟩ : Cgu).ideal .pp32 = 32000000 ∧
    ((⟨0, 0, 0, 0, 0⟩ : Cgu).clock 0 2 .pp32).map FitWord.val = some 28800000#32 ∧
    ¬(⟨0, 0, 0, 0, 0⟩ : Cgu).PairRight .pp32 .pp32 := by
  obtain ⟨-, -, h2⟩ := zero_frequencies
  have hideal : (⟨0, 0, 0, 0, 0⟩ : Cgu).ideal .pp32 = 32000000 := by
    show ((⟨0, 0, 0, 0, 0⟩ : Cgu).pll2Frequency : ℚ) * (1 / pll2Phase 1) = 32000000
    rw [h2, pll2Phase]
    norm_num
  have hvalue : ((⟨0, 0, 0, 0, 0⟩ : Cgu).clock 0 2 .pp32).map FitWord.val = some 28800000#32 := by
    decide +kernel
  refine ⟨hideal, hvalue, fun h => ?_⟩
  obtain ⟨t, ht, -, hnear⟩ := h.fst 0 2 (Nat.le_refl 2)
  rw [ht] at hvalue
  have hval : t.val = 28800000#32 := Option.some.inj hvalue
  rw [hideal, hval] at hnear
  have hword : (28800000#32).toNat = 28800000 := rfl
  rw [hword] at hnear
  norm_num at hnear

end DanubeBsp
