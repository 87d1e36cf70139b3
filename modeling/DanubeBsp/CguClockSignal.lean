import DanubeBsp.CguClockPlan

namespace DanubeBsp

/-- How a getter rounds: with half the divisor, with a quarter of it, with the result halved once more,
or with the wrong one of the two dividers of PLL2. -/
inductive ClockRounding where
  | nearest
  | quarter
  | halved
  | swapped
deriving DecidableEq

/-- The dividers of the phase shifter of PLL2 as its description has them. -/
def pll2Phase (phase : Nat) : ℚ := if phase = 1 then 1.125 else 1.25

namespace Cgu

variable (c : Cgu)

def ddrRatio : ℚ :=
  if c.sysDdrSel = 1 then 2 / 5
  else if c.sysDdrSel = 2 then 1 / 3
  else if c.sysDdrSel = 3 then 1 / 4
  else 1 / 2

def clockoutSignal : Nat → ClockSource × ℚ
  | 0 | 15 => (.pll1, 1 / 12000)
  | 1 => (.pll1, 1 / 256)
  | 2 => (.pll2, 1 / 120)
  | 3 | 5 | 12 => (.pll2, 1 / 25)
  | 4 => (.pll2, 1 / pll2Phase 2 / 6)
  | 6 => (.pll2, 1 / pll2Phase 2 / 10)
  | 7 => (.pll2, 1 / pll2Phase 2 / 5)
  | 8 | 14 => (.pll2, 1 / 12)
  | 9 | 13 => (.pll2, 1 / 6)
  | 10 => (.pll2, 1 / 10)
  | 11 => (.pll2, 1 / 5)
  | _ => (.fixed, 0)

/-- The source and the ratio that the fields select; pins that are not there have no frequency. -/
def signal : CguClock → ClockSource × ℚ
  | .mips cpu =>
    if (if cpu = 0 then c.sysCpu0Sel else c.sysCpu1Sel) = 0 then (.pll0, 1)
    else if (if cpu = 0 then c.sysCpu0Sel else c.sysCpu1Sel) = 2 then (.pll0, 2 * c.ddrRatio)
    else (.pll0, c.ddrRatio)
  | .ioRegion => (.pll0, c.ddrRatio)
  | .fpiBus fpi => if fpi = 2 ∧ c.sysFpiSel then (.pll0, c.ddrRatio / 2) else (.pll0, c.ddrRatio)
  | .pp32 =>
    if c.sysPpesel = 1 then (.pll2, 1 / pll2Phase 2)
    else if c.sysPpesel = 2 then (.pll2, 1 / pll2Phase 1 / 2)
    else if c.sysPpesel = 3 then (.pll2, 1 / pll2Phase 2 / 2)
    else (.pll2, 1 / pll2Phase 1)
  | .pci => (.pll2, 1 / (c.ifClkPciClk.toNat + 1))
  | .ethernet _ =>
    if c.ifClkMiisel = 0 then (.pll2, 1 / 12)
    else if c.ifClkMiisel = 1 then (.pll2, 1 / 6)
    else if c.ifClkMiisel = 2 then (.fixed, 50000000)
    else (.fixed, 25000000)
  | .usb =>
    if c.ifClkUsbsel = 0 then (.pll2, 1 / 25)
    else if c.ifClkUsbsel = 2 then (.fixed, 12000000 / 4)
    else (.fixed, 12000000)
  | .clockout clkout =>
    if 3 < clkout ∨ clkout < 0 then (.fixed, 0)
    else clockoutSignal (4 * clkout.toNat + (c.ifClkClkod clkout).toNat)

def rounding : CguClock → ClockRounding
  | .fpiBus fpi => if fpi = 2 ∧ c.sysFpiSel then .halved else .nearest
  | .pp32 => .swapped
  | .ethernet _ => if c.ifClkMiisel = 0 then .quarter else .nearest
  | .clockout clkout =>
    if clkout.toNat = 1 ∧ (c.ifClkClkod clkout).toNat ≠ 1 then .swapped else .nearest
  | _ => .nearest

end Cgu

/-- What a plan makes of a signal. -/
inductive ClockKind : ClockPlan → ClockSource × ℚ → ClockRounding → Prop
  | nearest {source mul div ratio} (hdiv : 0 < div) (hratio : ratio = ((mul : ℕ) : ℚ) / (div : ℕ)) :
      ClockKind (.rounded source mul div) (source, ratio) .nearest
  | quarter : ClockKind ⟨.pll2, 1, 3, 12, 0, 1⟩ (.pll2, 1 / 12) .quarter
  | halved {mul div ratio} (hdiv : 0 < div) (hratio : ratio = ((mul : ℕ) : ℚ) / (div : ℕ) / 2) :
      ClockKind { ClockPlan.rounded .pll0 mul div with div' := 2 } (.pll0, ratio) .halved
  | swapped {p ratio a b} (hsource : p.source = .pll2) (hb : 0 < b)
      (hratio : ratio = ((a : ℕ) : ℚ) / (b : ℕ)) (hzero : p.value 0 = 0)
      (hapart : ∀ f, 2929 ≤ f → a * f + b < b * p.value f ∨ b * p.value f + b < a * f) :
      ClockKind p (.pll2, ratio) .swapped

section Kinds

variable {p : ClockPlan} {s : ClockSource × ℚ} {r : ClockRounding}

theorem ClockKind.source (h : ClockKind p s r) : p.source = s.1 := by
  cases h with
  | nearest => rfl
  | quarter => rfl
  | halved => rfl
  | swapped hsource => exact hsource

theorem ClockKind.swapped_source (h : ClockKind p s .swapped) : s.1 = .pll2 := by
  cases h
  rfl

theorem ClockKind.value_zero (h : ClockKind p s r) : p.value 0 = 0 := by
  have hhalf {div : Nat} (hdiv : 0 < div) : (0 * p.mul + div / 2) / div = 0 := by
    rw [Nat.zero_mul, Nat.zero_add]
    exact Nat.div_eq_of_lt (by omega)
  cases h with
  | nearest hdiv => rw [ClockPlan.value_rounded]; exact hhalf hdiv
  | quarter => rfl
  | halved hdiv =>
    show ((_ + 0) / 2 : ℕ) = 0
    exact Nat.div_eq_of_lt (by rw [Nat.add_zero]; exact (hhalf hdiv).trans_lt (by norm_num))
  | swapped _ _ _ hzero => exact hzero

theorem rounded_value {source : ClockSource} {mul div : Nat} (hdiv : 0 < div) (f : Nat) :
    (((ClockPlan.rounded source mul div).value f : ℕ) : ℤ) = round ((f : ℚ) * (mul / div)) := by
  rw [ClockPlan.value_rounded, ← nearest_eq_add_half hdiv, ← round_div hdiv]
  push_cast
  rw [mul_div_assoc]

theorem ClockKind.value_nearest (h : ClockKind p s .nearest) (f : Nat) :
    ((p.value f : ℕ) : ℤ) = round ((f : ℚ) * s.2) := by
  cases h with
  | nearest hdiv hratio =>
    rw [hratio]
    exact rounded_value hdiv f

theorem near_iff {v f a b : Nat} (hb : 0 < b) :
    |(v : ℚ) - f * ((a : ℕ) / (b : ℕ))| ≤ 1 ↔ a * f ≤ b * v + b ∧ b * v ≤ a * f + b := by
  have hb' : (0 : ℚ) < b := by exact_mod_cast hb
  have hwhole : (v : ℚ) - f * (a / b) = (b * v - a * f) / b := by field_simp
  rw [hwhole, abs_le, le_div_iff₀ hb', div_le_iff₀ hb', ← Nat.cast_le (α := ℚ),
    ← Nat.cast_le (α := ℚ) (m := b * v)]
  push_cast
  constructor
  · intro h
    exact ⟨by linarith [h.1], by linarith [h.2]⟩
  · intro h
    exact ⟨by linarith [h.1], by linarith [h.2]⟩

theorem rounded_bounds (source : ClockSource) (mul : Nat) {div : Nat} (hdiv : 0 < div) (f : Nat) :
    div * (ClockPlan.rounded source mul div).value f ≤ mul * f + div / 2 ∧
      mul * f + div / 2 < div * (ClockPlan.rounded source mul div).value f + div := by
  rw [ClockPlan.value_rounded, Nat.mul_comm f]
  exact ⟨Nat.mul_div_le _ _, Nat.lt_mul_div_succ _ hdiv⟩

/-- All but the swapped dividers are right to one hertz. -/
theorem ClockKind.near (h : ClockKind p s r) (hr : r ≠ .swapped) (f : Nat) :
    |(p.value f : ℚ) - f * s.2| ≤ 1 := by
  cases h with
  | @nearest source mul div ratio hdiv hratio =>
    obtain ⟨hle, hlt⟩ := rounded_bounds source mul hdiv f
    rw [hratio]
    exact (near_iff hdiv).mpr ⟨by omega, by omega⟩
  | quarter =>
    have hthree : |(((f + 3) / 12 : ℕ) : ℚ) - f * ((1 : ℕ) / (12 : ℕ))| ≤ 1 :=
      (near_iff (by norm_num)).mpr ⟨by omega, by omega⟩
    show |(((f * 1 + 3) / 12 + 0) / 1 : ℕ) - (f : ℚ) * (1 / 12)| ≤ 1
    rw [Nat.mul_one, Nat.div_one, Nat.add_zero]
    exact_mod_cast hthree
  | @halved mul div ratio hdiv hratio =>
    obtain ⟨hle, hlt⟩ := rounded_bounds .pll0 mul hdiv f
    show |(((ClockPlan.rounded .pll0 mul div).largest f / div + 0) / 2 : ℕ) - (f : ℚ) * ratio| ≤ 1
    have hone : (ClockPlan.rounded .pll0 mul div).value f =
        (ClockPlan.rounded .pll0 mul div).largest f / div + 0 := Nat.div_one _
    rw [hratio, div_div, ← hone]
    generalize (ClockPlan.rounded .pll0 mul div).value f = v at hle hlt
    have htwo : 2 * (div * (v / 2)) ≤ div * v := by
      rw [← Nat.mul_assoc, Nat.mul_comm 2, Nat.mul_assoc]
      exact Nat.mul_le_mul_left div (by omega)
    have hrest : div * v ≤ 2 * (div * (v / 2)) + div := by
      calc div * v ≤ div * (2 * (v / 2) + 1) := Nat.mul_le_mul_left div (by omega)
        _ = 2 * (div * (v / 2)) + div := by ring
    have hnear := (near_iff (v := v / 2) (f := f) (a := mul) (b := div * 2) (by omega)).mpr
      ⟨by rw [Nat.mul_comm div, Nat.mul_assoc]; omega,
        by rw [Nat.mul_comm div, Nat.mul_assoc]; omega⟩
    exact_mod_cast hnear
  | swapped => exact absurd rfl hr

theorem ClockKind.apart (h : ClockKind p s .swapped) {f : Nat} (hf : 2929 ≤ f) :
    ¬|(p.value f : ℚ) - f * s.2| ≤ 1 := by
  cases h with
  | swapped _ hb hratio _ hapart =>
    rw [hratio, near_iff hb]
    have hfar := hapart f hf
    omega

theorem ClockKind.quarter_eq (h : ClockKind p s .quarter) :
    p = ⟨.pll2, 1, 3, 12, 0, 1⟩ ∧ s = (.pll2, 1 / 12) := by
  cases h
  exact ⟨rfl, rfl⟩

end Kinds

section Signals

variable (c : Cgu)

theorem ddrFraction_cases : (c.ddrFraction = (2, 5) ∧ c.ddrRatio = 2 / 5) ∨
    (c.ddrFraction = (1, 3) ∧ c.ddrRatio = 1 / 3) ∨
    (c.ddrFraction = (1, 4) ∧ c.ddrRatio = 1 / 4) ∨
    (c.ddrFraction = (1, 2) ∧ c.ddrRatio = 1 / 2) := by
  unfold Cgu.ddrFraction Cgu.ddrRatio
  split_ifs
  · exact Or.inl ⟨rfl, rfl⟩
  · exact Or.inr (Or.inl ⟨rfl, rfl⟩)
  · exact Or.inr (Or.inr (Or.inl ⟨rfl, rfl⟩))
  · exact Or.inr (Or.inr (Or.inr ⟨rfl, rfl⟩))

theorem ddrFraction_ratio : 0 < c.ddrFraction.2 ∧
    c.ddrRatio = ((c.ddrFraction.1 : ℕ) : ℚ) / (c.ddrFraction.2 : ℕ) := by
  rcases ddrFraction_cases c with ⟨hf, hr⟩ | ⟨hf, hr⟩ | ⟨hf, hr⟩ | ⟨hf, hr⟩
  · rw [hf, hr]; norm_num
  · rw [hf, hr]; norm_num
  · rw [hf, hr]; norm_num
  · rw [hf, hr]; norm_num

theorem ddrRatio_bounds : 1 / 4 ≤ c.ddrRatio ∧ c.ddrRatio ≤ 1 / 2 := by
  rcases ddrFraction_cases c with ⟨-, hr⟩ | ⟨-, hr⟩ | ⟨-, hr⟩ | ⟨-, hr⟩
  · rw [hr]; norm_num
  · rw [hr]; norm_num
  · rw [hr]; norm_num
  · rw [hr]; norm_num

theorem ddrPlan_kind (mul : Nat) {ratio : ℚ} (h : ratio = mul * c.ddrRatio) :
    ClockKind (c.ddrPlan mul) (.pll0, ratio) .nearest := by
  obtain ⟨hpos, hratio⟩ := ddrFraction_ratio c
  refine .nearest hpos ?_
  rw [h, hratio]
  push_cast
  ring

theorem once_kind (source : ClockSource) (div : Nat) (hdiv : 0 < div) :
    ClockKind (.rounded source 1 div) (source, 1 / (div : ℕ)) .nearest :=
  .nearest hdiv (by push_cast; rfl)

theorem fixed_kind (v : Nat) : ClockKind (.rounded .fixed v 1) (.fixed, (v : ℕ)) .nearest :=
  .nearest Nat.one_pos (by push_cast; ring)

theorem pp32_kind : ClockKind (c.plan .pp32) (c.signal .pp32) .swapped := by
  unfold Cgu.plan Cgu.signal
  dsimp only
  split_ifs
  · refine .swapped (a := 4) (b := 5) rfl (by norm_num) (by norm_num [pll2Phase]) rfl fun f hf => ?_
    show _ < 5 * (((f * 8 + 4) / 9 + 0) / 1) ∨ 5 * (((f * 8 + 4) / 9 + 0) / 1) + 5 < 4 * f
    omega
  · refine .swapped (a := 4) (b := 9) rfl (by norm_num) (by norm_num [pll2Phase]) rfl fun f hf => ?_
    show _ < 9 * (((f * 4 + 2) / 5 + 1) / 2) ∨ 9 * (((f * 4 + 2) / 5 + 1) / 2) + 9 < 4 * f
    omega
  · refine .swapped (a := 2) (b := 5) rfl (by norm_num) (by norm_num [pll2Phase]) rfl fun f hf => ?_
    show _ < 5 * (((f * 8 + 4) / 9 + 1) / 2) ∨ 5 * (((f * 8 + 4) / 9 + 1) / 2) + 5 < 2 * f
    omega
  · refine .swapped (a := 8) (b := 9) rfl (by norm_num) (by norm_num [pll2Phase]) rfl fun f hf => ?_
    show _ < 9 * (((f * 4 + 2) / 5 + 0) / 1) ∨ 9 * (((f * 4 + 2) / 5 + 0) / 1) + 9 < 8 * f
    omega

/-- The pin with the divider of 1.25 in it, by the addend and the divisor of its case. -/
theorem phasePin_kind {add div a b : Nat} {ratio : ℚ} (hb : 0 < b) (hratio : ratio = (a : ℚ) / b)
    (hadd : add < div)
    (hapart : ∀ f, 2929 ≤ f →
      a * f + b < b * (((f * 8 + 4) / 9 + add) / div) ∨
        b * (((f * 8 + 4) / 9 + add) / div) + b < a * f) :
    ClockKind ⟨.pll2, 8, 4, 9, add, div⟩ (.pll2, ratio) .swapped := by
  refine .swapped rfl hb hratio ?_ hapart
  show ((0 * 8 + 4) / 9 + add) / div = 0
  rw [show (0 * 8 + 4) / 9 + add = add by norm_num]
  exact Nat.div_eq_of_lt hadd

theorem clockout_kind {pin sel : Nat} (hpin : pin < 4) (hsel : sel < 4) :
    ClockKind (Cgu.clockoutPlan (4 * pin + sel)) (Cgu.clockoutSignal (4 * pin + sel))
      (if pin = 1 ∧ sel ≠ 1 then .swapped else .nearest) := by
  interval_cases pin
  · interval_cases sel
    · exact once_kind .pll1 12000 (by norm_num)
    · exact once_kind .pll1 256 (by norm_num)
    · exact once_kind .pll2 120 (by norm_num)
    · exact once_kind .pll2 25 (by norm_num)
  · interval_cases sel
    · exact phasePin_kind (a := 2) (b := 15) (by norm_num) (by norm_num [pll2Phase]) (by norm_num)
        (by omega)
    · exact once_kind .pll2 25 (by norm_num)
    · exact phasePin_kind (a := 2) (b := 25) (by norm_num) (by norm_num [pll2Phase]) (by norm_num)
        (by omega)
    · exact phasePin_kind (a := 4) (b := 25) (by norm_num) (by norm_num [pll2Phase]) (by norm_num)
        (by omega)
  · interval_cases sel
    · exact once_kind .pll2 12 (by norm_num)
    · exact once_kind .pll2 6 (by norm_num)
    · exact once_kind .pll2 10 (by norm_num)
    · exact once_kind .pll2 5 (by norm_num)
  · interval_cases sel
    · exact once_kind .pll2 25 (by norm_num)
    · exact once_kind .pll2 6 (by norm_num)
    · exact once_kind .pll2 12 (by norm_num)
    · exact once_kind .pll1 12000 (by norm_num)

/-- The plan of a getter against its signal. -/
theorem plan_kind (g : CguClock) : ClockKind (c.plan g) (c.signal g) (c.rounding g) := by
  have hddr : ClockKind (c.ddrPlan 1) (.pll0, c.ddrRatio) .nearest :=
    ddrPlan_kind c 1 (by rw [Nat.cast_one, one_mul])
  cases g with
  | mips cpu =>
    unfold Cgu.plan Cgu.signal Cgu.rounding
    dsimp only
    generalize (if cpu = 0 then c.sysCpu0Sel else c.sysCpu1Sel) = cpusel
    split_ifs
    · exact .nearest Nat.one_pos (by norm_num)
    · exact ddrPlan_kind c 2 (by rw [Nat.cast_two])
    · exact hddr
  | ioRegion => exact hddr
  | fpiBus fpi =>
    unfold Cgu.plan Cgu.signal Cgu.rounding
    dsimp only
    split_ifs
    · obtain ⟨hpos, hratio⟩ := ddrFraction_ratio c
      refine .halved hpos ?_
      rw [hratio, Nat.one_mul]
    · exact hddr
  | pp32 => exact pp32_kind c
  | pci => exact .nearest (Nat.succ_pos _) (by push_cast; rfl)
  | ethernet mii =>
    unfold Cgu.plan Cgu.signal Cgu.rounding
    dsimp only
    split_ifs
    · exact .quarter
    · exact once_kind .pll2 6 (by norm_num)
    · exact fixed_kind 50000000
    · exact fixed_kind 25000000
  | usb =>
    unfold Cgu.plan Cgu.signal Cgu.rounding
    dsimp only
    split_ifs
    · exact once_kind .pll2 25 (by norm_num)
    · exact .nearest Nat.one_pos (by norm_num)
    · exact fixed_kind 12000000
  | clockout clkout =>
    unfold Cgu.plan Cgu.signal Cgu.rounding
    dsimp only
    by_cases hout : 3 < clkout ∨ clkout < 0
    · rw [if_pos hout, if_pos hout, if_neg (by omega)]
      exact .nearest Nat.one_pos (by norm_num)
    · have hpin : 0 ≤ clkout ∧ clkout ≤ 3 := by omega
      obtain ⟨-, hsel⟩ := clockoutSel_eq c hpin
      rw [if_neg hout, if_neg hout]
      exact clockout_kind (by omega) hsel

/-- The least that a source which is not given can stand for. -/
def leastFrequency : ClockSource → ℚ
  | .pll2 => 2929
  | _ => 12000000

theorem far_pll0 {ratio : ℚ} (h : 1 / 8 ≤ ratio) : 1 < leastFrequency .pll0 * ratio := by
  show 1 < 12000000 * ratio
  linarith

theorem far_pll1 {ratio : ℚ} (h : 1 / 12000 ≤ ratio) : 1 < leastFrequency .pll1 * ratio := by
  show 1 < 12000000 * ratio
  linarith

theorem far_pll2 {ratio : ℚ} (h : 1 / 120 ≤ ratio) : 1 < leastFrequency .pll2 * ratio := by
  show 1 < 2929 * ratio
  linarith

theorem clockout_far (n : Nat) : (Cgu.clockoutSignal n).1 = .fixed ∨
    1 < leastFrequency (Cgu.clockoutSignal n).1 * (Cgu.clockoutSignal n).2 := by
  unfold Cgu.clockoutSignal
  split
  · exact Or.inr (far_pll1 (by norm_num))
  · exact Or.inr (far_pll1 (by norm_num))
  · exact Or.inr (far_pll1 (by norm_num))
  · exact Or.inr (far_pll2 (by norm_num))
  · exact Or.inr (far_pll2 (by norm_num))
  · exact Or.inr (far_pll2 (by norm_num))
  · exact Or.inr (far_pll2 (by norm_num))
  · exact Or.inr (far_pll2 (by norm_num [pll2Phase]))
  · exact Or.inr (far_pll2 (by norm_num [pll2Phase]))
  · exact Or.inr (far_pll2 (by norm_num [pll2Phase]))
  · exact Or.inr (far_pll2 (by norm_num))
  · exact Or.inr (far_pll2 (by norm_num))
  · exact Or.inr (far_pll2 (by norm_num))
  · exact Or.inr (far_pll2 (by norm_num))
  · exact Or.inr (far_pll2 (by norm_num))
  · exact Or.inr (far_pll2 (by norm_num))
  · exact Or.inl rfl

/-- No ratio brings a frequency down to one hertz. -/
theorem signal_far (g : CguClock) :
    (c.signal g).1 = .fixed ∨ 1 < leastFrequency (c.signal g).1 * (c.signal g).2 := by
  obtain ⟨hlow, -⟩ := ddrRatio_bounds c
  cases g with
  | mips cpu =>
    right
    unfold Cgu.signal
    dsimp only
    generalize (if cpu = 0 then c.sysCpu0Sel else c.sysCpu1Sel) = cpusel
    split_ifs
    · exact far_pll0 (by norm_num)
    · exact far_pll0 (by linarith)
    · exact far_pll0 (by linarith)
  | ioRegion =>
    right
    show 1 < leastFrequency .pll0 * c.ddrRatio
    exact far_pll0 (by linarith)
  | fpiBus fpi =>
    right
    unfold Cgu.signal
    dsimp only
    split_ifs
    · exact far_pll0 (by linarith)
    · exact far_pll0 (by linarith)
  | pp32 =>
    right
    unfold Cgu.signal
    dsimp only
    split_ifs
    · exact far_pll2 (by norm_num [pll2Phase])
    · exact far_pll2 (by norm_num [pll2Phase])
    · exact far_pll2 (by norm_num [pll2Phase])
    · exact far_pll2 (by norm_num [pll2Phase])
  | pci =>
    right
    have hlt : c.ifClkPciClk.toNat < 2 ^ 4 := getBits_lt _ (by decide) rfl
    have hle : (c.ifClkPciClk.toNat : ℚ) + 1 ≤ 16 := by exact_mod_cast Nat.succ_le_of_lt hlt
    refine far_pll2 ?_
    show (1 : ℚ) / 120 ≤ 1 / (c.ifClkPciClk.toNat + 1)
    exact one_div_le_one_div_of_le (by positivity) (by linarith)
  | ethernet mii =>
    unfold Cgu.signal
    dsimp only
    split_ifs
    · exact Or.inr (far_pll2 (by norm_num))
    · exact Or.inr (far_pll2 (by norm_num))
    · exact Or.inl rfl
    · exact Or.inl rfl
  | usb =>
    unfold Cgu.signal
    dsimp only
    split_ifs
    · exact Or.inr (far_pll2 (by norm_num))
    · exact Or.inl rfl
    · exact Or.inl rfl
  | clockout clkout =>
    unfold Cgu.signal
    dsimp only
    split_ifs
    · exact Or.inl rfl
    · exact clockout_far _

theorem clockout_source (n : Nat) : (Cgu.clockoutSignal n).1 ≠ .pll0 := by
  unfold Cgu.clockoutSignal
  split
  all_goals exact ClockSource.noConfusion

theorem halved_bus {g : CguClock} (h : c.rounding g = .halved) :
    g = .fpiBus 2 ∧ c.signal g = (.pll0, c.ddrRatio / 2) := by
  cases g with
  | fpiBus fpi =>
    by_cases hsel : fpi = 2 ∧ c.sysFpiSel = true
    · exact ⟨congrArg CguClock.fpiBus hsel.1, if_pos hsel⟩
    · unfold Cgu.rounding at h
      dsimp only at h
      rw [if_neg hsel] at h
      cases h
  | ethernet mii =>
    unfold Cgu.rounding at h
    dsimp only at h
    split_ifs at h
  | clockout clkout =>
    unfold Cgu.rounding at h
    dsimp only at h
    split_ifs at h
  | mips cpu => cases h
  | ioRegion => cases h
  | pp32 => cases h
  | pci => cases h
  | usb => cases h

/-- The halved bus clock has its ratio for itself. -/
theorem halved_alone {g : CguClock} (hsignal : c.signal g = (.pll0, c.ddrRatio / 2)) :
    g = .fpiBus 2 := by
  obtain ⟨hlow, hhigh⟩ := ddrRatio_bounds c
  have hratio : (c.signal g).2 = c.ddrRatio / 2 := congrArg Prod.snd hsignal
  have hsource : (c.signal g).1 = .pll0 := congrArg Prod.fst hsignal
  cases g with
  | mips cpu =>
    exfalso
    unfold Cgu.signal at hratio
    dsimp only at hratio
    generalize (if cpu = 0 then c.sysCpu0Sel else c.sysCpu1Sel) = cpusel at hratio
    split_ifs at hratio
    · linarith
    · linarith
    · linarith
  | ioRegion =>
    exfalso
    have hsame : c.ddrRatio = c.ddrRatio / 2 := hratio
    linarith
  | fpiBus fpi =>
    unfold Cgu.signal at hratio
    dsimp only at hratio
    split_ifs at hratio with hsel
    · rw [hsel.1]
    · exfalso
      linarith
  | pp32 =>
    unfold Cgu.signal at hsource
    dsimp only at hsource
    split_ifs at hsource
  | pci => cases hsource
  | ethernet mii =>
    unfold Cgu.signal at hsource
    dsimp only at hsource
    split_ifs at hsource
  | usb =>
    unfold Cgu.signal at hsource
    dsimp only at hsource
    split_ifs at hsource
  | clockout clkout =>
    unfold Cgu.signal at hsource
    dsimp only at hsource
    split_ifs at hsource
    exact absurd hsource (clockout_source _)

end Signals

end DanubeBsp
