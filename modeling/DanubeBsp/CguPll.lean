import DanubeBsp.Uint64

namespace DanubeBsp

/-- The registers of the clock generation unit that the frequencies are computed from. -/
structure Cgu where
  pll0Cfg : Word
  pll1Cfg : Word
  pll2Cfg : Word
  sys : Word
  ifClk : Word

def basicInputClockFrequency1 : Word := 35328000#32

def basicInputClockFrequency2 : Word := 36000000#32

def basisInputCrystalUsb : Word := 12000000#32

/-- `GET_BITS`. -/
def getBits (x : Word) (msb lsb : Nat) : Word := (x &&& ((1#32 <<< (msb + 1)) - 1)) >>> lsb

/-- The test of a bit of a register. -/
def hasBit (x : Word) (i : Nat) : Bool := x &&& (1#32 <<< i) != 0

namespace Cgu

def pll0PhaseDividerEnable (c : Cgu) : Bool := hasBit c.pll0Cfg 31

def pll0Bypass (c : Cgu) : Bool := hasBit c.pll0Cfg 30

def pll0Src (c : Cgu) : Bool := hasBit c.pll0Cfg 29

def pll0Dsmsel (c : Cgu) : Bool := hasBit c.pll0Cfg 28

def pll0FracEn (c : Cgu) : Bool := hasBit c.pll0Cfg 27

def pll0K (c : Cgu) : Word := getBits c.pll0Cfg 26 17

def pll0N (c : Cgu) : Word := getBits c.pll0Cfg 12 6

def pll0M (c : Cgu) : Word := getBits c.pll0Cfg 5 2

def pll1Src (c : Cgu) : Bool := hasBit c.pll1Cfg 31

def pll1Bypass (c : Cgu) : Bool := hasBit c.pll1Cfg 30

def pll1Dsmsel (c : Cgu) : Bool := hasBit c.pll1Cfg 28

def pll1FracEn (c : Cgu) : Bool := hasBit c.pll1Cfg 27

def pll1K (c : Cgu) : Word := getBits c.pll1Cfg 26 17

def pll1N (c : Cgu) : Word := getBits c.pll1Cfg 12 6

def pll1M (c : Cgu) : Word := getBits c.pll1Cfg 5 2

def pll2PhaseDividerEnable (c : Cgu) : Bool := hasBit c.pll2Cfg 20

def pll2Bypass (c : Cgu) : Bool := hasBit c.pll2Cfg 19

def pll2Src (c : Cgu) : Word := getBits c.pll2Cfg 18 17

def pll2InputDiv (c : Cgu) : Word := getBits c.pll2Cfg 16 13

def pll2N (c : Cgu) : Word := getBits c.pll2Cfg 12 6

def pll2M (c : Cgu) : Word := getBits c.pll2Cfg 5 2

end Cgu

/-- `get_input_clock`, which `cal_dsm` calls; no result is a recursion that has not come to an end. -/
abbrev InputClock := Nat → Option Word

section Dsm

variable (getInputClock : InputClock)

def calDsm (pll : Nat) (num den : Word) : Option Word :=
  (getInputClock pll).map fun clock =>
    let (ret, residue) := uint64Divide (uint64Multiply num clock) den
    if den ≤ residue <<< 1 then ret + 1 else ret

def mashDsm (pll : Nat) (m n k : Word) : Option Word :=
  calDsm getInputClock pll (((n + 1) <<< 10) + k) ((m + 1) <<< 10)

def ssffDsm1 (pll : Nat) (m n k : Word) : Option Word :=
  calDsm getInputClock pll (((n + 1) <<< 11) + k + 512) ((m + 1) <<< 11)

def ssffDsm2 (pll : Nat) (m n k : Word) : Option Word :=
  calDsm getInputClock pll
    (if 512#32 ≤ k then ((n + 1) <<< 12) + k - 512 else ((n + 1) <<< 12) + k + 3584)
    ((m + 1) <<< 12)

def dsm (pll : Nat) (m n k : Word) (dsmsel phaseDivEn : Bool) : Option Word :=
  if !dsmsel then mashDsm getInputClock pll m n k
  else if !phaseDivEn then ssffDsm1 getInputClock pll m n k
  else ssffDsm2 getInputClock pll m n k

variable (c : Cgu) (left : Word)

/-- With the bypass set the function ends without a `return`; `left` is what the caller takes for its
value then. -/
def Cgu.pll0Fosc : Option Word :=
  if c.pll0Bypass then (getInputClock 0).map fun _ => left
  else if !c.pll0FracEn then
    dsm getInputClock 0 c.pll0M c.pll0N 0 c.pll0Dsmsel c.pll0PhaseDividerEnable
  else dsm getInputClock 0 c.pll0M c.pll0N c.pll0K c.pll0Dsmsel c.pll0PhaseDividerEnable

def Cgu.pll0Fdiv : Option Word :=
  (c.pll0Fosc getInputClock left).map fun fosc =>
    let div := c.pll2InputDiv + 1
    (fosc + (div >>> 1)) / div

def Cgu.pll1Fosc : Option Word :=
  if c.pll1Bypass then (getInputClock 1).map fun _ => left
  else if !c.pll1FracEn then dsm getInputClock 1 c.pll1M c.pll1N 0 c.pll1Dsmsel false
  else dsm getInputClock 1 c.pll1M c.pll1N c.pll1K c.pll1Dsmsel false

def Cgu.pll2Fosc : Option Word :=
  if c.pll2Bypass then getInputClock 2
  else
    (getInputClock 2).map fun clock =>
      let (ret, residue) := uint64Divide (uint64Multiply (c.pll2N + 1) clock) (c.pll2M + 1)
      if c.pll2M < residue <<< 1 then ret + 1 else ret

end Dsm

namespace Cgu

variable (c : Cgu) (left : Word)

/-- `get_input_clock` to a depth of calls of itself. -/
def getInputClock : Nat → InputClock
  | 0, _ => none
  | depth + 1, pll =>
    match pll with
    | 0 =>
      some (if c.pll0Src then basisInputCrystalUsb
        else if c.pll0PhaseDividerEnable then basicInputClockFrequency1
        else basicInputClockFrequency2)
    | 1 =>
      some (if c.pll1Src then basisInputCrystalUsb
        else if c.pll0PhaseDividerEnable then basicInputClockFrequency1
        else basicInputClockFrequency2)
    | 2 =>
      if c.pll2Src = 0 then c.pll0Fdiv (getInputClock depth) left
      else if c.pll2Src = 1 then
        some (if c.pll2PhaseDividerEnable then basicInputClockFrequency1
          else basicInputClockFrequency2)
      else if c.pll2Src = 2 then some basisInputCrystalUsb
      else some 0
    | _ => some 0

def cguGetPll0Fosc (depth : Nat) : Option Word := c.pll0Fosc (c.getInputClock left depth) left

def cguGetPll0Fdiv (depth : Nat) : Option Word := c.pll0Fdiv (c.getInputClock left depth) left

def cguGetPll1Fosc (depth : Nat) : Option Word := c.pll1Fosc (c.getInputClock left depth) left

def cguGetPll2Fosc (depth : Nat) : Option Word := c.pll2Fosc (c.getInputClock left depth)

end Cgu

/-- The fraction that the mode makes of `K`. -/
def pllFraction (dsmsel phaseDivEn : Bool) (k : Nat) : ℚ :=
  if !dsmsel then k / 1024
  else if !phaseDivEn then 1 / 4 + k / 2048
  else if 512 ≤ k then (k - 512) / 4096
  else 7 / 8 + k / 4096

/-- The nearest integer to the frequency behind a PLL, halves up. -/
def pllFrequency (clock : ℤ) (m n : Nat) (f : ℚ) : ℤ := round ((clock : ℚ) * (n + 1 + f) / (m + 1))

/-- The input clock from outside. -/
def inputFrequency (usb phaseDiv : Bool) : ℤ :=
  if usb then 12000000 else if phaseDiv then 35328000 else 36000000

/-- The numerator and the denominator that `dsm` gives to `cal_dsm`. -/
def dsmRatio (m n k : Word) (dsmsel phaseDivEn : Bool) : Word × Word :=
  if !dsmsel then (((n + 1) <<< 10) + k, (m + 1) <<< 10)
  else if !phaseDivEn then (((n + 1) <<< 11) + k + 512, (m + 1) <<< 11)
  else
    (if 512#32 ≤ k then ((n + 1) <<< 12) + k - 512 else ((n + 1) <<< 12) + k + 3584,
      (m + 1) <<< 12)

/-- Product, quotient and doubled residue of a division as exact numbers. -/
structure DivisionLossless (num clock den : Word) : Prop where
  product : value64 (uint64Multiply num clock) = num.toNat * clock.toNat
  quotient : num.toNat * clock.toNat / den.toNat < 2 ^ 32 →
    (uint64Divide (uint64Multiply num clock) den).1.toNat = num.toNat * clock.toNat / den.toNat
  doubled : ((uint64Divide (uint64Multiply num clock) den).2 <<< 1).toNat =
    2 * (num.toNat * clock.toNat % den.toNat)

namespace Cgu

variable (c : Cgu)

def pll0Ratio : Word × Word :=
  dsmRatio c.pll0M c.pll0N (if c.pll0FracEn then c.pll0K else 0) c.pll0Dsmsel
    c.pll0PhaseDividerEnable

def pll1Ratio : Word × Word :=
  dsmRatio c.pll1M c.pll1N (if c.pll1FracEn then c.pll1K else 0) c.pll1Dsmsel false

def pll2Ratio : Word × Word := (c.pll2N + 1, c.pll2M + 1)

def pll0Clock : ℤ := inputFrequency c.pll0Src c.pll0PhaseDividerEnable

def pll1Clock : ℤ := inputFrequency c.pll1Src c.pll0PhaseDividerEnable

def pll0Frequency : ℤ :=
  if c.pll0Bypass then c.pll0Clock
  else
    pllFrequency c.pll0Clock c.pll0M.toNat c.pll0N.toNat
      (pllFraction c.pll0Dsmsel c.pll0PhaseDividerEnable
        (if c.pll0FracEn then c.pll0K.toNat else 0))

def pll1Frequency : ℤ :=
  if c.pll1Bypass then c.pll1Clock
  else
    pllFrequency c.pll1Clock c.pll1M.toNat c.pll1N.toNat
      (pllFraction c.pll1Dsmsel false (if c.pll1FracEn then c.pll1K.toNat else 0))

/-- The clock that PLL2 starts from; its third source is the output divider of PLL0, and one of the
four there is not. -/
def pll2Clock : ℤ :=
  if c.pll2Src = 0 then round ((c.pll0Frequency : ℚ) / (c.pll2InputDiv.toNat + 1))
  else if c.pll2Src = 1 then inputFrequency false c.pll2PhaseDividerEnable
  else if c.pll2Src = 2 then inputFrequency true false
  else 0

def pll2Frequency : ℤ :=
  if c.pll2Bypass then c.pll2Clock
  else pllFrequency c.pll2Clock c.pll2M.toNat c.pll2N.toNat 0

/-- The result is `frequency`, if that fits, for any value left by a missing `return`, and from a depth
of two on. -/
def Returns (f : Word → Nat → Option Word) (frequency : ℤ) : Prop :=
  ∀ left depth, 2 ≤ depth →
    ∃ v, f left depth = some v ∧ (frequency < 2 ^ 32 → (v.toNat : ℤ) = frequency)

/-- The division by a ratio loses nothing, with any clock that the PLL starts from. -/
def Lossless (pll : Nat) (ratio : Word × Word) : Prop :=
  ∀ left depth clock, c.getInputClock left depth pll = some clock →
    DivisionLossless ratio.1 clock ratio.2

structure PllExact : Prop where
  pll0 : Returns c.cguGetPll0Fosc c.pll0Frequency
  pll1 : Returns c.cguGetPll1Fosc c.pll1Frequency
  pll2 : Returns c.cguGetPll2Fosc c.pll2Frequency
  lossless0 : c.Lossless 0 c.pll0Ratio
  lossless1 : c.Lossless 1 c.pll1Ratio
  lossless2 : c.Lossless 2 c.pll2Ratio

/-- No PLL from that a `return` is missing, and no PLL0 that is too fast for PLL2. -/
structure PllDefined : Prop where
  pll0 : c.pll0Bypass = false
  pll1 : c.pll1Bypass = false
  source : c.pll2Src = 0 → c.pll2Frequency < 2 ^ 32 →
    c.pll0Frequency + (c.pll2InputDiv.toNat + 1) / 2 < 2 ^ 32

end Cgu

section Words

theorem toNat_getBits (x : Word) {msb : Nat} (hmsb : msb < 31) (lsb : Nat) :
    (getBits x msb lsb).toNat = x.toNat % 2 ^ (msb + 1) / 2 ^ lsb := by
  have hmask : ((1#32 <<< (msb + 1)) - 1).toNat = 2 ^ (msb + 1) - 1 := by
    have hlt : 2 ^ (msb + 1) < 2 ^ 32 := Nat.pow_lt_pow_right (by decide) (by omega)
    have hone : (1#32 <<< (msb + 1)).toNat = 2 ^ (msb + 1) := by
      rw [BitVec.toNat_shiftLeft, Nat.shiftLeft_eq]
      show 1 * 2 ^ (msb + 1) % 2 ^ 32 = _
      rw [Nat.one_mul, Nat.mod_eq_of_lt hlt]
    have hle : (1 : Word) ≤ 1#32 <<< (msb + 1) := by
      rw [BitVec.le_def, hone]
      exact Nat.two_pow_pos _
    rw [BitVec.toNat_sub_of_le hle, hone]
    rfl
  rw [getBits, BitVec.toNat_ushiftRight, Nat.shiftRight_eq_div_pow, BitVec.toNat_and, hmask,
    Nat.and_two_pow_sub_one_eq_mod]

theorem getBits_lt (x : Word) {msb : Nat} (hmsb : msb < 31) {lsb width : Nat}
    (h : msb + 1 = width + lsb) : (getBits x msb lsb).toNat < 2 ^ width := by
  have hlt : x.toNat % 2 ^ (width + lsb) < 2 ^ lsb * 2 ^ width := by
    rw [← Nat.pow_add, Nat.add_comm lsb]
    exact Nat.mod_lt _ (Nat.two_pow_pos _)
  rw [toNat_getBits x hmsb, h]
  exact Nat.div_lt_of_lt_mul hlt

theorem toNat_succ {x : Word} (h : x.toNat < 2 ^ 10) : (x + 1).toNat = x.toNat + 1 := by
  rw [BitVec.toNat_add]
  exact Nat.mod_eq_of_lt (by show x.toNat + 1 < 2 ^ 32; omega)

end Words

section Division

variable {num clock den : Word}

theorem DivisionLossless.of_lt (hlt : num.toNat * clock.toNat < 2 ^ 48) (hpos : 0 < den.toNat)
    (hhalf : den.toNat ≤ 2 ^ 31) : DivisionLossless num clock den := by
  have hproduct := uint64Multiply_exact hlt
  obtain ⟨hquotient, hresidue⟩ := uint64Divide_eq (uint64Multiply num clock) hpos hhalf
  rw [hproduct] at hquotient hresidue
  refine ⟨hproduct, fun hfits => hquotient.trans (Nat.mod_eq_of_lt hfits), ?_⟩
  have hmod := Nat.mod_lt (num.toNat * clock.toNat) hpos
  rw [BitVec.toNat_shiftLeft, Nat.shiftLeft_eq, hresidue, Nat.mod_eq_of_lt (by omega)]
  omega

/-- Rounding to the nearest by the doubled residue; what does not fit is cut. -/
theorem divide_rounded (hlt : num.toNat * clock.toNat < 2 ^ 48) (hpos : 0 < den.toNat)
    (hhalf : den.toNat ≤ 2 ^ 31) :
    ((if den ≤ (uint64Divide (uint64Multiply num clock) den).2 <<< 1
        then (uint64Divide (uint64Multiply num clock) den).1 + 1
        else (uint64Divide (uint64Multiply num clock) den).1 : Word)).toNat =
      nearest (num.toNat * clock.toNat) den.toNat % 2 ^ 32 := by
  obtain ⟨hquotient, -⟩ := uint64Divide_eq (uint64Multiply num clock) hpos hhalf
  rw [uint64Multiply_exact hlt] at hquotient
  have hup : den ≤ (uint64Divide (uint64Multiply num clock) den).2 <<< 1 ↔
      den.toNat ≤ 2 * (num.toNat * clock.toNat % den.toNat) := by
    rw [BitVec.le_def, (DivisionLossless.of_lt hlt hpos hhalf).doubled]
  simp only [hup]
  rw [nearest_eq hpos]
  split_ifs
  · rw [BitVec.toNat_add, hquotient]
    show (_ + 1) % _ = _
    omega
  · rw [hquotient, Nat.add_zero]

end Division

section Ratio

variable {m n k : Word}

theorem toNat_scaled {x : Word} {j : Nat} (hx : x.toNat < 2 ^ 7) (hj : j ≤ 12) :
    ((x + 1) <<< j).toNat = (x.toNat + 1) * 2 ^ j := by
  have hpow : 2 ^ j ≤ 2 ^ 12 := Nat.pow_le_pow_right (by decide) hj
  rw [BitVec.toNat_shiftLeft, Nat.shiftLeft_eq, toNat_succ (by omega)]
  refine Nat.mod_eq_of_lt (Nat.lt_of_le_of_lt (Nat.mul_le_mul (Nat.succ_le_of_lt hx) hpow) ?_)
  decide

/-- What the ratio of a mode is. -/
theorem dsmRatio_spec (hm : m.toNat < 2 ^ 4) (hn : n.toNat < 2 ^ 7) (hk : k.toNat < 2 ^ 10)
    (dsmsel phaseDivEn : Bool) :
    0 < (dsmRatio m n k dsmsel phaseDivEn).2.toNat ∧
      (dsmRatio m n k dsmsel phaseDivEn).2.toNat ≤ 2 ^ 16 ∧
      (dsmRatio m n k dsmsel phaseDivEn).1.toNat ≤
        129 * (dsmRatio m n k dsmsel phaseDivEn).2.toNat ∧
      (dsmRatio m n k dsmsel phaseDivEn).1.toNat < 2 ^ 20 ∧
      ((dsmRatio m n k dsmsel phaseDivEn).1.toNat : ℚ) /
          (dsmRatio m n k dsmsel phaseDivEn).2.toNat =
        (n.toNat + 1 + pllFraction dsmsel phaseDivEn k.toNat) / (m.toNat + 1) := by
  have hden (j : Nat) (hj : j ≤ 12) : ((m + 1) <<< j).toNat = (m.toNat + 1) * 2 ^ j :=
    toNat_scaled (by omega) hj
  have hnum (j : Nat) (hj : j ≤ 12) : ((n + 1) <<< j).toNat = (n.toNat + 1) * 2 ^ j :=
    toNat_scaled hn hj
  have hm' : (m.toNat : ℚ) + 1 ≠ 0 := by positivity
  unfold dsmRatio pllFraction
  cases dsmsel with
  | false =>
    have hsum : (((n + 1) <<< 10) + k).toNat = (n.toNat + 1) * 2 ^ 10 + k.toNat := by
      rw [BitVec.toNat_add, hnum 10 (by decide)]
      omega
    simp only [Bool.not_false, if_true, hden 10 (by decide), hsum]
    refine ⟨by omega, by omega, by omega, by omega, ?_⟩
    push_cast
    field_simp
  | true =>
    cases phaseDivEn with
    | false =>
      have hsum : (((n + 1) <<< 11) + k + 512).toNat =
          (n.toNat + 1) * 2 ^ 11 + k.toNat + 512 := by
        rw [BitVec.toNat_add, BitVec.toNat_add, hnum 11 (by decide)]
        show (_ + 512) % _ = _
        omega
      simp only [Bool.not_true, Bool.false_eq_true, if_false, Bool.not_false, if_true,
        hden 11 (by decide), hsum]
      refine ⟨by omega, by omega, by omega, by omega, ?_⟩
      push_cast
      field_simp
      ring
    | true =>
      simp only [Bool.not_true, Bool.false_eq_true, if_false, hden 12 (by decide)]
      by_cases hup : 512 ≤ k.toNat
      · have hsum : (((n + 1) <<< 12) + k - 512).toNat =
            (n.toNat + 1) * 2 ^ 12 + k.toNat - 512 := by
          rw [BitVec.toNat_sub, BitVec.toNat_add, hnum 12 (by decide)]
          show (2 ^ 32 - 512 + _) % _ = _
          omega
        rw [if_pos (show 512#32 ≤ k from hup), if_pos hup, hsum]
        refine ⟨by omega, by omega, by omega, by omega, ?_⟩
        rw [Nat.cast_sub (by omega)]
        push_cast
        field_simp
        ring
      · have hsum : (((n + 1) <<< 12) + k + 3584).toNat =
            (n.toNat + 1) * 2 ^ 12 + k.toNat + 3584 := by
          rw [BitVec.toNat_add, BitVec.toNat_add, hnum 12 (by decide)]
          show (_ + 3584) % _ = _
          omega
        rw [if_neg (show ¬512#32 ≤ k from hup), if_neg hup, hsum]
        refine ⟨by omega, by omega, by omega, by omega, ?_⟩
        push_cast
        field_simp
        ring

theorem dsm_eq (getInputClock : InputClock) (pll : Nat) (m n k : Word) (dsmsel phaseDivEn : Bool) :
    dsm getInputClock pll m n k dsmsel phaseDivEn =
      calDsm getInputClock pll (dsmRatio m n k dsmsel phaseDivEn).1
        (dsmRatio m n k dsmsel phaseDivEn).2 := by
  unfold dsm dsmRatio mashDsm ssffDsm1 ssffDsm2
  split_ifs
  · rfl
  · rfl
  · rfl
  · rfl

/-- The nearest integer to the frequency, by the ratio. -/
theorem pllFrequency_eq {m n num den : Nat} {f : ℚ} (hden : 0 < den)
    (hratio : (num : ℚ) / den = (n + 1 + f) / (m + 1)) (clock : Nat) :
    pllFrequency clock m n f = nearest (num * clock) den := by
  rw [← round_div hden]
  unfold pllFrequency
  congr 1
  push_cast
  rw [mul_div_assoc, ← hratio]
  ring

end Ratio

section Values

variable {m n k clock : Word}

/-- The frequency by the ratio that `dsm` makes, which is below twice the range of a word. -/
theorem dsm_frequency (hle : clock.toNat ≤ 36000000) (hm : m.toNat < 2 ^ 4) (hn : n.toNat < 2 ^ 7)
    (hk : k.toNat < 2 ^ 10) (dsmsel phaseDivEn : Bool) :
    pllFrequency clock.toNat m.toNat n.toNat (pllFraction dsmsel phaseDivEn k.toNat) =
        nearest ((dsmRatio m n k dsmsel phaseDivEn).1.toNat * clock.toNat)
          (dsmRatio m n k dsmsel phaseDivEn).2.toNat ∧
      nearest ((dsmRatio m n k dsmsel phaseDivEn).1.toNat * clock.toNat)
        (dsmRatio m n k dsmsel phaseDivEn).2.toNat ≤ 129 * 36000000 := by
  obtain ⟨hpos, -, hnum, -, hratio⟩ := dsmRatio_spec hm hn hk dsmsel phaseDivEn
  refine ⟨pllFrequency_eq hpos hratio clock.toNat, ?_⟩
  generalize dsmRatio m n k dsmsel phaseDivEn = ratio at hpos hnum ⊢
  have hfast : ratio.1.toNat * clock.toNat ≤ 129 * 36000000 * ratio.2.toNat := by
    calc ratio.1.toNat * clock.toNat ≤ 129 * ratio.2.toNat * 36000000 := Nat.mul_le_mul hnum hle
      _ = 129 * 36000000 * ratio.2.toNat := by ring
  have hbound := nearest_mono (b := ratio.2.toNat) hfast
  rwa [nearest_mul hpos] at hbound

theorem dsm_lossless (hle : clock.toNat ≤ 36000000) (hm : m.toNat < 2 ^ 4) (hn : n.toNat < 2 ^ 7)
    (hk : k.toNat < 2 ^ 10) (dsmsel phaseDivEn : Bool) :
    DivisionLossless (dsmRatio m n k dsmsel phaseDivEn).1 clock
        (dsmRatio m n k dsmsel phaseDivEn).2 ∧
      ∀ (getInputClock : InputClock) (pll : Nat), getInputClock pll = some clock →
        ∃ v, dsm getInputClock pll m n k dsmsel phaseDivEn = some v ∧
          v.toNat = nearest ((dsmRatio m n k dsmsel phaseDivEn).1.toNat * clock.toNat)
            (dsmRatio m n k dsmsel phaseDivEn).2.toNat % 2 ^ 32 := by
  obtain ⟨hpos, hden, -, hnum, -⟩ := dsmRatio_spec hm hn hk dsmsel phaseDivEn
  have hproduct : (dsmRatio m n k dsmsel phaseDivEn).1.toNat * clock.toNat < 2 ^ 48 := by
    have hmul := Nat.mul_le_mul hnum.le hle
    omega
  refine ⟨DivisionLossless.of_lt hproduct hpos (by omega), fun getInputClock pll hclock => ?_⟩
  refine ⟨_, ?_, divide_rounded hproduct hpos (by omega)⟩
  rw [dsm_eq, calDsm, hclock]
  rfl

namespace Cgu

variable (c : Cgu) (left : Word)

/-- The clock from outside, as the code has it. -/
def outsideClock (usb phaseDiv : Bool) : Word :=
  if usb then basisInputCrystalUsb
  else if phaseDiv then basicInputClockFrequency1
  else basicInputClockFrequency2

theorem outsideClock_eq (usb phaseDiv : Bool) :
    ((outsideClock usb phaseDiv).toNat : ℤ) = inputFrequency usb phaseDiv ∧
      (outsideClock usb phaseDiv).toNat ≤ 36000000 ∧ 0 < (outsideClock usb phaseDiv).toNat := by
  cases usb <;> cases phaseDiv <;> decide

theorem toNat_ite_frac (frac : Bool) (k : Word) :
    (if frac then k else 0 : Word).toNat = if frac then k.toNat else 0 := by
  cases frac with
  | false => rfl
  | true => rfl

theorem dsm_frac (getInputClock : InputClock) (pll : Nat) (m n k : Word)
    (frac dsmsel phaseDivEn : Bool) :
    (if !frac then dsm getInputClock pll m n 0 dsmsel phaseDivEn
      else dsm getInputClock pll m n k dsmsel phaseDivEn) =
      dsm getInputClock pll m n (if frac then k else 0) dsmsel phaseDivEn := by
  cases frac with
  | false => rfl
  | true => rfl

theorem frac_lt {k : Word} (hk : k.toNat < 2 ^ 10) (frac : Bool) :
    (if frac then k else 0 : Word).toNat < 2 ^ 10 := by
  cases frac with
  | false => exact Nat.two_pow_pos 10
  | true => exact hk

/-- A PLL on a clock from outside has its frequency as its value, without the bits that do not fit. -/
theorem dsm_value (usb phaseDiv : Bool) {m n k : Word} (hm : m.toNat < 2 ^ 4) (hn : n.toNat < 2 ^ 7)
    (hk : k.toNat < 2 ^ 10) (frac dsmsel phaseDivEn : Bool) :
    ∃ f : Nat, pllFrequency (inputFrequency usb phaseDiv) m.toNat n.toNat
        (pllFraction dsmsel phaseDivEn (if frac then k.toNat else 0)) = f ∧
      f ≤ 129 * 36000000 ∧ ∀ (getInputClock : InputClock) (pll : Nat),
        getInputClock pll = some (outsideClock usb phaseDiv) →
          ∃ v, (if !frac then dsm getInputClock pll m n 0 dsmsel phaseDivEn
            else dsm getInputClock pll m n k dsmsel phaseDivEn) = some v ∧ v.toNat = f % 2 ^ 32 := by
  obtain ⟨hclock, hle, -⟩ := outsideClock_eq usb phaseDiv
  obtain ⟨hfreq, hbound⟩ := dsm_frequency hle hm hn (frac_lt hk frac) dsmsel phaseDivEn
  obtain ⟨-, hvalue⟩ := dsm_lossless hle hm hn (frac_lt hk frac) dsmsel phaseDivEn
  refine ⟨_, ?_, hbound, ?_⟩
  · rw [← hfreq, hclock, toNat_ite_frac]
  · intro getInputClock pll hinput
    rw [dsm_frac]
    exact hvalue getInputClock pll hinput

/-- The value of PLL0 is its frequency without the bits that do not fit. -/
theorem pll0_value (hb : c.pll0Bypass = false) :
    ∃ f : Nat, c.pll0Frequency = f ∧ f ≤ 129 * 36000000 ∧ ∀ left depth,
      ∃ v, c.cguGetPll0Fosc left (depth + 1) = some v ∧ v.toNat = f % 2 ^ 32 := by
  have hm : c.pll0M.toNat < 2 ^ 4 := getBits_lt _ (by decide) rfl
  have hn : c.pll0N.toNat < 2 ^ 7 := getBits_lt _ (by decide) rfl
  have hk : c.pll0K.toNat < 2 ^ 10 := getBits_lt _ (by decide) rfl
  obtain ⟨f, hfreq, hbound, hvalue⟩ := dsm_value c.pll0Src c.pll0PhaseDividerEnable hm hn hk
    c.pll0FracEn c.pll0Dsmsel c.pll0PhaseDividerEnable
  refine ⟨f, ?_, hbound, fun left depth => ?_⟩
  · rw [pll0Frequency, hb, if_neg Bool.false_ne_true, pll0Clock, hfreq]
  · rw [cguGetPll0Fosc, pll0Fosc, hb, if_neg Bool.false_ne_true]
    exact hvalue (c.getInputClock left (depth + 1)) 0 rfl

theorem pll1_value (hb : c.pll1Bypass = false) :
    ∃ f : Nat, c.pll1Frequency = f ∧ f ≤ 129 * 36000000 ∧ ∀ left depth,
      ∃ v, c.cguGetPll1Fosc left (depth + 1) = some v ∧ v.toNat = f % 2 ^ 32 := by
  have hm : c.pll1M.toNat < 2 ^ 4 := getBits_lt _ (by decide) rfl
  have hn : c.pll1N.toNat < 2 ^ 7 := getBits_lt _ (by decide) rfl
  have hk : c.pll1K.toNat < 2 ^ 10 := getBits_lt _ (by decide) rfl
  obtain ⟨f, hfreq, hbound, hvalue⟩ := dsm_value c.pll1Src c.pll0PhaseDividerEnable hm hn hk
    c.pll1FracEn c.pll1Dsmsel false
  refine ⟨f, ?_, hbound, fun left depth => ?_⟩
  · rw [pll1Frequency, hb, if_neg Bool.false_ne_true, pll1Clock, hfreq]
  · rw [cguGetPll1Fosc, pll1Fosc, hb, if_neg Bool.false_ne_true]
    exact hvalue (c.getInputClock left (depth + 1)) 1 rfl

/-- What PLL2 makes of a clock. -/
def pll2Of (clock : Nat) : Nat :=
  if c.pll2Bypass then clock
  else nearest ((c.pll2N.toNat + 1) * clock) (c.pll2M.toNat + 1)

theorem pll2Ratio_eq : (c.pll2N + 1).toNat = c.pll2N.toNat + 1 ∧ c.pll2N.toNat < 2 ^ 7 ∧
    (c.pll2M + 1).toNat = c.pll2M.toNat + 1 ∧ c.pll2M.toNat < 2 ^ 4 := by
  have hn : c.pll2N.toNat < 2 ^ 7 := getBits_lt _ (by decide) rfl
  have hm : c.pll2M.toNat < 2 ^ 4 := getBits_lt _ (by decide) rfl
  exact ⟨toNat_succ (by omega), hn, toNat_succ (by omega), hm⟩

theorem pll2Product_lt (clock : Word) : (c.pll2N + 1).toNat * clock.toNat < 2 ^ 48 := by
  obtain ⟨hn, hlt, -⟩ := c.pll2Ratio_eq
  have hmul : (c.pll2N + 1).toNat * clock.toNat ≤ 2 ^ 7 * 2 ^ 32 :=
    Nat.mul_le_mul (by omega) clock.isLt.le
  omega

theorem pll2_value {depth : Nat} {clock : Word} (h : c.getInputClock left depth 2 = some clock) :
    ∃ v, c.cguGetPll2Fosc left depth = some v ∧ v.toNat = c.pll2Of clock.toNat % 2 ^ 32 := by
  obtain ⟨hn, -, hm, hlt⟩ := c.pll2Ratio_eq
  unfold cguGetPll2Fosc pll2Fosc pll2Of
  cases c.pll2Bypass with
  | true => exact ⟨clock, h, (Nat.mod_eq_of_lt clock.isLt).symm⟩
  | false =>
    have hhalf : (c.pll2M + 1).toNat ≤ 2 ^ 31 := by omega
    have hround := divide_rounded (c.pll2Product_lt clock) (by omega) hhalf
    have hup (x : Word) : c.pll2M < x ↔ c.pll2M + 1 ≤ x := by
      rw [BitVec.lt_def, BitVec.le_def, hm]
      exact Iff.rfl
    simp only [h, Option.map_some, Bool.false_eq_true, if_false, hup]
    refine ⟨_, rfl, ?_⟩
    rw [hround, hn, hm]

theorem pll2Frequency_eq {clock : Nat} (h : c.pll2Clock = clock) :
    c.pll2Frequency = c.pll2Of clock := by
  unfold pll2Frequency pll2Of
  rw [h]
  cases c.pll2Bypass with
  | true => rfl
  | false =>
    have hratio : ((c.pll2N.toNat + 1 : ℕ) : ℚ) / ((c.pll2M.toNat + 1 : ℕ) : ℚ) =
        (c.pll2N.toNat + 1 + 0) / (c.pll2M.toNat + 1) := by
      push_cast
      rw [add_zero]
    exact pllFrequency_eq (Nat.succ_pos _) hratio clock

/-- Sixteen hertz make a difference behind PLL2. -/
theorem pll2Of_lt {w w' : Nat} (h : w + 16 ≤ w') : c.pll2Of w < c.pll2Of w' := by
  obtain ⟨-, -, -, hm⟩ := c.pll2Ratio_eq
  unfold pll2Of
  split_ifs
  · omega
  · have hmul : (c.pll2N.toNat + 1) * w + (c.pll2M.toNat + 1) ≤ (c.pll2N.toNat + 1) * w' := by
      calc (c.pll2N.toNat + 1) * w + (c.pll2M.toNat + 1)
          ≤ (c.pll2N.toNat + 1) * w + (c.pll2N.toNat + 1) * 16 := by omega
        _ = (c.pll2N.toNat + 1) * (w + 16) := by ring
        _ ≤ (c.pll2N.toNat + 1) * w' := Nat.mul_le_mul_left _ h
    have hstep := nearest_mono (b := c.pll2M.toNat + 1) hmul
    rw [nearest_add (by omega : 0 < c.pll2M.toNat + 1)] at hstep
    omega

/-- The clock of PLL2 that is not from PLL0. -/
theorem pll2Clock_outside (h : c.pll2Src ≠ 0) (depth : Nat) :
    ∃ clock : Word, c.getInputClock left (depth + 1) 2 = some clock ∧
      c.pll2Clock = (clock.toNat : ℤ) := by
  unfold pll2Clock
  simp only [getInputClock, h, if_false]
  by_cases h1 : c.pll2Src = 1
  · refine ⟨outsideClock false c.pll2PhaseDividerEnable, ?_, ?_⟩
    · simp only [h1, if_true]
      rfl
    · simp only [h1, if_true]
      exact (outsideClock_eq _ _).1.symm
  by_cases h2 : c.pll2Src = 2
  · refine ⟨basisInputCrystalUsb, ?_, ?_⟩
    · rw [h2]
      rfl
    · rw [h2]
      exact (outsideClock_eq true false).1.symm
  · refine ⟨0, ?_, ?_⟩
    · simp only [h1, h2, if_false]
    · simp only [h1, h2, if_false]
      rfl

/-- The clock of PLL2 that is from PLL0 is divided with what fits of the sum. -/
theorem pll2Clock_divided (h : c.pll2Src = 0) {depth : Nat} {fosc : Word}
    (hfosc : c.cguGetPll0Fosc left depth = some fosc) :
    ∃ clock : Word, c.getInputClock left (depth + 1) 2 = some clock ∧
      clock.toNat = (fosc.toNat + (c.pll2InputDiv.toNat + 1) / 2) % 2 ^ 32 /
        (c.pll2InputDiv.toNat + 1) := by
  have hlt : c.pll2InputDiv.toNat < 2 ^ 4 := getBits_lt _ (by decide) rfl
  have hdiv : (c.pll2InputDiv + 1).toNat = c.pll2InputDiv.toNat + 1 := toNat_succ (by omega)
  refine ⟨(fosc + ((c.pll2InputDiv + 1) >>> 1)) / (c.pll2InputDiv + 1), ?_, ?_⟩
  · simp only [getInputClock, h, if_true]
    unfold pll0Fdiv
    rw [show c.pll0Fosc (c.getInputClock left depth) left = some fosc from hfosc]
    rfl
  · rw [BitVec.toNat_udiv, BitVec.toNat_add, BitVec.toNat_ushiftRight, Nat.shiftRight_eq_div_pow,
      hdiv]

theorem pll2Clock_eq (h : c.pll2Src = 0) {f : Nat} (hf : c.pll0Frequency = f) :
    c.pll2Clock = ((f + (c.pll2InputDiv.toNat + 1) / 2) / (c.pll2InputDiv.toNat + 1) : ℕ) := by
  rw [pll2Clock, if_pos h, hf, ← nearest_eq_add_half (Nat.succ_pos _),
    ← round_div (Nat.succ_pos _)]
  push_cast
  rfl

/-- The ratio of a PLL that starts from a clock from outside. -/
theorem lossless_outside {pll : Nat} {usb phaseDiv : Bool}
    (hclock : ∀ left depth, c.getInputClock left (depth + 1) pll = some (outsideClock usb phaseDiv))
    {m n k : Word} (hm : m.toNat < 2 ^ 4) (hn : n.toNat < 2 ^ 7) (hk : k.toNat < 2 ^ 10)
    (frac dsmsel phaseDivEn : Bool) :
    c.Lossless pll (dsmRatio m n (if frac then k else 0) dsmsel phaseDivEn) := by
  intro left depth clock h
  cases depth with
  | zero => cases h
  | succ depth =>
    have heq : outsideClock usb phaseDiv = clock := Option.some.inj ((hclock left depth).symm.trans h)
    rw [← heq]
    exact (dsm_lossless (outsideClock_eq usb phaseDiv).2.1 hm hn (frac_lt hk frac) dsmsel phaseDivEn).1

theorem lossless0 : c.Lossless 0 c.pll0Ratio := by
  have hclock : ∀ left depth, c.getInputClock left (depth + 1) 0 =
      some (outsideClock c.pll0Src c.pll0PhaseDividerEnable) := fun _ _ => rfl
  have hm : c.pll0M.toNat < 2 ^ 4 := getBits_lt _ (by decide) rfl
  have hn : c.pll0N.toNat < 2 ^ 7 := getBits_lt _ (by decide) rfl
  have hk : c.pll0K.toNat < 2 ^ 10 := getBits_lt _ (by decide) rfl
  exact c.lossless_outside hclock hm hn hk c.pll0FracEn c.pll0Dsmsel c.pll0PhaseDividerEnable

theorem lossless1 : c.Lossless 1 c.pll1Ratio := by
  have hclock : ∀ left depth, c.getInputClock left (depth + 1) 1 =
      some (outsideClock c.pll1Src c.pll0PhaseDividerEnable) := fun _ _ => rfl
  have hm : c.pll1M.toNat < 2 ^ 4 := getBits_lt _ (by decide) rfl
  have hn : c.pll1N.toNat < 2 ^ 7 := getBits_lt _ (by decide) rfl
  have hk : c.pll1K.toNat < 2 ^ 10 := getBits_lt _ (by decide) rfl
  exact c.lossless_outside hclock hm hn hk c.pll1FracEn c.pll1Dsmsel false

theorem lossless2 : c.Lossless 2 c.pll2Ratio := by
  intro left depth clock _
  obtain ⟨-, -, hm, hlt⟩ := c.pll2Ratio_eq
  exact DivisionLossless.of_lt (c.pll2Product_lt clock) (show 0 < (c.pll2M + 1).toNat by omega)
    (show (c.pll2M + 1).toNat ≤ 2 ^ 31 by omega)

theorem Returns.of_value {f : Word → Nat → Option Word} {frequency : Nat}
    (h : ∀ left depth, ∃ v, f left (depth + 1) = some v ∧ v.toNat = frequency % 2 ^ 32) :
    Returns f frequency := by
  intro left depth hdepth
  obtain ⟨d, rfl⟩ := Nat.exists_eq_add_of_le' (Nat.le_trans (by decide : 1 ≤ 2) hdepth)
  obtain ⟨v, hv, heq⟩ := h left d
  refine ⟨v, hv, fun hfits => ?_⟩
  rw [heq, Nat.mod_eq_of_lt (by exact_mod_cast hfits)]

theorem pll0_returns (h : c.pll0Bypass = false) : Returns c.cguGetPll0Fosc c.pll0Frequency := by
  obtain ⟨f, hf, -, hvalue⟩ := c.pll0_value h
  rw [hf]
  exact Returns.of_value hvalue

theorem pll1_returns (h : c.pll1Bypass = false) : Returns c.cguGetPll1Fosc c.pll1Frequency := by
  obtain ⟨f, hf, -, hvalue⟩ := c.pll1_value h
  rw [hf]
  exact Returns.of_value hvalue

theorem pll2_returns (hbypass : c.pll2Src = 0 → c.pll0Bypass = false)
    (hsource : c.pll2Src = 0 → c.pll2Frequency < 2 ^ 32 →
      c.pll0Frequency + (c.pll2InputDiv.toNat + 1) / 2 < 2 ^ 32) :
    Returns c.cguGetPll2Fosc c.pll2Frequency := by
  intro left depth hdepth
  obtain ⟨depth, rfl⟩ := Nat.exists_eq_add_of_le' hdepth
  by_cases hsrc : c.pll2Src = 0
  · obtain ⟨f, hf, -, hvalue⟩ := c.pll0_value (hbypass hsrc)
    obtain ⟨fosc, hfosc, hmod⟩ := hvalue left depth
    obtain ⟨clock, hget, hword⟩ := c.pll2Clock_divided left hsrc hfosc
    have hclock := c.pll2Clock_eq hsrc hf
    rw [hmod, Nat.mod_add_mod] at hword
    obtain ⟨v, hv, heq⟩ := c.pll2_value left hget
    refine ⟨v, hv, fun hfits => ?_⟩
    have hsum := hsource hsrc hfits
    rw [hf] at hsum
    have hsum' : f + (c.pll2InputDiv.toNat + 1) / 2 < 2 ^ 32 := by exact_mod_cast hsum
    rw [Nat.mod_eq_of_lt hsum'] at hword
    rw [← hword] at hclock
    rw [c.pll2Frequency_eq hclock] at hfits ⊢
    rw [heq, Nat.mod_eq_of_lt (by exact_mod_cast hfits)]
  · obtain ⟨clock, hget, hclock⟩ := c.pll2Clock_outside left hsrc (depth + 1)
    obtain ⟨v, hv, heq⟩ := c.pll2_value left hget
    refine ⟨v, hv, fun hfits => ?_⟩
    rw [c.pll2Frequency_eq hclock] at hfits ⊢
    rw [heq, Nat.mod_eq_of_lt (by exact_mod_cast hfits)]

theorem PllDefined.exact (h : c.PllDefined) : c.PllExact :=
  ⟨c.pll0_returns h.pll0, c.pll1_returns h.pll1, c.pll2_returns (fun _ => h.pll0) h.source,
    c.lossless0, c.lossless1, c.lossless2⟩

theorem div_short {sum div : Nat} (hpos : 0 < div) (hdiv : div ≤ 16) (hsum : 2 ^ 32 ≤ sum)
    (hlt : sum < 2 ^ 33) : sum % 2 ^ 32 / div + 16 ≤ sum / div := by
  have hle := Nat.div_mul_le_self (sum % 2 ^ 32) div
  rw [Nat.le_div_iff_mul_le hpos, Nat.add_mul]
  omega

/-- A value that is left by a missing `return` is not the input clock. -/
theorem Returns.not_left {f : Word → Nat → Option Word} {usb phaseDiv : Bool}
    (h : Returns f (inputFrequency usb phaseDiv)) (hleft : ∀ left, f left 2 = some left) : False := by
  obtain ⟨v, hv, heq⟩ := h 0 2 (Nat.le_refl 2)
  cases Option.some.inj ((hleft 0).symm.trans hv)
  have hzero := heq (by cases usb <;> cases phaseDiv <;> decide)
  cases usb <;> cases phaseDiv <;> exact absurd hzero (by decide)

theorem PllExact.defined (h : c.PllExact) : c.PllDefined := by
  have hb0 : c.pll0Bypass = false := by
    refine Bool.eq_false_of_not_eq_true fun hb => ?_
    have hreturns := h.pll0
    rw [pll0Frequency, if_pos hb] at hreturns
    refine hreturns.not_left fun left => ?_
    rw [cguGetPll0Fosc, pll0Fosc, if_pos hb]
    rfl
  have hb1 : c.pll1Bypass = false := by
    refine Bool.eq_false_of_not_eq_true fun hb => ?_
    have hreturns := h.pll1
    rw [pll1Frequency, if_pos hb] at hreturns
    refine hreturns.not_left fun left => ?_
    rw [cguGetPll1Fosc, pll1Fosc, if_pos hb]
    rfl
  refine ⟨hb0, hb1, fun hsrc hfits => ?_⟩
  obtain ⟨f, hf, hbound, hvalue⟩ := c.pll0_value hb0
  rw [hf]
  by_contra hover
  have hover' : 2 ^ 32 ≤ f + (c.pll2InputDiv.toNat + 1) / 2 := by
    by_contra hlt
    exact hover (by exact_mod_cast Nat.lt_of_not_le hlt)
  obtain ⟨fosc, hfosc, hmod⟩ := hvalue 0 0
  obtain ⟨clock, hget, hword⟩ := c.pll2Clock_divided 0 hsrc hfosc
  have hclock := c.pll2Clock_eq hsrc hf
  rw [hmod, Nat.mod_add_mod] at hword
  obtain ⟨v, hv, heq⟩ := c.pll2_value 0 hget
  obtain ⟨v', hv', hexact⟩ := h.pll2 0 2 (Nat.le_refl 2)
  cases Option.some.inj (hv.symm.trans hv')
  have hdiv : c.pll2InputDiv.toNat < 2 ^ 4 := getBits_lt _ (by decide) rfl
  -- the clock is short of 2 ^ 32 through the divisor
  have hshort : clock.toNat + 16 ≤
      (f + (c.pll2InputDiv.toNat + 1) / 2) / (c.pll2InputDiv.toNat + 1) := by
    rw [hword]
    exact div_short (Nat.succ_pos _) (by omega) hover' (by omega)
  have hless := c.pll2Of_lt hshort
  rw [c.pll2Frequency_eq hclock] at hfits hexact
  have hsame := hexact hfits
  have hfits' : c.pll2Of ((f + (c.pll2InputDiv.toNat + 1) / 2) / (c.pll2InputDiv.toNat + 1)) <
      2 ^ 32 := by exact_mod_cast hfits
  rw [heq, Nat.mod_eq_of_lt (by omega)] at hsame
  have hsame' := Int.ofNat.inj hsame
  omega

end Cgu

end Values

/-- The frequencies are exact just where the PLLs are defined. -/
theorem cgu_pll_exact_iff (c : Cgu) : c.PllExact ↔ c.PllDefined :=
  ⟨fun h => h.defined, fun h => h.exact⟩

/-- PLL0 is bypassed, and its frequency is what the missing `return` leaves. -/
theorem cgu_pll0_bypass_left :
    ¬(⟨0x40000000#32, 0, 0, 0, 0⟩ : Cgu).PllExact ∧
      ∀ left, (⟨0x40000000#32, 0, 0, 0, 0⟩ : Cgu).cguGetPll0Fosc left 2 = some left := by
  have hleft (left : Word) :
      (⟨0x40000000#32, 0, 0, 0, 0⟩ : Cgu).cguGetPll0Fosc left 2 = some left := rfl
  refine ⟨fun h => ?_, hleft⟩
  have hreturns := h.pll0
  rw [Cgu.pll0Frequency, if_pos (by decide)] at hreturns
  exact hreturns.not_left hleft

end DanubeBsp
