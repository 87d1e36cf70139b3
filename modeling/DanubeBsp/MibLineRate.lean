import Mathlib.Data.Rat.Floor
import DanubeBsp.MeiHdlc

namespace DanubeBsp

def cnfgGroup : Byte := 8#8

/-- The rates of `adslLineRateInfo` that are computed in the ADSL2 modes. -/
inductive RateField
  | adslDataRateds
  | adslDataRateus

/-- The parameters that are asked for, in this order. -/
inductive RateParam
  | lp
  | rp
  | mp
  | tp
  | kp
  deriving DecidableEq

/-- The addresses of the requests. The block for `adslDataRateds` uses those with `RATEUS` in their
names, and the other way round. -/
def rateAddress : RateField → RateParam → Half
  | .adslDataRateds, .lp => 25
  | .adslDataRateds, .rp => 23
  | .adslDataRateds, .mp => 24
  | .adslDataRateds, .tp => 26
  | .adslDataRateds, .kp => 28
  | .adslDataRateus, .lp => 14
  | .adslDataRateus, .rp => 12
  | .adslDataRateus, .mp => 13
  | .adslDataRateus, .tp => 15
  | .adslDataRateus, .kp => 17

/-- The request for a parameter of latency path 0, for an interleaved channel, or 1. -/
def rateCMV (f : RateField) (interleave : Bool) (p : RateParam) : List Half :=
  if p = .kp then readCMV cnfgGroup (rateAddress f p) (if interleave then 0 else 2) 2
  else readCMV cnfgGroup (rateAddress f p) (if interleave then 0 else 1) 1

structure LineParams where
  mp : Word
  lp : Word
  tp : Word
  rp : Word
  kp : Word
  bpn : Word

/-- The parameters from the replies of the modem, `none` for a `meiCMV` that fails. -/
def lineParams (cmv : List Half → Option (Nat → Half)) (f : RateField) (interleave : Bool) :
    LineParams :=
  let word (p : RateParam) : Word :=
    match cmv (rateCMV f interleave p) with
    | none => 0
    | some rx => (rx 4).setWidth 32
  let sum : Option Word := (cmv (rateCMV f interleave .kp)).map fun rx =>
    (rx 4).setWidth 32 + (rx 5).setWidth 32
  { lp := word .lp
    rp := word .rp
    mp := word .mp
    tp := word .tp
    kp := match sum with
      | none => 0
      | some n => n + 1
    bpn := sum.getD 0 }

/-- The computation of `DataRate`; `none` is the division by zero. -/
def dataRate (q : LineParams) : Option Word :=
  let divisor := q.tp * (q.kp * q.mp + q.rp)
  if divisor = 0 then none else some (((q.tp * (q.bpn + 1) - 1) * q.mp * q.lp * 4) / divisor)

/-- No operation of the computation wraps around: each gives the result over the integers. -/
structure RateUnwrapped (q : LineParams) : Prop where
  bytes : (q.bpn + 1).toNat = q.bpn.toNat + 1
  frames : (q.tp * (q.bpn + 1)).toNat = q.tp.toNat * (q.bpn.toNat + 1)
  overhead : ((q.tp * (q.bpn + 1) - 1).toNat : Int) = q.tp.toNat * (q.bpn.toNat + 1) - 1
  codewords : ((q.tp * (q.bpn + 1) - 1) * q.mp).toNat =
    (q.tp.toNat * (q.bpn.toNat + 1) - 1) * q.mp.toNat
  bits : ((q.tp * (q.bpn + 1) - 1) * q.mp * q.lp).toNat =
    (q.tp.toNat * (q.bpn.toNat + 1) - 1) * q.mp.toNat * q.lp.toNat
  dividend : ((q.tp * (q.bpn + 1) - 1) * q.mp * q.lp * 4).toNat =
    (q.tp.toNat * (q.bpn.toNat + 1) - 1) * q.mp.toNat * q.lp.toNat * 4
  code : (q.kp * q.mp).toNat = q.kp.toNat * q.mp.toNat
  redundancy : (q.kp * q.mp + q.rp).toNat = q.kp.toNat * q.mp.toNat + q.rp.toNat
  divisor : (q.tp * (q.kp * q.mp + q.rp)).toNat =
    q.tp.toNat * (q.kp.toNat * q.mp.toNat + q.rp.toNat)

/-- The rate is computed without a division by zero and without wrap-around, and is the exact
quotient rounded down. -/
structure RateSafe (q : LineParams) : Prop where
  unwrapped : RateUnwrapped q
  value : ∃ r, dataRate q = some r ∧ (r.toNat : Int) =
    ⌊(((q.tp.toNat : ℚ) * (q.bpn.toNat + 1) - 1) * q.mp.toNat * q.lp.toNat * 4) /
      (q.tp.toNat * (q.kp.toNat * q.mp.toNat + q.rp.toNat))⌋

/-- Both factors of the divisor are positive, and the products stay below `2 ^ 32`. -/
structure RateInRange (q : LineParams) : Prop where
  tp : 0 < q.tp.toNat
  code : 0 < q.kp.toNat * q.mp.toNat + q.rp.toNat
  frames : q.tp.toNat * (q.bpn.toNat + 1) < 2 ^ 32
  dividend : (q.tp.toNat * (q.bpn.toNat + 1) - 1) * q.mp.toNat * max 1 (4 * q.lp.toNat) < 2 ^ 32
  divisor : q.tp.toNat * (q.kp.toNat * q.mp.toNat + q.rp.toNat) < 2 ^ 32

theorem RateSafe.inRange {q : LineParams} (h : RateSafe q) : RateInRange q := by
  obtain ⟨r, hr, -⟩ := h.value
  have hdivisor : (q.tp * (q.kp * q.mp + q.rp)) ≠ 0 := by
    intro hzero
    rw [dataRate, if_pos hzero] at hr
    cases hr
  have hpos : q.tp.toNat * (q.kp.toNat * q.mp.toNat + q.rp.toNat) ≠ 0 := by
    rw [← h.unwrapped.divisor]
    exact fun hc => hdivisor (BitVec.eq_of_toNat_eq hc)
  refine ⟨Nat.pos_of_ne_zero ?_, Nat.pos_of_ne_zero ?_, ?_, ?_, ?_⟩
  · exact fun hc => hpos (by rw [hc, Nat.zero_mul])
  · exact fun hc => hpos (by rw [hc, Nat.mul_zero])
  · rw [← h.unwrapped.frames]
    exact BitVec.isLt _
  · by_cases hlp : q.lp.toNat = 0
    · have hmax : max 1 (4 * q.lp.toNat) = 1 := by omega
      rw [hmax, Nat.mul_one, ← h.unwrapped.codewords]
      exact BitVec.isLt _
    · have hmax : max 1 (4 * q.lp.toNat) = q.lp.toNat * 4 := by omega
      rw [hmax, ← Nat.mul_assoc, ← h.unwrapped.dividend]
      exact BitVec.isLt _
  · rw [← h.unwrapped.divisor]
    exact BitVec.isLt _

theorem RateInRange.unwrapped {q : LineParams} (h : RateInRange q) : RateUnwrapped q := by
  have hone : (1#32).toNat = 1 := rfl
  have hfour : (4#32).toNat = 4 := rfl
  have hbytes : (q.bpn + 1#32).toNat = q.bpn.toNat + 1 := by
    rw [BitVec.toNat_add_of_lt, hone]
    rw [hone]
    exact lt_of_le_of_lt (Nat.le_mul_of_pos_left _ h.tp) h.frames
  have hframes : (q.tp * (q.bpn + 1#32)).toNat = q.tp.toNat * (q.bpn.toNat + 1) := by
    rw [BitVec.toNat_mul_of_lt, hbytes]
    rw [hbytes]
    exact h.frames
  have hpos : 1 ≤ q.tp.toNat * (q.bpn.toNat + 1) := Nat.mul_pos h.tp (Nat.succ_pos _)
  have hless : (q.tp * (q.bpn + 1#32) - 1#32).toNat = q.tp.toNat * (q.bpn.toNat + 1) - 1 := by
    rw [BitVec.toNat_sub_of_le, hframes, hone]
    rw [BitVec.le_def, hframes, hone]
    exact hpos
  -- the largest of the products bounds the others
  have hdividend := h.dividend
  have hmul : ((q.tp * (q.bpn + 1#32) - 1#32) * q.mp).toNat =
      (q.tp.toNat * (q.bpn.toNat + 1) - 1) * q.mp.toNat := by
    rw [BitVec.toNat_mul_of_lt, hless]
    rw [hless]
    exact lt_of_le_of_lt (Nat.le_mul_of_pos_right _ (by omega)) hdividend
  have hbits : ((q.tp * (q.bpn + 1#32) - 1#32) * q.mp * q.lp).toNat =
      (q.tp.toNat * (q.bpn.toNat + 1) - 1) * q.mp.toNat * q.lp.toNat := by
    rw [BitVec.toNat_mul_of_lt, hmul]
    rw [hmul]
    exact lt_of_le_of_lt (Nat.mul_le_mul_left _ (by omega)) hdividend
  have htotal : ((q.tp * (q.bpn + 1#32) - 1#32) * q.mp * q.lp * 4#32).toNat =
      (q.tp.toNat * (q.bpn.toNat + 1) - 1) * q.mp.toNat * q.lp.toNat * 4 := by
    rw [BitVec.toNat_mul_of_lt, hbits, hfour]
    rw [hbits, hfour, Nat.mul_assoc _ q.lp.toNat 4]
    exact lt_of_le_of_lt (Nat.mul_le_mul_left _ (by omega)) hdividend
  have hsum : q.kp.toNat * q.mp.toNat + q.rp.toNat < 2 ^ 32 :=
    lt_of_le_of_lt (Nat.le_mul_of_pos_left _ h.tp) h.divisor
  have hcode : (q.kp * q.mp).toNat = q.kp.toNat * q.mp.toNat := by
    rw [BitVec.toNat_mul_of_lt]
    omega
  have hredundancy : (q.kp * q.mp + q.rp).toNat = q.kp.toNat * q.mp.toNat + q.rp.toNat := by
    rw [BitVec.toNat_add_of_lt, hcode]
    rw [hcode]
    exact hsum
  have hdivisor : (q.tp * (q.kp * q.mp + q.rp)).toNat =
      q.tp.toNat * (q.kp.toNat * q.mp.toNat + q.rp.toNat) := by
    rw [BitVec.toNat_mul_of_lt, hredundancy]
    rw [hredundancy]
    exact h.divisor
  refine ⟨hbytes, hframes, ?_, hmul, hbits, htotal, hcode, hredundancy, hdivisor⟩
  have hcast : ((q.tp * (q.bpn + 1#32) - 1#32).toNat : Int) =
      ((q.tp.toNat * (q.bpn.toNat + 1) - 1 : Nat) : Int) := congrArg _ hless
  rw [Nat.cast_sub hpos] at hcast
  push_cast at hcast
  exact hcast

theorem RateInRange.safe {q : LineParams} (h : RateInRange q) : RateSafe q := by
  have hunwrapped := h.unwrapped
  have hpos : 0 < q.tp.toNat * (q.kp.toNat * q.mp.toNat + q.rp.toNat) := Nat.mul_pos h.tp h.code
  have hne : q.tp * (q.kp * q.mp + q.rp) ≠ 0 := by
    intro hc
    have hzero := hunwrapped.divisor
    rw [hc] at hzero
    exact absurd hzero (Nat.ne_of_lt hpos)
  refine ⟨hunwrapped, _, if_neg hne, ?_⟩
  have hone : 1 ≤ q.tp.toNat * (q.bpn.toNat + 1) := Nat.mul_pos h.tp (Nat.succ_pos _)
  have hdividend : ((q.tp.toNat : ℚ) * (q.bpn.toNat + 1) - 1) * q.mp.toNat * q.lp.toNat * 4 =
      (((q.tp.toNat * (q.bpn.toNat + 1) - 1) * q.mp.toNat * q.lp.toNat * 4 : Nat) : ℚ) := by
    push_cast [Nat.cast_sub hone]
    rfl
  have hdivisor : (q.tp.toNat : ℚ) * (q.kp.toNat * q.mp.toNat + q.rp.toNat) =
      ((q.tp.toNat * (q.kp.toNat * q.mp.toNat + q.rp.toNat) : Nat) : ℚ) := by
    push_cast
    rfl
  rw [hdividend, hdivisor, Rat.floor_natCast_div_natCast, BitVec.toNat_udiv, hunwrapped.dividend,
    hunwrapped.divisor]
  push_cast
  rfl

/-- Whatever the modem replies, the rate is computed safely exactly when the parameters are in
range. -/
theorem data_rate_safe_iff (cmv : List Half → Option (Nat → Half)) (f : RateField)
    (interleave : Bool) :
    RateSafe (lineParams cmv f interleave) ↔ RateInRange (lineParams cmv f interleave) :=
  ⟨RateSafe.inRange, RateInRange.safe⟩

theorem failed_replies_divide_by_zero :
    ¬RateSafe (lineParams (fun _ => none) .adslDataRateds true) := by
  rintro ⟨-, r, hr, -⟩
  have hnone : dataRate (lineParams (fun _ => none) .adslDataRateds true) = none := by decide
  rw [hnone] at hr
  cases hr

end DanubeBsp
