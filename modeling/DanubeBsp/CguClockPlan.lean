import DanubeBsp.CguClocks
import Mathlib.Tactic.IntervalCases

namespace DanubeBsp

/-- What a clock is made from; `fixed` is one hertz. -/
inductive ClockSource where
  | pll0
  | pll1
  | pll2
  | fixed
deriving DecidableEq

/-- What a getter does to the frequency of its source: it multiplies, adds, divides, and then adds and
divides once more. -/
structure ClockPlan where
  source : ClockSource
  mul : Nat
  add : Nat
  div : Nat
  add' : Nat
  div' : Nat

namespace ClockPlan

/-- Half the divisor is added, and there is no second division. -/
def rounded (source : ClockSource) (mul div : Nat) : ClockPlan := ⟨source, mul, div / 2, div, 0, 1⟩

/-- The largest number on the way. -/
def largest (p : ClockPlan) (f : Nat) : Nat := f * p.mul + p.add

def value (p : ClockPlan) (f : Nat) : Nat := (p.largest f / p.div + p.add') / p.div'

theorem value_rounded (source : ClockSource) (mul div f : Nat) :
    (rounded source mul div).value f = (f * mul + div / 2) / div := by
  show ((f * mul + div / 2) / div + 0) / 1 = _
  rw [Nat.div_one, Nat.add_zero]

end ClockPlan

namespace Cgu

variable (c : Cgu)

/-- The numerator and the denominator of the divider that `CGU_SYS_DDR_SEL` selects. -/
def ddrFraction : Nat × Nat :=
  if c.sysDdrSel = 1 then (2, 5)
  else if c.sysDdrSel = 2 then (1, 3)
  else if c.sysDdrSel = 3 then (1, 4)
  else (1, 2)

def ddrPlan (mul : Nat) : ClockPlan := .rounded .pll0 (mul * c.ddrFraction.1) c.ddrFraction.2

def clockoutPlan : Nat → ClockPlan
  | 0 | 15 => .rounded .pll1 1 12000
  | 1 => .rounded .pll1 1 256
  | 2 => .rounded .pll2 1 120
  | 3 | 5 | 12 => .rounded .pll2 1 25
  | 4 => ⟨.pll2, 8, 4, 9, 3, 6⟩
  | 6 => ⟨.pll2, 8, 4, 9, 5, 10⟩
  | 7 => ⟨.pll2, 8, 4, 9, 2, 5⟩
  | 8 | 14 => .rounded .pll2 1 12
  | 9 | 13 => .rounded .pll2 1 6
  | 10 => .rounded .pll2 1 10
  | 11 => .rounded .pll2 1 5
  | _ => .rounded .fixed 0 1

/-- What the code makes of the fields that select a clock. -/
def plan : CguClock → ClockPlan
  | .mips cpu =>
    if (if cpu = 0 then c.sysCpu0Sel else c.sysCpu1Sel) = 0 then .rounded .pll0 1 1
    else if (if cpu = 0 then c.sysCpu0Sel else c.sysCpu1Sel) = 2 then c.ddrPlan 2
    else c.ddrPlan 1
  | .ioRegion => c.ddrPlan 1
  | .fpiBus fpi => if fpi = 2 ∧ c.sysFpiSel then { c.ddrPlan 1 with div' := 2 } else c.ddrPlan 1
  | .pp32 =>
    if c.sysPpesel = 1 then .rounded .pll2 8 9
    else if c.sysPpesel = 2 then ⟨.pll2, 4, 2, 5, 1, 2⟩
    else if c.sysPpesel = 3 then ⟨.pll2, 8, 4, 9, 1, 2⟩
    else .rounded .pll2 4 5
  | .pci => .rounded .pll2 1 (c.ifClkPciClk.toNat + 1)
  | .ethernet _ =>
    if c.ifClkMiisel = 0 then ⟨.pll2, 1, 3, 12, 0, 1⟩
    else if c.ifClkMiisel = 1 then .rounded .pll2 1 6
    else if c.ifClkMiisel = 2 then .rounded .fixed 50000000 1
    else .rounded .fixed 25000000 1
  | .usb =>
    if c.ifClkUsbsel = 0 then .rounded .pll2 1 25
    else if c.ifClkUsbsel = 2 then .rounded .fixed 3000000 1
    else .rounded .fixed 12000000 1
  | .clockout clkout =>
    if 3 < clkout ∨ clkout < 0 then .rounded .fixed 0 1
    else clockoutPlan (4 * clkout.toNat + (c.ifClkClkod clkout).toNat)

variable (left : Word) (depth : Nat)

def sourceWord : ClockSource → Option Word
  | .pll0 => c.cguGetPll0Fosc left depth
  | .pll1 => c.cguGetPll1Fosc left depth
  | .pll2 => c.cguGetPll2Fosc left depth
  | .fixed => some 1#32

end Cgu

/-- A result that follows a plan from the word of its source. -/
def ClockPlan.Followed (p : ClockPlan) (w : Word) (t : Hertz) : Prop :=
  t.Tracks (p.value w.toNat) (p.largest w.toNat)

def ClockPlan.Follows (p : ClockPlan) (words : ClockSource → Word) (o : Option Hertz) : Prop :=
  ∃ t, o = some t ∧ p.Followed (words p.source) t

section Steps

variable {x : Hertz} {n f : Nat} {w : Word}

theorem ddrClock_tracks (c : Cgu) (h : x.Tracks n n) :
    (c.ddrClock x).Tracks ((n * c.ddrFraction.1 + c.ddrFraction.2 / 2) / c.ddrFraction.2)
      (n * c.ddrFraction.1 + c.ddrFraction.2 / 2) := by
  unfold Cgu.ddrClock Cgu.ddrFraction
  split_ifs
  · refine (((h.mul 2#32).add 2#32).div 5#32).congr rfl ?_
    show max (max n (n * 2)) (n * 2 + 2) < 2 ^ 32 ↔ n * 2 + 5 / 2 < 2 ^ 32
    omega
  · refine ((h.add 1#32).div 3#32).congr (by rw [Nat.mul_one]; rfl) ?_
    show max n (n + 1) < 2 ^ 32 ↔ n * 1 + 3 / 2 < 2 ^ 32
    omega
  · refine ((h.add 2#32).div 4#32).congr (by rw [Nat.mul_one]; rfl) ?_
    show max n (n + 2) < 2 ^ 32 ↔ n * 1 + 4 / 2 < 2 ^ 32
    omega
  · refine ((h.add 1#32).div 2#32).congr (by rw [Nat.mul_one]; rfl) ?_
    show max n (n + 1) < 2 ^ 32 ↔ n * 1 + 2 / 2 < 2 ^ 32
    omega

theorem ClockPlan.followed_rounded {source : ClockSource} {mul div : Nat}
    (h : x.Tracks ((w.toNat * mul + div / 2) / div) (w.toNat * mul + div / 2)) :
    (ClockPlan.rounded source mul div).Followed w x :=
  h.congr (ClockPlan.value_rounded source mul div w.toNat).symm Iff.rfl

theorem tracks_once (w : Word) : (FitWord.of w : Hertz).Tracks (w.toNat * 1) (w.toNat * 1) :=
  (FitWord.tracks_of w).congr (Nat.mul_one _).symm (by rw [Nat.mul_one])

theorem ddrPlan_followed (c : Cgu) {mul : Nat} (h : x.Tracks (w.toNat * mul) (w.toNat * mul)) :
    (c.ddrPlan mul).Followed w (c.ddrClock x) := by
  refine ClockPlan.followed_rounded ?_
  rw [← Nat.mul_assoc]
  exact ddrClock_tracks c h

/-- A number is added and the sum divided. -/
theorem tracks_addDiv (w add div : Word) :
    (((FitWord.of w : Hertz) + add) / div).Tracks ((w.toNat * 1 + add.toNat) / div.toNat)
      (w.toNat * 1 + add.toNat) := by
  refine (((FitWord.tracks_of w).add add).div div).congr (by rw [Nat.mul_one]) ?_
  omega

theorem followed_fixed (v : Word) :
    (ClockPlan.rounded .fixed v.toNat 1).Followed 1#32 (FitWord.of v : Hertz) := by
  refine ClockPlan.followed_rounded ((FitWord.tracks_of v).congr ?_ ?_)
  · show v.toNat = (1 * v.toNat + 0) / 1
    omega
  · show v.toNat < 2 ^ 32 ↔ 1 * v.toNat + 0 < 2 ^ 32
    omega

end Steps

section Getters

variable (c : Cgu)

/-- The selection is a number of four bits, the pin first. -/
theorem clockoutSel_eq {clkout : Int} (hpin : 0 ≤ clkout ∧ clkout ≤ 3) :
    (c.clockoutSel clkout).toNat = 4 * clkout.toNat + (c.ifClkClkod clkout).toNat ∧
      (c.ifClkClkod clkout).toNat < 2 ^ 2 := by
  have hlt : (c.ifClkClkod clkout).toNat < 2 ^ 2 :=
    getBits_lt _ (by omega) (by omega)
  have hpin' : (BitVec.ofInt 32 clkout : Word).toNat = clkout.toNat := by
    rw [BitVec.toNat_ofInt]
    omega
  refine ⟨?_, hlt⟩
  rw [Cgu.clockoutSel, toNat_shiftLeft_or (by decide) hlt, hpin']
  omega

variable {left : Word} {depth : Nat} {words : ClockSource → Word}

theorem addDiv_follows (source : ClockSource) (add div : Word) {k : Nat} (hadd : add.toNat = k) :
    (⟨source, 1, k, div.toNat, 0, 1⟩ : ClockPlan).Follows words
      (some (((.of (words source) : Hertz) + add) / div)) := by
  refine ⟨_, rfl, (tracks_addDiv (words source) add div).congr ?_ ?_⟩
  · show _ = (((words source).toNat * 1 + k) / div.toNat + 0) / 1
    rw [hadd, Nat.div_one, Nat.add_zero]
  · rw [hadd]
    exact Iff.rfl

variable (hwords : ∀ source, c.sourceWord left depth source = some (words source))

include hwords

theorem fixed_word : words .fixed = 1#32 := (Option.some.inj (hwords .fixed)).symm

theorem fixed_follows (v : Word) :
    (ClockPlan.rounded .fixed v.toNat 1).Follows words (some (.of v)) := by
  refine ⟨_, rfl, ?_⟩
  show (ClockPlan.rounded .fixed v.toNat 1).Followed (words .fixed) _
  rw [fixed_word c hwords]
  exact followed_fixed v

theorem pll2By_follows (add div : Word) {k : Nat} (hadd : add.toNat = k) :
    (⟨.pll2, 1, k, div.toNat, 0, 1⟩ : ClockPlan).Follows words (c.pll2By left depth add div) := by
  rw [Cgu.pll2By, show c.cguGetPll2Fosc left depth = some (words .pll2) from hwords .pll2]
  exact addDiv_follows .pll2 add div hadd

/-- The two dividers of the phase shifter, as the code has them. -/
theorem pll2Fps_tracks : ∃ fps1 fps2 : Hertz,
    c.cguGetPll2Fps left depth 1 = some fps1 ∧
      fps1.Tracks (((words .pll2).toNat * 4 + 2) / 5) ((words .pll2).toNat * 4 + 2) ∧
      c.cguGetPll2Fps left depth 2 = some fps2 ∧
      fps2.Tracks (((words .pll2).toNat * 8 + 4) / 9) ((words .pll2).toNat * 8 + 4) := by
  have hfosc : c.cguGetPll2Fosc left depth = some (words .pll2) := hwords .pll2
  have hword := FitWord.tracks_of (words .pll2)
  refine ⟨_, _, by rw [Cgu.cguGetPll2Fps, hfosc]; rfl, ?_,
    by rw [Cgu.cguGetPll2Fps, hfosc]; rfl, ?_⟩
  · refine (((hword.shl 2).add 2#32).div 5#32).congr rfl ?_
    show max (max _ (_ * 4)) (_ * 4 + 2) < 2 ^ 32 ↔ _
    omega
  · refine (((hword.shl 3).add 4#32).div 9#32).congr rfl ?_
    show max (max _ (_ * 8)) (_ * 8 + 4) < 2 ^ 32 ↔ _
    omega

theorem ioRegion_follows : (c.plan .ioRegion).Follows words (c.cguGetIoRegionClock left depth) := by
  refine ⟨c.ddrClock (.of (words .pll0)), ?_, ?_⟩
  · rw [Cgu.cguGetIoRegionClock,
      show c.cguGetPll0Fosc left depth = some (words .pll0) from hwords .pll0]
    rfl
  · exact ddrPlan_followed c (tracks_once (words .pll0))

theorem mips_follows (cpu : Int) :
    (c.plan (.mips cpu)).Follows words (c.cguGetMipsClock left depth cpu) := by
  have hfosc : c.cguGetPll0Fosc left depth = some (words .pll0) := hwords .pll0
  have hword := FitWord.tracks_of (words .pll0)
  rw [Cgu.cguGetMipsClock, hfosc]
  refine ⟨_, rfl, ?_⟩
  unfold Cgu.plan
  dsimp only
  generalize (if cpu = 0 then c.sysCpu0Sel else c.sysCpu1Sel) = cpusel
  by_cases h0 : cpusel = 0
  · rw [if_pos h0, if_pos h0]
    refine ClockPlan.followed_rounded (hword.congr ?_ ?_)
    · show (words .pll0).toNat = ((words .pll0).toNat * 1 + 0) / 1
      omega
    · show (words .pll0).toNat < 2 ^ 32 ↔ (words .pll0).toNat * 1 + 0 < 2 ^ 32
      omega
  rw [if_neg h0, if_neg h0]
  by_cases h2 : cpusel = 2
  · rw [if_pos h2, if_pos h2]
    refine ddrPlan_followed c (w := words .pll0) ((hword.shl 1).congr rfl ?_)
    show max (words .pll0).toNat ((words .pll0).toNat * 2) < 2 ^ 32 ↔ _
    omega
  · rw [if_neg h2, if_neg h2]
    exact ddrPlan_followed c (tracks_once (words .pll0))

theorem fpiBus_follows (fpi : Int) :
    (c.plan (.fpiBus fpi)).Follows words (c.cguGetFpiBusClock left depth fpi) := by
  obtain ⟨t, ht, hfollowed⟩ := ioRegion_follows c hwords
  rw [Cgu.cguGetFpiBusClock, ht]
  refine ⟨_, rfl, ?_⟩
  unfold Cgu.plan
  dsimp only
  by_cases h2 : fpi = 2
  · rw [if_pos h2]
    by_cases hsel : c.sysFpiSel = true
    · rw [if_pos hsel, if_pos ⟨h2, hsel⟩]
      refine (FitWord.Tracks.shr hfollowed 1).congr ?_ Iff.rfl
      show ((c.ddrPlan 1).largest (words .pll0).toNat / (c.ddrPlan 1).div + 0) / 1 / 2 =
        ((c.ddrPlan 1).largest (words .pll0).toNat / (c.ddrPlan 1).div + 0) / 2
      rw [Nat.div_one]
    · rw [if_neg hsel, if_neg fun h => hsel h.2]
      exact hfollowed
  · rw [if_neg h2, if_neg fun h => h2 h.1]
    exact hfollowed

theorem pp32_follows : (c.plan .pp32).Follows words (c.cguGetPp32Clock left depth) := by
  obtain ⟨fps1, fps2, hfps1, htracks1, hfps2, htracks2⟩ := pll2Fps_tracks c hwords
  rw [Cgu.cguGetPp32Clock, hfps1, hfps2]
  unfold Cgu.plan
  dsimp only
  split_ifs
  · exact ⟨_, rfl, ClockPlan.followed_rounded htracks2⟩
  · refine ⟨_, rfl, ((htracks1.add 1#32).shr 1).congr rfl ?_⟩
    show max _ (_ + 1) < 2 ^ 32 ↔ (words .pll2).toNat * 4 + 2 < 2 ^ 32
    omega
  · refine ⟨_, rfl, ((htracks2.add 1#32).shr 1).congr rfl ?_⟩
    show max _ (_ + 1) < 2 ^ 32 ↔ (words .pll2).toNat * 8 + 4 < 2 ^ 32
    omega
  · exact ⟨_, rfl, ClockPlan.followed_rounded htracks1⟩

theorem pci_follows : (c.plan .pci).Follows words (c.cguGetPciClock left depth) := by
  have hlt : c.ifClkPciClk.toNat < 2 ^ 4 := getBits_lt _ (by decide) rfl
  have hdiv : (c.ifClkPciClk + 1).toNat = c.ifClkPciClk.toNat + 1 := toNat_succ (by omega)
  unfold Cgu.plan
  dsimp only
  rw [← hdiv]
  refine pll2By_follows c hwords ((c.ifClkPciClk + 1) >>> 1) (c.ifClkPciClk + 1) ?_
  rw [BitVec.toNat_ushiftRight, Nat.shiftRight_eq_div_pow]

theorem ethernet_follows (mii : Int) :
    (c.plan (.ethernet mii)).Follows words (c.cguGetEthernetClock left depth mii) := by
  have hlt : c.ifClkMiisel.toNat < 2 ^ 2 := getBits_lt _ (by decide) rfl
  rw [Cgu.cguGetEthernetClock]
  unfold Cgu.plan
  dsimp only
  split_ifs with h0 h1 h2 h3
  · exact pll2By_follows c hwords 3 12 rfl
  · exact pll2By_follows c hwords 3 6 rfl
  · exact fixed_follows c hwords 50000000#32
  · exact fixed_follows c hwords 25000000#32
  · bv_omega

theorem usb_follows : (c.plan .usb).Follows words (c.cguGetUsbClock left depth) := by
  have hlt : c.ifClkUsbsel.toNat < 2 ^ 2 := getBits_lt _ (by decide) rfl
  rw [Cgu.cguGetUsbClock]
  unfold Cgu.plan
  dsimp only
  split_ifs with h0 h2 h1 h1 h3
  · exact pll2By_follows c hwords 12 25 rfl
  · bv_omega
  · exact fixed_follows c hwords (12000000#32 / 4#32)
  · exact fixed_follows c hwords 12000000#32
  · exact fixed_follows c hwords 12000000#32
  · bv_omega

theorem clockoutCase_follows {n : Nat} (hn : n < 16) :
    (Cgu.clockoutPlan n).Follows words
      (c.clockoutCase left depth (words .pll1) (words .pll2) n) := by
  obtain ⟨-, fps, -, -, hfps, htracks⟩ := pll2Fps_tracks c hwords
  have hphase (add div : Word) (hadd : add.toNat ≤ 5) :
      (⟨.pll2, 8, 4, 9, add.toNat, div.toNat⟩ : ClockPlan).Follows words
        ((c.cguGetPll2Fps left depth 2).map fun (fps : Hertz) => (fps + add) / div) := by
    rw [hfps]
    refine ⟨_, rfl, ((htracks.add add).div div).congr rfl ?_⟩
    show max _ _ < 2 ^ 32 ↔ (words .pll2).toNat * 8 + 4 < 2 ^ 32
    omega
  interval_cases n
  · exact addDiv_follows .pll1 6000 12000 rfl
  · exact addDiv_follows .pll1 128 256 rfl
  · exact addDiv_follows .pll2 60 120 rfl
  · exact addDiv_follows .pll2 12 25 rfl
  · exact hphase 3 6 (by decide)
  · exact addDiv_follows .pll2 12 25 rfl
  · exact hphase 5 10 (by decide)
  · exact hphase 2 5 (by decide)
  · exact addDiv_follows .pll2 6 12 rfl
  · exact addDiv_follows .pll2 3 6 rfl
  · exact addDiv_follows .pll2 5 10 rfl
  · exact addDiv_follows .pll2 2 5 rfl
  · exact addDiv_follows .pll2 12 25 rfl
  · exact addDiv_follows .pll2 3 6 rfl
  · exact addDiv_follows .pll2 6 12 rfl
  · exact addDiv_follows .pll1 6000 12000 rfl

theorem clockout_follows (clkout : Int) :
    (c.plan (.clockout clkout)).Follows words (c.cguGetClockout left depth clkout) := by
  rw [Cgu.cguGetClockout,
    show c.cguGetPll1Fosc left depth = some (words .pll1) from hwords .pll1,
    show c.cguGetPll2Fosc left depth = some (words .pll2) from hwords .pll2]
  unfold Cgu.plan
  simp only [Option.bind_some]
  by_cases hout : 3 < clkout ∨ clkout < 0
  · rw [if_pos hout, if_pos hout]
    exact fixed_follows c hwords 0#32
  rw [if_neg hout, if_neg hout]
  have hpin : 0 ≤ clkout ∧ clkout ≤ 3 := by omega
  obtain ⟨hsel, hlt⟩ := clockoutSel_eq c hpin
  rw [hsel]
  exact clockoutCase_follows c hwords (by omega)

/-- Every getter does what its plan says. -/
theorem clock_follows (g : CguClock) : (c.plan g).Follows words (c.clock left depth g) := by
  cases g with
  | mips cpu => exact mips_follows c hwords cpu
  | ioRegion => exact ioRegion_follows c hwords
  | fpiBus fpi => exact fpiBus_follows c hwords fpi
  | pp32 => exact pp32_follows c hwords
  | pci => exact pci_follows c hwords
  | ethernet mii => exact ethernet_follows c hwords mii
  | usb => exact usb_follows c hwords
  | clockout clkout => exact clockout_follows c hwords clkout

end Getters

end DanubeBsp
