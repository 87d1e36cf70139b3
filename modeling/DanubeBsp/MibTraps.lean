import DanubeBsp.ByteOrder
import DanubeBsp.MibPoll

namespace DanubeBsp

inductive AdslEnd
  | atuc
  | atur
  deriving DecidableEq

/-- The thresholds of `AlarmConfProfile` that the traps are tested against. -/
structure AlarmConfProfile where
  adslAtucThresh15MinLofs : Word
  adslAtucThresh15MinLoss : Word
  adslAtucThresh15MinESs : Word
  adslAtucThreshFastRateUp : Word
  adslAtucThreshInterleaveRateUp : Word
  adslAtucThreshFastRateDown : Word
  adslAtucThreshInterleaveRateDown : Word
  adslAturThresh15MinLofs : Word
  adslAturThresh15MinLoss : Word
  adslAturThresh15MinLprs : Word
  adslAturThresh15MinESs : Word
  adslAturThreshFastRateUp : Word
  adslAturThreshInterleaveRateUp : Word
  adslAturThreshFastRateDown : Word
  adslAturThreshInterleaveRateDown : Word

/-- `PrevTxRate`, by the end of the line. -/
abbrev PrevTxRate := AdslEnd → Word

def rateChangeFlag : AdslEnd → Half
  | .atuc => 0x8#16
  | .atur => 0x100#16

/-- The up and the down threshold of an end for a channel type. -/
def AlarmConfProfile.rateUp (p : AlarmConfProfile) : AdslEnd → ChanType → Word
  | _, .none => 0
  | .atuc, .fast => p.adslAtucThreshFastRateUp
  | .atuc, .interleave => p.adslAtucThreshInterleaveRateUp
  | .atur, .fast => p.adslAturThreshFastRateUp
  | .atur, .interleave => p.adslAturThreshInterleaveRateUp

def AlarmConfProfile.rateDown (p : AlarmConfProfile) : AdslEnd → ChanType → Word
  | _, .none => 0
  | .atuc, .fast => p.adslAtucThreshFastRateDown
  | .atuc, .interleave => p.adslAtucThreshInterleaveRateDown
  | .atur, .fast => p.adslAturThreshFastRateDown
  | .atur, .interleave => p.adslAturThreshInterleaveRateDown

/-- A test of a counter of the interval; both sides are of type `int`. -/
def countTrap (thresh count : Word) (flag traps : Half) : Half :=
  if thresh ≠ 0 ∧ thresh.toInt ≤ count.toInt then traps ||| flag else traps

/-- The two tests of a new rate, one after the other, with the stored rate and the flags. -/
def rateTests (up down temp : Word) (flag : Half) (s : Word × Half) : Word × Half :=
  let s := if up ≠ 0 ∧ s.1 + up ≤ temp then (temp, s.2 ||| flag) else s
  if down ≠ 0 ∧ temp ≤ s.1 - down then (temp, s.2 ||| flag) else s

/-- The block for the rate of one end. The words of a reply are `RxMessage[4]` and `RxMessage[5]`;
without a reply nothing is tested. -/
def rateTrap (p : AlarmConfProfile) (chan : ChanType) (reply : AdslEnd → Option (Half × Half))
    (e : AdslEnd) (s : PrevTxRate × Half) : PrevTxRate × Half :=
  if p.rateUp e chan ≠ 0 ∨ p.rateDown e chan ≠ 0 then
    match reply e with
    | none => s
    | some rx =>
      let temp := rx.1.setWidth 32 + (rx.2.setWidth 32 <<< 16)
      let r := rateTests (p.rateUp e chan) (p.rateDown e chan) temp (rateChangeFlag e) (s.1 e, s.2)
      (Function.update s.1 e r.1, r.2)
  else s

/-- The tests of the counters of the two ends. -/
def atucCountTraps (p : AlarmConfProfile) (intvl : MibValues) (traps : Half) : Half :=
  let traps := countTrap p.adslAtucThresh15MinLofs (intvl .atucPerfLof) 0x1 traps
  let traps := countTrap p.adslAtucThresh15MinLoss (intvl .atucPerfLos) 0x2 traps
  countTrap p.adslAtucThresh15MinESs (intvl .atucPerfEs) 0x4 traps

def aturCountTraps (p : AlarmConfProfile) (intvl : MibValues) (traps : Half) : Half :=
  let traps := countTrap p.adslAturThresh15MinLofs (intvl .aturPerfLof) 0x10 traps
  let traps := countTrap p.adslAturThresh15MinLoss (intvl .aturPerfLos) 0x20 traps
  let traps := countTrap p.adslAturThresh15MinLprs (intvl .aturPerfLpr) 0x40 traps
  countTrap p.adslAturThresh15MinESs (intvl .aturPerfEs) 0x80 traps

/-- `ADSL_ATUR_TRAPS`: the new stored rates and the flags for the caller. -/
def adslAturTraps (p : AlarmConfProfile) (intvl : MibValues) (chan : ChanType)
    (reply : AdslEnd → Option (Half × Half)) (prev : PrevTxRate) : PrevTxRate × Half :=
  let s := rateTrap p chan reply .atuc (prev, atucCountTraps p intvl 0)
  rateTrap p chan reply .atur (s.1, aturCountTraps p intvl s.2)

/-- The rate that the two words of a reply give. -/
def replyRate (rx : Half × Half) : Nat := rx.1.toNat + rx.2.toNat * 2 ^ 16

/-- The flag of an end is set exactly for a change by a threshold, over the integers, and the stored
rate is replaced exactly with the flag. -/
structure RateTrapExact (p : AlarmConfProfile) (intvl : MibValues) (chan : ChanType)
    (reply : AdslEnd → Option (Half × Half)) (prev : PrevTxRate) (e : AdslEnd) (rx : Half × Half) :
    Prop where
  flag : (adslAturTraps p intvl chan reply prev).2 &&& rateChangeFlag e ≠ 0 ↔
    (prev e).toNat + (p.rateUp e chan).toNat ≤ replyRate rx ∨
      replyRate rx + (p.rateDown e chan).toNat ≤ (prev e).toNat
  stored : ((adslAturTraps p intvl chan reply prev).1 e).toNat =
    if (adslAturTraps p intvl chan reply prev).2 &&& rateChangeFlag e ≠ 0 then replyRate rx
    else (prev e).toNat

/-- The sum wraps around only where the new rate stays below it or is a true fall, and the difference
only where the new rate stays above it or is a true rise. -/
def RateWrapsUnseen (prev up down temp : Nat) : Prop :=
  (2 ^ 32 ≤ prev + up → temp < prev + up - 2 ^ 32 ∨ temp + down ≤ prev) ∧
    (prev < down → prev + 2 ^ 32 - down < temp ∨ prev + up ≤ temp)

instance (prev up down temp : Nat) : Decidable (RateWrapsUnseen prev up down temp) :=
  inferInstanceAs (Decidable (_ ∧ _))

section Flags

def rateChangeBit : AdslEnd → Nat
  | .atuc => 3
  | .atur => 8

theorem and_rateChangeFlag_ne_zero (traps : Half) (e : AdslEnd) :
    traps &&& rateChangeFlag e ≠ 0 ↔ traps.getLsbD (rateChangeBit e) = true := by
  have hflag : rateChangeFlag e = BitVec.twoPow 16 (rateChangeBit e) := by
    cases e <;> decide
  have hne : BitVec.twoPow 16 (rateChangeBit e) ≠ 0 := by
    cases e <;> decide
  rw [hflag, BitVec.and_twoPow]
  split
  next hbit => exact iff_of_true hne hbit
  next hbit => exact iff_of_false (fun h => h rfl) hbit

theorem countTrap_bit (thresh count : Word) (flag traps : Half) {i : Nat}
    (hi : flag.getLsbD i = false) : (countTrap thresh count flag traps).getLsbD i = traps.getLsbD i := by
  unfold countTrap
  split
  next => rw [BitVec.getLsbD_or, hi, Bool.or_false]
  next => rfl

theorem atucCountTraps_bit (p : AlarmConfProfile) (intvl : MibValues) (traps : Half)
    (e : AdslEnd) :
    (atucCountTraps p intvl traps).getLsbD (rateChangeBit e) =
      traps.getLsbD (rateChangeBit e) := by
  unfold atucCountTraps
  rw [countTrap_bit, countTrap_bit, countTrap_bit]
  all_goals cases e <;> decide

theorem aturCountTraps_bit (p : AlarmConfProfile) (intvl : MibValues) (traps : Half)
    (e : AdslEnd) :
    (aturCountTraps p intvl traps).getLsbD (rateChangeBit e) =
      traps.getLsbD (rateChangeBit e) := by
  unfold aturCountTraps
  rw [countTrap_bit, countTrap_bit, countTrap_bit, countTrap_bit]
  all_goals cases e <;> decide

/-- What the two tests do together: the flag and the new rate come together. -/
theorem rateTests_eq (up down temp : Word) (flag : Half) (s : Word × Half) :
    rateTests up down temp flag s =
      if (up ≠ 0 ∧ s.1 + up ≤ temp) ∨ (down ≠ 0 ∧ temp ≤ s.1 - down) then (temp, s.2 ||| flag)
      else s := by
  unfold rateTests
  dsimp only
  by_cases hup : up ≠ 0 ∧ s.1 + up ≤ temp
  · rw [if_pos hup, if_pos (Or.inl hup)]
    split
    next => rw [BitVec.or_assoc, BitVec.or_self]
    next => rfl
  · rw [if_neg hup]
    simp only [hup, false_or]

theorem rateChangeFlag_bit (e e' : AdslEnd) :
    (rateChangeFlag e).getLsbD (rateChangeBit e') = decide (e = e') := by
  cases e <;> cases e' <;> decide

end Flags

section Rates

variable {p : AlarmConfProfile} {chan : ChanType} {reply : AdslEnd → Option (Half × Half)}
  {e e' : AdslEnd} {s : PrevTxRate × Half}

/-- The block of one end leaves the rate and the flag of the other alone. -/
theorem rateTrap_other (h : e ≠ e') :
    (rateTrap p chan reply e s).1 e' = s.1 e' ∧
      (rateTrap p chan reply e s).2.getLsbD (rateChangeBit e') =
        s.2.getLsbD (rateChangeBit e') := by
  unfold rateTrap
  split
  next =>
    split
    next => exact ⟨rfl, rfl⟩
    next rx _ =>
      dsimp only
      rw [rateTests_eq]
      refine ⟨Function.update_of_ne (Ne.symm h) _ _, ?_⟩
      split
      next =>
        have hflag : (rateChangeFlag e).getLsbD (rateChangeBit e') = false := by
          rw [rateChangeFlag_bit, decide_eq_false h]
        rw [BitVec.getLsbD_or, hflag, Bool.or_false]
      next => rfl
  next => exact ⟨rfl, rfl⟩

def rateWord (rx : Half × Half) : Word := rx.1.setWidth 32 + (rx.2.setWidth 32 <<< 16)

theorem rateWord_toNat (rx : Half × Half) : (rateWord rx).toNat = replyRate rx := by
  have hlo := rx.1.isLt
  have hhi := rx.2.isLt
  simp only [rateWord, replyRate, BitVec.toNat_add, BitVec.toNat_shiftLeft, BitVec.toNat_setWidth,
    Nat.shiftLeft_eq]
  omega

def RateTestHit (prev up down temp : Word) : Prop := prev + up ≤ temp ∨ temp ≤ prev - down

instance (prev up down temp : Word) : Decidable (RateTestHit prev up down temp) :=
  inferInstanceAs (Decidable (_ ∨ _))

theorem rateTrap_eq {rx : Half × Half} (hup : p.rateUp e chan ≠ 0) (hdown : p.rateDown e chan ≠ 0)
    (hrx : reply e = some rx) :
    rateTrap p chan reply e s =
      if RateTestHit (s.1 e) (p.rateUp e chan) (p.rateDown e chan) (rateWord rx) then
        (Function.update s.1 e (rateWord rx), s.2 ||| rateChangeFlag e)
      else s := by
  have htests : rateTests (p.rateUp e chan) (p.rateDown e chan) (rateWord rx) (rateChangeFlag e)
      (s.1 e, s.2) =
      if RateTestHit (s.1 e) (p.rateUp e chan) (p.rateDown e chan) (rateWord rx) then
        (rateWord rx, s.2 ||| rateChangeFlag e) else (s.1 e, s.2) := by
    rw [rateTests_eq]
    simp only [hup, hdown, ne_eq, not_false_eq_true, true_and]
    rfl
  have hblock : rateTrap p chan reply e s =
      (Function.update s.1 e (rateTests (p.rateUp e chan) (p.rateDown e chan) (rateWord rx)
        (rateChangeFlag e) (s.1 e, s.2)).1,
      (rateTests (p.rateUp e chan) (p.rateDown e chan) (rateWord rx) (rateChangeFlag e)
        (s.1 e, s.2)).2) := by
    rw [rateTrap, if_pos (Or.inl hup), hrx]
    rfl
  rw [hblock, htests]
  split
  next => rfl
  next => rw [Function.update_eq_self]

theorem adslAturTraps_rate {intvl : MibValues} {prev : PrevTxRate} {rx : Half × Half}
    (hup : p.rateUp e chan ≠ 0) (hdown : p.rateDown e chan ≠ 0) (hrx : reply e = some rx) :
    ((adslAturTraps p intvl chan reply prev).2.getLsbD (rateChangeBit e) = true ↔
      RateTestHit (prev e) (p.rateUp e chan) (p.rateDown e chan) (rateWord rx)) ∧
    (adslAturTraps p intvl chan reply prev).1 e =
      if RateTestHit (prev e) (p.rateUp e chan) (p.rateDown e chan) (rateWord rx) then rateWord rx
      else prev e := by
  have hown : ∀ s : PrevTxRate × Half, s.2.getLsbD (rateChangeBit e) = false →
      ((rateTrap p chan reply e s).2.getLsbD (rateChangeBit e) = true ↔
        RateTestHit (s.1 e) (p.rateUp e chan) (p.rateDown e chan) (rateWord rx)) ∧
      (rateTrap p chan reply e s).1 e =
        if RateTestHit (s.1 e) (p.rateUp e chan) (p.rateDown e chan) (rateWord rx) then rateWord rx
        else s.1 e := by
    intro s hclear
    rw [rateTrap_eq hup hdown hrx]
    by_cases hhit : RateTestHit (s.1 e) (p.rateUp e chan) (p.rateDown e chan) (rateWord rx)
    · rw [if_pos hhit, if_pos hhit, BitVec.getLsbD_or, rateChangeFlag_bit, decide_eq_true rfl,
        Bool.or_true]
      exact ⟨iff_of_true rfl hhit, Function.update_self _ _ _⟩
    · rw [if_neg hhit, if_neg hhit, hclear]
      exact ⟨iff_of_false Bool.false_ne_true hhit, rfl⟩
  unfold adslAturTraps
  cases e with
  | atuc =>
    have hblock := hown (prev, atucCountTraps p intvl 0) (by rw [atucCountTraps_bit]; rfl)
    obtain ⟨hstored, hbit⟩ := @rateTrap_other p chan reply .atur .atuc
      ((rateTrap p chan reply .atuc (prev, atucCountTraps p intvl 0)).1, aturCountTraps p intvl
        (rateTrap p chan reply .atuc (prev, atucCountTraps p intvl 0)).2) (by decide)
    rw [hstored, hbit, aturCountTraps_bit]
    exact hblock
  | atur =>
    obtain ⟨hstored, hbit⟩ := @rateTrap_other p chan reply .atuc .atur
      (prev, atucCountTraps p intvl 0) (by decide)
    have hblock := hown ((rateTrap p chan reply .atuc (prev, atucCountTraps p intvl 0)).1,
      aturCountTraps p intvl (rateTrap p chan reply .atuc (prev, atucCountTraps p intvl 0)).2)
      (by rw [aturCountTraps_bit, hbit, atucCountTraps_bit]; rfl)
    dsimp only at hblock
    rw [hstored] at hblock
    exact hblock

end Rates

/-- The tests of the code are those over the integers exactly when no wrap-around is seen. -/
theorem rateTestHit_exact_iff (prev up down temp : Word) :
    (RateTestHit prev up down temp ↔ prev.toNat + up.toNat ≤ temp.toNat ∨
      temp.toNat + down.toNat ≤ prev.toNat) ↔
      RateWrapsUnseen prev.toNat up.toNat down.toNat temp.toNat := by
  have hprev := prev.isLt
  have hup := up.isLt
  have hdown := down.isLt
  have htemp := temp.isLt
  unfold RateTestHit RateWrapsUnseen
  rw [BitVec.le_def, BitVec.le_def, BitVec.toNat_add, BitVec.toNat_sub]
  omega

/-- The rate-change trap of an end is exact exactly when neither the sum nor the difference of the
tests wraps around where it is seen. -/
theorem rate_trap_exact_iff (p : AlarmConfProfile) (intvl : MibValues) (chan : ChanType)
    (reply : AdslEnd → Option (Half × Half)) (prev : PrevTxRate) (e : AdslEnd) (rx : Half × Half)
    (hup : p.rateUp e chan ≠ 0) (hdown : p.rateDown e chan ≠ 0) (hrx : reply e = some rx) :
    RateTrapExact p intvl chan reply prev e rx ↔
      RateWrapsUnseen (prev e).toNat (p.rateUp e chan).toNat (p.rateDown e chan).toNat
        (replyRate rx) := by
  obtain ⟨hflag, hstored⟩ := @adslAturTraps_rate p chan reply e intvl prev rx hup hdown hrx
  rw [← and_rateChangeFlag_ne_zero] at hflag
  rw [← rateWord_toNat, ← rateTestHit_exact_iff]
  constructor
  · intro h
    have hexact := h.flag
    rw [hflag, ← rateWord_toNat] at hexact
    exact hexact
  · intro hexact
    refine ⟨?_, ?_⟩
    · rw [hflag, ← rateWord_toNat]
      exact hexact
    · rw [hstored, ← rateWord_toNat]
      by_cases hhit : RateTestHit (prev e) (p.rateUp e chan) (p.rateDown e chan) (rateWord rx)
      · rw [if_pos hhit, if_pos (hflag.mpr hhit)]
      · rw [if_neg hhit, if_neg (fun hc => hhit (hflag.mp hc))]

/-- A profile with thresholds for the rates only. -/
def rateProfile (up down : Word) : AlarmConfProfile where
  adslAtucThresh15MinLofs := 0
  adslAtucThresh15MinLoss := 0
  adslAtucThresh15MinESs := 0
  adslAtucThreshFastRateUp := up
  adslAtucThreshInterleaveRateUp := up
  adslAtucThreshFastRateDown := down
  adslAtucThreshInterleaveRateDown := down
  adslAturThresh15MinLofs := 0
  adslAturThresh15MinLoss := 0
  adslAturThresh15MinLprs := 0
  adslAturThresh15MinESs := 0
  adslAturThreshFastRateUp := up
  adslAturThreshInterleaveRateUp := up
  adslAturThreshFastRateDown := down
  adslAturThreshInterleaveRateDown := down

theorem rate_trap_exact_fall :
    RateTrapExact (rateProfile 1000 1000) (fun _ => 0) .fast (fun _ => some (5000, 0))
      (fun _ => 8000) .atuc (5000, 0) :=
  (rate_trap_exact_iff (rateProfile 1000 1000) (fun _ => 0) .fast (fun _ => some (5000, 0))
    (fun _ => 8000) .atuc (5000, 0) (by decide) (by decide) rfl).mpr (by decide)

/-- From the initial rate 0 the down threshold of 1000 is passed by a rise to 5000. -/
theorem rise_from_zero_trapped :
    ¬RateTrapExact (rateProfile 10000 1000) (fun _ => 0) .fast (fun _ => some (5000, 0))
      (fun _ => 0) .atuc (5000, 0) := by
  intro h
  exact absurd h.flag (by decide)

end DanubeBsp
