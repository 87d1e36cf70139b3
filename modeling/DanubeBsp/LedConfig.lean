import DanubeBsp.LedPins

namespace DanubeBsp

/-- The flags of the driver agree with what it holds, it has released nothing else, and the timer that
the update clock is taken from runs as it was asked for. -/
structure LedAgree (board : LedBoard) (s : LedSys) : Prop where
  gpt : s.led.gptOn = true ↔ s.Holds
  own : s.foreign = false
  pins : s.PinsAgree board
  clock : s.led.us = 1 → s.led.adslOn = 0 → s.HoldsAt board s.reqFreq

/-- The condition for a call with valid parameters. The timer is set up only for pins that can be had,
a timer is released or changed only when it is the pair, and while the update clock is the timer no call
leaves out the update clock. -/
structure LedConfigOk (board : LedBoard) (s : LedSys) (param : LedConfigParam) (o : LedServices) :
    Prop where
  rearm : param.setupGpt2 = true ∧ s.led.newAdslOn param = 0 → s.led.gptOn = true →
    ¬s.PinsRefused board (s.led.newLedOn param) (s.led.newAdslOn param) o ∧
      (s.led.gptFreq = param.fpid → s.HoldsAt board param.fpid) ∧
      (s.led.gptFreq ≠ param.fpid → s.mine = some ⟨4, true⟩ ∧ o.refuseSetTimer = false ∧
        o.refuseStartTimer = false ∧ calDivider board.fpiBusClock param.fpid ≠ 0)
  arm : param.setupGpt2 = true ∧ s.led.newAdslOn param = 0 → s.led.gptOn = false →
    s.Grants board param.fpid o →
    s.PinsRefused board (s.led.newLedOn param) (s.led.newAdslOn param) o →
    ledAlloc (calDivider board.fpiBusClock param.fpid) = ⟨4, true⟩ ∧ s.led.us ≠ 1
  disarm : ¬(param.setupGpt2 = true ∧ s.led.newAdslOn param = 0) → s.led.gptOn = true →
    s.mine = some ⟨4, true⟩
  refused : ¬(param.setupGpt2 = true ∧ s.led.newAdslOn param = 0) →
    s.PinsRefused board (s.led.newLedOn param) (s.led.newAdslOn param) o →
    s.led.us ≠ 1 ∧ ∀ a ∈ s.gptu.live, a.covers 4 = false
  clocked : ¬(param.setupGpt2 = true ∧ s.led.newAdslOn param = 0) →
    ¬s.PinsRefused board (s.led.newLedOn param) (s.led.newAdslOn param) o →
    s.led.us = 1 → s.led.newAdslOn param = 0 → param.has configOperationUpdateClock = true

def LedOk (board : LedBoard) (s : LedSys) : LedEvent → Prop
  | .config (some param) o => param.valid = true → LedConfigOk board s param o
  | .config none _ | .timer _ | .pin _ => True

/-- What holds whatever the calls are. -/
structure LedShape (s : LedSys) : Prop where
  timers : GptuInv s.gptu
  mine : ∀ a, s.mine = some a →
    (a = ⟨5, false⟩ ∨ a = ⟨4, true⟩) ∧ a ∈ s.gptu.live ∧ s.gptu.dev.Running a
  dark : s.led.fLedOn = false → s.led.adslOn = 0
  selected : s.led.gptOn = true → s.led.us = 1 ∧ s.led.adslOn = 0

structure LedInv (board : LedBoard) (s : LedSys) : Prop where
  shape : LedShape s
  agree : LedAgree board s

theorem us_eq_one {w : Word} : w >>> 30 = 1 ↔ w.getLsbD 30 = true ∧ w.getLsbD 31 = false := by
  constructor
  · intro h
    have h0 := congrArg (fun v : Word => v.getLsbD 0) h
    have h1 := congrArg (fun v : Word => v.getLsbD 1) h
    simp only [BitVec.getLsbD_ushiftRight] at h0 h1
    exact ⟨h0, h1⟩
  · rintro ⟨h0, h1⟩
    apply BitVec.eq_of_getLsbD_eq
    intro i hi
    rw [BitVec.getLsbD_ushiftRight]
    obtain rfl | rfl | h2 : i = 0 ∨ i = 1 ∨ 2 ≤ i := by omega
    · exact h0
    · exact h1
    · have hone : (1 : Word).getLsbD i = false := by
        show (1#32).getLsbD i = false
        rw [BitVec.getLsbD_one]
        simp
        omega
      rw [hone]
      exact BitVec.getLsbD_of_ge _ _ (by omega)

/-- The setters behind the one of the update clock leave its bits. -/
theorem setters_top (reg v : Word) {i : Nat} (hi : i = 30 ∨ i = 31) :
    (setStoreMode reg v).getLsbD i = reg.getLsbD i ∧
      (setShiftClock reg v).getLsbD i = reg.getLsbD i ∧
      (setDataOffset reg v).getLsbD i = reg.getLsbD i ∧
      (setNumberOfEnabledLed reg v).getLsbD i = reg.getLsbD i := by
  unfold setStoreMode setShiftClock setDataOffset setNumberOfEnabledLed setBits
  obtain rfl | rfl := hi
  · refine ⟨?_, by simp, by simp, ?_⟩
    · split <;> simp
    · split_ifs <;> simp
  · refine ⟨?_, by simp, by simp, ?_⟩
    · split <;> simp
    · split_ifs <;> simp

theorem newCon1_top (d : LedDev) (param : LedConfigParam) {i : Nat} (hi : i = 30 ∨ i = 31) :
    (d.newCon1 param).getLsbD i = (if param.has configOperationUpdateClock
      then setUpdateClock d.con1 param.updateClock param.fpid else d.con1).getLsbD i := by
  have hskip : ∀ (c : Bool) {f reg : Word}, f.getLsbD i = reg.getLsbD i →
      (if c then f else reg).getLsbD i = reg.getLsbD i := by
    intro c f reg h
    cases c with
    | false => rfl
    | true => exact h
  unfold LedDev.newCon1
  dsimp only
  rw [hskip _ (setters_top _ _ hi).2.2.2, hskip _ (setters_top _ _ hi).2.2.1,
    hskip _ (setters_top _ _ hi).2.1, hskip _ (setters_top _ _ hi).1]

theorem setUpdateClock_us {reg clock fpid : Word} (h : ¬0x02#32 < clock) :
    setUpdateClock reg clock fpid >>> 30 = 1 ↔ clock = 1 := by
  rw [us_eq_one]
  unfold setUpdateClock
  split_ifs with h0 h1 h2
  · subst h0
    simp
  · subst h1
    simp
  · subst h2
    simp
  · have hle : clock.toNat ≤ 2 := by simpa [BitVec.lt_def] using h
    have hn0 : clock.toNat ≠ 0 := fun hn => h0 (BitVec.eq_of_toNat_eq hn)
    have hn1 : clock.toNat ≠ 1 := fun hn => h1 (BitVec.eq_of_toNat_eq hn)
    have hn2 : clock.toNat ≠ 2 := fun hn => h2 (BitVec.eq_of_toNat_eq hn)
    omega

/-- The update clock is the timer after an accepted call when the call asks for it, or is not about the
update clock at all. -/
theorem newCon1_us (d : LedDev) {param : LedConfigParam} (hvalid : param.valid = true) :
    d.newCon1 param >>> 30 = 1 ↔
      param.setupGpt2 = true ∨ param.has configOperationUpdateClock = false ∧ d.us = 1 := by
  have htop : d.newCon1 param >>> 30 = 1 ↔ (if param.has configOperationUpdateClock
      then setUpdateClock d.con1 param.updateClock param.fpid else d.con1) >>> 30 = 1 := by
    rw [us_eq_one, us_eq_one, newCon1_top d param (.inl rfl), newCon1_top d param (.inr rfl)]
  rw [htop]
  unfold LedConfigParam.setupGpt2
  cases hhas : param.has configOperationUpdateClock with
  | false => simp [LedDev.us]
  | true =>
    have hclock : ¬0x02#32 < param.updateClock := by
      intro hlt
      simp [LedConfigParam.valid, hhas, hlt] at hvalid
    simp only [if_true, Bool.true_and, beq_iff_eq, Bool.true_eq_false, false_and, or_false]
    exact setUpdateClock_us hclock

section Steps

variable (board : LedBoard) {s t : LedSys}

/-- `release_gpt(2); gpt_on = 0`. -/
def LedSys.dropGpt (s : LedSys) (o : LedServices) : LedSys :=
  { s.releaseGpt board 2 o with led.gptOn := false }

/-- What "Setup GPT" leaves. -/
structure LedGptStep (s t : LedSys) : Prop where
  led : ∃ gptOn, t.led = { s.led with gptOn }
  gpio : t.gpio = s.gpio
  reqFreq : t.reqFreq = s.reqFreq
  inv : GptuInv t.gptu

/-- A timer of another user has been released, or the driver's own has been forgotten. -/
def LedLost (s : LedSys) : Prop :=
  s.foreign = true ∨ s.led.gptOn = false ∧ s.mine = some ⟨5, false⟩ ∧
    ⟨5, false⟩ ∈ s.gptu.live ∧ s.gptu.dev.Running ⟨5, false⟩

theorem LedLost.not_agree (h : LedLost s) : ¬LedAgree board s := by
  intro hagree
  obtain hf | ⟨hoff, hmine, hlive, hrun⟩ := h
  · exact absurd (hf.symm.trans hagree.own) Bool.true_eq_false.mp
  · have hon := hagree.gpt.mpr ⟨_, hmine, hlive, hrun⟩
    exact absurd (hoff.symm.trans hon) Bool.false_ne_true

theorem LedSys.dropGpt_step (h : GptuInv s.gptu) (o : LedServices) :
    LedGptStep s (s.dropGpt board o) ∧ (s.dropGpt board o).led.gptOn = false := by
  have hframe := LedSys.releaseGpt_frame board h o
  refine ⟨⟨⟨false, ?_⟩, hframe.gpio, hframe.reqFreq, hframe.inv⟩, rfl⟩
  simp only [LedSys.dropGpt, hframe.led]

theorem LedSys.dropGpt_pair (h : GptuInv s.gptu) (hmine : s.mine = some ⟨4, true⟩)
    (hlive : ⟨4, true⟩ ∈ s.gptu.live) (o : LedServices) :
    (s.dropGpt board o).mine = none ∧ (s.dropGpt board o).foreign = s.foreign ∧
      (s.dropGpt board o).gptu.live = s.gptu.live.filter (fun b => !b.covers 4) ∧
      (s.dropGpt board o).gptu.dev.numberOfTimers = s.gptu.dev.numberOfTimers := by
  obtain ⟨hl, hm, hf⟩ := LedSys.releaseGpt_live board h hlive rfl o
  have hany : s.mine.any (·.covers 4) = true := by
    rw [hmine]
    rfl
  rw [hany] at hm hf
  exact ⟨hm, hf.trans (Bool.or_false _), hl, (LedSys.releaseGpt_frame board h o).count⟩

/-- With nothing of its own on timer 2A, `release_gpt` is without effect or hits another user. -/
theorem LedSys.dropGpt_other (h : GptuInv s.gptu) (hmine : s.mine.any (·.covers 4) = false)
    (o : LedServices) :
    (∃ a ∈ s.gptu.live, a.covers 4 = true) ∧ (s.dropGpt board o).foreign = true ∨
      (∀ a ∈ s.gptu.live, a.covers 4 = false) ∧
        s.dropGpt board o = { s with led.gptOn := false } := by
  by_cases hex : ∃ a ∈ s.gptu.live, a.covers 4 = true
  · obtain ⟨a, ha, hc⟩ := hex
    obtain ⟨-, -, hf⟩ := LedSys.releaseGpt_live board h ha hc o
    rw [hmine, Bool.not_false, Bool.or_true] at hf
    exact .inl ⟨⟨a, ha, hc⟩, hf⟩
  · have hno : ∀ a ∈ s.gptu.live, a.covers 4 = false := by
      intro a ha
      by_contra hc
      exact hex ⟨a, ha, Bool.eq_true_of_not_eq_false hc⟩
    refine .inr ⟨hno, ?_⟩
    simp only [LedSys.dropGpt, LedSys.releaseGpt_none board h hno]

theorem LedSys.dropGpt_foreign (h : s.foreign = true) (o : LedServices) :
    (s.dropGpt board o).foreign = true := by
  simp only [LedSys.dropGpt, LedSys.releaseGpt, LedSys.freeTimer]
  split_ifs
  · exact h
  · exact h
  · rfl

/-- The release of timer 2A never gives back timer 2B. -/
theorem LedSys.dropGpt_lost (h : GptuInv s.gptu) (hlost : s.foreign = true ∨
    s.mine = some ⟨5, false⟩ ∧ ⟨5, false⟩ ∈ s.gptu.live ∧ s.gptu.dev.Running ⟨5, false⟩)
    (o : LedServices) : LedLost (s.dropGpt board o) := by
  obtain hf | ⟨hmine, hlive, hrun⟩ := hlost
  · exact .inl (LedSys.dropGpt_foreign board hf o)
  · have hany : s.mine.any (·.covers 4) = false := by
      rw [hmine]
      rfl
    obtain ⟨-, hf⟩ | ⟨-, heq⟩ := LedSys.dropGpt_other board h hany o
    · exact .inl hf
    · rw [heq]
      exact .inr ⟨rfl, hmine, hlive, hrun⟩

theorem LedLost.held (h : LedLost s) : s.foreign = true ∨
    s.mine = some ⟨5, false⟩ ∧ ⟨5, false⟩ ∈ s.gptu.live ∧ s.gptu.dev.Running ⟨5, false⟩ :=
  h.imp id And.right

theorem LedLost.pins {on : Bool} {adsl : Word} (h : LedLost s)
    (hp : LedPinStep board s t on adsl) : LedLost t := by
  unfold LedLost
  rw [hp.foreign, hp.gptOn, hp.mine, hp.gptu]
  exact h

theorem LedInv.of_none (hinv : GptuInv s.gptu) (hmine : s.mine = none)
    (hoff : s.led.gptOn = false) (hown : s.foreign = false) (hpins : s.PinsAgree board)
    (hdark : s.led.fLedOn = false → s.led.adslOn = 0)
    (hclock : s.led.us = 1 → s.led.adslOn ≠ 0) : LedInv board s := by
  refine ⟨⟨hinv, ?_, hdark, ?_⟩, ⟨?_, hown, hpins, ?_⟩⟩
  · intro a ha
    rw [hmine] at ha
    cases ha
  · intro hon
    exact absurd (hoff.symm.trans hon) Bool.false_ne_true
  · refine iff_of_false (fun hon => absurd (hoff.symm.trans hon) Bool.false_ne_true) ?_
    rintro ⟨a, ha, -⟩
    rw [hmine] at ha
    cases ha
  · intro hus hadsl
    exact absurd hadsl (hclock hus)

theorem LedInv.of_held (hinv : GptuInv s.gptu) {a : TimerAlloc} (hmine : s.mine = some a)
    (hshape : a = ⟨5, false⟩ ∨ a = ⟨4, true⟩) (hon : s.led.gptOn = true)
    (hat : s.HoldsAt board s.reqFreq) (hown : s.foreign = false) (hpins : s.PinsAgree board)
    (hdark : s.led.fLedOn = false → s.led.adslOn = 0)
    (hclock : s.led.us = 1 ∧ s.led.adslOn = 0) : LedInv board s := by
  obtain ⟨b, hb, hlive, hrun, hreload⟩ := hat
  cases Option.some.inj (hmine.symm.trans hb)
  refine ⟨⟨hinv, ?_, hdark, fun _ => hclock⟩, ⟨?_, hown, hpins, ?_⟩⟩
  · intro b hb
    cases Option.some.inj (hmine.symm.trans hb)
    exact ⟨hshape, hlive, hrun⟩
  · exact iff_of_true hon ⟨a, hmine, hlive, hrun⟩
  · intro _ _
    exact ⟨a, hmine, hlive, hrun, hreload⟩

theorem LedAgree.not_selected (hoff : s.led.gptOn = false) (hus : s.led.us = 1)
    (hadsl : s.led.adslOn = 0) : ¬LedAgree board s := by
  intro h
  obtain ⟨a, hmine, hlive, hrun, -⟩ := h.clock hus hadsl
  have hon := h.gpt.mpr ⟨a, hmine, hlive, hrun⟩
  exact absurd (hoff.symm.trans hon) Bool.false_ne_true

theorem LedPinStep.us {on : Bool} {adsl : Word} (h : LedPinStep board s t on adsl) :
    t.led.us = s.led.us := by
  unfold LedDev.us
  rw [h.con1]

/-- `SETUP_GPIO_ERROR` of a driver that holds no timer. -/
theorem LedPinStep.drop_none (h : LedPinStep board s t false 0) (hinv : GptuInv s.gptu)
    (hmine : s.mine = none) (hown : s.foreign = false) (o : LedServices) :
    (s.led.us ≠ 1 ∧ ∀ a ∈ s.gptu.live, a.covers 4 = false) ∧ LedInv board (t.dropGpt board o) ∨
      ¬(s.led.us ≠ 1 ∧ ∀ a ∈ s.gptu.live, a.covers 4 = false) ∧
        ¬LedAgree board (t.dropGpt board o) := by
  have hus := h.us board
  have hinv' : GptuInv t.gptu := by
    rw [h.gptu]
    exact hinv
  obtain ⟨⟨⟨on, hled⟩, _, _, _⟩, hoff⟩ := LedSys.dropGpt_step board hinv' o
  by_cases hone : s.led.us = 1
  · refine .inr ⟨fun hc => hc.1 hone, LedAgree.not_selected board hoff ?_ ?_⟩
    · rw [LedDev.us, hled]
      exact hus.trans hone
    · rw [hled]
      exact h.adslOn
  · have hany : t.mine.any (·.covers 4) = false := by
      rw [h.mine, hmine]
      rfl
    obtain ⟨⟨a, ha, hc⟩, hf⟩ | ⟨hno, heq⟩ := LedSys.dropGpt_other board hinv' hany o
    · rw [h.gptu] at ha
      refine .inr ⟨?_, LedLost.not_agree board (.inl hf)⟩
      intro hc'
      exact absurd (hc.symm.trans (hc'.2 a ha)) Bool.true_eq_false.mp
    · rw [h.gptu] at hno
      refine .inl ⟨⟨hone, hno⟩, ?_⟩
      rw [heq]
      refine LedInv.of_none board hinv' (h.mine.trans hmine) rfl (h.foreign.trans hown) h.pins
        (fun _ => h.adslOn) ?_
      intro hone'
      exact absurd (hus.symm.trans hone') hone

/-- `SETUP_GPIO_ERROR` of a driver that holds a timer. -/
theorem LedPinStep.drop_held (h : LedPinStep board s t false 0) (hinv : GptuInv s.gptu)
    {a : TimerAlloc} (hmine : s.mine = some a) (hshape : a = ⟨5, false⟩ ∨ a = ⟨4, true⟩)
    (hlive : a ∈ s.gptu.live) (hrun : s.gptu.dev.Running a) (hown : s.foreign = false)
    (o : LedServices) :
    (a = ⟨4, true⟩ ∧ s.led.us ≠ 1) ∧ LedInv board (t.dropGpt board o) ∨
      ¬(a = ⟨4, true⟩ ∧ s.led.us ≠ 1) ∧ ¬LedAgree board (t.dropGpt board o) := by
  have hus := h.us board
  have hinv' : GptuInv t.gptu := by
    rw [h.gptu]
    exact hinv
  obtain ⟨⟨⟨on, hled⟩, hgpio, hreq, hdinv⟩, hoff⟩ := LedSys.dropGpt_step board hinv' o
  obtain rfl | rfl := hshape
  · refine .inr ⟨fun hc => absurd (congrArg TimerAlloc.is32 hc.1) Bool.false_ne_true, ?_⟩
    apply LedLost.not_agree
    apply LedSys.dropGpt_lost board hinv'
    rw [h.gptu, h.mine]
    exact .inr ⟨hmine, hlive, hrun⟩
  · have hus' : (t.dropGpt board o).led.us = s.led.us := by
      rw [LedDev.us, hled]
      exact hus
    have hadsl : (t.dropGpt board o).led.adslOn = 0 := by
      rw [hled]
      exact h.adslOn
    by_cases hone : s.led.us = 1
    · exact .inr ⟨fun hc => hc.2 hone,
        LedAgree.not_selected board hoff (hus'.trans hone) hadsl⟩
    · have hlive' : ⟨4, true⟩ ∈ t.gptu.live := by
        rw [h.gptu]
        exact hlive
      obtain ⟨hm, hf, -, -⟩ := LedSys.dropGpt_pair board hinv' (h.mine.trans hmine) hlive' o
      refine .inl ⟨⟨rfl, hone⟩, LedInv.of_none board hdinv hm hoff
        (hf.trans (h.foreign.trans hown)) ?_ (fun _ => hadsl) ?_⟩
      · unfold LedSys.PinsAgree
        rw [hgpio, hled]
        exact h.pins
      · intro hone'
        exact absurd (hus'.symm.trans hone') hone

theorem LedPinStep.write_none {on : Bool} {adsl : Word} (h : LedPinStep board s t on adsl)
    (hinv : GptuInv s.gptu) (hmine : s.mine = none) (hoff : s.led.gptOn = false)
    (hown : s.foreign = false) (hdark : on = false → adsl = 0) (d : LedDev)
    (param : LedConfigParam) :
    (d.newCon1 param >>> 30 = 1 → adsl ≠ 0) ∧ LedInv board (t.writeRegisters d param) ∨
      ¬(d.newCon1 param >>> 30 = 1 → adsl ≠ 0) ∧ ¬LedAgree board (t.writeRegisters d param) := by
  have hadsl : (t.writeRegisters d param).led.adslOn = adsl := h.adslOn
  by_cases hc : d.newCon1 param >>> 30 = 1 → adsl ≠ 0
  · refine .inl ⟨hc, LedInv.of_none board ?_ (h.mine.trans hmine) (h.gptOn.trans hoff)
      (h.foreign.trans hown) h.pins ?_ ?_⟩
    · show GptuInv t.gptu
      rw [h.gptu]
      exact hinv
    · intro hled
      exact hadsl.trans (hdark (h.fLedOn.symm.trans hled))
    · intro hone
      rw [hadsl]
      exact hc hone
  · refine .inr ⟨hc, ?_⟩
    simp only [Classical.not_imp, not_not] at hc
    exact LedAgree.not_selected board (h.gptOn.trans hoff) hc.1 (hadsl.trans hc.2)

theorem LedPinStep.write_held {on : Bool} (h : LedPinStep board s t on 0)
    (hinv : GptuInv s.gptu) {a : TimerAlloc} (hmine : s.mine = some a)
    (hshape : a = ⟨5, false⟩ ∨ a = ⟨4, true⟩) (hon : s.led.gptOn = true)
    (hown : s.foreign = false) (d : LedDev) {param : LedConfigParam}
    (hsetup : param.setupGpt2 = true) (hus : d.newCon1 param >>> 30 = 1) :
    s.HoldsAt board param.fpid ∧ LedInv board (t.writeRegisters d param) ∨
      ¬s.HoldsAt board param.fpid ∧ ¬LedAgree board (t.writeRegisters d param) := by
  have hadsl : (t.writeRegisters d param).led.adslOn = 0 := h.adslOn
  have hreq : (t.writeRegisters d param).reqFreq = param.fpid := if_pos hsetup
  have hat : (t.writeRegisters d param).HoldsAt board param.fpid ↔ s.HoldsAt board param.fpid := by
    show (∃ a, t.mine = some a ∧ a ∈ t.gptu.live ∧ t.gptu.dev.Running a ∧
      t.gptu.dev.reload (timerReg a.base) = calDivider board.fpiBusClock param.fpid) ↔ _
    rw [h.mine, h.gptu]
    exact Iff.rfl
  by_cases hc : s.HoldsAt board param.fpid
  · refine .inl ⟨hc, LedInv.of_held board ?_ (h.mine.trans hmine) hshape (h.gptOn.trans hon) ?_
      (h.foreign.trans hown) h.pins (fun _ => hadsl) ⟨hus, hadsl⟩⟩
    · show GptuInv t.gptu
      rw [h.gptu]
      exact hinv
    · rw [hreq]
      exact hat.mpr hc
  · refine .inr ⟨hc, ?_⟩
    intro hagree
    have hheld := hagree.clock hus hadsl
    rw [hreq] at hheld
    exact hc (hat.mp hheld)

theorem LedGptStep.refl (h : GptuInv s.gptu) : LedGptStep s s := ⟨⟨_, rfl⟩, rfl, rfl, h⟩

theorem LedGptStep.us (h : LedGptStep s t) : t.led.us = s.led.us := by
  obtain ⟨on, hled⟩ := h.led
  rw [hled]
  rfl

theorem LedGptStep.adslOn (h : LedGptStep s t) : t.led.adslOn = s.led.adslOn := by
  obtain ⟨on, hled⟩ := h.led
  rw [hled]

theorem LedGptStep.fLedOn (h : LedGptStep s t) : t.led.fLedOn = s.led.fLedOn := by
  obtain ⟨on, hled⟩ := h.led
  rw [hled]

theorem LedGptStep.pinsAgree (h : LedGptStep s t) (hp : s.PinsAgree board) :
    t.PinsAgree board := by
  unfold LedSys.PinsAgree
  rw [h.gpio, h.fLedOn, h.adslOn]
  exact hp

theorem LedGptStep.pinsRefused (h : LedGptStep s t) (on : Bool) (adsl : Word) (o : LedServices) :
    t.PinsRefused board on adsl o ↔ s.PinsRefused board on adsl o := by
  unfold LedSys.PinsRefused LedSys.PinMissing
  rw [h.gpio, h.fLedOn, h.adslOn]

theorem LedGptStep.dark (h : LedGptStep s t) (hdark : s.led.fLedOn = false → s.led.adslOn = 0) :
    t.led.fLedOn = false → t.led.adslOn = 0 := by
  rw [h.fLedOn, h.adslOn]
  exact hdark

theorem LedDev.newLedOn_of_adsl {d : LedDev} {param : LedConfigParam}
    (h : d.newAdslOn param ≠ 0) : d.newLedOn param = true := by
  unfold LedDev.newLedOn
  rw [bne_iff_ne.mpr h, Bool.true_or]

theorem LedDev.newAdslOn_of_dark {d : LedDev} {param : LedConfigParam}
    (h : d.newLedOn param = false) : d.newAdslOn param = 0 := by
  by_contra hne
  exact absurd (h.symm.trans (LedDev.newLedOn_of_adsl hne)) Bool.false_ne_true

section Config

variable {param : LedConfigParam} {o : LedServices}

/-- A call ends with "Setup GPT", with the pins, or with the registers. -/
theorem danubeLedConfig_result (hpins : s.PinsAgree board)
    (hdark : s.led.fLedOn = false → s.led.adslOn = 0) (hvalid : param.valid = true)
    (hstep : LedGptStep s (s.configGpt board param o).1) :
    (s.configGpt board param o).2 ≠ 0 ∧
        danubeLedConfig board s (some param) o = s.configGpt board param o ∨
      (s.configGpt board param o).2 = 0 ∧
      ((∃ t ret, s.PinsRefused board (s.led.newLedOn param) (s.led.newAdslOn param) o ∧ ret ≠ 0 ∧
          (s.configGpt board param o).1.configPins board (s.led.newLedOn param)
            (s.led.newAdslOn param) o = (t, ret) ∧
          LedPinStep board (s.configGpt board param o).1 t false 0 ∧
          danubeLedConfig board s (some param) o = (t.dropGpt board o, ret)) ∨
        ∃ t, ¬s.PinsRefused board (s.led.newLedOn param) (s.led.newAdslOn param) o ∧
          (s.configGpt board param o).1.configPins board (s.led.newLedOn param)
            (s.led.newAdslOn param) o = (t, 0) ∧
          LedPinStep board (s.configGpt board param o).1 t (s.led.newLedOn param)
            (s.led.newAdslOn param) ∧
          danubeLedConfig board s (some param) o = (t.writeRegisters s.led param, 0)) := by
  by_cases hret : (s.configGpt board param o).2 = 0
  · have hpins' := hstep.pinsAgree board hpins
    have hrefused := hstep.pinsRefused board (s.led.newLedOn param) (s.led.newAdslOn param) o
    refine .inr ⟨hret, ?_⟩
    obtain ⟨hno, hq, hpin⟩ | ⟨hok, hq, hpin⟩ := LedSys.configPins_spec board hpins'
      (hstep.dark hdark) (fun hne : s.led.newAdslOn param ≠ 0 => LedDev.newLedOn_of_adsl hne) o
    · refine .inl ⟨_, _, hrefused.mp hno, hq, rfl, hpin, ?_⟩
      simp only [danubeLedConfig, hvalid, Bool.not_true, Bool.false_eq_true, if_false, hret, ne_eq,
        not_true_eq_false, hq, not_false_eq_true, if_true]
      rfl
    · refine .inr ⟨_, fun hc => hok (hrefused.mpr hc), Prod.ext rfl hq, hpin, ?_⟩
      simp only [danubeLedConfig, hvalid, Bool.not_true, Bool.false_eq_true, if_false, hret, ne_eq,
        not_true_eq_false, hq]
  · refine .inl ⟨hret, ?_⟩
    simp only [danubeLedConfig, hvalid, Bool.not_true, Bool.false_eq_true, if_false, ne_eq, hret,
      not_false_eq_true, if_true]

theorem danubeLedConfig_cases (hs : LedInv board s) (hvalid : param.valid = true)
    (hstep : LedGptStep s (s.configGpt board param o).1) :
    (s.configGpt board param o).2 ≠ 0 ∧
        (danubeLedConfig board s (some param) o).1 = (s.configGpt board param o).1 ∨
      (s.configGpt board param o).2 = 0 ∧
      ((∃ t, s.PinsRefused board (s.led.newLedOn param) (s.led.newAdslOn param) o ∧
          LedPinStep board (s.configGpt board param o).1 t false 0 ∧
          (danubeLedConfig board s (some param) o).1 = t.dropGpt board o) ∨
        ∃ t, ¬s.PinsRefused board (s.led.newLedOn param) (s.led.newAdslOn param) o ∧
          LedPinStep board (s.configGpt board param o).1 t (s.led.newLedOn param)
            (s.led.newAdslOn param) ∧
          (danubeLedConfig board s (some param) o).1 = t.writeRegisters s.led param) := by
  obtain ⟨hret, heq⟩ | ⟨hret, ⟨t, ret, hno, -, -, hpin, heq⟩ | ⟨t, hok, -, hpin, heq⟩⟩ :=
    danubeLedConfig_result board hs.agree.pins hs.shape.dark hvalid hstep
  · exact .inl ⟨hret, congrArg Prod.fst heq⟩
  · exact .inr ⟨hret, .inl ⟨t, hno, hpin, congrArg Prod.fst heq⟩⟩
  · exact .inr ⟨hret, .inr ⟨t, hok, hpin, congrArg Prod.fst heq⟩⟩

theorem LedConfigOk.of_rearm (hsetup : param.setupGpt2 = true ∧ s.led.newAdslOn param = 0)
    (hon : s.led.gptOn = true)
    (hpins : ¬s.PinsRefused board (s.led.newLedOn param) (s.led.newAdslOn param) o)
    (hsame : s.led.gptFreq = param.fpid → s.HoldsAt board param.fpid)
    (hnew : s.led.gptFreq ≠ param.fpid → s.mine = some ⟨4, true⟩ ∧ o.refuseSetTimer = false ∧
      o.refuseStartTimer = false ∧ calDivider board.fpiBusClock param.fpid ≠ 0) :
    LedConfigOk board s param o :=
  ⟨fun _ _ => ⟨hpins, hsame, hnew⟩,
    fun _ hoff => absurd (hoff.symm.trans hon) Bool.false_ne_true,
    fun hno => absurd hsetup hno, fun hno => absurd hsetup hno, fun hno => absurd hsetup hno⟩

theorem LedConfigOk.of_arm (hsetup : param.setupGpt2 = true ∧ s.led.newAdslOn param = 0)
    (hoff : s.led.gptOn = false)
    (h : s.Grants board param.fpid o →
      s.PinsRefused board (s.led.newLedOn param) (s.led.newAdslOn param) o →
      ledAlloc (calDivider board.fpiBusClock param.fpid) = ⟨4, true⟩ ∧ s.led.us ≠ 1) :
    LedConfigOk board s param o :=
  ⟨fun _ hon => absurd (hoff.symm.trans hon) Bool.false_ne_true, fun _ _ => h,
    fun hno => absurd hsetup hno, fun hno => absurd hsetup hno, fun hno => absurd hsetup hno⟩

theorem LedConfigOk.of_else (hno : ¬(param.setupGpt2 = true ∧ s.led.newAdslOn param = 0))
    (hpair : s.led.gptOn = true → s.mine = some ⟨4, true⟩)
    (hrefused : s.PinsRefused board (s.led.newLedOn param) (s.led.newAdslOn param) o →
      s.led.us ≠ 1 ∧ ∀ a ∈ s.gptu.live, a.covers 4 = false)
    (hclocked : ¬s.PinsRefused board (s.led.newLedOn param) (s.led.newAdslOn param) o →
      s.led.us = 1 → s.led.newAdslOn param = 0 →
      param.has configOperationUpdateClock = true) :
    LedConfigOk board s param o :=
  ⟨fun hsetup => absurd hsetup hno, fun hsetup => absurd hsetup hno, fun _ => hpair,
    fun _ => hrefused, fun _ => hclocked⟩

/-- No later part of the call finds what "Setup GPT" has lost. -/
theorem danubeLedConfig_lost (hs : LedInv board s) (hvalid : param.valid = true)
    (hstep : LedGptStep s (s.configGpt board param o).1)
    (hlost : LedLost (s.configGpt board param o).1) :
    ¬LedAgree board (danubeLedConfig board s (some param) o).1 := by
  obtain ⟨-, hfinal⟩ | ⟨-, ⟨t, -, hpin, hfinal⟩ | ⟨t, -, hpin, hfinal⟩⟩ :=
    danubeLedConfig_cases board hs hvalid hstep
  · rw [hfinal]
    exact hlost.not_agree board
  · rw [hfinal]
    have hinv : GptuInv t.gptu := by
      rw [hpin.gptu]
      exact hstep.inv
    exact (LedSys.dropGpt_lost board hinv (hlost.pins board hpin).held o).not_agree board
  · rw [hfinal]
    have hlost' : LedLost t := hlost.pins board hpin
    exact LedLost.not_agree board (s := t.writeRegisters s.led param) hlost'

theorem LedSys.dropGpt_narrow (h : GptuInv s.gptu) (hmine : s.mine = some ⟨5, false⟩)
    (hlive : ⟨5, false⟩ ∈ s.gptu.live) (o : LedServices) :
    (s.dropGpt board o).mine = some ⟨5, false⟩ ∧ ⟨5, false⟩ ∈ (s.dropGpt board o).gptu.live := by
  have hany : s.mine.any (·.covers 4) = false := by
    rw [hmine]
    rfl
  by_cases hex : ∃ a ∈ s.gptu.live, a.covers 4 = true
  · obtain ⟨a, ha, hc⟩ := hex
    obtain ⟨hl, hm, -⟩ := LedSys.releaseGpt_live board h ha hc o
    rw [hany] at hm
    have hstay : (⟨5, false⟩ : TimerAlloc) ∈ s.gptu.live.filter (fun b => !b.covers 4) :=
      List.mem_filter.mpr ⟨hlive, rfl⟩
    exact ⟨hm.trans hmine, hl ▸ hstay⟩
  · obtain ⟨hyes, -⟩ | ⟨-, heq⟩ := LedSys.dropGpt_other board h hany o
    · exact absurd hyes hex
    · rw [heq]
      exact ⟨hmine, hlive⟩

theorem GptuSys.not_hasFree {g : GptuSys} {a : TimerAlloc} (ha : a ∈ g.live)
    (hc : a.covers 5 = true) (divider : Word) : ¬g.HasFree divider := by
  intro hfree
  exact absurd (hc.symm.trans (hfree.2 a ha 5 (ledAlloc_covers divider))) Bool.true_eq_false.mp

/-- Where the pair has been, anything can be had again. -/
theorem GptuInv.hasFree_of_pair {g g' : GptuSys} (h : GptuInv g) (hlive : ⟨4, true⟩ ∈ g.live)
    (hl : g'.live = g.live.filter (fun b => !b.covers 4))
    (hn : g'.dev.numberOfTimers = g.dev.numberOfTimers) (divider : Word) : g'.HasFree divider := by
  have hup := h.upper _ hlive
  have heven := h.even
  refine ⟨?_, ?_⟩
  · rw [hn]
    simp only [firstTimer] at hup ⊢
    omega
  · intro b hb j hj
    rw [hl] at hb
    obtain ⟨hb, hnot⟩ := List.mem_filter.mp hb
    have hpair : (⟨4, true⟩ : TimerAlloc).covers j = true := by
      obtain hs | hs := ledAlloc_shape divider
      · rw [hs] at hj
        obtain rfl | ⟨h32, -⟩ := TimerAlloc.covers_iff.mp hj
        · rfl
        · cases h32
      · rw [hs] at hj
        exact hj
    by_contra hc
    have heq := h.covers_unique hb hlive (Bool.eq_true_of_not_eq_false hc) hpair
    rw [heq] at hnot
    exact absurd hnot Bool.false_ne_true

theorem danubeLedConfig_armed (hs : LedInv board s) (hvalid : param.valid = true)
    (hsetup : param.setupGpt2 = true ∧ s.led.newAdslOn param = 0) {r : LedSys}
    (heq : s.configGpt board param o = (r, 0)) (hstep : LedGptStep s r)
    (hon : r.led.gptOn = true) {a : TimerAlloc} (hmine : r.mine = some a)
    (hshape : a = ⟨5, false⟩ ∨ a = ⟨4, true⟩) (hlive : a ∈ r.gptu.live)
    (hrun : r.gptu.dev.Running a) (hown : r.foreign = false) :
    ((s.PinsRefused board (s.led.newLedOn param) (s.led.newAdslOn param) o →
          a = ⟨4, true⟩ ∧ s.led.us ≠ 1) ∧
        (¬s.PinsRefused board (s.led.newLedOn param) (s.led.newAdslOn param) o →
          r.HoldsAt board param.fpid)) ∧
        LedInv board (danubeLedConfig board s (some param) o).1 ∨
      ¬((s.PinsRefused board (s.led.newLedOn param) (s.led.newAdslOn param) o →
          a = ⟨4, true⟩ ∧ s.led.us ≠ 1) ∧
        (¬s.PinsRefused board (s.led.newLedOn param) (s.led.newAdslOn param) o →
          r.HoldsAt board param.fpid)) ∧
        ¬LedAgree board (danubeLedConfig board s (some param) o).1 := by
  have hcases := danubeLedConfig_cases board hs hvalid (o := o) (heq ▸ hstep)
  rw [heq] at hcases
  obtain ⟨hret, -⟩ | ⟨-, ⟨t, href, hpin, hfinal⟩ | ⟨t, href, hpin, hfinal⟩⟩ := hcases
  · exact absurd rfl hret
  · rw [hfinal]
    have hdrop := hpin.drop_held board hstep.inv hmine hshape hlive hrun hown o
    rw [hstep.us] at hdrop
    obtain ⟨hok, hinv⟩ | ⟨hnot, hno⟩ := hdrop
    · exact .inl ⟨⟨fun _ => hok, fun hc => absurd href hc⟩, hinv⟩
    · exact .inr ⟨fun hc => hnot (hc.1 href), hno⟩
  · rw [hfinal]
    rw [hsetup.2] at hpin
    have hnew : s.led.newCon1 param >>> 30 = 1 := (newCon1_us s.led hvalid).mpr (.inl hsetup.1)
    obtain ⟨hat, hinv⟩ | ⟨hnot, hno⟩ := hpin.write_held board hstep.inv hmine hshape hon hown
      s.led hsetup.1 hnew
    · exact .inl ⟨⟨fun hc => absurd hc href, fun _ => hat⟩, hinv⟩
    · exact .inr ⟨fun hc => hnot (hc.2 href), hno⟩

theorem danubeLedConfig_unarmed (hs : LedInv board s) (hvalid : param.valid = true)
    (hsetup : ¬(param.setupGpt2 = true ∧ s.led.newAdslOn param = 0)) {r : LedSys}
    (heq : s.configGpt board param o = (r, 0)) (hstep : LedGptStep s r)
    (hoff : r.led.gptOn = false) (hmine : r.mine = none) (hown : r.foreign = false) :
    ((s.PinsRefused board (s.led.newLedOn param) (s.led.newAdslOn param) o →
          s.led.us ≠ 1 ∧ ∀ a ∈ r.gptu.live, a.covers 4 = false) ∧
        (¬s.PinsRefused board (s.led.newLedOn param) (s.led.newAdslOn param) o →
          s.led.us = 1 → s.led.newAdslOn param = 0 →
          param.has configOperationUpdateClock = true)) ∧
        LedInv board (danubeLedConfig board s (some param) o).1 ∨
      ¬((s.PinsRefused board (s.led.newLedOn param) (s.led.newAdslOn param) o →
          s.led.us ≠ 1 ∧ ∀ a ∈ r.gptu.live, a.covers 4 = false) ∧
        (¬s.PinsRefused board (s.led.newLedOn param) (s.led.newAdslOn param) o →
          s.led.us = 1 → s.led.newAdslOn param = 0 →
          param.has configOperationUpdateClock = true)) ∧
        ¬LedAgree board (danubeLedConfig board s (some param) o).1 := by
  have hcases := danubeLedConfig_cases board hs hvalid (o := o) (heq ▸ hstep)
  rw [heq] at hcases
  obtain ⟨hret, -⟩ | ⟨-, ⟨t, href, hpin, hfinal⟩ | ⟨t, href, hpin, hfinal⟩⟩ := hcases
  · exact absurd rfl hret
  · rw [hfinal]
    have hdrop := hpin.drop_none board hstep.inv hmine hown o
    rw [hstep.us] at hdrop
    obtain ⟨hok, hinv⟩ | ⟨hnot, hno⟩ := hdrop
    · exact .inl ⟨⟨fun _ => hok, fun hc => absurd href hc⟩, hinv⟩
    · exact .inr ⟨fun hc => hnot (hc.1 href), hno⟩
  · rw [hfinal]
    have hiff : (s.led.newCon1 param >>> 30 = 1 → s.led.newAdslOn param ≠ 0) ↔
        (s.led.us = 1 → s.led.newAdslOn param = 0 →
          param.has configOperationUpdateClock = true) := by
      rw [newCon1_us s.led hvalid]
      constructor
      · intro h hus hadsl
        by_contra hc
        exact h (.inr ⟨Bool.eq_false_of_not_eq_true hc, hus⟩) hadsl
      · rintro h (hset | ⟨hhas, hus⟩) hadsl
        · exact hsetup ⟨hset, hadsl⟩
        · exact absurd (hhas.symm.trans (h hus hadsl)) Bool.false_ne_true
    obtain ⟨hok, hinv⟩ | ⟨hnot, hno⟩ := hpin.write_none board hstep.inv hmine hoff hown
      LedDev.newAdslOn_of_dark s.led param
    · exact .inl ⟨⟨fun hc => absurd hc href, fun _ => hiff.mp hok⟩, hinv⟩
    · exact .inr ⟨fun hc => hnot (hiff.mpr (hc.2 href)), hno⟩

/-- The timer runs already and `gpt_freq` is the frequency asked for. -/
theorem danubeLedConfig_same (hs : LedInv board s) (hvalid : param.valid = true)
    (hsetup : param.setupGpt2 = true ∧ s.led.newAdslOn param = 0) (hon : s.led.gptOn = true)
    (hfreq : s.led.gptFreq = param.fpid) :
    LedConfigOk board s param o ∧ LedInv board (danubeLedConfig board s (some param) o).1 ∨
      ¬LedConfigOk board s param o ∧
        ¬LedAgree board (danubeLedConfig board s (some param) o).1 := by
  have heq : s.configGpt board param o = ({ s with led.gptOn := true }, 0) := by
    simp only [LedSys.configGpt, hsetup.1, hsetup.2, hon, hfreq, beq_self_eq_true, Bool.and_true,
      if_true, ne_eq, not_true_eq_false, if_false]
  obtain ⟨hus, -⟩ := hs.shape.selected hon
  obtain ⟨a, hmine, hlive, hrun⟩ := hs.agree.gpt.mp hon
  obtain ⟨⟨href, hat⟩, hinv⟩ | ⟨hnot, hno⟩ := danubeLedConfig_armed board hs hvalid hsetup heq
    ⟨⟨true, rfl⟩, rfl, rfl, hs.shape.timers⟩ rfl hmine (hs.shape.mine a hmine).1 hlive hrun
    hs.agree.own
  · have hpins := fun hc => (href hc).2 hus
    exact .inl ⟨LedConfigOk.of_rearm board hsetup hon hpins (fun _ => hat hpins)
      (fun hne => absurd hfreq hne), hinv⟩
  · refine .inr ⟨?_, hno⟩
    intro hok
    obtain ⟨hpins, hsame, -⟩ := hok.rearm hsetup hon
    exact hnot ⟨fun hc => absurd hc hpins, fun _ => hsame hfreq⟩

/-- "Setup GPT" for another frequency drops the timer and asks for it again. -/
theorem LedSys.configGpt_rearm (hsetup : param.setupGpt2 = true ∧ s.led.newAdslOn param = 0)
    (hon : s.led.gptOn = true) (hfreq : s.led.gptFreq ≠ param.fpid) :
    s.configGpt board param o =
      (let r := LedSys.setupGpt board (s.dropGpt board o) 2 param.fpid o
        if r.2 ≠ 0 then r else ({ r.1 with led.gptOn := true }, 0)) := by
  simp only [LedSys.configGpt, hsetup.1, hsetup.2, hon, beq_self_eq_true, Bool.and_true,
    if_true, ne_eq, hfreq, not_false_eq_true]
  rfl

/-- Timer 2B is still taken when it is asked for again. -/
theorem danubeLedConfig_rearm_narrow (hs : LedInv board s) (hvalid : param.valid = true)
    (hsetup : param.setupGpt2 = true ∧ s.led.newAdslOn param = 0) (hon : s.led.gptOn = true)
    (hfreq : s.led.gptFreq ≠ param.fpid) (hmine : s.mine = some ⟨5, false⟩)
    (hlive : ⟨5, false⟩ ∈ s.gptu.live) (hrun : s.gptu.dev.Running ⟨5, false⟩) :
    ¬LedConfigOk board s param o ∧ ¬LedAgree board (danubeLedConfig board s (some param) o).1 := by
  obtain ⟨hdrop, -⟩ := LedSys.dropGpt_step board hs.shape.timers o
  obtain ⟨hdmine, hdlive⟩ := LedSys.dropGpt_narrow board hs.shape.timers hmine hlive o
  have hno : ¬(s.dropGpt board o).Grants board param.fpid o :=
    fun hg => GptuSys.not_hasFree hdlive rfl _ hg.2.2.2
  obtain ⟨hret, -, -, hsame | ⟨hnone, -⟩⟩ := LedSys.setupGpt_fails board hdrop.inv (fun b hb => by
    cases Option.some.inj (hdmine.symm.trans hb)
    exact ⟨hdlive, rfl⟩) hno
  · have hgpt : (s.configGpt board param o).1 = s.dropGpt board o := by
      rw [LedSys.configGpt_rearm board hsetup hon hfreq]
      dsimp only
      rw [if_pos hret, hsame]
    have hstep : LedGptStep s (s.configGpt board param o).1 := by
      rw [hgpt]
      exact hdrop
    refine ⟨?_, danubeLedConfig_lost board hs hvalid hstep ?_⟩
    · intro hok
      have hpair := ((hok.rearm hsetup hon).2.2 hfreq).1
      cases Option.some.inj (hmine.symm.trans hpair)
    · rw [hgpt]
      exact LedSys.dropGpt_lost board hs.shape.timers (.inr ⟨hmine, hlive, hrun⟩) o
  · rw [hdmine] at hnone
    cases hnone

theorem danubeLedConfig_rearm_pair (hs : LedInv board s) (hvalid : param.valid = true)
    (hsetup : param.setupGpt2 = true ∧ s.led.newAdslOn param = 0) (hon : s.led.gptOn = true)
    (hfreq : s.led.gptFreq ≠ param.fpid) (hmine : s.mine = some ⟨4, true⟩)
    (hlive : ⟨4, true⟩ ∈ s.gptu.live) :
    LedConfigOk board s param o ∧ LedInv board (danubeLedConfig board s (some param) o).1 ∨
      ¬LedConfigOk board s param o ∧
        ¬LedAgree board (danubeLedConfig board s (some param) o).1 := by
  have heq := LedSys.configGpt_rearm board (o := o) hsetup hon hfreq
  obtain ⟨hus, hadsl⟩ := hs.shape.selected hon
  obtain ⟨⟨⟨on, hled⟩, hgpio, hreq, hinv⟩, hoff⟩ := LedSys.dropGpt_step board hs.shape.timers o
  obtain ⟨hdmine, hdown, hdlive, hdcount⟩ :=
    LedSys.dropGpt_pair board hs.shape.timers hmine hlive o
  have hfree := hs.shape.timers.hasFree_of_pair hlive hdlive hdcount
    (calDivider board.fpiBusClock param.fpid)
  by_cases hg : (s.dropGpt board o).Grants board param.fpid o
  · obtain ⟨hret, hframe, hfor, hnmine, hat⟩ := LedSys.setupGpt_ok board hinv hg
    have hgpt : s.configGpt board param o =
        ({ (LedSys.setupGpt board (s.dropGpt board o) 2 param.fpid o).1 with
          led.gptOn := true }, 0) := by
      rw [heq]
      dsimp only
      rw [if_neg (not_not.mpr hret)]
    have hstep : LedGptStep s { (LedSys.setupGpt board (s.dropGpt board o) 2 param.fpid o).1 with
        led.gptOn := true } := by
      refine ⟨⟨true, ?_⟩, hframe.gpio.trans hgpio, hframe.reqFreq.trans hreq, hframe.inv⟩
      simp only [hframe.led, hled]
    obtain ⟨b, hb, hblive, hbrun, -⟩ := id hat
    cases Option.some.inj (hnmine.symm.trans hb)
    obtain ⟨⟨href, -⟩, hfinal⟩ | ⟨hnot, hno⟩ := danubeLedConfig_armed board hs hvalid hsetup hgpt
      hstep rfl hnmine (ledAlloc_shape _) hblive hbrun (hfor.trans (hdown.trans hs.agree.own))
    · exact .inl ⟨LedConfigOk.of_rearm board hsetup hon (fun hc => (href hc).2 hus)
        (fun hc => absurd hc hfreq) (fun _ => ⟨hmine, hg.1, hg.2.1, hg.2.2.1⟩), hfinal⟩
    · refine .inr ⟨?_, hno⟩
      intro hok
      exact hnot ⟨fun hc => absurd hc (hok.rearm hsetup hon).1, fun _ => hat⟩
  · obtain ⟨hret, hframe, -, -⟩ := LedSys.setupGpt_fails board hinv (fun b hb => by
      rw [hdmine] at hb
      cases hb) hg
    have hfinal : (danubeLedConfig board s (some param) o).1 =
        (LedSys.setupGpt board (s.dropGpt board o) 2 param.fpid o).1 := by
      simp only [danubeLedConfig, hvalid, Bool.not_true, Bool.false_eq_true, if_false, heq,
        if_pos hret]
    right
    refine ⟨?_, ?_⟩
    · intro hok
      obtain ⟨-, hset, hstart, hd⟩ := (hok.rearm hsetup hon).2.2 hfreq
      exact hg ⟨hset, hstart, hd, hfree⟩
    · rw [hfinal]
      refine LedAgree.not_selected board ?_ ?_ ?_
      · rw [hframe.led]
        exact hoff
      · rw [hframe.led, hled]
        exact hus
      · rw [hframe.led, hled]
        exact hadsl

/-- The timer runs already and `gpt_freq`, which stays 0, is not the frequency asked for. -/
theorem danubeLedConfig_rearm (hs : LedInv board s) (hvalid : param.valid = true)
    (hsetup : param.setupGpt2 = true ∧ s.led.newAdslOn param = 0) (hon : s.led.gptOn = true)
    (hfreq : s.led.gptFreq ≠ param.fpid) :
    LedConfigOk board s param o ∧ LedInv board (danubeLedConfig board s (some param) o).1 ∨
      ¬LedConfigOk board s param o ∧
        ¬LedAgree board (danubeLedConfig board s (some param) o).1 := by
  obtain ⟨a, hmine, hlive, hrun⟩ := hs.agree.gpt.mp hon
  obtain rfl | rfl := (hs.shape.mine a hmine).1
  · exact .inr (danubeLedConfig_rearm_narrow board hs hvalid hsetup hon hfreq hmine hlive hrun)
  · exact danubeLedConfig_rearm_pair board hs hvalid hsetup hon hfreq hmine hlive

theorem LedInv.mine_none (hs : LedInv board s) (hoff : s.led.gptOn = false) : s.mine = none := by
  cases hmine : s.mine with
  | none => rfl
  | some a =>
    obtain ⟨-, hlive, hrun⟩ := hs.shape.mine a hmine
    have hon := hs.agree.gpt.mpr ⟨a, hmine, hlive, hrun⟩
    exact absurd (hoff.symm.trans hon) Bool.false_ne_true

theorem LedInv.not_selected (hs : LedInv board s) (hoff : s.led.gptOn = false)
    (hus : s.led.us = 1) : s.led.adslOn ≠ 0 := by
  intro hadsl
  exact LedAgree.not_selected board hoff hus hadsl hs.agree

theorem danubeLedConfig_arm (hs : LedInv board s) (hvalid : param.valid = true)
    (hsetup : param.setupGpt2 = true ∧ s.led.newAdslOn param = 0) (hoff : s.led.gptOn = false) :
    LedConfigOk board s param o ∧ LedInv board (danubeLedConfig board s (some param) o).1 ∨
      ¬LedConfigOk board s param o ∧
        ¬LedAgree board (danubeLedConfig board s (some param) o).1 := by
  have heq : s.configGpt board param o =
      (let r := s.setupGpt board 2 param.fpid o
        if r.2 ≠ 0 then r else ({ r.1 with led.gptOn := true }, 0)) := by
    simp only [LedSys.configGpt, hsetup.1, hsetup.2, hoff, beq_self_eq_true, Bool.and_true,
      if_true, Bool.false_eq_true, if_false]
  have hmine := hs.mine_none board hoff
  by_cases hg : s.Grants board param.fpid o
  · obtain ⟨hret, hframe, hfor, hnmine, hat⟩ := LedSys.setupGpt_ok board hs.shape.timers hg
    have hgpt : s.configGpt board param o =
        ({ (s.setupGpt board 2 param.fpid o).1 with led.gptOn := true }, 0) := by
      rw [heq]
      dsimp only
      rw [if_neg (not_not.mpr hret)]
    have hstep : LedGptStep s { (s.setupGpt board 2 param.fpid o).1 with led.gptOn := true } := by
      refine ⟨⟨true, ?_⟩, hframe.gpio, hframe.reqFreq, hframe.inv⟩
      simp only [hframe.led]
    obtain ⟨b, hb, hblive, hbrun, -⟩ := id hat
    cases Option.some.inj (hnmine.symm.trans hb)
    obtain ⟨⟨href, -⟩, hfinal⟩ | ⟨hnot, hno⟩ := danubeLedConfig_armed board hs hvalid hsetup hgpt
      hstep rfl hnmine (ledAlloc_shape _) hblive hbrun (hfor.trans hs.agree.own)
    · exact .inl ⟨LedConfigOk.of_arm board hsetup hoff (fun _ => href), hfinal⟩
    · refine .inr ⟨?_, hno⟩
      intro hok
      exact hnot ⟨hok.arm hsetup hoff hg, fun _ => hat⟩
  · obtain ⟨hret, hframe, hfor, hsame⟩ := LedSys.setupGpt_fails board hs.shape.timers
      (fun b hb => by
        rw [hmine] at hb
        cases hb) (o := o) hg
    have hfinal : (danubeLedConfig board s (some param) o).1 =
        (s.setupGpt board 2 param.fpid o).1 := by
      simp only [danubeLedConfig, hvalid, Bool.not_true, Bool.false_eq_true, if_false, heq,
        if_pos hret]
    have hnmine : (s.setupGpt board 2 param.fpid o).1.mine = none := by
      obtain hsame | ⟨-, hnone⟩ := hsame
      · rw [hsame]
        exact hmine
      · exact hnone
    refine .inl ⟨LedConfigOk.of_arm board hsetup hoff (fun hgrant => absurd hgrant hg), ?_⟩
    rw [hfinal]
    refine LedInv.of_none board hframe.inv hnmine ?_ (hfor.trans hs.agree.own) ?_ ?_ ?_
    · rw [hframe.led]
      exact hoff
    · unfold LedSys.PinsAgree
      rw [hframe.gpio, hframe.led]
      exact hs.agree.pins
    · rw [hframe.led]
      exact hs.shape.dark
    · rw [hframe.led]
      exact hs.not_selected board hoff

theorem danubeLedConfig_disarm (hs : LedInv board s) (hvalid : param.valid = true)
    (hsetup : ¬(param.setupGpt2 = true ∧ s.led.newAdslOn param = 0)) (hon : s.led.gptOn = true) :
    LedConfigOk board s param o ∧ LedInv board (danubeLedConfig board s (some param) o).1 ∨
      ¬LedConfigOk board s param o ∧
        ¬LedAgree board (danubeLedConfig board s (some param) o).1 := by
  have heq : s.configGpt board param o = (s.dropGpt board o, 0) := by
    have hc : ¬(param.setupGpt2 && s.led.newAdslOn param == 0) = true := by
      simpa using hsetup
    simp only [LedSys.configGpt, if_neg hc, hon, if_true]
    rfl
  obtain ⟨hus, -⟩ := hs.shape.selected hon
  obtain ⟨a, hmine, hlive, hrun⟩ := hs.agree.gpt.mp hon
  obtain ⟨hstep, hoff⟩ := LedSys.dropGpt_step board hs.shape.timers o
  obtain rfl | rfl := (hs.shape.mine a hmine).1
  · right
    refine ⟨?_, danubeLedConfig_lost board hs hvalid (heq ▸ hstep) ?_⟩
    · intro hok
      cases Option.some.inj (hmine.symm.trans (hok.disarm hsetup hon))
    · rw [heq]
      exact LedSys.dropGpt_lost board hs.shape.timers (.inr ⟨hmine, hlive, hrun⟩) o
  · obtain ⟨hdmine, hdown, -, -⟩ := LedSys.dropGpt_pair board hs.shape.timers hmine hlive o
    obtain ⟨⟨href, hclocked⟩, hfinal⟩ | ⟨hnot, hno⟩ := danubeLedConfig_unarmed board hs hvalid
      hsetup heq hstep hoff hdmine (hdown.trans hs.agree.own)
    · exact .inl ⟨LedConfigOk.of_else board hsetup (fun _ => hmine)
        (fun hc => absurd hus (href hc).1) hclocked, hfinal⟩
    · refine .inr ⟨?_, hno⟩
      intro hok
      exact hnot ⟨fun hc => absurd hus (hok.refused hsetup hc).1, hok.clocked hsetup⟩

theorem danubeLedConfig_idle (hs : LedInv board s) (hvalid : param.valid = true)
    (hsetup : ¬(param.setupGpt2 = true ∧ s.led.newAdslOn param = 0)) (hoff : s.led.gptOn = false) :
    LedConfigOk board s param o ∧ LedInv board (danubeLedConfig board s (some param) o).1 ∨
      ¬LedConfigOk board s param o ∧
        ¬LedAgree board (danubeLedConfig board s (some param) o).1 := by
  have heq : s.configGpt board param o = (s, 0) := by
    have hc : ¬(param.setupGpt2 && s.led.newAdslOn param == 0) = true := by
      simpa using hsetup
    simp only [LedSys.configGpt, if_neg hc, hoff, Bool.false_eq_true, if_false]
  obtain ⟨⟨href, hclocked⟩, hfinal⟩ | ⟨hnot, hno⟩ := danubeLedConfig_unarmed board hs hvalid
    hsetup heq (LedGptStep.refl hs.shape.timers) hoff (hs.mine_none board hoff) hs.agree.own
  · exact .inl ⟨LedConfigOk.of_else board hsetup
      (fun hon => absurd (hoff.symm.trans hon) Bool.false_ne_true) href hclocked, hfinal⟩
  · refine .inr ⟨?_, hno⟩
    intro hok
    exact hnot ⟨hok.refused hsetup, hok.clocked hsetup⟩

theorem danubeLedConfig_exact (hs : LedInv board s) (hvalid : param.valid = true) :
    LedConfigOk board s param o ∧ LedInv board (danubeLedConfig board s (some param) o).1 ∨
      ¬LedConfigOk board s param o ∧
        ¬LedAgree board (danubeLedConfig board s (some param) o).1 := by
  by_cases hsetup : param.setupGpt2 = true ∧ s.led.newAdslOn param = 0
  · cases hon : s.led.gptOn with
    | false => exact danubeLedConfig_arm board hs hvalid hsetup hon
    | true =>
      by_cases hfreq : s.led.gptFreq = param.fpid
      · exact danubeLedConfig_same board hs hvalid hsetup hon hfreq
      · exact danubeLedConfig_rearm board hs hvalid hsetup hon hfreq
  · cases hon : s.led.gptOn with
    | false => exact danubeLedConfig_idle board hs hvalid hsetup hon
    | true => exact danubeLedConfig_disarm board hs hvalid hsetup hon

end Config

end Steps

end DanubeBsp
