import DanubeBsp.LedConfig

namespace DanubeBsp

theorem LedInv.timer (board : LedBoard) {s : LedSys} (hs : LedInv board s) {c : GptuCall}
    (hc : s.mine.any (c.touches ·) = false) : LedInv board (s.timerCall board c).1 := by
  have hframe := s.timerCall_frame board hs.shape.timers c
  have hkept : ∀ a, s.mine = some a →
      TimerKept s.gptu (s.gptu.call board.findTaskByPid c).1 a := by
    intro a ha
    rw [ha] at hc
    exact hs.shape.timers.call_kept (hs.shape.mine a ha).2.1 _ hc
  cases hon : s.led.gptOn with
  | false =>
    exact LedInv.of_none board hframe.inv (hs.mine_none board hon) hon hs.agree.own hs.agree.pins
      hs.shape.dark (hs.not_selected board hon)
  | true =>
    obtain ⟨hus, hadsl⟩ := hs.shape.selected hon
    obtain ⟨a, hmine, hlive, hrun, hreload⟩ := hs.agree.clock hus hadsl
    have hk := hkept a hmine
    exact LedInv.of_held board hframe.inv hmine (hs.shape.mine a hmine).1 hon
      ⟨a, hmine, hk.live, hk.running hrun, hk.reload.trans hreload⟩ hs.agree.own hs.agree.pins
      hs.shape.dark ⟨hus, hadsl⟩

theorem LedInv.pin {board : LedBoard} {s : LedSys} (hs : LedInv board s) {c : GpioCall}
    (hc : c.caller ≠ board.moduleId) : LedInv board { s with gpio := (c.exec s.gpio).1 } := by
  have howned := GpioCall.exec_owned board.moduleId_ne_zero hc s.gpio
  refine ⟨⟨hs.shape.timers, hs.shape.mine, hs.shape.dark, hs.shape.selected⟩,
    ⟨hs.agree.gpt, hs.agree.own, ?_, hs.agree.clock⟩⟩
  intro e
  exact (howned e).trans (hs.agree.pins e)

theorem ledStart_inv (board : LedBoard) (cfg : Fin 8) (behindBases : Nat) (regs : Nat → Word) :
    LedInv board (ledStart cfg behindBases regs) := by
  have hm := board.moduleId_ne_zero
  refine LedInv.of_none board (gptuInit_inv cfg) rfl rfl rfl ?_ (fun _ => rfl) ?_
  · intro e
    refine iff_of_false hm.symm ?_
    rintro ⟨hon, -⟩
    exact absurd hon Bool.false_ne_true
  · intro hus
    have hzero : (0 : Word) >>> 30 ≠ 1 := by decide
    exact absurd hus hzero

theorem ledStep_exact {board : LedBoard} {s t : LedSys} {e : LedEvent} (hs : LedInv board s)
    (h : ledStep board s e = some t) :
    LedOk board s e ∧ LedInv board t ∨ ¬LedOk board s e ∧ ¬LedAgree board t := by
  cases e with
  | config param o =>
    cases Option.some.inj h
    cases param with
    | none => exact .inl ⟨trivial, hs⟩
    | some param =>
      cases hvalid : param.valid with
      | false =>
        have hsame : (danubeLedConfig board s (some param) o).1 = s := by
          simp only [danubeLedConfig, hvalid, Bool.not_false, if_true]
        rw [hsame]
        exact .inl ⟨fun hv => absurd (hvalid.symm.trans hv) Bool.false_ne_true, hs⟩
      | true =>
        obtain ⟨hok, hinv⟩ | ⟨hnot, hno⟩ := danubeLedConfig_exact board hs hvalid (o := o)
        · exact .inl ⟨fun _ => hok, hinv⟩
        · exact .inr ⟨fun hok => hnot (hok hvalid), hno⟩
  | timer c =>
    obtain ⟨hc, ⟨⟩⟩ := Option.ite_none_left_eq_some.mp h
    exact .inl ⟨trivial, hs.timer board (Bool.eq_false_of_not_eq_true hc)⟩
  | pin c =>
    obtain ⟨hc, ⟨⟩⟩ := Option.ite_none_left_eq_some.mp h
    exact .inl ⟨trivial, hs.pin hc⟩

/-- The flags of the driver agree with what it holds in all states of a run exactly when all calls meet
the condition. -/
theorem led_flags_agree_iff (board : LedBoard) (cfg : Fin 8) (behindBases : Nat)
    (regs : Nat → Word) (es : List LedEvent) :
    RunMeets (ledStep board) (LedOk board) (ledStart cfg behindBases regs) es ↔
      ∀ pre t, pre <+: es → run (ledStep board) (ledStart cfg behindBases regs) pre = some t →
        LedAgree board t := by
  refine runMeets_iff_states (fun {s} (h : LedInv board s) => h.agree) ?_ ?_ ?_
    (ledStart_inv board cfg behindBases regs) es
  · intro s t e hs hok h
    obtain ⟨-, hinv⟩ | ⟨hnot, -⟩ := ledStep_exact hs h
    · exact hinv
    · exact absurd hok hnot
  · intro s t e hs h hgood
    obtain ⟨hok, -⟩ | ⟨-, hno⟩ := ledStep_exact hs h
    · exact hok
    · exact absurd hgood hno
  · intro s e _ h
    cases e with
    | config param o => cases h
    | timer c => trivial
    | pin c => trivial

/-- A bus clock of 100 MHz, and the major number 10 with the minor number 151. -/
def ledSampleBoard : LedBoard := ⟨100000000#32, id, 2711, by decide, by decide⟩

/-- The update clock is the timer at 10 kHz, then the store mode is set: the driver has stopped knowing
timer 2B, which it holds and which goes on. -/
theorem led_store_mode_loses_timer :
    ∃ t, run (ledStep ledSampleBoard) (ledStart 3 0 fun _ => 0)
        [.config (some { operationMask := 0x0004, updateClock := 1, fpid := 10000000 }) {},
          .config (some { operationMask := 0x0008, storeMode := 1 }) {}] = some t ∧
      (t.led.gptOn = false ∧ t.mine = some ⟨5, false⟩ ∧ t.led.us = 1) ∧
      ¬LedAgree ledSampleBoard t := by
  refine ⟨_, rfl, ⟨by decide +kernel, by decide +kernel, by decide +kernel⟩, ?_⟩
  apply LedLost.not_agree
  right
  refine ⟨by decide +kernel, by decide +kernel, by decide +kernel, ?_⟩
  unfold TimerDev.Running
  decide +kernel

/-- What the driver has of the timers: a flag that is set goes with a timer, one that is not does not go
with the pair. -/
structure LedHolding (s : LedSys) : Prop where
  mine : ∀ a, s.mine = some a → (a = ⟨5, false⟩ ∨ a = ⟨4, true⟩) ∧ a ∈ s.gptu.live
  held : s.led.gptOn = true → s.mine ≠ none
  narrow : s.led.gptOn = false → s.mine ≠ some ⟨4, true⟩

/-- What holds in every run, also behind calls that have lost a timer or released a foreign one. -/
structure LedReach (board : LedBoard) (s : LedSys) : Prop where
  timers : GptuInv s.gptu
  holding : LedHolding s
  pins : s.PinsAgree board
  dark : s.led.fLedOn = false → s.led.adslOn = 0
  powered : s.led.powered = s.led.fLedOn

section Reach

variable (board : LedBoard) {s t : LedSys}

theorem LedHolding.of_same (h : LedHolding s) (hgptu : t.gptu = s.gptu) (hmine : t.mine = s.mine)
    (hon : t.led.gptOn = s.led.gptOn) : LedHolding t := by
  refine ⟨?_, ?_, ?_⟩
  · rw [hmine, hgptu]
    exact h.mine
  · rw [hmine, hon]
    exact h.held
  · rw [hmine, hon]
    exact h.narrow

theorem LedSys.dropGpt_led (s : LedSys) (o : LedServices) :
    (s.dropGpt board o).led = { s.led with gptOn := false } ∧
      (s.dropGpt board o).gpio = s.gpio := by
  unfold LedSys.dropGpt LedSys.releaseGpt LedSys.freeTimer
  dsimp only
  split_ifs
  · exact ⟨rfl, rfl⟩
  · exact ⟨rfl, rfl⟩
  · exact ⟨rfl, rfl⟩

/-- `release_gpt` gives the pair back, and leaves timer 2B with the driver. -/
theorem LedHolding.dropGpt (h : LedHolding s) (hinv : GptuInv s.gptu) (o : LedServices) :
    LedHolding (s.dropGpt board o) ∧
      (s.dropGpt board o).mine = if s.mine = some ⟨4, true⟩ then none else s.mine := by
  obtain ⟨_, hoff⟩ := LedSys.dropGpt_step board hinv o
  have hnone : (s.dropGpt board o).mine = none → LedHolding (s.dropGpt board o) := by
    intro hmine
    refine ⟨?_, fun hon => absurd (hoff.symm.trans hon) Bool.false_ne_true, ?_⟩
    · intro a ha
      rw [hmine] at ha
      cases ha
    · intro _ ha
      rw [hmine] at ha
      cases ha
  cases hm : s.mine with
  | none =>
    have hmine : (s.dropGpt board o).mine = none := by
      by_cases hex : ∃ a ∈ s.gptu.live, a.covers 4 = true
      · obtain ⟨a, ha, hc⟩ := hex
        obtain ⟨-, hmine, -⟩ := LedSys.releaseGpt_live board hinv ha hc o
        rw [hm] at hmine
        exact hmine
      · obtain ⟨hyes, -⟩ | ⟨-, heq⟩ := LedSys.dropGpt_other board hinv (by rw [hm]; rfl) o
        · exact absurd hyes hex
        · rw [heq]
          exact hm
    exact ⟨hnone hmine, hmine.trans (if_neg (Option.some_ne_none _).symm).symm⟩
  | some a =>
    obtain ⟨hshape, hlive⟩ := h.mine a hm
    rcases hshape with rfl | rfl
    · obtain ⟨hmine, hlive'⟩ := LedSys.dropGpt_narrow board hinv hm hlive o
      refine ⟨⟨?_, fun hon => absurd (hoff.symm.trans hon) Bool.false_ne_true, ?_⟩, ?_⟩
      · intro b hb
        cases Option.some.inj (hmine.symm.trans hb)
        exact ⟨Or.inl rfl, hlive'⟩
      · intro _ hb
        cases Option.some.inj (hmine.symm.trans hb)
      · exact hmine.trans (if_neg (by decide)).symm
    · obtain ⟨hmine, -⟩ := LedSys.dropGpt_pair board hinv hm hlive o
      exact ⟨hnone hmine, hmine.trans (if_pos rfl).symm⟩

theorem LedReach.of_gptStep (hs : LedReach board s) (h : LedGptStep s t) (hold : LedHolding t) :
    LedReach board t := by
  obtain ⟨on, hled⟩ := h.led
  refine ⟨h.inv, hold, h.pinsAgree board hs.pins, h.dark hs.dark, ?_⟩
  rw [hled]
  exact hs.powered

/-- The call wants the timer for the update clock. -/
def LedSys.WantsGpt (s : LedSys) (param : LedConfigParam) : Prop :=
  param.setupGpt2 = true ∧ s.led.newAdslOn param = 0

/-- "Setup GPT" can do what the call wants. Timer 2B that the driver has already is in its own way. -/
def LedSys.GptGranted (s : LedSys) (param : LedConfigParam) (o : LedServices) : Prop :=
  s.WantsGpt param →
    (s.led.gptOn = true → s.led.gptFreq ≠ param.fpid → s.mine = some ⟨4, true⟩ ∧
      o.refuseSetTimer = false ∧ o.refuseStartTimer = false ∧
      calDivider board.fpiBusClock param.fpid ≠ 0) ∧
    (s.led.gptOn = false → s.Grants board param.fpid o)

section Gpt

variable {param : LedConfigParam} {o : LedServices}

theorem LedSys.configGpt_wanted (h : s.WantsGpt param) :
    s.configGpt board param o =
      if s.led.gptOn = true ∧ s.led.gptFreq = param.fpid then
        ({ s with led.gptOn := true }, 0)
      else
        let r := LedSys.setupGpt board (if s.led.gptOn then s.dropGpt board o else s) 2 param.fpid o
        if r.2 ≠ 0 then r else ({ r.1 with led.gptOn := true }, 0) := by
  have hc : (param.setupGpt2 && s.led.newAdslOn param == 0) = true := by
    rw [h.1, h.2]
    rfl
  unfold LedSys.configGpt
  rw [if_pos hc]
  cases hon : s.led.gptOn with
  | false =>
    simp only [Bool.false_eq_true, if_false, false_and]
  | true =>
    by_cases hfreq : s.led.gptFreq = param.fpid
    · simp only [if_true, hfreq, ne_eq, not_true_eq_false, if_false, and_self]
    · simp only [if_true, hfreq, ne_eq, not_false_eq_true, and_false, if_false]
      rfl

theorem LedSys.configGpt_unwanted (h : ¬s.WantsGpt param) :
    s.configGpt board param o = (if s.led.gptOn then s.dropGpt board o else s, 0) := by
  have hc : ¬(param.setupGpt2 && s.led.newAdslOn param == 0) = true := by
    intro hc
    exact h (by simpa [LedSys.WantsGpt] using hc)
  unfold LedSys.configGpt
  rw [if_neg hc]
  cases hon : s.led.gptOn with
  | false => rfl
  | true => rfl

/-- A request without the flag set: it is granted and the flag follows, or it changes nothing that the
driver has. -/
theorem LedReach.request (hs : LedReach board s) (hoff : s.led.gptOn = false) (freq : Word) :
    (s.Grants board freq o ∧ s.mine = none ∧ (s.setupGpt board 2 freq o).2 = 0 ∧
        LedGptStep s { (s.setupGpt board 2 freq o).1 with led.gptOn := true } ∧
        LedHolding { (s.setupGpt board 2 freq o).1 with led.gptOn := true } ∧
        (s.setupGpt board 2 freq o).1.mine = some (ledAlloc (calDivider board.fpiBusClock freq))) ∨
      ¬s.Grants board freq o ∧ (s.setupGpt board 2 freq o).2 ≠ 0 ∧
        LedGptStep s (s.setupGpt board 2 freq o).1 ∧ LedHolding (s.setupGpt board 2 freq o).1 ∧
        (s.setupGpt board 2 freq o).1.led = s.led ∧
        ((s.setupGpt board 2 freq o).1 = s ∨
          s.mine = none ∧ (s.setupGpt board 2 freq o).1.mine = none) := by
  have hcover : ∀ a, s.mine = some a → a ∈ s.gptu.live ∧ a.covers 5 = true := by
    intro a ha
    obtain ⟨rfl | rfl, hlive⟩ := hs.holding.mine a ha
    · exact ⟨hlive, rfl⟩
    · exact ⟨hlive, rfl⟩
  by_cases hg : s.Grants board freq o
  · obtain ⟨hret, hframe, -, hmine, a, ha, hlive, -, -⟩ := LedSys.setupGpt_ok board hs.timers hg
    have hnone : s.mine = none := by
      cases hm : s.mine with
      | none => rfl
      | some b =>
        obtain ⟨hb, hc⟩ := hcover b hm
        exact absurd hg.2.2.2 (GptuSys.not_hasFree hb hc _)
    refine .inl ⟨hg, hnone, hret, ⟨⟨true, ?_⟩, hframe.gpio, hframe.reqFreq, hframe.inv⟩,
      ⟨?_, ?_, ?_⟩, hmine⟩
    · simp only [hframe.led]
    · intro b hb
      cases Option.some.inj (hmine.symm.trans hb)
      cases Option.some.inj (hmine.symm.trans ha)
      exact ⟨ledAlloc_shape _, hlive⟩
    · intro _ hm
      cases hmine.symm.trans hm
    · intro h
      cases h
  · obtain ⟨hret, hframe, -, hsame⟩ := LedSys.setupGpt_fails board hs.timers hcover hg
    refine .inr ⟨hg, hret, ⟨⟨s.led.gptOn, hframe.led⟩, hframe.gpio, hframe.reqFreq, hframe.inv⟩, ?_,
      hframe.led, hsame⟩
    obtain heq | ⟨-, hnone⟩ := hsame
    · rw [heq]
      exact hs.holding
    · refine ⟨?_, ?_, ?_⟩
      · intro a ha
        cases hnone.symm.trans ha
      · intro hon
        rw [hframe.led, hoff] at hon
        cases hon
      · intro _ ha
        cases hnone.symm.trans ha

/-- The driver behind `release_gpt(2); gpt_on = 0`. -/
theorem LedReach.dropGpt (hs : LedReach board s) (o : LedServices) :
    LedReach board (s.dropGpt board o) :=
  hs.of_gptStep board (LedSys.dropGpt_step board hs.timers o).1
    (hs.holding.dropGpt board hs.timers o).1

theorem LedGptStep.trans {u : LedSys} (h : LedGptStep s t) (h' : LedGptStep t u) :
    LedGptStep s u := by
  obtain ⟨on, hled⟩ := h.led
  obtain ⟨on', hled'⟩ := h'.led
  refine ⟨⟨on', ?_⟩, h'.gpio.trans h.gpio, h'.reqFreq.trans h.reqFreq, h'.inv⟩
  rw [hled', hled]

/-- What "Setup GPT" leaves, and when it fails. With the flag set a failure leaves it cleared. -/
theorem LedReach.configGpt (hs : LedReach board s) (param : LedConfigParam) (o : LedServices) :
    LedGptStep s (s.configGpt board param o).1 ∧ LedHolding (s.configGpt board param o).1 ∧
      ((s.configGpt board param o).2 = 0 ↔ s.GptGranted board param o) ∧
      (s.led.gptOn = true → (s.configGpt board param o).2 ≠ 0 →
        (s.configGpt board param o).1.led.gptOn = false) := by
  by_cases hwant : s.WantsGpt param
  · rw [LedSys.configGpt_wanted board hwant]
    cases hon : s.led.gptOn with
    | false =>
      simp only [Bool.false_eq_true, false_and, if_false, false_implies, and_true]
      obtain ⟨hg, -, hret, hstep, hold, -⟩ | ⟨hg, hret, hstep, hold, -, -⟩ :=
        hs.request board hon param.fpid (o := o)
      · simp only [hret, ne_eq, not_true_eq_false, if_false, true_iff]
        refine ⟨hstep, hold, fun _ => ⟨fun h => ?_, fun _ => hg⟩⟩
        cases hon.symm.trans h
      · simp only [ne_eq, hret, not_false_eq_true, if_true, false_iff]
        exact ⟨hstep, hold, fun h => hg ((h hwant).2 hon)⟩
    | true =>
      by_cases hfreq : s.led.gptFreq = param.fpid
      · rw [if_pos ⟨rfl, hfreq⟩]
        simp only [ne_eq, not_true_eq_false, false_implies, implies_true, and_true, true_iff]
        refine ⟨⟨⟨true, rfl⟩, rfl, rfl, hs.timers⟩, hs.holding.of_same rfl rfl hon.symm, fun _ =>
          ⟨fun _ h => absurd hfreq h, fun h => ?_⟩⟩
        cases hon.symm.trans h
      · have hd := hs.dropGpt board o
        obtain ⟨hdstep, hdoff⟩ := LedSys.dropGpt_step board hs.timers o
        obtain ⟨-, hdmine⟩ := hs.holding.dropGpt board hs.timers o
        simp only [hfreq, and_false, if_false, if_true, true_implies]
        obtain ⟨hg, hnone, hret, hstep, hold, -⟩ | ⟨hg, hret, hstep, hold, hled, -⟩ :=
          hd.request board hdoff param.fpid (o := o)
        · have hpair : s.mine = some ⟨4, true⟩ := by
            by_contra hno
            rw [if_neg hno] at hdmine
            exact hs.holding.held hon (hdmine.symm.trans hnone)
          simp only [hret, ne_eq, not_true_eq_false, if_false, false_implies, and_true, true_iff]
          refine ⟨hdstep.trans hstep, hold, fun _ => ⟨fun _ _ => ⟨hpair, hg.1, hg.2.1, hg.2.2.1⟩,
            fun h => ?_⟩⟩
          cases hon.symm.trans h
        · simp only [ne_eq, hret, not_false_eq_true, if_true, true_implies, false_iff]
          refine ⟨hdstep.trans hstep, hold, ?_, ?_⟩
          · intro h
            obtain ⟨hpair, hset, hstart, hdiv⟩ := (h hwant).1 hon hfreq
            obtain ⟨-, hlive⟩ := hs.holding.mine _ hpair
            obtain ⟨-, -, hl, hn⟩ := LedSys.dropGpt_pair board hs.timers hpair hlive o
            exact hg ⟨hset, hstart, hdiv, hs.timers.hasFree_of_pair hlive hl hn _⟩
          · rw [hled]
            exact hdoff
  · rw [LedSys.configGpt_unwanted board hwant]
    have hgrant : s.GptGranted board param o := fun h => absurd h hwant
    cases hon : s.led.gptOn with
    | false =>
      simp only [Bool.false_eq_true, if_false, false_implies, and_true, true_iff]
      exact ⟨LedGptStep.refl hs.timers, hs.holding, hgrant⟩
    | true =>
      simp only [if_true, ne_eq, not_true_eq_false, false_implies, implies_true, and_true, true_iff]
      exact ⟨(LedSys.dropGpt_step board hs.timers o).1,
        (hs.holding.dropGpt board hs.timers o).1, hgrant⟩

end Gpt

/-- The variables of a driver that is off. -/
def LedDev.turnedOff (d : LedDev) : LedDev :=
  { d with fLedOn := false, adslOn := 0, powered := false }

theorem LedDev.eq_turnedOff {d : LedDev} (hoff : d.fLedOn = false) (hadsl : d.adslOn = 0)
    (hpowered : d.powered = false) : d = d.turnedOff := by
  obtain ⟨con0, con1, cpu0, ar, gptOn, gptFreq, adslOn, fLedOn, powered⟩ := d
  cases hoff
  cases hadsl
  cases hpowered
  rfl

theorem LedSys.setupGpioPort_led (adsl : Word) (o : LedServices) :
    (s.setupGpioPort board adsl o).1.led = s.led := by
  obtain ⟨hstate, -⟩ := LedSys.reservePins_spec board (s := s) adsl o
  unfold LedSys.setupGpioPort
  dsimp only
  split
  · rw [LedSys.releaseGpioPort_eq, hstate]
    rfl
  · obtain ⟨g, heq, -⟩ := LedSys.setupPins_same board
      (s := (s.reservePins board (ledPins adsl) o).1) (ledPins adsl)
    rw [heq, hstate]
    rfl

/-- "Turn on LED" fails with the driver off, or keeps the gate with the flag. -/
theorem LedSys.configPins_led (hdark : s.led.fLedOn = false → s.led.adslOn = 0)
    (hpowered : s.led.powered = s.led.fLedOn) (newLedOn : Bool) (newAdslOn : Word)
    (o : LedServices) :
    (s.configPins board newLedOn newAdslOn o).2 ≠ 0 ∧
        (s.configPins board newLedOn newAdslOn o).1.led = s.led.turnedOff ∨
      (s.configPins board newLedOn newAdslOn o).2 = 0 ∧
        (s.configPins board newLedOn newAdslOn o).1.led.powered =
          (s.configPins board newLedOn newAdslOn o).1.led.fLedOn := by
  obtain ⟨u, hu, hled⟩ : ∃ u : LedSys,
      (if !newLedOn || s.led.adslOn != newAdslOn then
        { s.turnOffLed board s.led.adslOn with led.fLedOn := false, led.adslOn := 0 } else s) = u ∧
      (u.led = s.led.turnedOff ∨ u.led = s.led) := by
    refine ⟨_, rfl, ?_⟩
    split
    · left
      have heq := congrArg LedSys.led (LedSys.turnedOff_eq board (s := s))
      exact heq
    · exact Or.inr rfl
  have hoff : u.led.fLedOn = false → u.led = s.led.turnedOff := by
    intro hfalse
    rcases hled with h | h
    · exact h
    · rw [h] at hfalse ⊢
      exact LedDev.eq_turnedOff hfalse (hdark hfalse) (hpowered.trans hfalse)
  have hgate : u.led.powered = u.led.fLedOn := by
    rcases hled with h | h
    · rw [h]
      rfl
    · rw [h]
      exact hpowered
  unfold LedSys.configPins
  simp only [hu]
  by_cases hturn : (!u.led.fLedOn && newLedOn) = true
  · have hfalse : u.led.fLedOn = false := by
      cases hf : u.led.fLedOn with
      | false => rfl
      | true => simp [hf] at hturn
    have hsetup := LedSys.setupGpioPort_led board (s := u) newAdslOn o
    rw [if_pos hturn]
    by_cases hret : (u.setupGpioPort board newAdslOn o).2 = 0
    · right
      simp [LedSys.turnOnLed, hret]
    · left
      simp only [LedSys.turnOnLed, ne_eq, hret, not_false_eq_true, if_true, true_and]
      exact hsetup.trans (hoff hfalse)
  · rw [if_neg hturn]
    exact Or.inr ⟨rfl, hgate⟩

theorem LedReach.config (hs : LedReach board s) (param : Option LedConfigParam)
    (o : LedServices) : LedReach board (danubeLedConfig board s param o).1 := by
  cases param with
  | none => exact hs
  | some param =>
    cases hvalid : param.valid with
    | false =>
      simp only [danubeLedConfig, hvalid, Bool.not_false, if_true]
      exact hs
    | true =>
      obtain ⟨hstep, hold, -, -⟩ := hs.configGpt board param o
      have hr := hs.of_gptStep board hstep hold
      have hled := LedSys.configPins_led board hr.dark hr.powered (s.led.newLedOn param)
        (s.led.newAdslOn param) o
      obtain ⟨-, heq⟩ | ⟨-, ⟨t, ret, -, hret, hpins, hpin, heq⟩ | ⟨t, -, hpins, hpin, heq⟩⟩ :=
        danubeLedConfig_result board hs.pins hs.dark hvalid hstep
      · rw [heq]
        exact hr
      · rw [hpins] at hled
        have ht : LedReach board t := by
          refine ⟨?_, hr.holding.of_same hpin.gptu hpin.mine hpin.gptOn, hpin.pins,
            fun _ => hpin.adslOn, ?_⟩
          · rw [hpin.gptu]
            exact hr.timers
          · rcases hled with ⟨-, hoff⟩ | ⟨hzero, -⟩
            · rw [hoff]
              rfl
            · exact absurd hzero hret
        rw [heq]
        exact ht.dropGpt board o
      · rw [hpins] at hled
        have hgate : t.led.powered = t.led.fLedOn := by
          rcases hled with ⟨hne, -⟩ | ⟨-, hgate⟩
          · exact absurd rfl hne
          · exact hgate
        rw [heq]
        refine ⟨?_, hr.holding.of_same hpin.gptu hpin.mine hpin.gptOn, hpin.pins, ?_, ?_⟩
        · show GptuInv t.gptu
          rw [hpin.gptu]
          exact hr.timers
        · intro hoff
          exact hpin.adslOn.trans (LedDev.newAdslOn_of_dark (hpin.fLedOn.symm.trans hoff))
        · show (t.led.fLedOn && t.led.powered) = t.led.fLedOn
          rw [hgate, Bool.and_self]

theorem LedReach.step {e : LedEvent} (hs : LedReach board s) (h : ledStep board s e = some t) :
    LedReach board t := by
  cases e with
  | config param o =>
    cases Option.some.inj h
    exact hs.config board param o
  | timer c =>
    obtain ⟨hc, ⟨⟩⟩ := Option.ite_none_left_eq_some.mp h
    have hframe := s.timerCall_frame board hs.timers c
    refine ⟨hframe.inv, ⟨?_, hs.holding.held, hs.holding.narrow⟩, hs.pins, hs.dark, hs.powered⟩
    intro a ha
    have hmine : s.mine = some a := ha
    obtain ⟨hshape, hlive⟩ := hs.holding.mine a hmine
    rw [hmine] at hc
    exact ⟨hshape, (hs.timers.call_kept hlive _ (Bool.eq_false_of_not_eq_true hc)).live⟩
  | pin c =>
    obtain ⟨hc, ⟨⟩⟩ := Option.ite_none_left_eq_some.mp h
    have howned := GpioCall.exec_owned board.moduleId_ne_zero hc s.gpio
    refine ⟨hs.timers, hs.holding.of_same rfl rfl rfl, ?_, hs.dark, hs.powered⟩
    intro e
    exact (howned e).trans (hs.pins e)

theorem ledStart_reach (cfg : Fin 8) (behindBases : Nat) (regs : Nat → Word) :
    LedReach board (ledStart cfg behindBases regs) := by
  have hm := board.moduleId_ne_zero
  refine ⟨gptuInit_inv cfg, ⟨?_, ?_, ?_⟩, ?_, fun _ => rfl, rfl⟩
  · intro a ha
    cases ha
  · intro hon
    cases hon
  · intro _ ha
    cases ha
  · intro e
    refine iff_of_false hm.symm ?_
    intro hon
    exact absurd hon.1 Bool.false_ne_true

theorem ledRun_reach {cfg : Fin 8} {behindBases : Nat} {regs : Nat → Word} {es : List LedEvent}
    (h : run (ledStep board) (ledStart cfg behindBases regs) es = some s) : LedReach board s :=
  run_invariant (fun hs hstep => LedReach.step board hs hstep)
    (ledStart_reach board cfg behindBases regs) h

end Reach

end DanubeBsp
