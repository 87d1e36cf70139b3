import DanubeBsp.LedRuns

namespace DanubeBsp

/-- The timer that the driver holds, with the run and the reload register. -/
def LedSys.heldTimer (s : LedSys) : Option (TimerAlloc × Word × Word) :=
  s.mine.map fun a =>
    (a, s.gptu.dev.runReg (timerReg a.base), s.gptu.dev.reload (timerReg a.base))

/-- The registers, the static variables and the gate are the same, and so are the pins and the timer of
the driver. -/
structure LedUnchanged (board : LedBoard) (s t : LedSys) : Prop where
  led : t.led = s.led
  pins : ∀ e, t.gpio.usage e = board.moduleId ↔ s.gpio.usage e = board.moduleId
  timer : t.heldTimer = s.heldTimer

/-- The condition for a call with valid parameters. With the timer on it must not fail at all; else the
pins may be refused to a driver that is off and asks for no timer or for the pair. -/
structure LedCallClean (board : LedBoard) (s : LedSys) (param : LedConfigParam) (o : LedServices) :
    Prop where
  on : s.led.gptOn = true → s.GptGranted board param o ∧
    ¬s.PinsRefused board (s.led.newLedOn param) (s.led.newAdslOn param) o
  off : s.led.gptOn = false → s.GptGranted board param o →
    s.PinsRefused board (s.led.newLedOn param) (s.led.newAdslOn param) o →
    s.led.fLedOn = false ∧
      (s.WantsGpt param → ledAlloc (calDivider board.fpiBusClock param.fpid) = ⟨4, true⟩)

def LedFailsClean (board : LedBoard) (s : LedSys) (param : Option LedConfigParam)
    (o : LedServices) : Prop :=
  match param with
  | none => True
  | some param => param.valid = true → LedCallClean board s param o

section Failure

variable (board : LedBoard) {s t : LedSys}

theorem LedUnchanged.refl (s : LedSys) : LedUnchanged board s s := ⟨rfl, fun _ => Iff.rfl, rfl⟩

theorem LedSys.releaseGpt_gptu (s : LedSys) (o : LedServices) :
    (s.releaseGpt board 2 o).gptu =
      ((s.gptu.call board.findTaskByPid (.stop 4)).1.call board.findTaskByPid
        (.free 4 o.timerEnabled)).1 := by
  unfold LedSys.releaseGpt LedSys.freeTimer
  dsimp only
  split_ifs
  · rfl
  · rfl
  · rfl

/-- `release_gpt` does not touch timer 2B. -/
theorem LedReach.heldTimer_dropGpt (hs : LedReach board s) (hno : s.mine ≠ some ⟨4, true⟩)
    (o : LedServices) : (s.dropGpt board o).heldTimer = s.heldTimer := by
  obtain ⟨-, hmine⟩ := hs.holding.dropGpt board hs.timers o
  rw [if_neg hno] at hmine
  unfold LedSys.heldTimer
  rw [hmine]
  cases hm : s.mine with
  | none => rfl
  | some a =>
    obtain ⟨rfl | rfl, hlive⟩ := hs.holding.mine a hm
    · have hstop := hs.timers.call_kept hlive board.findTaskByPid (c := .stop 4) rfl
      have hinv := GptuSys.call_inv hs.timers board.findTaskByPid (.stop 4)
      have hfree := hinv.call_kept hstop.live board.findTaskByPid
        (c := .free 4 o.timerEnabled) rfl
      have hgptu : (s.dropGpt board o).gptu = _ := LedSys.releaseGpt_gptu board s o
      simp only [Option.map_some, hgptu, hfree.runReg, hfree.reload, hstop.runReg, hstop.reload]
    · exact absurd hm hno

section Call

variable {param : LedConfigParam} {o : LedServices}

/-- With the timer on, a call that fails has cleared `gpt_on`. -/
theorem LedReach.failed_on (hs : LedReach board s) (hvalid : param.valid = true)
    (hon : s.led.gptOn = true) :
    ((danubeLedConfig board s (some param) o).2 ≠ 0 →
        LedUnchanged board s (danubeLedConfig board s (some param) o).1) ↔
      LedCallClean board s param o := by
  obtain ⟨hstep, -, hgranted, hcleared⟩ := hs.configGpt board param o
  have hclean : LedCallClean board s param o ↔ s.GptGranted board param o ∧
      ¬s.PinsRefused board (s.led.newLedOn param) (s.led.newAdslOn param) o := by
    refine ⟨fun h => h.on hon, fun h => ⟨fun _ => h, fun hoff => ?_⟩⟩
    cases hon.symm.trans hoff
  rw [hclean]
  obtain ⟨hret, heq⟩ | ⟨hret, ⟨t, ret, href, hne, -, hpin, heq⟩ | ⟨t, hok, -, -, heq⟩⟩ :=
    danubeLedConfig_result board hs.pins hs.dark hvalid hstep
  · refine iff_of_false ?_ (fun h => hret (hgranted.mpr h.1))
    intro h
    rw [heq] at h
    have hflag := congrArg LedDev.gptOn (h hret).led
    rw [hcleared hon hret, hon] at hflag
    cases hflag
  · refine iff_of_false ?_ (fun h => h.2 href)
    intro h
    have hinv : GptuInv t.gptu := by
      rw [hpin.gptu]
      exact hstep.inv
    rw [heq] at h
    have hflag := congrArg LedDev.gptOn (h hne).led
    rw [(LedSys.dropGpt_led board _ o).1, hon] at hflag
    cases hflag
  · rw [heq]
    exact iff_of_true (fun h => absurd rfl h) ⟨hgranted.mp hret, hok⟩

/-- What the timer part leaves for the exit with the pins refused. -/
theorem LedReach.granted_off (hs : LedReach board s) (hoff : s.led.gptOn = false)
    (hret : (s.configGpt board param o).2 = 0) :
    (s.WantsGpt param ∧ s.mine = none ∧ (s.configGpt board param o).1.mine =
        some (ledAlloc (calDivider board.fpiBusClock param.fpid))) ∨
      ¬s.WantsGpt param ∧ (s.configGpt board param o).1 = s := by
  by_cases hwant : s.WantsGpt param
  · left
    rw [LedSys.configGpt_wanted board hwant, hoff] at hret ⊢
    simp only [Bool.false_eq_true, false_and, if_false] at hret ⊢
    obtain ⟨-, hnone, hzero, -, -, hmine⟩ | ⟨-, hne, -, -, -, -⟩ :=
      hs.request board hoff param.fpid (o := o)
    · rw [if_neg (not_not.mpr hzero)]
      exact ⟨hwant, hnone, hmine⟩
    · rw [if_pos hne] at hret
      exact absurd hret hne
  · right
    rw [LedSys.configGpt_unwanted board hwant, hoff]
    exact ⟨hwant, rfl⟩

theorem LedReach.failed_off (hs : LedReach board s) (hvalid : param.valid = true)
    (hoff : s.led.gptOn = false) :
    ((danubeLedConfig board s (some param) o).2 ≠ 0 →
        LedUnchanged board s (danubeLedConfig board s (some param) o).1) ↔
      LedCallClean board s param o := by
  obtain ⟨hstep, hold, hgranted, -⟩ := hs.configGpt board param o
  have hr := hs.of_gptStep board hstep hold
  have hled := LedSys.configPins_led board hr.dark hr.powered (s.led.newLedOn param)
    (s.led.newAdslOn param) o
  have hclean : LedCallClean board s param o ↔ (s.GptGranted board param o →
      s.PinsRefused board (s.led.newLedOn param) (s.led.newAdslOn param) o →
      s.led.fLedOn = false ∧
        (s.WantsGpt param → ledAlloc (calDivider board.fpiBusClock param.fpid) = ⟨4, true⟩)) := by
    refine ⟨fun h => h.off hoff, fun h => ⟨fun hon => ?_, fun _ => h⟩⟩
    cases hoff.symm.trans hon
  rw [hclean]
  obtain ⟨hret, heq⟩ | ⟨hret, ⟨t, ret, href, hne, hpins, hpin, heq⟩ | ⟨t, hok, -, -, heq⟩⟩ :=
    danubeLedConfig_result board hs.pins hs.dark hvalid hstep
  · refine iff_of_true ?_ (fun hg => absurd (hgranted.mpr hg) hret)
    intro _
    have hwant : s.WantsGpt param := by
      by_contra hno
      exact hret (congrArg Prod.snd (LedSys.configGpt_unwanted board hno))
    have hgpt := LedSys.configGpt_wanted board (o := o) hwant
    rw [hoff] at hgpt
    simp only [Bool.false_eq_true, false_and, if_false] at hgpt
    obtain ⟨-, -, hzero, -, -, -⟩ | ⟨-, hne, hrstep, -, hrled, hsame⟩ :=
      hs.request board hoff param.fpid (o := o)
    · rw [if_neg (not_not.mpr hzero)] at hgpt
      exact absurd (congrArg Prod.snd hgpt) hret
    · rw [if_pos hne] at hgpt
      rw [heq, hgpt]
      refine ⟨hrled, ?_, ?_⟩
      · intro e
        rw [hrstep.gpio]
      · rcases hsame with hsame | ⟨hnone, hnone'⟩
        · rw [hsame]
        · unfold LedSys.heldTimer
          rw [hnone, hnone']
          rfl
  · rw [hpins] at hled
    rcases hled with ⟨-, hled⟩ | ⟨hzero, -⟩
    · have hinv : GptuInv t.gptu := by
        rw [hpin.gptu]
        exact hr.timers
      have ht : LedReach board t := by
        refine ⟨hinv, hr.holding.of_same hpin.gptu hpin.mine hpin.gptOn, hpin.pins,
          fun _ => hpin.adslOn, ?_⟩
        rw [hled]
        rfl
      obtain ⟨hdled, hdgpio⟩ := LedSys.dropGpt_led board _ o
      obtain ⟨-, hdmine⟩ := ht.holding.dropGpt board hinv o
      have hfinal : (t.dropGpt board o).led = s.led.turnedOff := by
        obtain ⟨on, hrled⟩ := hstep.led
        rw [hdled, hled, hrled]
        unfold LedDev.turnedOff
        rw [← hoff]
      rw [heq]
      constructor
      · intro h _ _
        have hun := h hne
        have hfl : s.led.fLedOn = false := by
          have hsame := congrArg LedDev.fLedOn (hfinal.symm.trans hun.led)
          exact hsame.symm
        refine ⟨hfl, ?_⟩
        intro hwant
        rcases hs.granted_off board hoff hret with ⟨-, hnone, hmine⟩ | ⟨hno, -⟩
        · by_contra hpair
          have htimer := hun.timer
          rw [hpin.mine, hmine, if_neg (fun h => hpair (Option.some.inj h))] at hdmine
          simp only [LedSys.heldTimer, hdmine, hnone, Option.map_some, Option.map_none] at htimer
          cases htimer
        · exact absurd hwant hno
      · intro h _
        obtain ⟨hfl, hpair⟩ := h (hgranted.mp hret) href
        refine ⟨hfinal.trans (LedDev.eq_turnedOff hfl (hs.dark hfl)
          (hs.powered.trans hfl)).symm, ?_, ?_⟩
        · intro e
          rw [hdgpio]
          refine iff_of_false ?_ ?_
          · intro he
            have hon := ((hpin.pins e).mp he).1
            rw [hpin.fLedOn] at hon
            cases hon
          · intro he
            have hon := ((hs.pins e).mp he).1
            rw [hfl] at hon
            cases hon
        · rcases hs.granted_off board hoff hret with ⟨hwant, hnone, hmine⟩ | ⟨-, hsame⟩
          · rw [hpin.mine, hmine, hpair hwant, if_pos rfl] at hdmine
            unfold LedSys.heldTimer
            rw [hdmine, hnone]
            rfl
          · have hmine : t.mine = s.mine := hpin.mine.trans (congrArg LedSys.mine hsame)
            have hgptu : t.gptu = s.gptu := hpin.gptu.trans (congrArg LedSys.gptu hsame)
            have hkept := ht.heldTimer_dropGpt board
              (by rw [hmine]; exact hs.holding.narrow hoff) o
            rw [hkept]
            unfold LedSys.heldTimer
            rw [hmine, hgptu]
    · exact absurd hzero hne
  · rw [heq]
    exact iff_of_true (fun h => absurd rfl h) (fun _ href => absurd href hok)

end Call

end Failure

/-- In a state that any run reaches, a call that fails has changed nothing exactly under the
condition. -/
theorem led_config_fails_clean_iff {board : LedBoard} {cfg : Fin 8} {behindBases : Nat}
    {regs : Nat → Word} {es : List LedEvent} {s : LedSys}
    (h : run (ledStep board) (ledStart cfg behindBases regs) es = some s)
    (param : Option LedConfigParam) (o : LedServices) :
    ((danubeLedConfig board s param o).2 ≠ 0 →
        LedUnchanged board s (danubeLedConfig board s param o).1) ↔
      LedFailsClean board s param o := by
  have hs := ledRun_reach board h
  cases param with
  | none => exact iff_of_true (fun _ => LedUnchanged.refl board s) trivial
  | some param =>
    cases hvalid : param.valid with
    | false =>
      have hsame : danubeLedConfig board s (some param) o = (s, eInval) := by
        simp only [danubeLedConfig, hvalid, Bool.not_false, if_true]
      rw [hsame]
      refine iff_of_true (fun _ => LedUnchanged.refl board s) ?_
      intro hv
      cases hvalid.symm.trans hv
    | true =>
      have hclean : LedFailsClean board s (some param) o ↔ LedCallClean board s param o :=
        ⟨fun hc => hc hvalid, fun hc _ => hc⟩
      rw [hclean]
      cases hon : s.led.gptOn with
      | true => exact hs.failed_on board hvalid hon
      | false => exact hs.failed_off board hvalid hon

/-- Eight LEDs are to go on, with or without the timer at 10 kHz. -/
def ledSampleParam (operationMask : Word) : LedConfigParam where
  operationMask := operationMask
  updateClock := 1
  fpid := 10000000
  numberOfEnabledLed := 8

def ledNoPins : LedServices where
  refusePin := fun _ => true

/-- The driver that is off stays so. -/
theorem led_config_fails_clean_off :
    (danubeLedConfig ledSampleBoard (ledStart 3 0 fun _ => 0) (some (ledSampleParam 0x0040))
      ledNoPins).2 ≠ 0 ∧
      LedUnchanged ledSampleBoard (ledStart 3 0 fun _ => 0)
        (danubeLedConfig ledSampleBoard (ledStart 3 0 fun _ => 0) (some (ledSampleParam 0x0040))
          ledNoPins).1 := by
  have hfails : (danubeLedConfig ledSampleBoard (ledStart 3 0 fun _ => 0)
      (some (ledSampleParam 0x0040)) ledNoPins).2 ≠ 0 := by decide +kernel
  have hstart : run (ledStep ledSampleBoard) (ledStart 3 0 fun _ => 0) [] =
      some (ledStart 3 0 fun _ => 0) := rfl
  refine ⟨hfails, (led_config_fails_clean_iff hstart _ _).mpr ?_ hfails⟩
  intro _
  refine ⟨fun hon => absurd hon (by decide), fun _ _ _ => ⟨rfl, ?_⟩⟩
  intro hwant
  exact absurd hwant.1 (by decide)

/-- Where the timer has been asked for too, it stays taken. And LEDs that are on go off when the pins of
another source are refused. -/
theorem led_failed_config_changes :
    (¬((danubeLedConfig ledSampleBoard (ledStart 3 0 fun _ => 0) (some (ledSampleParam 0x0044))
        ledNoPins).2 ≠ 0 →
      LedUnchanged ledSampleBoard (ledStart 3 0 fun _ => 0)
        (danubeLedConfig ledSampleBoard (ledStart 3 0 fun _ => 0) (some (ledSampleParam 0x0044))
          ledNoPins).1)) ∧
    ∃ s, run (ledStep ledSampleBoard) (ledStart 3 0 fun _ => 0)
        [.config (some (ledSampleParam 0x0040)) {}] = some s ∧
      ¬((danubeLedConfig ledSampleBoard s
          (some { operationMask := 0x0001, led := 3, source := 1 }) ledNoPins).2 ≠ 0 →
        LedUnchanged ledSampleBoard s
          (danubeLedConfig ledSampleBoard s
            (some { operationMask := 0x0001, led := 3, source := 1 }) ledNoPins).1) := by
  refine ⟨?_, _, rfl, ?_⟩
  · intro h
    have hheld := congrArg Option.isSome (h (by decide +kernel)).timer
    exact absurd hheld (by decide +kernel)
  · intro h
    have hflag := congrArg LedDev.fLedOn (h (by decide +kernel)).led
    exact absurd hflag (by decide +kernel)

end DanubeBsp
