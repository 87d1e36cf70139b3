import DanubeBsp.Gpio
import DanubeBsp.LedTimer

namespace DanubeBsp

/-- The entries of a list of pins in the table of the port driver. -/
def LedPin.entry (p : LedPin) : Nat := pinEntry 0 p.pin

theorem ledPins_inRange {adsl : Word} {p : LedPin} (h : p ∈ ledPins adsl) :
    outOfRange 0 p.pin = false := by
  have hall : ∀ p ∈ ledAdslPins ++ ledShiftPins, outOfRange 0 p.pin = false := by decide
  unfold ledPins at h
  split at h
  next => exact hall p (List.mem_append_left _ h)
  next => exact hall p (List.mem_append_right _ h)

theorem ledPins_nodup (adsl : Word) : ((ledPins adsl).map LedPin.entry).Nodup := by
  unfold ledPins
  split
  next => decide
  next => decide

def LedSys.withUsage (s : LedSys) (usage : Nat → Int) : LedSys :=
  { s with gpio := { s.gpio with usage } }

@[simp] theorem LedSys.withUsage_usage (s : LedSys) (usage : Nat → Int) :
    (s.withUsage usage).gpio.usage = usage := rfl

@[simp] theorem LedSys.withUsage_withUsage (s : LedSys) (u v : Nat → Int) :
    (s.withUsage u).withUsage v = s.withUsage v := rfl

@[simp] theorem LedSys.withUsage_self (s : LedSys) : s.withUsage s.gpio.usage = s := rfl

section Pins

variable (board : LedBoard) {s : LedSys}

theorem LedSys.freePin_eq {pin : Int} (hr : outOfRange 0 pin = false) :
    s.freePin board pin = s.withUsage fun e =>
      if e = pinEntry 0 pin ∧ s.gpio.usage e = board.moduleId then 0 else s.gpio.usage e := by
  by_cases ho : s.gpio.usage (pinEntry 0 pin) = board.moduleId
  · have husage : Function.update s.gpio.usage (pinEntry 0 pin) 0 = fun e =>
        if e = pinEntry 0 pin ∧ s.gpio.usage e = board.moduleId then 0 else s.gpio.usage e := by
      funext e
      by_cases he : e = pinEntry 0 pin
      · subst he
        simp [ho]
      · simp [he]
    simp [LedSys.freePin, danubePortFreePin, withPin_granted hr ho, ho, husage, LedSys.withUsage]
  · have husage : (fun e => if e = pinEntry 0 pin ∧ s.gpio.usage e = board.moduleId then 0
        else s.gpio.usage e) = s.gpio.usage := by
      funext e
      refine if_neg ?_
      rintro ⟨rfl, he⟩
      exact ho he
    simp [LedSys.freePin, danubePortFreePin, withPin_denied hr ho, husage, eBusy_ne_zero]

theorem LedSys.freePins_eq {pins : List LedPin} (hr : ∀ p ∈ pins, outOfRange 0 p.pin = false) :
    pins.foldl (fun s p => s.freePin board p.pin) s = s.withUsage fun e =>
      if (∃ p ∈ pins, p.entry = e) ∧ s.gpio.usage e = board.moduleId then 0
      else s.gpio.usage e := by
  induction pins generalizing s with
  | nil => simp
  | cons p pins ih =>
    rw [List.foldl_cons, ih (fun q hq => hr q (List.mem_cons_of_mem p hq)),
      LedSys.freePin_eq board (hr p List.mem_cons_self)]
    have hm := board.moduleId_ne_zero
    rw [LedSys.withUsage_withUsage]
    congr 1
    funext e
    rw [LedSys.withUsage_usage]
    have hp : (e = pinEntry 0 p.pin) ↔ p.entry = e := eq_comm
    by_cases hu : s.gpio.usage e = board.moduleId
    · by_cases he : p.entry = e
      · simp [hp, he, hu, Ne.symm hm]
      · simp [hp, he, hu]
    · simp [hu]

/-- The pin can be reserved. -/
def LedSys.PinFree (s : LedSys) (o : LedServices) (p : LedPin) : Prop :=
  o.refusePin p.pin = false ∧ s.gpio.usage p.entry = 0

theorem LedSys.reservePin_state {p : LedPin} (hr : outOfRange 0 p.pin = false) (o : LedServices) :
    (s.reservePin board p.pin o).1 = s.withUsage fun e =>
      if (p.entry = e ∧ o.refusePin p.pin = false) ∧ s.gpio.usage e = 0 then board.moduleId
      else s.gpio.usage e := by
  unfold LedSys.reservePin
  cases hrefuse : o.refusePin p.pin with
  | true => simp
  | false =>
    by_cases ho : s.gpio.usage (pinEntry 0 p.pin) = 0
    · have husage : Function.update s.gpio.usage (pinEntry 0 p.pin) board.moduleId = fun e =>
          if (p.entry = e ∧ false = false) ∧ s.gpio.usage e = 0 then board.moduleId
          else s.gpio.usage e := by
        funext e
        by_cases he : e = p.entry
        · subst he
          simp [LedPin.entry, ho]
        · have he' : e ≠ pinEntry 0 p.pin := he
          simp [he', Ne.symm he]
      rw [← husage]
      simp [danubePortReservePin, hr, ho, LedSys.withUsage]
    · have husage : (fun e => if (p.entry = e ∧ false = false) ∧ s.gpio.usage e = 0
          then board.moduleId else s.gpio.usage e) = s.gpio.usage := by
        funext e
        refine if_neg ?_
        rintro ⟨⟨rfl, -⟩, he⟩
        exact ho he
      rw [husage]
      simp [danubePortReservePin, hr, ho]

theorem LedSys.reservePin_ret {p : LedPin} (hr : outOfRange 0 p.pin = false) (o : LedServices) :
    (s.reservePin board p.pin o).2 = 0 ↔ s.PinFree o p := by
  unfold LedSys.reservePin LedSys.PinFree LedPin.entry
  cases hrefuse : o.refusePin p.pin with
  | true => simp [eBusy_ne_zero]
  | false =>
    by_cases ho : s.gpio.usage (pinEntry 0 p.pin) = 0
    · simp [danubePortReservePin, hr, ho]
    · simp [danubePortReservePin, hr, ho, eBusy_ne_zero]

/-- The pins that can be reserved are, and there is no error when these are all. -/
theorem LedSys.reserveFold_spec {pins : List LedPin}
    (hr : ∀ p ∈ pins, outOfRange 0 p.pin = false) (hnodup : (pins.map LedPin.entry).Nodup)
    (o : LedServices) (acc : Int) {r : LedSys × Int}
    (h : pins.foldl
      (fun r p =>
        let q := r.1.reservePin board p.pin o
        (q.1, if q.2 ≠ 0 then q.2 else r.2)) (s, acc) = r) :
    (r.1 = s.withUsage fun e =>
        if (∃ p ∈ pins, p.entry = e ∧ o.refusePin p.pin = false) ∧ s.gpio.usage e = 0
        then board.moduleId else s.gpio.usage e) ∧
      (r.2 = 0 ↔ acc = 0 ∧ ∀ p ∈ pins, s.PinFree o p) := by
  induction pins generalizing s acc with
  | nil =>
    cases h
    simp
  | cons p pins ih =>
    have hm := board.moduleId_ne_zero
    obtain ⟨hnew, hnodup⟩ := List.nodup_cons.mp hnodup
    have hstate := LedSys.reservePin_state board (s := s) (hr p List.mem_cons_self) o
    have hret := LedSys.reservePin_ret board (s := s) (hr p List.mem_cons_self) o
    rw [List.foldl_cons] at h
    obtain ⟨hrest, hzero⟩ := ih (fun q hq => hr q (List.mem_cons_of_mem p hq)) hnodup _ h
    refine ⟨?_, ?_⟩
    · rw [hrest, hstate, LedSys.withUsage_withUsage]
      congr 1
      funext e
      rw [LedSys.withUsage_usage]
      by_cases hu : s.gpio.usage e = 0
      · by_cases he : p.entry = e ∧ o.refusePin p.pin = false
        · simp [he, hu, hm]
        · simp [he, hu]
      · simp [hu]
    · have hothers : ∀ q ∈ pins, ((s.reservePin board p.pin o).1.PinFree o q ↔ s.PinFree o q) := by
        intro q hq
        have hne : p.entry ≠ q.entry := by
          intro he
          exact hnew (List.mem_map.mpr ⟨q, hq, he.symm⟩)
        rw [hstate]
        simp [LedSys.PinFree, hne]
      rw [hzero, List.forall_mem_cons, ← hret]
      dsimp only
      rw [forall₂_congr hothers]
      by_cases hq : (s.reservePin board p.pin o).2 = 0
      · simp [hq]
      · simp [hq]

theorem LedSys.reservePins_spec (adsl : Word) (o : LedServices) :
    ((s.reservePins board (ledPins adsl) o).1 = s.withUsage fun e =>
        if (∃ p ∈ ledPins adsl, p.entry = e ∧ o.refusePin p.pin = false) ∧ s.gpio.usage e = 0
        then board.moduleId else s.gpio.usage e) ∧
      ((s.reservePins board (ledPins adsl) o).2 = 0 ↔ ∀ p ∈ ledPins adsl, s.PinFree o p) := by
  obtain ⟨hstate, hret⟩ := LedSys.reserveFold_spec board (s := s)
    (fun _ hp => ledPins_inRange hp) (ledPins_nodup adsl) o 0 rfl
  exact ⟨hstate, hret.trans (and_iff_right rfl)⟩

/-- Some pin of the mode belongs to another module, or is refused. -/
def LedSys.PinMissing (s : LedSys) (adsl : Word) (o : LedServices) : Prop :=
  ∃ p ∈ ledPins adsl, o.refusePin p.pin = true ∨
    (s.gpio.usage p.entry ≠ 0 ∧ s.gpio.usage p.entry ≠ board.moduleId)

theorem withPin_usage {g : Gpio} {body : Gpio × Int} (hbody : body.1.usage = g.usage)
    (port pin moduleId : Int) : (withPin g port pin moduleId body).1.usage = g.usage := by
  unfold withPin
  split_ifs
  · rfl
  · rfl
  · exact hbody

theorem PinSetting.func_usage (setting : PinSetting) (value : Bool) (g : Gpio)
    (port pin moduleId : Int) : (setting.func value g port pin moduleId).1.usage = g.usage := by
  rw [setting.func_eq]
  cases value with
  | false =>
    show (portClearBit setting.reg g port pin moduleId).1.usage = g.usage
    exact withPin_usage (g := g) rfl port pin moduleId
  | true =>
    show (portSetBit setting.reg g port pin moduleId).1.usage = g.usage
    exact withPin_usage (g := g) rfl port pin moduleId

/-- `t` is `s` up to the registers of the ports. -/
def LedSys.SamePins (s t : LedSys) : Prop :=
  ∃ g : Gpio, t = { s with gpio := g } ∧ g.usage = s.gpio.usage

theorem LedSys.setupPins_same (pins : List LedPin) :
    s.SamePins (pins.foldl (fun s p => s.setupPin board p) s) := by
  induction pins generalizing s with
  | nil => exact ⟨s.gpio, rfl, rfl⟩
  | cons p pins ih =>
    rw [List.foldl_cons]
    obtain ⟨g, heq, hg⟩ := @ih (s.setupPin board p)
    refine ⟨g, heq, hg.trans ?_⟩
    simp only [LedSys.setupPin, PinSetting.func_usage]

theorem LedSys.releaseGpioPort_eq (adsl : Word) :
    s.releaseGpioPort board adsl = s.withUsage fun e =>
      if (∃ p ∈ ledPins adsl, p.entry = e) ∧ s.gpio.usage e = board.moduleId then 0
      else s.gpio.usage e :=
  LedSys.freePins_eq board fun _ hp => ledPins_inRange hp

section Setup

variable {adsl : Word} {o : LedServices} (hnone : ∀ e, s.gpio.usage e ≠ board.moduleId)

include hnone

theorem LedSys.setupGpioPort_ok (hfree : ∀ p ∈ ledPins adsl, s.PinFree o p) :
    ∃ g : Gpio, s.setupGpioPort board adsl o = ({ s with gpio := g }, 0) ∧
      ∀ e, g.usage e = board.moduleId ↔ ∃ p ∈ ledPins adsl, p.entry = e := by
  obtain ⟨hstate, hret⟩ := LedSys.reservePins_spec board (s := s) adsl o
  have hzero := hret.mpr hfree
  obtain ⟨g, heq, hg⟩ := LedSys.setupPins_same board
    (s := (s.reservePins board (ledPins adsl) o).1) (ledPins adsl)
  have hsetup : s.setupGpioPort board adsl o = ({ s with gpio := g }, 0) := by
    unfold LedSys.setupGpioPort
    dsimp only
    rw [if_neg (not_not.mpr hzero), heq, hstate]
    rfl
  refine ⟨g, hsetup, ?_⟩
  intro e
  have husage := congrFun (hg.trans (congrArg (fun t : LedSys => t.gpio.usage) hstate)) e
  rw [LedSys.withUsage_usage] at husage
  rw [husage]
  constructor
  · intro he
    split at he
    next hc =>
      obtain ⟨p, hp, hpe, -⟩ := hc.1
      exact ⟨p, hp, hpe⟩
    next => exact absurd he (hnone e)
  · rintro ⟨p, hp, rfl⟩
    exact if_pos ⟨⟨p, hp, rfl, (hfree p hp).1⟩, (hfree p hp).2⟩

theorem LedSys.setupGpioPort_fails (hno : ¬∀ p ∈ ledPins adsl, s.PinFree o p) :
    ∃ ret, s.setupGpioPort board adsl o = (s, ret) ∧ ret ≠ 0 := by
  obtain ⟨hstate, hret⟩ := LedSys.reservePins_spec board (s := s) adsl o
  have hne : (s.reservePins board (ledPins adsl) o).2 ≠ 0 := by
    intro hz
    exact hno (hret.mp hz)
  refine ⟨(s.reservePins board (ledPins adsl) o).2, ?_, hne⟩
  unfold LedSys.setupGpioPort
  dsimp only
  rw [if_pos hne, LedSys.releaseGpioPort_eq, hstate, LedSys.withUsage_withUsage]
  -- What was free is free again, and nothing else was of this module.
  have hback : (fun e => if (∃ p ∈ ledPins adsl, p.entry = e) ∧
      (if (∃ p ∈ ledPins adsl, p.entry = e ∧ o.refusePin p.pin = false) ∧ s.gpio.usage e = 0
        then board.moduleId else s.gpio.usage e) = board.moduleId then 0
      else if (∃ p ∈ ledPins adsl, p.entry = e ∧ o.refusePin p.pin = false) ∧ s.gpio.usage e = 0
        then board.moduleId else s.gpio.usage e) = s.gpio.usage := by
    funext e
    by_cases hc : (∃ p ∈ ledPins adsl, p.entry = e ∧ o.refusePin p.pin = false) ∧
        s.gpio.usage e = 0
    · obtain ⟨p, hp, hpe, -⟩ := hc.1
      rw [if_pos hc, if_pos ⟨⟨p, hp, hpe⟩, rfl⟩, hc.2]
    · rw [if_neg hc, if_neg (fun h => hnone e h.2)]
  exact congrArg (Prod.mk · _) ((congrArg s.withUsage hback).trans s.withUsage_self)

end Setup

/-- The driver holds the pins of its mode, if it is on, and no others. -/
def LedSys.PinsAgree (s : LedSys) : Prop :=
  ∀ e, s.gpio.usage e = board.moduleId ↔
    s.led.fLedOn = true ∧ ∃ p ∈ ledPins s.led.adslOn, p.entry = e

/-- What "Turn on LED" leaves, and the mode that it leaves the driver in. -/
structure LedPinStep (s t : LedSys) (fLedOn : Bool) (adslOn : Word) : Prop where
  con1 : t.led.con1 = s.led.con1
  gptOn : t.led.gptOn = s.led.gptOn
  gptFreq : t.led.gptFreq = s.led.gptFreq
  gptu : t.gptu = s.gptu
  mine : t.mine = s.mine
  foreign : t.foreign = s.foreign
  reqFreq : t.reqFreq = s.reqFreq
  fLedOn : t.led.fLedOn = fLedOn
  adslOn : t.led.adslOn = adslOn
  pins : t.PinsAgree board

theorem LedSys.turnOn_spec {adsl : Word} {o : LedServices}
    (hnone : ∀ e, s.gpio.usage e ≠ board.moduleId) {r : LedSys × Int}
    (hr : (let r := s.turnOnLed board adsl o
      if r.2 ≠ 0 then r else ({ r.1 with led.adslOn := adsl, led.fLedOn := true }, 0)) = r) :
    (∀ p ∈ ledPins adsl, s.PinFree o p) ∧ r.2 = 0 ∧ LedPinStep board s r.1 true adsl ∨
      (¬∀ p ∈ ledPins adsl, s.PinFree o p) ∧ r.2 ≠ 0 ∧ r.1 = s := by
  by_cases hfree : ∀ p ∈ ledPins adsl, s.PinFree o p
  · obtain ⟨g, heq, hg⟩ := LedSys.setupGpioPort_ok board hnone hfree
    simp only [LedSys.turnOnLed, heq, ne_eq, not_true_eq_false, if_false] at hr
    cases hr
    refine .inl ⟨hfree, rfl, ⟨rfl, rfl, rfl, rfl, rfl, rfl, rfl, rfl, rfl, ?_⟩⟩
    intro e
    exact (hg e).trans (and_iff_right rfl).symm
  · obtain ⟨ret, heq, hret⟩ := LedSys.setupGpioPort_fails board hnone hfree
    simp only [LedSys.turnOnLed, heq, if_pos hret] at hr
    cases hr
    exact .inr ⟨hfree, hret, rfl⟩

/-- The system behind `turn_off_led`. -/
def LedSys.turnedOff (s : LedSys) : LedSys :=
  { s.turnOffLed board s.led.adslOn with led.fLedOn := false, led.adslOn := 0 }

theorem LedSys.turnedOff_eq : s.turnedOff board =
    { s.withUsage (fun e =>
        if (∃ p ∈ ledPins s.led.adslOn, p.entry = e) ∧ s.gpio.usage e = board.moduleId then 0
        else s.gpio.usage e) with
      led := { s.led with fLedOn := false, adslOn := 0, powered := false } } := by
  unfold LedSys.turnedOff LedSys.turnOffLed
  rw [LedSys.releaseGpioPort_eq]
  rfl

section Off

variable (h : s.PinsAgree board)

include h

theorem LedSys.turnedOff_none (e : Nat) : (s.turnedOff board).gpio.usage e ≠ board.moduleId := by
  have hm := board.moduleId_ne_zero
  rw [LedSys.turnedOff_eq]
  dsimp only [LedSys.withUsage]
  split
  next => exact hm.symm
  next hno =>
    intro hu
    exact hno ⟨((h e).mp hu).2, hu⟩

theorem LedSys.turnedOff_free (e : Nat) : (s.turnedOff board).gpio.usage e = 0 ↔
    s.gpio.usage e = 0 ∨ s.gpio.usage e = board.moduleId := by
  rw [LedSys.turnedOff_eq]
  dsimp only [LedSys.withUsage]
  split
  next hc => exact iff_of_true rfl (.inr hc.2)
  next hno =>
    refine (or_iff_left ?_).symm
    intro hu
    exact hno ⟨((h e).mp hu).2, hu⟩

theorem LedSys.turnedOff_step : LedPinStep board s (s.turnedOff board) false 0 := by
  have hnone := LedSys.turnedOff_none board h
  have hpins : (s.turnedOff board).PinsAgree board := by
    intro e
    refine iff_of_false (hnone e) ?_
    rintro ⟨hoff, -⟩
    exact absurd hoff Bool.false_ne_true
  rw [LedSys.turnedOff_eq] at hpins ⊢
  exact ⟨rfl, rfl, rfl, rfl, rfl, rfl, rfl, rfl, rfl, hpins⟩

theorem LedSys.turnedOff_missing (adsl : Word) (o : LedServices) :
    (¬∀ p ∈ ledPins adsl, (s.turnedOff board).PinFree o p) ↔ s.PinMissing board adsl o := by
  simp only [LedSys.PinFree, LedSys.PinMissing, LedSys.turnedOff_free board h, not_forall,
    not_and_or, not_or, exists_prop, Bool.not_eq_false]

end Off

theorem LedPinStep.trans {s t u : LedSys} {on on' : Bool} {adsl adsl' : Word}
    (h : LedPinStep board s t on adsl) (h' : LedPinStep board t u on' adsl') :
    LedPinStep board s u on' adsl' :=
  ⟨h'.con1.trans h.con1, h'.gptOn.trans h.gptOn, h'.gptFreq.trans h.gptFreq, h'.gptu.trans h.gptu,
    h'.mine.trans h.mine, h'.foreign.trans h.foreign, h'.reqFreq.trans h.reqFreq, h'.fLedOn,
    h'.adslOn, h'.pins⟩

/-- The pins have to be reserved anew, and cannot. -/
def LedSys.PinsRefused (s : LedSys) (newLedOn : Bool) (newAdslOn : Word) (o : LedServices) : Prop :=
  newLedOn = true ∧ (s.led.fLedOn = false ∨ s.led.adslOn ≠ newAdslOn) ∧
    s.PinMissing board newAdslOn o

/-- "Turn on LED" leaves the driver in the new mode with its pins, or dark without any. -/
theorem LedSys.configPins_spec (h : s.PinsAgree board)
    (hdark : s.led.fLedOn = false → s.led.adslOn = 0) {newLedOn : Bool} {newAdslOn : Word}
    (hnew : newAdslOn ≠ 0 → newLedOn = true) (o : LedServices) :
    s.PinsRefused board newLedOn newAdslOn o ∧
        (s.configPins board newLedOn newAdslOn o).2 ≠ 0 ∧
        LedPinStep board s (s.configPins board newLedOn newAdslOn o).1 false 0 ∨
      ¬s.PinsRefused board newLedOn newAdslOn o ∧
        (s.configPins board newLedOn newAdslOn o).2 = 0 ∧
        LedPinStep board s (s.configPins board newLedOn newAdslOn o).1 newLedOn newAdslOn := by
  have hoff := LedSys.turnedOff_step board h
  generalize hr : s.configPins board newLedOn newAdslOn o = r
  unfold LedSys.configPins at hr
  cases newLedOn with
  | false =>
    have hzero : newAdslOn = 0 := by
      by_contra hne
      exact absurd (hnew hne) Bool.false_ne_true
    simp only [Bool.not_false, Bool.true_or, if_true, Bool.and_false, Bool.false_eq_true,
      if_false] at hr
    cases hr
    subst hzero
    exact .inr ⟨fun hc => absurd hc.1 Bool.false_ne_true, rfl, hoff⟩
  | true =>
    by_cases hsame : s.led.adslOn = newAdslOn
    · simp only [Bool.not_true, Bool.false_or, hsame, bne_self_eq_false, Bool.false_eq_true,
        if_false, Bool.and_true] at hr
      cases hon : s.led.fLedOn with
      | true =>
        simp only [hon, Bool.not_true, Bool.false_eq_true, if_false] at hr
        cases hr
        refine .inr ⟨?_, rfl, ⟨rfl, rfl, rfl, rfl, rfl, rfl, rfl, hon, hsame, h⟩⟩
        rintro ⟨-, hc | hc, -⟩
        · exact absurd (hon.symm.trans hc) Bool.true_eq_false.mp
        · exact hc hsame
      | false =>
        simp only [hon, Bool.not_false, if_true] at hr
        have hnone : ∀ e, s.gpio.usage e ≠ board.moduleId := by
          intro e he
          exact absurd (hon.symm.trans ((h e).mp he).1) Bool.false_ne_true
        have hmissing : (¬∀ p ∈ ledPins newAdslOn, s.PinFree o p) ↔
            s.PinMissing board newAdslOn o := by
          simp only [LedSys.PinFree, LedSys.PinMissing, not_forall, not_and_or, exists_prop,
            Bool.not_eq_false, hnone, ne_eq, not_false_eq_true, and_true]
        obtain ⟨hfree, hret, hstep⟩ | ⟨hno, hret, hstep⟩ := LedSys.turnOn_spec board hnone hr
        · exact .inr ⟨fun hc => hmissing.mpr hc.2.2 hfree, hret, hstep⟩
        · rw [hstep]
          exact .inl ⟨⟨rfl, .inl hon, hmissing.mp hno⟩, hret,
            ⟨rfl, rfl, rfl, rfl, rfl, rfl, rfl, hon, hdark hon, h⟩⟩
    · have hne : (s.led.adslOn != newAdslOn) = true := bne_iff_ne.mpr hsame
      have hr : (let r := (s.turnedOff board).turnOnLed board newAdslOn o
          if r.2 ≠ 0 then r
          else ({ r.1 with led.adslOn := newAdslOn, led.fLedOn := true }, 0)) = r := by
        simp only [hne, Bool.or_true, if_true, Bool.and_true] at hr
        exact hr
      have hmissing := LedSys.turnedOff_missing board h newAdslOn o
      obtain ⟨hfree, hret, hstep⟩ | ⟨hno, hret, hstep⟩ :=
        LedSys.turnOn_spec board (LedSys.turnedOff_none board h) hr
      · exact .inr ⟨fun hc => hmissing.mpr hc.2.2 hfree, hret, hoff.trans board hstep⟩
      · rw [hstep]
        exact .inl ⟨⟨rfl, .inr hsame, hmissing.mp hno⟩, hret, hoff⟩

end Pins

/-- No module but `m` gives or takes a pin of `m`. -/
def Gpio.SameOwned (m : Int) (g g' : Gpio) : Prop := ∀ e, g'.usage e = m ↔ g.usage e = m

section Owned

variable {m moduleId : Int}

theorem Gpio.SameOwned.refl (g : Gpio) : g.SameOwned m g := fun _ => Iff.rfl

theorem Gpio.SameOwned.trans {g g' g'' : Gpio} (h : g.SameOwned m g') (h' : g'.SameOwned m g'') :
    g.SameOwned m g'' :=
  fun e => (h' e).trans (h e)

theorem Gpio.SameOwned.of_usage {g g' : Gpio} (h : g'.usage = g.usage) : g.SameOwned m g' := by
  intro e
  rw [h]

theorem Gpio.sameOwned_update {g : Gpio} {entry : Nat} {v : Int} (hold : g.usage entry ≠ m)
    (hnew : v ≠ m) : g.SameOwned m { g with usage := Function.update g.usage entry v } := by
  intro e
  by_cases he : e = entry
  · subst he
    simp [hold, hnew]
  · simp [he]

theorem danubePortReservePin_owned (hm : m ≠ 0) (hne : moduleId ≠ m) (g : Gpio)
    (port pin : Int) : g.SameOwned m (danubePortReservePin g port pin moduleId).1 := by
  unfold danubePortReservePin
  split_ifs with hr hfree
  · exact .refl g
  · exact Gpio.sameOwned_update (hfree ▸ hm.symm) hne
  · exact .refl g

theorem danubePortFreePin_owned (hm : m ≠ 0) (hne : moduleId ≠ m) (g : Gpio)
    (port pin : Int) : g.SameOwned m (danubePortFreePin g port pin moduleId).1 := by
  unfold danubePortFreePin withPin
  split_ifs with hr howner
  · exact .refl g
  · exact .refl g
  · exact Gpio.sameOwned_update (fun h => hne ((not_not.mp howner).symm.trans h)) hm.symm

theorem portIocCall_owned (hm : m ≠ 0) (hne : portModuleId ≠ m) (g : Gpio) (port pin : Int)
    {func : Gpio → Int → Int → Int → Gpio × Int}
    (hfunc : ∀ g' : Gpio, g'.SameOwned m (func g' port pin portModuleId).1) :
    g.SameOwned m (portIocCall g port pin func).1 := by
  have hreserve := danubePortReservePin_owned hm hne g port pin
  unfold portIocCall
  dsimp only
  split_ifs
  · exact (hreserve.trans (hfunc _)).trans (danubePortFreePin_owned hm hne _ port pin)
  · exact hreserve.trans (hfunc _)
  · exact hreserve

theorem GpioCall.exec_owned (hm : m ≠ 0) {c : GpioCall} (hc : c.caller ≠ m) (g : Gpio) :
    g.SameOwned m (c.exec g).1 := by
  unfold GpioCall.caller at hc
  unfold GpioCall.exec
  cases hop : c.op with
  | reserve =>
    rw [hop] at hc
    exact danubePortReservePin_owned hm hc g c.port c.pin
  | free =>
    rw [hop] at hc
    exact danubePortFreePin_owned hm hc g c.port c.pin
  | change setting value => exact .of_usage (setting.func_usage value g c.port c.pin c.moduleId)
  | getInput => exact .of_usage (withPin_usage (g := g) rfl c.port c.pin c.moduleId)
  | iocChange setting value =>
    rw [hop] at hc
    exact portIocCall_owned hm hc g c.port c.pin
      fun g' => .of_usage (setting.func_usage value g' c.port c.pin portModuleId)
  | iocInput =>
    rw [hop] at hc
    exact (danubePortReservePin_owned hm hc g c.port c.pin).trans
      (danubePortFreePin_owned hm hc _ c.port c.pin)

end Owned

end DanubeBsp
