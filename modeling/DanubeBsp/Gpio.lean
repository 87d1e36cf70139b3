import DanubeBsp.Errno
import DanubeBsp.WordBits
import Mathlib.Tactic.Push

namespace DanubeBsp

/-- `MAX_PORTS` and `PINS_PER_PORT`. -/
def maxPorts : Nat := 2

def pinsPerPort : Nat := 16

/-- The registers of a port. -/
inductive GpioReg
  | out
  | input
  | dir
  | altsel0
  | altsel1
  | od
  | stoff
  | pudsel
  | puden
  deriving DecidableEq

/-- `DANUBE_PORT_*_REG`. -/
def GpioReg.offset : GpioReg → Nat
  | .out => 0x10
  | .input => 0x14
  | .dir => 0x18
  | .altsel0 => 0x1c
  | .altsel1 => 0x20
  | .od => 0x24
  | .stoff => 0x28
  | .pudsel => 0x2c
  | .puden => 0x30

/-- The words from `danube_port_pin_usage` on, of which 32 are the table, the word behind
`danube_port_bases`, and the memory-mapped registers by their addresses. -/
structure Gpio where
  usage : Nat → Int
  behindBases : Nat
  regs : Nat → Word

/-- `danube_port_bases[port]`. -/
def Gpio.base (s : Gpio) (port : Nat) : Nat :=
  if port = 0 then 0xbe100b00 else if port = 1 then 0xbe100b30 else s.behindBases

/-- The index of `danube_port_pin_usage[port][pin]` from the start of the table. -/
def pinEntry (port pin : Int) : Nat := pinsPerPort * port.toNat + pin.toNat

/-- The address of a register of a port. -/
def Gpio.regAddr (s : Gpio) (port : Int) (reg : GpioReg) : Nat := s.base port.toNat + reg.offset

/-- The two range tests that all functions begin with. -/
def outOfRange (port pin : Int) : Bool :=
  decide (port < 0 ∨ pin < 0) || decide (port > maxPorts ∨ pin > pinsPerPort)

/-- `danube_port_reserve_pin`. -/
def danubePortReservePin (s : Gpio) (port pin moduleId : Int) : Gpio × Int :=
  if outOfRange port pin then (s, eInval)
  else if s.usage (pinEntry port pin) = 0 then
    ({ s with usage := Function.update s.usage (pinEntry port pin) moduleId }, 0)
  else (s, eBusy)

/-- The tests of the other functions: the range, then the owner. -/
def withPin (s : Gpio) (port pin moduleId : Int) (body : Gpio × Int) : Gpio × Int :=
  if outOfRange port pin then (s, eInval)
  else if s.usage (pinEntry port pin) ≠ moduleId then (s, eBusy)
  else body

/-- `danube_port_free_pin`. -/
def danubePortFreePin (s : Gpio) (port pin moduleId : Int) : Gpio × Int :=
  withPin s port pin moduleId
    ({ s with usage := Function.update s.usage (pinEntry port pin) 0 }, 0)

def Gpio.writeReg (s : Gpio) (port : Int) (reg : GpioReg) (w : Word) : Gpio :=
  { s with regs := Function.update s.regs (s.regAddr port reg) w }

/-- Set the bit of a pin in a register. -/
def portSetBit (reg : GpioReg) (s : Gpio) (port pin moduleId : Int) : Gpio × Int :=
  withPin s port pin moduleId
    (s.writeReg port reg (setBit (s.regs (s.regAddr port reg)) pin.toNat), 0)

/-- Clear the bit of a pin in a register. -/
def portClearBit (reg : GpioReg) (s : Gpio) (port pin moduleId : Int) : Gpio × Int :=
  withPin s port pin moduleId
    (s.writeReg port reg (clearBit (s.regs (s.regAddr port reg)) pin.toNat), 0)

def danubePortSetOpenDrain := portSetBit .od

def danubePortClearOpenDrain := portClearBit .od

def danubePortSetPudsel := portSetBit .pudsel

def danubePortClearPudsel := portClearBit .pudsel

def danubePortSetPuden := portSetBit .puden

def danubePortClearPuden := portClearBit .puden

def danubePortSetStoff := portSetBit .stoff

def danubePortClearStoff := portClearBit .stoff

def danubePortSetDirOut := portSetBit .dir

def danubePortSetDirIn := portClearBit .dir

def danubePortSetOutput := portSetBit .out

def danubePortClearOutput := portClearBit .out

def danubePortSetAltsel0 := portSetBit .altsel0

def danubePortClearAltsel0 := portClearBit .altsel0

def danubePortSetAltsel1 := portSetBit .altsel1

def danubePortClearAltsel1 := portClearBit .altsel1

/-- `danube_port_get_input`. -/
def danubePortGetInput (s : Gpio) (port pin moduleId : Int) : Gpio × Int :=
  withPin s port pin moduleId
    (s, if s.regs (s.regAddr port .input) &&& (1#32 <<< pin.toNat) = 0#32 then 0 else 1)

/-- The settings of a pin. -/
inductive PinSetting
  | openDrain
  | pudsel
  | puden
  | stoff
  | dir
  | output
  | altsel0
  | altsel1
  deriving DecidableEq

/-- The functions that set (`value`) and clear a setting. -/
def PinSetting.func : PinSetting → Bool → Gpio → Int → Int → Int → Gpio × Int
  | .openDrain, value => if value then danubePortSetOpenDrain else danubePortClearOpenDrain
  | .pudsel, value => if value then danubePortSetPudsel else danubePortClearPudsel
  | .puden, value => if value then danubePortSetPuden else danubePortClearPuden
  | .stoff, value => if value then danubePortSetStoff else danubePortClearStoff
  | .dir, value => if value then danubePortSetDirOut else danubePortSetDirIn
  | .output, value => if value then danubePortSetOutput else danubePortClearOutput
  | .altsel0, value => if value then danubePortSetAltsel0 else danubePortClearAltsel0
  | .altsel1, value => if value then danubePortSetAltsel1 else danubePortClearAltsel1

/-- `PORT_MODULE_ID`, the module of `danube_port_ioctl`. -/
def portModuleId : Int := 0xff

/-- `PORT_IOC_CALL`. -/
def portIocCall (s : Gpio) (port pin : Int) (func : Gpio → Int → Int → Int → Gpio × Int) :
    Gpio × Int :=
  let r := danubePortReservePin s port pin portModuleId
  let r := if r.2 = 0 then func r.1 port pin portModuleId else r
  if r.2 = 0 then danubePortFreePin r.1 port pin portModuleId else r

/-- `DANUBE_PORT_IOCINPUT`: the value that goes to the user is the input of the pin, if it could be
reserved. -/
def portIocInput (s : Gpio) (port pin : Int) : Gpio × Int × Option Int :=
  let r := danubePortReservePin s port pin portModuleId
  let v := if r.2 = 0 then some (danubePortGetInput r.1 port pin portModuleId).2 else none
  let r := danubePortFreePin r.1 port pin portModuleId
  (r.1, r.2, v)

inductive GpioOp
  | reserve
  | free
  | change (setting : PinSetting) (value : Bool)
  | getInput
  | iocChange (setting : PinSetting) (value : Bool)
  | iocInput
  deriving DecidableEq

structure GpioCall where
  op : GpioOp
  port : Int
  pin : Int
  moduleId : Int
  deriving DecidableEq

/-- The module that calls: the commands of `danube_port_ioctl` come from its own. -/
def GpioCall.caller (c : GpioCall) : Int :=
  match c.op with
  | .iocChange _ _ | .iocInput => portModuleId
  | _ => c.moduleId

def GpioCall.exec (s : Gpio) (c : GpioCall) : Gpio × Int :=
  match c.op with
  | .reserve => danubePortReservePin s c.port c.pin c.moduleId
  | .free => danubePortFreePin s c.port c.pin c.moduleId
  | .change setting value => setting.func value s c.port c.pin c.moduleId
  | .getInput => danubePortGetInput s c.port c.pin c.moduleId
  | .iocChange setting value => portIocCall s c.port c.pin (setting.func value)
  | .iocInput => ((portIocInput s c.port c.pin).1, (portIocInput s c.port c.pin).2.1)

/-- The state behind a sequence of calls. -/
def gpioRun (s : Gpio) (cs : List GpioCall) : Gpio := cs.foldl (fun s c => (GpioCall.exec s c).1) s

def PinSetting.reg : PinSetting → GpioReg
  | .openDrain => .od
  | .pudsel => .pudsel
  | .puden => .puden
  | .stoff => .stoff
  | .dir => .dir
  | .output => .out
  | .altsel0 => .altsel0
  | .altsel1 => .altsel1

/-- The owner of a pin, 0 for none. -/
def Gpio.owner (s : Gpio) (port pin : Nat) : Int := s.usage (pinsPerPort * port + pin)

/-- A pin: its owner and its settings. -/
def Gpio.pin (s : Gpio) (port pin : Nat) : Int × (PinSetting → Bool) :=
  (s.owner port pin, fun setting => (s.regs (s.base port + setting.reg.offset)).getLsbD pin)

/-- The call is about this pin. -/
def GpioCall.At (c : GpioCall) (port pin : Nat) : Prop := c.port = port ∧ c.pin = pin

/-- The call is about a pin of the 2 ports of 16 pins. -/
def GpioCall.Exists (c : GpioCall) : Prop :=
  ∃ port < maxPorts, ∃ pin < pinsPerPort, c.At port pin

def GpioOp.reserves : GpioOp → Bool
  | .reserve | .iocChange _ _ | .iocInput => true
  | _ => false

/-- What a call may do: nothing to a pin that does not exist, and to a pin only with the right to it. -/
structure GpioStepOk (s : Gpio) (c : GpioCall) : Prop where
  refused : ¬ c.Exists → c.exec s = (s, eInval)
  frame : ∀ port < maxPorts, ∀ pin < pinsPerPort, (c.exec s).1.pin port pin ≠ s.pin port pin →
    c.At port pin ∧ (s.owner port pin = c.caller ∨ s.owner port pin = 0 ∧ c.op.reserves = true)
  input : c.op = .getInput → 0 ≤ (c.exec s).2 →
    ∃ port < maxPorts, ∃ pin < pinsPerPort, c.At port pin ∧ s.owner port pin = c.moduleId

/-- What holds of a sequence of calls: each is as it may be, and a pin stays as it is while its owner
does not call. -/
structure GpioRunOk (s : Gpio) (cs : List GpioCall) : Prop where
  steps : ∀ pre c post, cs = pre ++ c :: post → GpioStepOk (gpioRun s pre) c
  kept : ∀ pre mid post, cs = pre ++ mid ++ post → ∀ port < maxPorts, ∀ pin < pinsPerPort,
    (gpioRun s pre).owner port pin ≠ 0 →
    (∀ c ∈ mid, c.caller ≠ (gpioRun s pre).owner port pin) →
    (gpioRun s (pre ++ mid)).pin port pin = (gpioRun s pre).pin port pin

theorem outOfRange_eq_false {port pin : Int} :
    outOfRange port pin = false ↔ 0 ≤ port ∧ 0 ≤ pin ∧ port ≤ 2 ∧ pin ≤ 16 := by
  simp only [outOfRange, Bool.or_eq_false_iff, decide_eq_false_iff_not]
  simp only [maxPorts, pinsPerPort]
  omega

theorem GpioCall.Exists.inRange {c : GpioCall} (h : c.Exists) : outOfRange c.port c.pin = false := by
  obtain ⟨port, hport, pin, hpin, hp, hq⟩ := h
  rw [outOfRange_eq_false]
  simp only [maxPorts, pinsPerPort] at hport hpin
  omega

theorem Gpio.regAddr_inj {s : Gpio} {p p' : Nat} {r r' : GpioReg} (hp : p < maxPorts)
    (hp' : p' < maxPorts) (h : s.base p + r.offset = s.base p' + r'.offset) : p = p' ∧ r = r' := by
  have hr : 0x10 ≤ r.offset ∧ r.offset ≤ 0x30 := by cases r <;> decide
  have hr' : 0x10 ≤ r'.offset ∧ r'.offset ≤ 0x30 := by cases r' <;> decide
  simp only [maxPorts] at hp hp'
  have hpp : p = p' := by
    unfold Gpio.base at h
    split_ifs at h <;> omega
  subst hpp
  have hoff : r.offset = r'.offset := by omega
  refine ⟨rfl, ?_⟩
  revert hoff
  cases r <;> cases r' <;> decide

theorem Gpio.pin_writeReg {s : Gpio} {p q : Nat} {reg : GpioReg} {w : Word} (hp : p < maxPorts)
    (hw : ∀ i, i ≠ q → w.getLsbD i = (s.regs (s.regAddr p reg)).getLsbD i) {p' q' : Nat}
    (hp' : p' < maxPorts) (hne : p' ≠ p ∨ q' ≠ q) :
    (s.writeReg p reg w).pin p' q' = s.pin p' q' := by
  have hsetting : ∀ setting : PinSetting,
      ((s.writeReg p reg w).regs (s.base p' + setting.reg.offset)).getLsbD q' =
        (s.regs (s.base p' + setting.reg.offset)).getLsbD q' := by
    intro setting
    simp only [Gpio.writeReg, Gpio.regAddr, Int.toNat_natCast]
    by_cases haddr : s.base p' + setting.reg.offset = s.base p + reg.offset
    · obtain ⟨rfl, hreg⟩ := Gpio.regAddr_inj hp' hp haddr
      have hq : q' ≠ q := hne.resolve_left (fun h => h rfl)
      rw [hreg, Function.update_self, hw q' hq, Gpio.regAddr, Int.toNat_natCast]
    · rw [Function.update_of_ne haddr]
  refine Prod.ext rfl ?_
  funext setting
  exact hsetting setting

theorem pinEntry_natCast (p q : Nat) : pinEntry p q = pinsPerPort * p + q := by
  simp [pinEntry]

theorem Gpio.pin_usage {s : Gpio} {p q : Nat} {v : Int} (hq : q < pinsPerPort) {p' q' : Nat}
    (hq' : q' < pinsPerPort) (hne : p' ≠ p ∨ q' ≠ q) :
    ({ s with usage := Function.update s.usage (pinEntry p q) v } : Gpio).pin p' q' =
      s.pin p' q' := by
  have hentry : pinsPerPort * p' + q' ≠ pinEntry p q := by
    rw [pinEntry_natCast]
    simp only [pinsPerPort] at hq hq' ⊢
    omega
  refine Prod.ext ?_ rfl
  simp only [Gpio.pin, Gpio.owner]
  rw [Function.update_of_ne hentry]

/-- `t` differs from `s` in this pin at most. -/
def Gpio.OnlyPin (s t : Gpio) (port pin : Nat) : Prop :=
  ∀ p < maxPorts, ∀ q < pinsPerPort, p ≠ port ∨ q ≠ pin → t.pin p q = s.pin p q

theorem Gpio.OnlyPin.refl (s : Gpio) (port pin : Nat) : s.OnlyPin s port pin :=
  fun _ _ _ _ _ => rfl

theorem Gpio.OnlyPin.trans {s t u : Gpio} {port pin : Nat} (h : s.OnlyPin t port pin)
    (h' : t.OnlyPin u port pin) : s.OnlyPin u port pin := by
  intro p hp q hq hne
  rw [h' p hp q hq hne, h p hp q hq hne]

theorem danubePortReservePin_only (s : Gpio) (port : Nat) {pin : Nat} (hpin : pin < pinsPerPort)
    (moduleId : Int) : s.OnlyPin (danubePortReservePin s port pin moduleId).1 port pin := by
  unfold danubePortReservePin
  split_ifs
  · exact Gpio.OnlyPin.refl s port pin
  · intro p _ q hq hne
    exact Gpio.pin_usage hpin hq hne
  · exact Gpio.OnlyPin.refl s port pin

theorem withPin_only {s : Gpio} {port pin : Nat} (moduleId : Int) {body : Gpio × Int}
    (hbody : s.OnlyPin body.1 port pin) :
    s.OnlyPin (withPin s port pin moduleId body).1 port pin := by
  unfold withPin
  split_ifs
  · exact Gpio.OnlyPin.refl s port pin
  · exact Gpio.OnlyPin.refl s port pin
  · exact hbody

theorem danubePortFreePin_only (s : Gpio) (port : Nat) {pin : Nat} (hpin : pin < pinsPerPort)
    (moduleId : Int) : s.OnlyPin (danubePortFreePin s port pin moduleId).1 port pin := by
  apply withPin_only
  intro p _ q hq hne
  exact Gpio.pin_usage hpin hq hne

/-- All settings are made by `portSetBit` and `portClearBit`. -/
theorem PinSetting.func_eq (setting : PinSetting) (value : Bool) :
    setting.func value = if value then portSetBit setting.reg else portClearBit setting.reg := by
  cases setting <;> cases value <;> rfl

theorem PinSetting.func_only (setting : PinSetting) (value : Bool) (s : Gpio) {port pin : Nat}
    (hport : port < maxPorts) (hpin : pin < pinsPerPort) (moduleId : Int) :
    s.OnlyPin (setting.func value s port pin moduleId).1 port pin := by
  have hbit : pin < 32 := Nat.lt_trans hpin (by decide)
  rw [setting.func_eq]
  cases value with
  | false =>
    apply withPin_only
    intro p hp q _ hne
    refine Gpio.pin_writeReg hport ?_ hp hne
    intro i hi
    simp [Int.toNat_natCast, getLsbD_clearBit hbit, hi]
  | true =>
    apply withPin_only
    intro p hp q _ hne
    refine Gpio.pin_writeReg hport ?_ hp hne
    intro i hi
    simp [Int.toNat_natCast, getLsbD_setBit hbit, hi]

theorem portIocCall_only (s : Gpio) {port pin : Nat} (hpin : pin < pinsPerPort)
    {func : Gpio → Int → Int → Int → Gpio × Int}
    (hfunc : ∀ u : Gpio, u.OnlyPin (func u port pin portModuleId).1 port pin) :
    s.OnlyPin (portIocCall s port pin func).1 port pin := by
  have hreserve := danubePortReservePin_only s port hpin portModuleId
  unfold portIocCall
  dsimp only
  split_ifs
  · exact (hreserve.trans (hfunc _)).trans (danubePortFreePin_only _ port hpin _)
  · exact hreserve.trans (hfunc _)
  · exact hreserve

theorem portIocInput_only (s : Gpio) {port pin : Nat} (hpin : pin < pinsPerPort) :
    s.OnlyPin (portIocInput s port pin).1 port pin :=
  (danubePortReservePin_only s port hpin portModuleId).trans
    (danubePortFreePin_only _ port hpin _)

theorem GpioCall.exec_only {c : GpioCall} {port pin : Nat} (hport : port < maxPorts)
    (hpin : pin < pinsPerPort) (hat : c.At port pin) (s : Gpio) :
    s.OnlyPin (c.exec s).1 port pin := by
  unfold GpioCall.exec
  rw [hat.1, hat.2]
  cases c.op with
  | reserve => exact danubePortReservePin_only s port hpin _
  | free => exact danubePortFreePin_only s port hpin _
  | change setting value => exact setting.func_only value s hport hpin _
  | getInput => exact withPin_only _ (Gpio.OnlyPin.refl s port pin)
  | iocChange setting value =>
    exact portIocCall_only s hpin fun u => setting.func_only value u hport hpin _
  | iocInput => exact portIocInput_only s hpin

theorem withPin_denied {s : Gpio} {port pin moduleId : Int} (hrange : outOfRange port pin = false)
    (howner : s.usage (pinEntry port pin) ≠ moduleId) (body : Gpio × Int) :
    withPin s port pin moduleId body = (s, eBusy) := by
  simp [withPin, hrange, howner]

theorem withPin_granted {s : Gpio} {port pin moduleId : Int} (hrange : outOfRange port pin = false)
    (howner : s.usage (pinEntry port pin) = moduleId) (body : Gpio × Int) :
    withPin s port pin moduleId body = body := by
  simp [withPin, hrange, howner]

theorem danubePortReservePin_taken {s : Gpio} {port pin : Int} (hrange : outOfRange port pin = false)
    (howner : s.usage (pinEntry port pin) ≠ 0) (moduleId : Int) :
    danubePortReservePin s port pin moduleId = (s, eBusy) := by
  simp [danubePortReservePin, hrange, howner]

theorem PinSetting.func_denied {s : Gpio} {port pin moduleId : Int}
    (hrange : outOfRange port pin = false) (howner : s.usage (pinEntry port pin) ≠ moduleId)
    (setting : PinSetting) (value : Bool) :
    setting.func value s port pin moduleId = (s, eBusy) := by
  rw [setting.func_eq]
  cases value with
  | false => exact withPin_denied hrange howner _
  | true => exact withPin_denied hrange howner _

theorem portIocCall_taken {s : Gpio} {port pin : Int} (hrange : outOfRange port pin = false)
    (howner : s.usage (pinEntry port pin) ≠ 0) (func : Gpio → Int → Int → Int → Gpio × Int) :
    portIocCall s port pin func = (s, eBusy) := by
  simp [portIocCall, danubePortReservePin_taken hrange howner, eBusy]

theorem GpioCall.exec_denied {s : Gpio} {c : GpioCall} (hrange : outOfRange c.port c.pin = false)
    (howner : s.usage (pinEntry c.port c.pin) ≠ c.caller)
    (htaken : c.op.reserves = true → s.usage (pinEntry c.port c.pin) ≠ 0) :
    c.exec s = (s, eBusy) := by
  unfold GpioCall.exec
  unfold GpioCall.caller at howner
  cases hop : c.op with
  | reserve =>
    rw [hop] at htaken
    exact danubePortReservePin_taken hrange (htaken rfl) _
  | free =>
    rw [hop] at howner
    exact withPin_denied hrange howner _
  | change setting value =>
    rw [hop] at howner
    exact PinSetting.func_denied hrange howner setting value
  | getInput =>
    rw [hop] at howner
    exact withPin_denied hrange howner _
  | iocChange setting value =>
    rw [hop] at htaken
    exact portIocCall_taken hrange (htaken rfl) _
  | iocInput =>
    rw [hop] at htaken howner
    have hreserve := danubePortReservePin_taken hrange (htaken rfl) portModuleId
    have hfree : danubePortFreePin s c.port c.pin portModuleId = (s, eBusy) :=
      withPin_denied hrange howner _
    simp only [portIocInput, hreserve, hfree]

theorem eBusy_ne_eInval : eBusy ≠ eInval := by decide

theorem ok_ne_eInval : (0 : Int) ≠ eInval := by decide

theorem withPin_code {s : Gpio} {port pin moduleId : Int} (hrange : outOfRange port pin = false)
    {body : Gpio × Int} (hbody : body.2 ≠ eInval) : (withPin s port pin moduleId body).2 ≠ eInval := by
  unfold withPin
  rw [hrange]
  simp only [Bool.false_eq_true, ↓reduceIte]
  split
  · exact eBusy_ne_eInval
  · exact hbody

theorem danubePortFreePin_code {port pin : Int} (hrange : outOfRange port pin = false) (s : Gpio)
    (moduleId : Int) : (danubePortFreePin s port pin moduleId).2 ≠ eInval :=
  withPin_code hrange ok_ne_eInval

theorem danubePortReservePin_code {port pin : Int} (hrange : outOfRange port pin = false) (s : Gpio)
    (moduleId : Int) : (danubePortReservePin s port pin moduleId).2 ≠ eInval := by
  unfold danubePortReservePin
  rw [hrange]
  simp only [Bool.false_eq_true, ↓reduceIte]
  split
  · exact ok_ne_eInval
  · exact eBusy_ne_eInval

theorem PinSetting.func_code {port pin : Int} (hrange : outOfRange port pin = false)
    (setting : PinSetting) (value : Bool) (s : Gpio) (moduleId : Int) :
    (setting.func value s port pin moduleId).2 ≠ eInval := by
  rw [setting.func_eq]
  cases value with
  | false => exact withPin_code hrange ok_ne_eInval
  | true => exact withPin_code hrange ok_ne_eInval

theorem GpioCall.exec_code {c : GpioCall} (hrange : outOfRange c.port c.pin = false) (s : Gpio) :
    (c.exec s).2 ≠ eInval := by
  unfold GpioCall.exec
  cases c.op with
  | reserve => exact danubePortReservePin_code hrange s _
  | free => exact danubePortFreePin_code hrange s _
  | change setting value => exact setting.func_code hrange value s _
  | getInput =>
    apply withPin_code hrange
    dsimp only
    split <;> decide
  | iocChange setting value =>
    dsimp only [portIocCall]
    split_ifs
    · exact danubePortFreePin_code hrange _ _
    · exact setting.func_code hrange value _ _
    · exact danubePortReservePin_code hrange s _
  | iocInput => exact danubePortFreePin_code hrange _ _

theorem withPin_outOfRange {s : Gpio} {port pin : Int} (hrange : outOfRange port pin = true)
    (moduleId : Int) (body : Gpio × Int) : withPin s port pin moduleId body = (s, eInval) := by
  simp [withPin, hrange]

theorem GpioCall.exec_outOfRange {c : GpioCall} (hrange : outOfRange c.port c.pin = true) (s : Gpio) :
    c.exec s = (s, eInval) := by
  have hreserve : ∀ moduleId, danubePortReservePin s c.port c.pin moduleId = (s, eInval) := by
    intro moduleId
    simp [danubePortReservePin, hrange]
  unfold GpioCall.exec
  cases c.op with
  | reserve => exact hreserve _
  | free => exact withPin_outOfRange hrange _ _
  | change setting value =>
    dsimp only
    rw [setting.func_eq]
    cases value with
    | false => exact withPin_outOfRange hrange _ _
    | true => exact withPin_outOfRange hrange _ _
  | getInput => exact withPin_outOfRange hrange _ _
  | iocChange setting value => simp [portIocCall, hreserve, eInval]
  | iocInput =>
    have hfree : danubePortFreePin s c.port c.pin portModuleId = (s, eInval) :=
      withPin_outOfRange hrange _ _
    simp only [portIocInput, hreserve, hfree]

theorem Gpio.owner_eq {s : Gpio} {c : GpioCall} {port pin : Nat} (hat : c.At port pin) :
    s.usage (pinEntry c.port c.pin) = s.owner port pin := by
  rw [hat.1, hat.2, pinEntry_natCast]
  rfl

/-- A call is as it may be exactly unless it slips through the range tests. -/
theorem gpioStepOk_iff (s : Gpio) (c : GpioCall) :
    (c.Exists ∨ outOfRange c.port c.pin = true) ↔ GpioStepOk s c := by
  constructor
  · rintro (hexists | hout)
    · have hrange := hexists.inRange
      obtain ⟨p, hp, q, hq, hat⟩ := hexists
      refine ⟨fun h => absurd ⟨p, hp, q, hq, hat⟩ h, ?_, ?_⟩
      · intro port hport pin hpin hne
        have hpin' : port = p ∧ pin = q := by
          by_contra hother
          exact hne (c.exec_only hp hq hat s port hport pin hpin (by omega))
        obtain ⟨rfl, rfl⟩ := hpin'
        refine ⟨hat, ?_⟩
        rw [← Gpio.owner_eq hat]
        by_contra hright
        push Not at hright
        have hdenied := GpioCall.exec_denied hrange hright.1 fun h h0 => hright.2 h0 h
        exact hne (by rw [hdenied])
      · intro hop hcode
        refine ⟨p, hp, q, hq, hat, ?_⟩
        by_contra howner
        rw [← Gpio.owner_eq hat] at howner
        have hdenied : c.exec s = (s, eBusy) := by
          apply GpioCall.exec_denied hrange
          · simpa [GpioCall.caller, hop] using howner
          · simp [hop, GpioOp.reserves]
        rw [hdenied] at hcode
        have hneg : ¬ 0 ≤ eBusy := by decide
        exact hneg hcode
    · have hexec := GpioCall.exec_outOfRange hout s
      refine ⟨fun _ => hexec, ?_, ?_⟩
      · intro port _ pin _ hne
        rw [hexec] at hne
        exact absurd rfl hne
      · intro _ hcode
        rw [hexec] at hcode
        have hneg : ¬ 0 ≤ eInval := by decide
        exact absurd hcode hneg
  · intro hok
    by_contra hslip
    push Not at hslip
    have hrange : outOfRange c.port c.pin = false := by simpa using hslip.2
    have hcode := GpioCall.exec_code hrange s
    rw [hok.refused hslip.1] at hcode
    exact hcode rfl

/-- A call by another module leaves an owned pin. -/
theorem GpioStepOk.kept {s : Gpio} {c : GpioCall} (h : GpioStepOk s c) {port pin : Nat}
    (hport : port < maxPorts) (hpin : pin < pinsPerPort) (howner : s.owner port pin ≠ 0)
    (hcaller : c.caller ≠ s.owner port pin) : (c.exec s).1.pin port pin = s.pin port pin := by
  by_contra hne
  obtain ⟨_, heq | ⟨hfree, _⟩⟩ := h.frame port hport pin hpin hne
  · exact hcaller heq.symm
  · exact howner hfree

theorem gpioRun_kept {s : Gpio} {cs : List GpioCall}
    (hcs : ∀ c ∈ cs, c.Exists ∨ outOfRange c.port c.pin = true) {port pin : Nat}
    (hport : port < maxPorts) (hpin : pin < pinsPerPort) (howner : s.owner port pin ≠ 0)
    (hcaller : ∀ c ∈ cs, c.caller ≠ s.owner port pin) :
    (gpioRun s cs).pin port pin = s.pin port pin := by
  induction cs generalizing s with
  | nil => rfl
  | cons c cs ih =>
    have hok := (gpioStepOk_iff s c).mp (hcs c List.mem_cons_self)
    have hstep := hok.kept hport hpin howner (hcaller c List.mem_cons_self)
    have howner' : (c.exec s).1.owner port pin = s.owner port pin := congrArg Prod.fst hstep
    have hrest := @ih (c.exec s).1 (fun d hd => hcs d (List.mem_cons_of_mem c hd))
      (by rw [howner']; exact howner)
      (fun d hd => by rw [howner']; exact hcaller d (List.mem_cons_of_mem c hd))
    exact hrest.trans hstep

/-- Pins are exclusive along a sequence of calls exactly when none of them is about a port or pin just
past the end. -/
theorem gpio_exclusive_iff (s : Gpio) (cs : List GpioCall) :
    (∀ c ∈ cs, c.Exists ∨ outOfRange c.port c.pin = true) ↔ GpioRunOk s cs := by
  constructor
  · intro hcs
    refine ⟨?_, ?_⟩
    · rintro pre c post rfl
      exact (gpioStepOk_iff _ c).mp (hcs c (by simp))
    · rintro pre mid post rfl port hport pin hpin howner hcaller
      have hmid := gpioRun_kept (fun c hc => hcs c (by simp [hc])) hport hpin howner hcaller
      rwa [gpioRun, List.foldl_append]
  · intro h c hc
    obtain ⟨pre, post, rfl⟩ := List.append_of_mem hc
    exact (gpioStepOk_iff _ c).mpr (h.steps pre c post rfl)

/-- Module 5 reserves pin 16 of port 0 and owns pin 0 of port 1 thereby. -/
theorem gpio_pin_sixteen_aliases :
    ∃ s : Gpio, s.owner 1 0 = 0 ∧ (GpioCall.exec s ⟨.reserve, 0, 16, 5⟩).2 = 0 ∧
      (GpioCall.exec s ⟨.reserve, 0, 16, 5⟩).1.owner 1 0 = 5 ∧
      ¬ GpioRunOk s [⟨.reserve, 0, 16, 5⟩] := by
  refine ⟨⟨fun _ => 0, 0, fun _ => 0#32⟩, rfl, rfl, rfl, ?_⟩
  intro h
  have hrefused := (h.steps [] _ [] rfl).refused (by
    rintro ⟨_, _, pin, hpin, _, hq⟩
    have hsixteen : (16 : Int) = pin := hq
    simp only [pinsPerPort] at hpin
    omega)
  exact absurd (congrArg Prod.snd hrefused) (by decide)

end DanubeBsp
