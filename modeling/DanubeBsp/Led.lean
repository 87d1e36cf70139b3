import DanubeBsp.Gpio
import DanubeBsp.Gptu

namespace DanubeBsp

/-- `struct led_config_param`. -/
structure LedConfigParam where
  operationMask : Word
  led : Word := 0
  source : Word := 0
  blinkMask : Word := 0
  blink : Word := 0
  updateClock : Word := 0
  fpid : Word := 0
  storeMode : Word := 0
  fpis : Word := 0
  dataOffset : Word := 0
  numberOfEnabledLed : Word := 0
  dataMask : Word := 0
  data : Word := 0
  mips0AccessMask : Word := 0
  mips0Access : Word := 0
  fDataClockOnRising : Word := 0
  deriving DecidableEq

def configOperationUpdateSource : Word := 0x0001#32

def configOperationBlink : Word := 0x0002#32

def configOperationUpdateClock : Word := 0x0004#32

def configOperationStoreMode : Word := 0x0008#32

def configOperationShiftClock : Word := 0x0010#32

def configOperationDataOffset : Word := 0x0020#32

def configOperationNumberOfLed : Word := 0x0040#32

def configOperationData : Word := 0x0080#32

def configOperationMips0Access : Word := 0x0100#32

def configDataClockEdge : Word := 0x0200#32

/-- The operation is selected in `operation_mask`. -/
def LedConfigParam.has (param : LedConfigParam) (op : Word) : Bool :=
  param.operationMask &&& op != 0

/-- `SET_BITS`. -/
def setBits (x : Word) (msb lsb : Nat) (value : Word) : Word :=
  (x &&& ~~~(((1#32 <<< (msb + 1)) - 1) ^^^ ((1#32 <<< lsb) - 1))) |||
    ((value &&& ((1#32 <<< (1 + msb - lsb)) - 1)) <<< lsb)

def setUpdateSource (reg led source : Word) : Word :=
  (reg &&& ~~~((led &&& 0x03#32) <<< 24)) ||| ((source &&& 0x03#32) <<< 24)

def setBlinkInBatch (reg mask blink : Word) : Word :=
  (reg &&& ~~~((mask &&& 0x00ffffff#32) ||| 0x87000000#32)) ||| (blink &&& 0x00ffffff#32)

def setDataClockEdge (reg fOnRisingEdge : Word) : Word :=
  if fOnRisingEdge ≠ 0 then reg &&& ~~~(1#32 <<< 26) else reg ||| (1#32 <<< 26)

def setUpdateClock (reg clock fpid : Word) : Word :=
  if clock = 0 then reg &&& ~~~0xc0000000#32
  else if clock = 1 then (reg &&& ~~~0xc0000000#32) ||| 0x40000000#32
  else if clock = 2 then
    (reg &&& ~~~0xcf800000#32) ||| 0x80000000#32 ||| ((fpid &&& 0x1f#32) <<< 23)
  else reg

def setStoreMode (reg mode : Word) : Word :=
  if mode ≠ 0 then reg ||| (1#32 <<< 28) else reg &&& ~~~(1#32 <<< 28)

def setShiftClock (reg fpis : Word) : Word := setBits reg 21 20 fpis

def setDataOffset (reg offset : Word) : Word := setBits reg 19 18 offset

def setNumberOfEnabledLed (reg number : Word) : Word :=
  let bitMask : Word :=
    if 16#32 < number then 0x07#32 else if 8#32 < number then 0x03#32
    else if number ≠ 0 then 0x01#32 else 0x00#32
  (reg &&& ~~~0x07#32) ||| bitMask

def setDataInBatch (reg mask data : Word) : Word :=
  (reg &&& ~~~(mask &&& 0x00ffffff#32)) ||| (data &&& 0x00ffffff#32)

def setAccessRight (reg mask ar : Word) : Word :=
  (reg &&& ~~~(mask &&& 0x00ffffff#32)) ||| (~~~ar &&& mask)

/-- The registers and the static variables of the driver. `powered` is the state of the module in the
PMU. -/
structure LedDev where
  con0 : Word
  con1 : Word
  cpu0 : Word
  ar : Word
  gptOn : Bool
  gptFreq : Word
  adslOn : Word
  fLedOn : Bool
  powered : Bool

/-- `LED_CON1_US`. -/
def LedDev.us (d : LedDev) : Word := d.con1 >>> 30

/-- No test of `danube_led_config` goes to `INVALID_PARAM`; nothing is changed before the last test. -/
def LedConfigParam.valid (param : LedConfigParam) : Bool :=
  !(param.has configOperationUpdateSource &&
      (decide (0x03#32 < param.led) || decide (0x03#32 < param.source))) &&
  !(param.has configOperationBlink &&
      (param.blinkMask &&& 0xff000000#32 != 0 || param.blink &&& 0xff000000#32 != 0)) &&
  !(param.has configOperationUpdateClock &&
      (decide (0x02#32 < param.updateClock) ||
        (param.updateClock == 0x02#32 && decide (0x03#32 < param.fpid)))) &&
  !(param.has configOperationShiftClock && decide (0x03#32 < param.fpis)) &&
  !(param.has configOperationDataOffset && decide (0x03#32 < param.dataOffset)) &&
  !(param.has configOperationNumberOfLed && decide (0x24#32 < param.numberOfEnabledLed)) &&
  !(param.has configOperationData &&
      (param.dataMask &&& 0xff000000#32 != 0 || param.data &&& 0xff000000#32 != 0)) &&
  !(param.has configOperationMips0Access &&
      (param.mips0AccessMask &&& 0xff000000#32 != 0 || param.mips0Access &&& 0xff000000#32 != 0))

/-- `f_setup_gpt2`. -/
def LedConfigParam.setupGpt2 (param : LedConfigParam) : Bool :=
  param.has configOperationUpdateClock && param.updateClock == 0x01#32

/-- `new_adsl_on`. -/
def LedDev.newAdslOn (d : LedDev) (param : LedConfigParam) : Word :=
  if param.has configOperationUpdateSource then param.source else d.adslOn

/-- `new_led_on`, which is set for any ADSL source. -/
def LedDev.newLedOn (d : LedDev) (param : LedConfigParam) : Bool :=
  d.newAdslOn param != 0 ||
    if param.has configOperationNumberOfLed then param.numberOfEnabledLed != 0 else d.fLedOn

/-- `f_software_update`. -/
def LedDev.softwareUpdate (d : LedDev) (param : LedConfigParam) : Bool :=
  if param.has configOperationUpdateClock then param.updateClock == 0
  else d.con0 &&& (1#32 <<< 31) == 0

def LedDev.newCon0 (d : LedDev) (param : LedConfigParam) : Word :=
  let reg := d.con0
  let reg := if param.has configOperationUpdateSource
    then setUpdateSource reg param.led param.source else reg
  let reg := if param.has configOperationBlink
    then setBlinkInBatch reg param.blinkMask param.blink else reg
  let reg := if param.has configDataClockEdge
    then setDataClockEdge reg param.fDataClockOnRising else reg
  if param.has configOperationData && d.softwareUpdate param then reg ||| 0x80000000#32 else reg

def LedDev.newCon1 (d : LedDev) (param : LedConfigParam) : Word :=
  let reg := d.con1
  let reg := if param.has configOperationUpdateClock
    then setUpdateClock reg param.updateClock param.fpid else reg
  let reg := if param.has configOperationStoreMode then setStoreMode reg param.storeMode else reg
  let reg := if param.has configOperationShiftClock then setShiftClock reg param.fpis else reg
  let reg := if param.has configOperationDataOffset then setDataOffset reg param.dataOffset else reg
  if param.has configOperationNumberOfLed
  then setNumberOfEnabledLed reg param.numberOfEnabledLed else reg

def LedDev.newCpu0 (d : LedDev) (param : LedConfigParam) : Word :=
  if param.has configOperationData then setDataInBatch d.cpu0 param.dataMask param.data else d.cpu0

def LedDev.newAr (d : LedDev) (param : LedConfigParam) : Word :=
  if param.has configOperationMips0Access
  then setAccessRight d.ar param.mips0AccessMask param.mips0Access else d.ar

/-- A pin of port 0 with the settings that `setup_gpio_port` makes. -/
structure LedPin where
  pin : Int
  altsel0 : Bool
  altsel1 : Bool
  dir : Bool
  openDrain : Bool

/-- `LED_ADSL0`, `LED_ADSL1`. -/
def ledAdslPins : List LedPin := [⟨4, false, true, true, true⟩, ⟨5, true, true, true, true⟩]

/-- `LED_ST`, `LED_D`, `LED_SH`. -/
def ledShiftPins : List LedPin :=
  [⟨6, true, false, true, true⟩, ⟨5, true, false, true, true⟩, ⟨4, true, false, true, true⟩]

def ledPins (adsl : Word) : List LedPin := if adsl ≠ 0 then ledAdslPins else ledShiftPins

/-- What the driver finds on its board: the bus clock, the tasks, and the number that it is known by to
the port driver, which is `THIS_MODULE` or made of the major number 10. -/
structure LedBoard where
  fpiBusClock : Word
  findTaskByPid : Word → Word
  moduleId : Int
  moduleId_ne_zero : moduleId ≠ 0
  moduleId_ne_port : moduleId ≠ portModuleId

/-- Which services refuse a call whatever their state is, and the enable bit that `free_timer` reads. -/
structure LedServices where
  refuseSetTimer : Bool := false
  refuseStartTimer : Bool := false
  refusePin : Int → Bool := fun _ => false
  timerEnabled : Bool := true

/-- The driver with the timer and the port drivers. `mine` is the timer that it holds, `foreign` is set
when it has released what it does not hold, `reqFreq` is the frequency of the last accepted request for
the timer as the update clock. -/
structure LedSys where
  led : LedDev
  gptu : GptuSys
  gpio : Gpio
  mine : Option TimerAlloc
  foreign : Bool
  reqFreq : Word

/-- The value that a timer call returns. -/
def GptuResult.ret : GptuResult → Int
  | .ok ret => ret
  | .einval => eInval
  | .ebusy => eBusy

/-- `TIMER(n, X)`. -/
def timerIndex (n : Nat) (x : Bool) : Nat := n * 2 + if x then 1 else 0

section Board

variable (board : LedBoard)

def LedSys.timerCall (s : LedSys) (c : GptuCall) : LedSys × GptuResult :=
  let r := s.gptu.call board.findTaskByPid c
  ({ s with gptu := r.1 }, r.2)

/-- `free_timer` as this driver calls it. -/
def LedSys.freeTimer (s : LedSys) (timer : Nat) (o : LedServices) : LedSys :=
  let r := s.timerCall board (.free timer o.timerEnabled)
  if r.2.ret ≠ 0 then r.1
  else if s.mine.any (·.covers timer) then { r.1 with mine := none }
  else { r.1 with foreign := true }

/-- `set_timer` as this driver calls it: what is granted heads the books. -/
def LedSys.setTimer (s : LedSys) (timer : Nat) (freq : Word) (o : LedServices) : LedSys × Int :=
  if o.refuseSetTimer then (s, eBusy)
  else
    let r := s.gptu.setTimer board.findTaskByPid board.fpiBusClock timer freq true false
      timerFlagNoHandle 0 0
    if r.2.ret ≠ 0 then ({ s with gptu := r.1 }, r.2.ret)
    else ({ s with gptu := r.1, mine := r.1.live.head? }, 0)

def LedSys.startTimer (s : LedSys) (timer : Nat) (o : LedServices) : LedSys × Int :=
  if o.refuseStartTimer then (s, eBusy)
  else
    let r := s.timerCall board (.start timer false)
    (r.1, r.2.ret)

def LedSys.setupGpt (s : LedSys) (timer : Nat) (freq : Word) (o : LedServices) : LedSys × Int :=
  let timer := timerIndex timer true
  let r := s.setTimer board timer freq o
  if r.2 ≠ 0 then r
  else
    let r := r.1.startTimer board timer o
    if r.2 ≠ 0 then (r.1.freeTimer board timer o, r.2) else r

def LedSys.releaseGpt (s : LedSys) (timer : Nat) (o : LedServices) : LedSys :=
  let timer := timerIndex timer false
  (s.timerCall board (.stop timer)).1.freeTimer board timer o

/-- `port_free_pin` on a pin of port 0. -/
def LedSys.freePin (s : LedSys) (pin : Int) : LedSys :=
  let r := danubePortFreePin s.gpio 0 pin board.moduleId
  { s with
    gpio := r.1
    foreign := s.foreign || decide (r.2 = 0 ∧ s.gpio.usage (pinEntry 0 pin) ≠ board.moduleId) }

/-- `port_reserve_pin` on a pin of port 0. -/
def LedSys.reservePin (s : LedSys) (pin : Int) (o : LedServices) : LedSys × Int :=
  if o.refusePin pin then (s, eBusy)
  else
    let r := danubePortReservePin s.gpio 0 pin board.moduleId
    ({ s with gpio := r.1 }, r.2)

def LedSys.releaseGpioPort (s : LedSys) (adsl : Word) : LedSys :=
  (ledPins adsl).foldl (fun s p => s.freePin board p.pin) s

/-- All pins are reserved before one error is looked at; the only error of a pin of port 0 is
`-EBUSY`, and so is `ret |= ..` of several. -/
def LedSys.reservePins (s : LedSys) (pins : List LedPin) (o : LedServices) : LedSys × Int :=
  pins.foldl
    (fun r p =>
      let q := r.1.reservePin board p.pin o
      (q.1, if q.2 ≠ 0 then q.2 else r.2))
    (s, 0)

/-- The settings of a reserved pin. -/
def LedSys.setupPin (s : LedSys) (p : LedPin) : LedSys :=
  let gpio := s.gpio
  let gpio := (PinSetting.altsel0.func p.altsel0 gpio 0 p.pin board.moduleId).1
  let gpio := (PinSetting.altsel1.func p.altsel1 gpio 0 p.pin board.moduleId).1
  let gpio := (PinSetting.dir.func p.dir gpio 0 p.pin board.moduleId).1
  let gpio := (PinSetting.openDrain.func p.openDrain gpio 0 p.pin board.moduleId).1
  { s with gpio }

def LedSys.setupGpioPort (s : LedSys) (adsl : Word) (o : LedServices) : LedSys × Int :=
  let r := s.reservePins board (ledPins adsl) o
  if r.2 ≠ 0 then (r.1.releaseGpioPort board adsl, r.2)
  else ((ledPins adsl).foldl (fun s p => s.setupPin board p) r.1, 0)

def LedSys.turnOnLed (s : LedSys) (adsl : Word) (o : LedServices) : LedSys × Int :=
  let r := s.setupGpioPort board adsl o
  if r.2 ≠ 0 then r else ({ r.1 with led.powered := true }, 0)

def LedSys.turnOffLed (s : LedSys) (adsl : Word) : LedSys :=
  { s.releaseGpioPort board adsl with led.powered := false }

/-- The part "Setup GPT" of `danube_led_config`. -/
def LedSys.configGpt (s : LedSys) (param : LedConfigParam) (o : LedServices) : LedSys × Int :=
  if param.setupGpt2 && s.led.newAdslOn param == 0 then
    let r :=
      if s.led.gptOn then
        if s.led.gptFreq ≠ param.fpid then
          LedSys.setupGpt board { s.releaseGpt board 2 o with led.gptOn := false } 2 param.fpid o
        else (s, 0)
      else s.setupGpt board 2 param.fpid o
    if r.2 ≠ 0 then r else ({ r.1 with led.gptOn := true }, 0)
  else if s.led.gptOn then ({ s.releaseGpt board 2 o with led.gptOn := false }, 0)
  else (s, 0)

/-- The part "Turn on LED" of `danube_led_config`. -/
def LedSys.configPins (s : LedSys) (newLedOn : Bool) (newAdslOn : Word) (o : LedServices) :
    LedSys × Int :=
  let s :=
    if !newLedOn || s.led.adslOn != newAdslOn then
      { s.turnOffLed board s.led.adslOn with led.fLedOn := false, led.adslOn := 0 }
    else s
  if !s.led.fLedOn && newLedOn then
    let r := s.turnOnLed board newAdslOn o
    if r.2 ≠ 0 then r else ({ r.1 with led.adslOn := newAdslOn, led.fLedOn := true }, 0)
  else (s, 0)

/-- The part "Write Register" of `danube_led_config`, with the values made from the registers at the
start of the call; a register that no operation is about gets the value that it has. -/
def LedSys.writeRegisters (s : LedSys) (d : LedDev) (param : LedConfigParam) : LedSys :=
  { s with
    led.ar := d.newAr param
    led.cpu0 := d.newCpu0 param
    led.con1 := d.newCon1 param
    led.con0 := d.newCon0 param
    led.powered := s.led.fLedOn && s.led.powered
    reqFreq := if param.setupGpt2 then param.fpid else s.reqFreq }

/-- `danube_led_config`; no parameter is the null pointer. -/
def danubeLedConfig (s : LedSys) (param : Option LedConfigParam) (o : LedServices) :
    LedSys × Int :=
  match param with
  | none => (s, eInval)
  | some param =>
    if !param.valid then (s, eInval)
    else
      let r := s.configGpt board param o
      if r.2 ≠ 0 then r
      else
        let q := r.1.configPins board (s.led.newLedOn param) (s.led.newAdslOn param) o
        if q.2 ≠ 0 then ({ q.1.releaseGpt board 2 o with led.gptOn := false }, q.2)
        else (q.1.writeRegisters s.led param, 0)

end Board

/-- A call of another driver, or user, that works on an allocated timer. -/
def GptuCall.touches (c : GptuCall) (a : TimerAlloc) : Bool :=
  match c with
  | .free timer _ | .start timer _ | .stop timer => a.covers timer
  | .request .. | .getCount .. => false

/-- A call of the driver, or a call of another user of the timers or of the pins. -/
inductive LedEvent
  | config (param : Option LedConfigParam) (o : LedServices)
  | timer (c : GptuCall)
  | pin (c : GpioCall)

/-- The other users keep off the timer of the driver, and call the port driver under their own number. -/
def ledStep (board : LedBoard) (s : LedSys) : LedEvent → Option LedSys
  | .config param o => some (danubeLedConfig board s param o).1
  | .timer c => if s.mine.any (c.touches ·) then none else some (s.timerCall board c).1
  | .pin c =>
    if c.caller = board.moduleId then none else some { s with gpio := (c.exec s.gpio).1 }

/-- `danube_led_init` up to its first call of `danube_led_config`, with all timers and pins free. -/
def ledStart (cfg : Fin 8) (behindBases : Nat) (regs : Nat → Word) : LedSys where
  led := ⟨0x84000000#32, 0, 0, 0, false, 0, 0, false, false⟩
  gptu := ⟨gptuInit cfg, []⟩
  gpio := ⟨fun _ => 0, behindBases, regs⟩
  mine := none
  foreign := false
  reqFreq := 0

end DanubeBsp
