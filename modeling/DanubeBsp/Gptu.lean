import DanubeBsp.Runs
import DanubeBsp.WordBits

namespace DanubeBsp

def firstTimer : Nat := 2

def maxNumOf32bitTimerBlocks : Nat := 6

/-- `INT_NUM_IM3_IRL22`. -/
def timerInterrupt : Nat := 118

/-- `TIMER_FLAG_MASK_SIZE(flag) == TIMER_FLAG_16BIT`. -/
def is16bit (flag : Word) : Bool := flag &&& 0x0001#32 == 0

def timerFlagMaskHandle (flag : Word) : Word := flag &&& 0x0300#32

def timerFlagNoHandle : Word := 0x0000#32

def timerFlagCallbackInIrq : Word := 0x0100#32

def timerFlagSignal : Word := 0x0300#32

structure TimerDevTimer where
  fIrqOn : Bool
  irq : Nat
  flag : Word
  arg1 : Word
  arg2 : Word

/-- `timer_dev` with the registers of the unit, indexed by block and half, and the numbers of
`enable_irq` and `disable_irq` calls for each interrupt. -/
structure TimerDev where
  numberOfTimers : Nat
  occupation : Word
  fGptuOn : Bool
  timer : Nat → TimerDevTimer
  clc : Word
  con : Nat × Nat → Word
  reload : Nat × Nat → Word
  runReg : Nat × Nat → Word
  irnen : Word
  enables : Nat → Nat
  disables : Nat → Nat

inductive GptuResult
  | ok (ret : Nat)
  | einval
  | ebusy
  deriving DecidableEq

/-- The bits of a 16-bit or 32-bit timer in `occupation`. -/
def timerMask (flag : Word) (timer : Nat) : Word :=
  (if is16bit flag then 1#32 else 3#32) <<< timer

/-- `timer &= ~0x01` for a 32-bit timer. -/
def timerBase (flag : Word) (timer : Nat) : Nat :=
  if is16bit flag then timer else timer - timer % 2

def timerReg (timer : Nat) : Nat × Nat := (timer / 2, timer % 2)

def conReg (flag : Word) : Word :=
  let edge : Word :=
    if flag &&& 0x0030#32 = 0x0010#32 then 0x01#32 <<< 6
    else if flag &&& 0x0030#32 = 0x0020#32 then 0x02#32 <<< 6
    else if flag &&& 0x0030#32 = 0x0030#32 then 0x03#32 <<< 6
    else 0#32
  let src : Word :=
    if flag &&& 0x0002#32 = 0 then (if flag &&& 0x1000#32 = 0x1000#32 then 1#32 <<< 9 else 0#32)
    else (if flag &&& 0x1000#32 = 0x1000#32 then 0#32 else 1#32 <<< 10)
  let sync : Word := if flag &&& 0x0080#32 = 0 then 0#32 else 1#32 <<< 8
  let inv : Word := if flag &&& 0x0040#32 = 0 then 0#32 else 1#32 <<< 5
  let ext : Word := if is16bit flag then 0#32 else 1#32 <<< 4
  let stp : Word := if flag &&& 0x0004#32 = 0 then 1#32 <<< 3 else 0#32
  let cnt : Word := if flag &&& 0x0002#32 = 0 then 0#32 else 1#32 <<< 2
  let dir : Word := if flag &&& 0x0008#32 = 0 then 1#32 <<< 1 else 0#32
  edge ||| src ||| sync ||| inv ||| ext ||| stp ||| cnt ||| dir

def enableGptu (dev : TimerDev) : TimerDev := { dev with clc := 0x110#32 }

def disableGptu (dev : TimerDev) : TimerDev := { dev with irnen := 0#32, clc := 0x001#32 }

/-- The search loop of `request_timer`: single timers or aligned pairs, lowest first. -/
def pickTimer (dev : TimerDev) (flag : Word) : Option Nat :=
  let shift := if is16bit flag then 1 else 2
  (List.range' firstTimer ((dev.numberOfTimers + shift - 1) / shift) shift).find? fun timer =>
    dev.occupation &&& timerMask flag timer == 0

/-- The allocation part of `request_timer`: the timer with the return value. -/
def allocTimer (dev : TimerDev) (timer : Nat) (flag : Word) : Option (Nat × Nat) :=
  if timer < firstTimer then (pickTimer dev flag).map fun timer => (timer, timer)
  else if dev.occupation &&& timerMask flag timer ≠ 0 then none
  else some (timer, 0)

def fillTimer (dev : TimerDev) (timer : Nat) (flag arg1 arg2 : Word) : TimerDev :=
  let i := timer - firstTimer
  let table := Function.update dev.timer i { dev.timer i with flag, arg1, arg2 }
  let table := if is16bit flag then table
    else Function.update table (i + 1) { table (i + 1) with flag }
  { dev with
    occupation := dev.occupation ||| timerMask flag timer
    timer := table }

def gptuOn (dev : TimerDev) : TimerDev :=
  if dev.fGptuOn then dev else { enableGptu dev with fGptuOn := true }

/-- The interrupt part of `request_timer` with the value for `IRNEN`. -/
def enableTimerIrq (findTaskByPid : Word → Word) (dev : TimerDev) (timer : Nat)
    (flag arg1 : Word) : TimerDev × Word :=
  let i := timer - firstTimer
  if timerFlagMaskHandle flag ≠ timerFlagNoHandle then
    let entry := dev.timer i
    let entry := if timerFlagMaskHandle flag = timerFlagSignal
      then { entry with arg1 := findTaskByPid arg1 } else entry
    if timerFlagMaskHandle flag = timerFlagSignal ∨
        (timerFlagMaskHandle flag = timerFlagCallbackInIrq ∧ entry.arg1 ≠ 0) then
      ({ dev with
        timer := Function.update dev.timer i { entry with fIrqOn := true }
        enables := Function.update dev.enables entry.irq (dev.enables entry.irq + 1) }, 1#32 <<< i)
    else ({ dev with timer := Function.update dev.timer i entry }, 1#32 <<< i)
  else (dev, 0)

def requestTimer (findTaskByPid : Word → Word) (dev : TimerDev) (timer : Nat)
    (flag value arg1 arg2 : Word) : GptuResult × TimerDev :=
  if timer ≥ firstTimer + dev.numberOfTimers then (.einval, dev)
  else
    let value := if is16bit flag then value &&& 0xffff#32 else value
    match allocTimer dev (timerBase flag timer) flag with
    | none => (.ebusy, dev)
    | some (timer, ret) =>
      let dev := gptuOn (fillTimer dev timer flag arg1 arg2)
      let (dev, irnenReg) := enableTimerIrq findTaskByPid dev timer flag arg1
      (.ok ret, { dev with
        con := Function.update dev.con (timerReg timer) (conReg flag)
        reload := Function.update dev.reload (timerReg timer) value
        irnen := dev.irnen ||| irnenReg })

/-- The checks that the calls on an allocated timer share: the timer they work on with its mask. -/
def occupiedTimer (dev : TimerDev) (timer : Nat) : Option (Nat × Word) :=
  if !dev.fGptuOn then none
  else if timer < firstTimer ∨ timer ≥ firstTimer + dev.numberOfTimers then none
  else
    let flag := (dev.timer (timer - firstTimer)).flag
    let timer := timerBase flag timer
    let mask := timerMask flag timer
    if (dev.occupation &&& mask) ^^^ mask ≠ 0 then none else some (timer, mask)

def disableTimerIrq (dev : TimerDev) (timer : Nat) : TimerDev :=
  let i := timer - firstTimer
  if (dev.timer i).fIrqOn then
    { dev with
      timer := Function.update dev.timer i { dev.timer i with fIrqOn := false }
      disables := Function.update dev.disables (dev.timer i).irq
        (dev.disables (dev.timer i).irq + 1) }
  else dev

def gptuOffIfUnused (dev : TimerDev) : TimerDev :=
  if dev.occupation = 0 ∧ dev.fGptuOn = true then { disableGptu dev with fGptuOn := false }
  else dev

/-- `free_timer`, with the enable bit that it finds in the control register. -/
def freeTimer (dev : TimerDev) (timer : Nat) (en : Bool) : GptuResult × TimerDev :=
  match occupiedTimer dev timer with
  | none => (.einval, dev)
  | some (timer, mask) =>
    let reg := timerReg timer
    let dev := { dev with
      runReg := if en then Function.update dev.runReg reg (1#32 <<< 1) else dev.runReg
      irnen := clearBit dev.irnen ((reg.1 - 1) * 2 + reg.2) }
    let dev := disableTimerIrq dev timer
    (.ok 0, gptuOffIfUnused { dev with occupation := dev.occupation &&& ~~~mask })

def startTimer (dev : TimerDev) (timer : Nat) (isResume : Bool) : GptuResult × TimerDev :=
  match occupiedTimer dev timer with
  | none => (.einval, dev)
  | some (timer, _) =>
    let rl : Word := if isResume then 0#32 else 1#32 <<< 2
    (.ok 0, { dev with
      runReg := Function.update dev.runReg (timerReg timer) (rl ||| (1#32 <<< 0)) })

def stopTimer (dev : TimerDev) (timer : Nat) : GptuResult × TimerDev :=
  match occupiedTimer dev timer with
  | none => (.einval, dev)
  | some (timer, _) =>
    (.ok 0, { dev with runReg := Function.update dev.runReg (timerReg timer) (1#32 <<< 1) })

/-- `get_count_value` with the count registers and the value that it stores. -/
def getCountValue (dev : TimerDev) (timer : Nat) (count : Nat × Nat → Word) :
    GptuResult × Option Word :=
  match occupiedTimer dev timer with
  | none => (.einval, none)
  | some (timer, _) => (.ok 0, some (count (timerReg timer)))

/-- The product of two words, the high word first. -/
def uint64Multiply (multiplier1 multiplier2 : Word) : Word × Word :=
  let low1 := multiplier1 &&& 0xffff#32
  let high1 := multiplier1 >>> 16
  let low2 := multiplier2 &&& 0xffff#32
  let high2 := multiplier2 >>> 16
  let combo1 := low1 * low2
  let combo2 := high1 * low2
  let combo3 := low1 * high2
  let combo4 := high1 * high2
  let word1 := combo1 &&& 0xffff#32
  let word2 := (combo1 >>> 16) + (combo2 &&& 0xffff#32) + (combo3 &&& 0xffff#32)
  let word3 := (combo2 >>> 16) + (combo3 >>> 16) + (combo4 &&& 0xffff#32) + (word2 >>> 16)
  let word4 := (combo4 >>> 16) + (word3 >>> 16)
  ((word4 <<< 16) ||| word3, (word2 <<< 16) ||| word1)

structure DivideState where
  dword1 : Word
  dword2 : Word
  dword3 : Word
  quotient : Word

/-- One turn of the loop of `uint64_divide`. -/
def DivideState.next (denominator : Word) (s : DivideState) : DivideState :=
  let dword3 := (s.dword3 <<< 1) ||| (s.dword2 >>> 31)
  let dword2 := (s.dword2 <<< 1) ||| (s.dword1 >>> 31)
  let dword1 := s.dword1 <<< 1
  let quotient := s.quotient <<< 1
  if denominator ≤ dword3 then ⟨dword1, dword2, dword3 - denominator, quotient ||| 1#32⟩
  else ⟨dword1, dword2, dword3, quotient⟩

/-- The quotient and the residue. -/
def uint64Divide (numerator : Word × Word) (denominator : Word) : Word × Word :=
  let s := (List.range 64).foldl (fun s _ => s.next denominator)
    (⟨numerator.2, numerator.1, 0, 0⟩ : DivideState)
  (s.quotient, s.dword3)

/-- `cal_divider` with the clock of the slow FPI bus; `clock_divider` is 1. -/
def calDivider (fpiBusClock freq : Word) : Word :=
  let (ret, residue) := uint64Divide (uint64Multiply fpiBusClock 1000) freq
  if residue <<< 1 < freq ∧ 0 < ret then ret - 1 else ret

def setTimerFlag (divider : Word) (isCyclic isExtSrc : Bool) (handleFlag : Word) : Word :=
  (if divider &&& ~~~0xffff#32 ≠ 0 then 0x0001#32 else 0) |||
    (if isCyclic then 0x0004#32 else 0) ||| (if isExtSrc then 0x1000#32 else 0) ||| 0x0008#32 |||
    timerFlagMaskHandle handleFlag

/-- `danube_gptu_init` with the configuration field of the ID register. -/
def gptuInit (cfg : Fin 8) : TimerDev :=
  let numberOfTimers := min (cfg.val * 2) (maxNumOf32bitTimerBlocks * 2)
  { numberOfTimers, occupation := 0, fGptuOn := false
    timer := fun i => ⟨false, if i < numberOfTimers then timerInterrupt + i else 0, 0, 0, 0⟩
    clc := 0x001#32, con := fun _ => 0, reload := fun _ => 0, runReg := fun _ => 0, irnen := 0
    enables := fun _ => 0
    disables := fun irq =>
      if timerInterrupt ≤ irq ∧ irq < timerInterrupt + numberOfTimers then 1 else 0 }

/-- What a successful `request_timer` hands out. -/
structure TimerAlloc where
  base : Nat
  is32 : Bool
  deriving DecidableEq

def TimerAlloc.covers (a : TimerAlloc) (timer : Nat) : Bool :=
  timer == a.base || (a.is32 && timer == a.base + 1)

structure GptuSys where
  dev : TimerDev
  live : List TimerAlloc

inductive GptuCall
  | request (timer : Nat) (flag value arg1 arg2 : Word)
  | free (timer : Nat) (en : Bool)
  | start (timer : Nat) (isResume : Bool)
  | stop (timer : Nat)
  | getCount (timer : Nat) (count : Nat × Nat → Word)

def gptuCall (findTaskByPid : Word → Word) (dev : TimerDev) : GptuCall → GptuResult × TimerDev
  | .request timer flag value arg1 arg2 => requestTimer findTaskByPid dev timer flag value arg1 arg2
  | .free timer en => freeTimer dev timer en
  | .start timer isResume => startTimer dev timer isResume
  | .stop timer => stopTimer dev timer
  | .getCount timer count => ((getCountValue dev timer count).1, dev)

/-- The callers' books: a request adds the timer that it was granted, the one it asked for when the
call returns 0; a free takes away what holds the given timer. -/
def liveAfter (live : List TimerAlloc) : GptuCall → GptuResult → List TimerAlloc
  | .request timer flag _ _ _, .ok ret =>
    ⟨if ret = 0 then timerBase flag timer else ret, !is16bit flag⟩ :: live
  | .free timer _, .ok _ => live.filter fun a => !a.covers timer
  | _, _ => live

def gptuStep (findTaskByPid : Word → Word) (s : GptuSys) (call : GptuCall) : Option GptuSys :=
  let (result, dev) := gptuCall findTaskByPid s.dev call
  some { dev, live := liveAfter s.live call result }

/-- A call with the callers' books. -/
def GptuSys.call (findTaskByPid : Word → Word) (s : GptuSys) (c : GptuCall) :
    GptuSys × GptuResult :=
  let (result, dev) := gptuCall findTaskByPid s.dev c
  (⟨dev, liveAfter s.live c result⟩, result)

def GptuSys.setTimer (findTaskByPid : Word → Word) (fpiBusClock : Word) (s : GptuSys)
    (timer : Nat) (freq : Word) (isCyclic isExtSrc : Bool) (handleFlag arg1 arg2 : Word) :
    GptuSys × GptuResult :=
  let divider := calDivider fpiBusClock freq
  if divider = 0 then (s, .einval)
  else s.call findTaskByPid
    (.request timer (setTimerFlag divider isCyclic isExtSrc handleFlag) divider arg1 arg2)

end DanubeBsp
