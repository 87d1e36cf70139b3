import DanubeBsp.Errno
import DanubeBsp.RegisterField
import DanubeBsp.Runs
import DanubeBsp.WordBits

namespace DanubeBsp

/-- The `_SET` macros of the control register: `width` bits of the value, moved to bit `lo`. -/
def fieldSet (width lo : Nat) (v : Word) : Word := (((1#32 <<< width) - 1) &&& v) <<< lo

/-- The `_GET` macros. -/
def fieldGet (width lo : Nat) (v : Word) : Word := (v >>> lo) &&& ((1#32 <<< width) - 1)

def wdtCrGen : Word := 1#32 <<< 31

def wdtCrDsen : Word := 1#32 <<< 30

def wdtCrLpen : Word := 1#32 <<< 29

def wdtCrPwlSet : Word → Word := fieldSet 2 26

def wdtCrClkdivSet : Word → Word := fieldSet 2 24

def wdtCrPwSet : Word → Word := fieldSet 8 16

def wdtCrReloadSet : Word → Word := fieldSet 16 0

def wdtPw1 : Word := 0xBE

def wdtPw2 : Word := 0xDC

/-- The control register. The password is only written, so it reads as zero; `unlocked` is set between
the two passwords, and `writes` are the stores to the register so far. -/
structure WdtReg where
  cr : Word
  unlocked : Bool
  writes : List Word

/-- The bits of the control register that are kept. -/
def wdtCrKept : Word := 0xef00ffff

/-- A store with the first password opens the register for one store with the second. -/
def WdtReg.store (r : WdtReg) (w : Word) : WdtReg :=
  let writes := r.writes ++ [w]
  if fieldGet 8 16 w = wdtPw1 then { r with unlocked := true, writes }
  else if r.unlocked ∧ fieldGet 8 16 w = wdtPw2 then ⟨w &&& wdtCrKept, false, writes⟩
  else { r with unlocked := false, writes }

/-- The C operator `!`. -/
def lnot (w : Word) : Word := if w = 0 then 1 else 0

def wdtClkdivVal (clkdiv : Word) : Word :=
  if clkdiv = 0 then 1 else if clkdiv = 1 then 64 else if clkdiv = 2 then 4096 else 262144

def wdtPwlVal (pwl : Word) : Word :=
  if pwl = 0 then 0x8000 else if pwl = 1 then 0x4000 else if pwl = 2 then 0x2000 else 0x1000

/-- `wdt_reload` for a timeout in seconds, at the clock `ffpi`. -/
def wdtReload (ffpi cr timeout : Word) : Word :=
  timeout * (ffpi / wdtClkdivVal (fieldGet 2 24 cr)) + wdtPwlVal (fieldGet 2 26 cr)

def wdtEnable (ffpi : Word) (r : WdtReg) (timeout : Word) : Int × WdtReg :=
  let clkdiv := fieldGet 2 24 r.cr
  let pwl := fieldGet 2 26 r.cr
  let reload := wdtReload ffpi r.cr timeout
  if reload > 0xffff then (eInval, r)
  else
    let r := r.store (wdtCrPwSet wdtPw1)
    let cr := r.cr &&& (lnot (wdtCrPwSet 0xff) &&& lnot (wdtCrPwlSet 0x3) &&&
      lnot (wdtCrClkdivSet 0x3) &&& lnot (wdtCrReloadSet 0xffff))
    let cr := cr ||| (wdtCrPwSet wdtPw2 ||| wdtCrPwlSet pwl ||| wdtCrClkdivSet clkdiv |||
      wdtCrReloadSet reload ||| wdtCrGen)
    (0, r.store cr)

def wdtDisable (r : WdtReg) : WdtReg :=
  (r.store (wdtCrPwSet wdtPw1)).store (wdtCrPwSet wdtPw2)

/-- `wdt_low_power` and `wdt_debug_suspend`, for their bit. -/
def wdtSwitch (bit : Word) (r : WdtReg) (en : Word) : WdtReg :=
  let r := r.store (wdtCrPwSet wdtPw1)
  let cr :=
    if en ≠ 0 then (r.cr &&& lnot (wdtCrPwSet 0xff)) ||| (wdtCrPwSet wdtPw2 ||| bit)
    else (r.cr &&& (lnot (wdtCrPwSet 0xff) &&& lnot bit)) ||| wdtCrPwSet wdtPw2
  r.store cr

def wdtLowPower : WdtReg → Word → WdtReg := wdtSwitch wdtCrLpen

def wdtDebugSuspend : WdtReg → Word → WdtReg := wdtSwitch wdtCrDsen

/-- `wdt_prewarning_limit` and `wdt_set_clkdiv`: the register is read before the first password. -/
def wdtSetField (mask : Word) (set : Word → Word) (r : WdtReg) (v : Word) : WdtReg :=
  let cr := r.cr
  let r := r.store (wdtCrPwSet wdtPw1)
  let cr := (cr &&& 0xff00ffff) &&& mask
  r.store (cr ||| (wdtCrPwSet wdtPw2 ||| set v))

def wdtPrewarningLimit : WdtReg → Word → WdtReg := wdtSetField 0xf3ffffff wdtCrPwlSet

def wdtSetClkdiv : WdtReg → Word → WdtReg := wdtSetField 0xfcffffff wdtCrClkdivSet

inductive WdtCall
  | enable (timeout : Word)
  | disable
  | lowPower (en : Word)
  | debugSuspend (en : Word)
  | prewarningLimit (pwl : Word)
  | setClkdiv (clkdiv : Word)

def wdtCall (ffpi : Word) (r : WdtReg) : WdtCall → WdtReg
  | .enable timeout => (wdtEnable ffpi r timeout).2
  | .disable => wdtDisable r
  | .lowPower en => wdtLowPower r en
  | .debugSuspend en => wdtDebugSuspend r en
  | .prewarningLimit pwl => wdtPrewarningLimit r pwl
  | .setClkdiv clkdiv => wdtSetClkdiv r clkdiv

/-- The `copy_from_user` of an argument; a failed copy leaves some value in the variable. -/
inductive UserArg
  | copied (v : Word)
  | bad (left : Word)

def UserArg.value : UserArg → Word
  | .copied v => v
  | .bad left => left

inductive WdtIoctl
  | start (arg : UserArg)
  | stop
  | ping
  | setPwl (arg : UserArg)
  | setDsen (arg : UserArg)
  | setLpen (arg : UserArg)
  | setClkdiv (arg : UserArg)
  | getStatus

/-- The register and the static `timeout` of the ioctl handler. -/
structure Wdt where
  reg : WdtReg
  timeout : Word

def argResult : UserArg → Int
  | .copied _ => 0
  | .bad _ => eInval

def wdtIoctl (ffpi : Word) (s : Wdt) : WdtIoctl → Int × Wdt
  | .start (.bad left) => (eInval, { s with timeout := left })
  | .start (.copied timeout) =>
    let (result, reg) := wdtEnable ffpi s.reg timeout
    (result, ⟨reg, if result < 0 then -1 else timeout⟩)
  | .stop => (0, ⟨wdtDisable s.reg, -1⟩)
  | .ping =>
    if s.timeout.toInt < 0 then (eIo, s)
    else
      let (result, reg) := wdtEnable ffpi s.reg s.timeout
      (result, { s with reg })
  | .setPwl arg => (argResult arg, { s with reg := wdtPrewarningLimit s.reg arg.value })
  | .setDsen arg => (argResult arg, { s with reg := wdtDebugSuspend s.reg arg.value })
  | .setLpen arg => (argResult arg, { s with reg := wdtLowPower s.reg arg.value })
  | .setClkdiv arg => (argResult arg, { s with reg := wdtSetClkdiv s.reg arg.value })
  | .getStatus => (0, s)

inductive WdtEvent
  | call (c : WdtCall)
  | ioctl (cmd : WdtIoctl)

def wdtStep (ffpi : Word) (s : Wdt) : WdtEvent → Option Wdt
  | .call c => some { s with reg := wdtCall ffpi s.reg c }
  | .ioctl cmd => some (wdtIoctl ffpi s cmd).2

def wdtInit (cr : Word) : Wdt := ⟨⟨cr &&& wdtCrKept, false, []⟩, -1⟩

/-! The fields of the control register, and what a call may do to them. -/

def wdtReloadField : RegField := ⟨0, 0, 16⟩

def wdtClkdivField : RegField := ⟨0, 24, 2⟩

def wdtPwlField : RegField := ⟨0, 26, 2⟩

def wdtLpenField : RegField := ⟨0, 29, 1⟩

def wdtDsenField : RegField := ⟨0, 30, 1⟩

def wdtGenField : RegField := ⟨0, 31, 1⟩

/-- The control register as a file of one register. -/
def crFile (cr : Word) : Nat → Word := Function.update (fun _ => 0) 0 cr

/-- The listed fields have got their values, and no other bit has changed. -/
structure FieldsWritten (fvs : List (RegField × Nat)) (cr cr' : Word) : Prop where
  values : ∀ f v, (f, v) ∈ fvs → f.get (crFile cr') = v
  frame : ∀ i, (∀ f v, (f, v) ∈ fvs → ¬f.Covers 0 i) → cr'.getLsbD i = cr.getLsbD i

/-- The truth of a C integer. -/
def enBit (en : Word) : Bool := en ≠ 0

/-- The fields that a call names, with their new values; `none` for the calls that may stop or shorten
the watchdog as a whole. -/
def WdtCall.names (ffpi cr : Word) : WdtCall → Option (List (RegField × Nat))
  | .enable timeout =>
    if wdtReload ffpi cr timeout > 0xffff then some []
    else some [(wdtReloadField, (wdtReload ffpi cr timeout).toNat), (wdtGenField, 1)]
  | .disable => none
  | .lowPower en => some [(wdtLpenField, (enBit en).toNat)]
  | .debugSuspend en => some [(wdtDsenField, (enBit en).toNat)]
  | .prewarningLimit pwl => some [(wdtPwlField, pwl.toNat % 4)]
  | .setClkdiv clkdiv => some [(wdtClkdivField, clkdiv.toNat % 4)]

/-- The call that an event stands for: an ioctl with a bad pointer and a ping without a start stand for
none. -/
def WdtEvent.meant (timeout : Word) : WdtEvent → Option WdtCall
  | .call c => some c
  | .ioctl (.start (.copied v)) => some (.enable v)
  | .ioctl .stop => some .disable
  | .ioctl .ping => if timeout.toInt < 0 then none else some (.enable timeout)
  | .ioctl (.setPwl (.copied v)) => some (.prewarningLimit v)
  | .ioctl (.setDsen (.copied v)) => some (.debugSuspend v)
  | .ioctl (.setLpen (.copied v)) => some (.lowPower v)
  | .ioctl (.setClkdiv (.copied v)) => some (.setClkdiv v)
  | _ => none

/-- The new stores are none, or one with the first password and one with the second. -/
def PasswordPair (r r' : WdtReg) : Prop :=
  r'.writes = r.writes ∨ ∃ u v, r'.writes = r.writes ++ [u, v] ∧
    fieldGet 8 16 u = wdtPw1 ∧ fieldGet 8 16 v = wdtPw2

/-- Calls other than `wdt_enable` and `wdt_disable` leave the watchdog running as long as before. -/
def KeepsRunning (cr cr' : Word) : WdtCall → Prop
  | .enable _ | .disable => True
  | _ => wdtGenField.get (crFile cr') = wdtGenField.get (crFile cr) ∧
      wdtReloadField.get (crFile cr') = wdtReloadField.get (crFile cr)

def WdtStepGood (ffpi : Word) (s : Wdt) (e : WdtEvent) : Prop :=
  ∀ t, wdtStep ffpi s e = some t → PasswordPair s.reg t.reg ∧
    match e.meant s.timeout with
    | none => t.reg.cr = s.reg.cr ∧ t.timeout = s.timeout
    | some c => KeepsRunning s.reg.cr t.reg.cr c ∧
        ∀ fvs, c.names ffpi s.reg.cr = some fvs → FieldsWritten fvs s.reg.cr t.reg.cr

/-- A bit is switched while all others are zero, and the watchdog is enabled while the low-power and the
debug-suspend bits are zero. -/
def CallAlone (ffpi cr : Word) : WdtCall → Prop
  | .enable timeout => wdtReload ffpi cr timeout > 0xffff ∨ cr &&& (wdtCrLpen ||| wdtCrDsen) = 0
  | .lowPower _ => cr &&& ~~~wdtCrLpen = 0
  | .debugSuspend _ => cr &&& ~~~wdtCrDsen = 0
  | _ => True

/-- The calls meet `CallAlone`, and a failed copy leaves the value that the register, or the handler,
already has. -/
def WdtAlone (ffpi : Word) (s : Wdt) : WdtEvent → Prop
  | .ioctl (.start (.bad left)) => left = s.timeout
  | .ioctl (.setPwl (.bad left)) => wdtPwlField.get (crFile s.reg.cr) = left.toNat % 4
  | .ioctl (.setDsen (.bad left)) => s.reg.cr = if left ≠ 0 then wdtCrDsen else 0
  | .ioctl (.setLpen (.bad left)) => s.reg.cr = if left ≠ 0 then wdtCrLpen else 0
  | .ioctl (.setClkdiv (.bad left)) => wdtClkdivField.get (crFile s.reg.cr) = left.toNat % 4
  | e => ∀ c, e.meant s.timeout = some c → CallAlone ffpi s.reg.cr c

end DanubeBsp
