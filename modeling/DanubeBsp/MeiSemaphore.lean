import Mathlib.Logic.Function.Basic
import DanubeBsp.Runs

namespace DanubeBsp

/-- What a command does to the CMV interface, in order. `cmv` is one call of `meiCMV`, `pollCmv` one
that the poll thread makes only while `showtime` is 1; `resetARC` is `meiResetARC`. -/
inductive MeiOp
  | down
  | up
  | cmv
  | pollCmv
  | resetARC
  | haltArc
  | runArc
  | runAdslModem (imageOk : Bool)
  | startModem
  | setShowtime
  | enableInterrupts
  | disableInterrupts
  deriving DecidableEq

/-- The commands of `mei_ioctl` that touch the interface, the firmware download of `mei_write`, and
one round of `adsl_mib_poll` with the number of blocks that its channel type asks for. -/
inductive MeiCommand
  | start (imageOk : Bool)
  | showtime
  | halt
  | run
  | cmvWinhost
  | accessDebug
  | remote (i : Int)
  | reset
  | loopDiagnosticModeComplete
  | setAdslLoopDiagnosticsMode (lon : Nat)
  | writeImage
  | mibPoll (blocks : Nat)

/-- Where a context stands in `meiCMV`; `sent` is reached when `meiMailboxWrite` has set
`cmv_waiting`. -/
inductive CmvStage
  | outside
  | entered
  | sent
  deriving DecidableEq

/-- A context with the rest of its command. `holds` is true from its own `down` to its own `up`. -/
structure MeiCtx where
  prog : List MeiOp
  holds : Bool
  stage : CmvStage
  deriving DecidableEq

structure MeiSys (κ : Type*) where
  sema : Nat
  resetArcFlag : Bool
  arcHaltFlag : Bool
  showtime : Bool
  loopDiagnosticsMode : Nat
  interrupts : Bool
  cmvWaiting : Bool
  ctx : κ → MeiCtx

/-- After `danube_mei_init`. -/
def meiInit (κ : Type*) : MeiSys κ :=
  ⟨1, false, false, false, 0, false, false, fun _ => ⟨[], false, .outside⟩⟩

/-- `mei_mib_adsl_link_down` reads the status without `mei_sema`. -/
def rebootProg : List MeiOp := [.cmv, .resetARC, .haltArc]

/-- The body of a command with its first tests decided. -/
def meiProg {κ : Type*} (s : MeiSys κ) : MeiCommand → List MeiOp
  | .start imageOk => [.down, .disableInterrupts, .runAdslModem imageOk]
  | .showtime => .down :: (List.replicate 6 .cmv ++ [.setShowtime, .up])
  | .halt => if s.arcHaltFlag then [] else [.resetARC, .haltArc]
  | .run => if s.arcHaltFlag then [.runArc] else []
  | .cmvWinhost => [.down, .cmv, .up]
  | .accessDebug => [.down, .up]
  | .remote i =>
    if i = 0 then [.enableInterrupts, .up] else if i = 1 then [.disableInterrupts, .down] else []
  | .reset => rebootProg
  | .loopDiagnosticModeComplete => [.cmv, .cmv]
  | .setAdslLoopDiagnosticsMode lon => if lon = s.loopDiagnosticsMode then [] else rebootProg
  | .writeImage => if s.arcHaltFlag then [] else [.resetARC, .haltArc]
  | .mibPoll blocks =>
    if s.showtime then .down :: (List.replicate blocks .pollCmv ++ [.up]) else []

variable {κ : Type*} [DecidableEq κ]

def MeiSys.setCtx (s : MeiSys κ) (c : κ) (x : MeiCtx) : MeiSys κ :=
  { s with ctx := Function.update s.ctx c x }

/-- A context calls a command; `START` clears `showtime` before it waits. -/
def beginCommand (s : MeiSys κ) (c : κ) (cmd : MeiCommand) : MeiSys κ :=
  let s' := s.setCtx c ⟨meiProg s cmd, false, .outside⟩
  match cmd with
  | .start _ => { s' with showtime := false }
  | .setAdslLoopDiagnosticsMode lon => { s' with loopDiagnosticsMode := lon }
  | _ => s'

/-- `meiRunAdslModem` resets the ARC itself when nobody has done so since the last start. -/
def runModemProg (s : MeiSys κ) (imageOk : Bool) : List MeiOp :=
  if imageOk then (if s.resetArcFlag then [] else [.resetARC, .haltArc]) ++ [.startModem] else []

/-- Execute the head of a context's command. A `down` on a taken semaphore is not enabled; the poll
thread jumps to its `up` when `showtime` is no longer 1. -/
def execOp (s : MeiSys κ) (c : κ) (op : MeiOp) (rest : List MeiOp) (x : MeiCtx) :
    Option (MeiSys κ) :=
  let s' := s.setCtx c { x with prog := rest }
  match op with
  | .down =>
    if 0 < s.sema then some { s.setCtx c ⟨rest, true, x.stage⟩ with sema := s.sema - 1 } else none
  | .up => some { s.setCtx c ⟨rest, false, x.stage⟩ with sema := s.sema + 1 }
  | .cmv => some (s.setCtx c { x with stage := .entered })
  | .pollCmv =>
    if s.showtime then some (s.setCtx c { x with stage := .entered })
    else some (s.setCtx c { x with prog := rest.dropWhile (· ≠ .up) })
  | .resetARC => some { s' with interrupts := false, sema := 1, resetArcFlag := true }
  | .haltArc => some { s' with arcHaltFlag := true }
  | .runArc => some { s' with interrupts := true, arcHaltFlag := false }
  | .runAdslModem imageOk => some (s.setCtx c { x with prog := runModemProg s imageOk ++ rest })
  | .startModem =>
    some { s' with resetArcFlag := false, interrupts := true, arcHaltFlag := false }
  | .setShowtime => some { s' with showtime := true }
  | .enableInterrupts => some { s' with interrupts := true }
  | .disableInterrupts => some { s' with interrupts := false }

/-- `signal` interrupts a context that waits in `down_interruptible`; `write` is the mailbox write of
`meiCMV` and `leave` its return; `message` is a normal message of the modem. -/
inductive MeiEvent (κ : Type*)
  | call (c : κ) (cmd : MeiCommand)
  | exec (c : κ)
  | signal (c : κ)
  | write (c : κ)
  | leave (c : κ) (timeout : Bool)
  | message (modemReady : Bool)

def meiStep (s : MeiSys κ) : MeiEvent κ → Option (MeiSys κ)
  | .call c cmd => if (s.ctx c).prog = [] then some (beginCommand s c cmd) else none
  | .exec c =>
    match s.ctx c with
    | ⟨op :: rest, holds, .outside⟩ => execOp s c op rest ⟨op :: rest, holds, .outside⟩
    | _ => none
  | .signal c =>
    match s.ctx c with
    | ⟨.down :: _, holds, .outside⟩ => some (s.setCtx c ⟨[], holds, .outside⟩)
    | _ => none
  | .write c =>
    match s.ctx c with
    | ⟨prog, holds, .entered⟩ => some { s.setCtx c ⟨prog, holds, .sent⟩ with cmvWaiting := true }
    | _ => none
  | .leave c timeout =>
    match s.ctx c with
    | ⟨_ :: rest, holds, .sent⟩ =>
      some { s.setCtx c ⟨rest, holds, .outside⟩ with cmvWaiting := s.cmvWaiting && !timeout }
    | _ => none
  | .message modemReady =>
    if !s.interrupts then none
    else if s.cmvWaiting then some { s with cmvWaiting := false }
    else if modemReady then some { s with sema := s.sema + 1 }
    else some s

end DanubeBsp
