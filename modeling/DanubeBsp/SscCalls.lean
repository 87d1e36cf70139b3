import Mathlib.Logic.Function.Basic
import DanubeBsp.Ssc

namespace DanubeBsp

/-- Where `tx_int` stands when a write or a read has called it, with its local variables. -/
inductive TxIntPc
  | level
  | fill (fifoSpace : Nat)
  | words (i fill fifoSpace : Nat)
  | half (fill fifoSpace : Nat)
  | byte (fill fifoSpace : Nat)
  | check
  deriving DecidableEq

inductive TxIntCaller
  | write
  | poll
  | read
  deriving DecidableEq

/-- A call under way, by what it does next. `user` tells `ifx_ssc_write`, whose buffer is its own, from
`ifx_ssc_kwrite`. -/
inductive SscCall
  /-- `ifx_ssc_kwrite` stores `txbuf`. -/
  | claim (b : KBuf)
  /-- `ifx_ssc_write` stores in `txbuf` what `kmalloc` returns. -/
  | alloc (b : KBuf)
  | copyFromUser (b : KBuf)
  | mode (b : KBuf) (user : Bool)
  | txbufPtr (b : KBuf)
  | txbufEnd (b : KBuf)
  | start
  | fail (b : KBuf) (user : Bool)
  | txInt (caller : TxIntCaller) (pc : TxIntPc)
  | enable (caller : TxIntCaller)
  | rxInt
  deriving DecidableEq

/-- What the caller of `tx_int` does behind it. -/
def TxIntCaller.next : TxIntCaller → SscCall
  | .write => .enable .write
  | .poll => .rxInt
  | .read => .enable .read

/-- An access of `tx_int` at the cursor. -/
def Ssc.push (s : Ssc) (w : TxWidth) : Ssc :=
  { s with
    port := { s.port with
      txbufPtr := s.port.txbufPtr + w.size
      txBytes := s.port.txBytes + BitVec.ofNat 32 (if w = .w32 then 0 else w.size) }
    fault := s.fault || !s.readable ⟨s.port.txbufPtr, w⟩ }

/-- The last test of `tx_int`. -/
def Ssc.txDone (s : Ssc) : Ssc :=
  if s.port.txbufEnd ≤ s.port.txbufPtr then
    let s := s.kfree s.port.txbuf
    { s with port := { s.port with txirq := false, txbuf := 0 } }
  else s

/-- One round of `tx_int`; `answer` is the room that a reading of the FIFO level finds. -/
def txIntStep (s : Ssc) (answer : Nat) : TxIntPc → Ssc × Option TxIntPc
  | .level => (s, if answer = 0 then none else some (.fill answer))
  | .fill fifoSpace =>
    if s.port.txbufEnd < s.port.txbufPtr then
      let f := txBehind s.port fifoSpace
      ({ s with port := { s.port with txBytes := f.txBytes } }, some (.half f.fill f.space))
    else
      let fill := s.port.txbufEnd - s.port.txbufPtr
      (s, some (.words 0 (if fifoSpace * 4 < fill then fifoSpace * 4 else fill) fifoSpace))
  | .words i fill fifoSpace =>
    if i < fill / 4 then (s.push .w32, some (.words (i + 1) fill fifoSpace))
    else
      ({ s with port := { s.port with txBytes := s.port.txBytes + BitVec.ofNat 32 (fill / 4 * 4) } },
        some (.half (fill % 4) (fifoSpace - fill / 4)))
  | .half fill fifoSpace =>
    if 0 < fifoSpace ∧ 1 < fill then (s.push .w16, some (.byte (fill - 2) (fifoSpace - 1)))
    else (s, some (.byte fill fifoSpace))
  | .byte fill fifoSpace =>
    if 0 < fifoSpace ∧ 0 < fill then (s.push .w8, some .check) else (s, some .check)
  | .check => (s.txDone, none)

/-- The next step of a call and where it goes on, `none` where it is over. `answer` is what the step is
told: the pointer of `kmalloc` is not NULL, `copy_from_user` leaves so many bytes, the FIFO has so much
room, so many bytes have come in. -/
def sscCallStep (s : Ssc) (answer : Nat) : SscCall → Ssc × Option SscCall
  | .claim b => ({ s with port := { s.port with txbuf := b.addr } }, some (.mode b false))
  | .alloc b =>
    if answer = 0 then ({ s with port := { s.port with txbuf := 0 } }, none)
    else ({ s with port := { s.port with txbuf := b.addr } }, some (.copyFromUser b))
  | .copyFromUser b => (s, some (if answer = 0 then .mode b true else .fail b true))
  | .mode b user => (s, some (if s.port.modeRxTx = .rx then .fail b user else .txbufPtr b))
  | .txbufPtr b =>
    ({ s with port := { s.port with txbufPtr := s.port.txbuf } }, some (.txbufEnd b))
  | .txbufEnd b =>
    -- from here on the buffer is the port's
    ({ s with
      port := { s.port with txbufEnd := b.len + s.port.txbuf }
      live := s.live ++ [(s.next, b)]
      next := s.next + 1 }, some .start)
  | .start => (s, if s.port.modeRxTx = .tx then some (.txInt .write .level) else none)
  | .fail b user =>
    let s := if user ∧ s.port.txbuf ≠ b.addr then s.kfree s.port.txbuf else s
    ({ s with port := { s.port with txbuf := 0 } }, none)
  | .txInt caller pc =>
    match txIntStep s answer pc with
    | (s, some pc) => (s, some (.txInt caller pc))
    | (s, none) => (s, some caller.next)
  | .enable caller =>
    let s := s.enableTxirq
    if caller = .read then
      ({ s with port := { s.port with rxirq := true }, reader := some .sleep }, none)
    else (s, none)
  | .rxInt => ({ s.rxInt answer with reader := some .poll }, none)

/-- The port with the calls under way in it, by process. -/
structure SscRun where
  ssc : Ssc
  inside : Nat → Option SscCall

def sscRunStart : SscRun := ⟨sscStart, fun _ => none⟩

inductive SscRunEvent
  /-- An interrupt, or a call that no interrupt of the transmit side finds half done. -/
  | call (e : SscEvent)
  | kwrite (i : Nat) (b : KBuf)
  | write (i : Nat) (b : KBuf)
  | poll (i : Nat)
  | read (i rxbuf len : Nat) (busy : Bool)
  | step (i answer : Nat)

/-- `ifx_ssc_abort`, `ifx_ssc_open` and `ifx_ssc_close` disable the transmit interrupt before they touch the
buffer. -/
def SscEvent.whole : SscEvent → Bool
  | .kwrite _ _ | .write _ _ _ _ | .poll _ _ | .read _ _ _ _ => false
  | _ => true

def SscRun.enter (s : SscRun) (i : Nat) (c : SscCall) : SscRun :=
  { s with inside := Function.update s.inside i (some c) }

/-- `ifx_ssc_read` up to its call of `tx_int`, which only the combined mode makes. -/
def SscRun.read (s : SscRun) (i rxbuf len : Nat) (busy : Bool) : SscRun :=
  let p := s.ssc.port
  if p.modeRxTx = .rxtx ∧ p.rxbuf = 0 ∧ rxbuf ≠ 0 ∧ p.txbuf ≠ 0 ∧ p.txbuf = p.txbufPtr ∧
      p.txbufEnd = len + p.txbuf then
    SscRun.enter { s with
      ssc := { s.ssc with
        port := { p with rxbuf := rxbuf, rxbufPtr := rxbuf, rxbufEnd := rxbuf + len } } }
      i (.txInt .read .level)
  else { s with ssc := (s.ssc.read rxbuf len 0 busy).1 }

def sscRunStep (s : SscRun) : SscRunEvent → Option SscRun
  | .call e => if e.whole then (sscStep s.ssc e).map fun t => { s with ssc := t } else none
  | .kwrite i b =>
    if s.inside i ≠ none then none
    else if b.len = 0 ∨ s.ssc.port.txbuf ≠ 0 then some s
    else some (s.enter i (.claim b))
  | .write i b =>
    if s.inside i ≠ none then none
    else if b.len = 0 ∨ s.ssc.port.txbuf ≠ 0 then some s
    else some (s.enter i (.alloc b))
  | .poll i =>
    if s.inside i = none ∧ s.ssc.reader = some .poll ∧
        s.ssc.port.rxbufPtr < s.ssc.port.rxbufEnd then
      let s := { s with ssc := { s.ssc with reader := none } }
      some (s.enter i (if s.ssc.port.txbufPtr < s.ssc.port.txbufEnd then .txInt .poll .level else .rxInt))
    else none
  | .read i rxbuf len busy => if s.inside i ≠ none then none else some (s.read i rxbuf len busy)
  | .step i answer =>
    match s.inside i with
    | none => none
    | some c =>
      let (ssc, next) := sscCallStep s.ssc answer c
      some { ssc, inside := Function.update s.inside i next }

end DanubeBsp
