import DanubeBsp.ByteOrder
import DanubeBsp.Errno
import DanubeBsp.Runs

namespace DanubeBsp

/-- `IFX_SSC_MODE_*`. -/
inductive SscMode
  | rxtx
  | rx
  | tx
  | off
  deriving DecidableEq

/-- The fields of `struct ifx_ssc_port` that the transfers use, the enable bits of its interrupts and
the one of the controller. Pointers are addresses, `NULL` is 0. -/
structure SscPort where
  modeRxTx : SscMode
  txBytes : Word
  portIsOpen : Int
  rxbuf : Nat
  rxbufEnd : Nat
  rxbufPtr : Nat
  txbuf : Nat
  txbufEnd : Nat
  txbufPtr : Nat
  txirq : Bool
  rxirq : Bool
  enabled : Bool

/-- The port behind `ifx_ssc_init`. -/
def sscInit : SscPort where
  modeRxTx := .rxtx
  txBytes := 0#32
  portIsOpen := 0
  rxbuf := 0
  rxbufEnd := 0
  rxbufPtr := 0
  txbuf := 0
  txbufEnd := 0
  txbufPtr := 0
  txirq := true
  rxirq := true
  enabled := false

inductive TxWidth
  | w32
  | w16
  | w8
  deriving DecidableEq

def TxWidth.size : TxWidth → Nat
  | .w32 => 4
  | .w16 => 2
  | .w8 => 1

/-- One access of `tx_int`: it reads at `addr` and pushes one entry of the given width. -/
structure TxAccess where
  addr : Nat
  width : TxWidth
  deriving DecidableEq

/-- A write to the transmit register `IFX_SSC_TB`. -/
inductive TbWrite
  | w32 (v : Word)
  | w16 (v : BitVec 16)
  | w8 (v : Byte)
  deriving DecidableEq

/-- The value that an access loads, on a big-endian machine, and writes to the register. -/
def TxAccess.tb (mem : Nat → Byte) (a : TxAccess) : TbWrite :=
  match a.width with
  | .w32 => .w32 (loadBe mem a.addr)
  | .w16 => .w16 (mem a.addr ++ mem (a.addr + 1))
  | .w8 => .w8 (mem a.addr)

/-- The bytes that leave for an entry: the most significant goes first. -/
def TbWrite.bytes : TbWrite → List Byte
  | .w32 v => [beByte v 0, beByte v 1, beByte v 2, beByte v 3]
  | .w16 v => [v.extractLsb' 8 8, v.extractLsb' 0 8]
  | .w8 v => [v]

/-- The local variables of `tx_int` and what it has pushed so far. -/
structure TxFill where
  ptr : Nat
  space : Nat
  fill : Nat
  txBytes : Word
  out : List TxAccess

/-- The loop of 32-bit accesses. -/
def TxFill.words (f : TxFill) : TxFill where
  ptr := f.ptr + 4 * (f.fill / 4)
  space := f.space - f.fill / 4
  fill := f.fill % 4
  txBytes := f.txBytes + BitVec.ofNat 32 (f.fill / 4 * 4)
  out := f.out ++ (List.range (f.fill / 4)).map fun i => ⟨f.ptr + 4 * i, .w32⟩

/-- The trailing 16-bit access. -/
def TxFill.half (f : TxFill) : TxFill :=
  if 0 < f.space ∧ 1 < f.fill then
    { ptr := f.ptr + 2
      space := f.space - 1
      fill := f.fill - 2
      txBytes := f.txBytes + 2#32
      out := f.out ++ [⟨f.ptr, .w16⟩] }
  else f

/-- The trailing 8-bit access. -/
def TxFill.byte (f : TxFill) : TxFill :=
  if 0 < f.space ∧ 0 < f.fill then
    { f with
      ptr := f.ptr + 1
      txBytes := f.txBytes + 1#32
      out := f.out ++ [⟨f.ptr, .w8⟩] }
  else f

/-- What `tx_int` does to the cursor, with `fifoSpace` free entries: no byte past `txbuf_end`, no
entry past the free ones. -/
def txFill (p : SscPort) (fifoSpace : Nat) : TxFill :=
  let fill := p.txbufEnd - p.txbufPtr
  TxFill.byte <| TxFill.half <| TxFill.words
    { ptr := p.txbufPtr
      space := fifoSpace
      fill := if fifoSpace * 4 < fill then fifoSpace * 4 else fill
      txBytes := p.txBytes
      out := [] }

/-- The outcome of `tx_int`: the port, the accesses, and the address that it passes to `kfree`. -/
structure TxOutcome where
  port : SscPort
  out : List TxAccess
  kfreed : Option Nat

/-- `tx_int`. -/
def txInt (p : SscPort) (fifoSpace : Nat) : TxOutcome :=
  if fifoSpace = 0 then ⟨p, [], none⟩
  else
    let f := txFill p fifoSpace
    let p := { p with txbufPtr := f.ptr, txBytes := f.txBytes }
    if p.txbufEnd ≤ p.txbufPtr then ⟨{ p with txirq := false, txbuf := 0 }, f.out, some p.txbuf⟩
    else ⟨p, f.out, none⟩

/-- A buffer of `kmalloc`. -/
structure KBuf where
  addr : Nat
  len : Nat
  pos : 0 < addr
  deriving DecidableEq

/-- Who waits in a read: `ifx_ssc_read_helper_poll` or `ifx_ssc_read_helper`. -/
inductive SscReader
  | poll
  | sleep
  deriving DecidableEq

/-- The port with the transmit buffers that writes have accepted: `live` are those that are not freed,
each with its serial number, `freed` lists the serial numbers that are. A read outside all live
buffers and a `kfree` of anything else set `fault`. `calls` logs the calls of `tx_int`: the free entries
that it saw and its accesses. -/
structure Ssc where
  port : SscPort
  reader : Option SscReader
  live : List (Nat × KBuf)
  freed : List Nat
  next : Nat
  fault : Bool
  calls : List (Nat × List TxAccess)

def sscStart : Ssc := ⟨sscInit, none, [], [], 0, false, []⟩

/-- The bytes of an access lie in a live buffer. -/
def Ssc.readable (s : Ssc) (a : TxAccess) : Bool :=
  s.live.any fun b => decide (b.2.addr ≤ a.addr ∧ a.addr + a.width.size ≤ b.2.addr + b.2.len)

def Ssc.kfree (s : Ssc) (addr : Nat) : Ssc :=
  if addr = 0 then s
  else
    match s.live.find? fun b => b.2.addr == addr with
    | some b => { s with live := s.live.erase b, freed := s.freed ++ [b.1] }
    | none => { s with fault := true }

/-- `tx_int`, with its effect on the buffers. -/
def Ssc.txInt (s : Ssc) (fifoSpace : Nat) : Ssc :=
  let r := DanubeBsp.txInt s.port fifoSpace
  let s := { s with
    port := r.port
    fault := s.fault || !(r.out.all s.readable)
    calls := s.calls ++ [(fifoSpace, r.out)] }
  match r.kfreed with
  | some addr => s.kfree addr
  | none => s

/-- `tx_int` for a cursor behind `txbuf_end`, up to the trailing accesses: `fill` is negative, so no word
goes out, but `fill & 3` need not be 0. -/
def txBehind (p : SscPort) (fifoSpace : Nat) : TxFill :=
  let behind := p.txbufPtr - p.txbufEnd
  { ptr := p.txbufPtr
    space := fifoSpace + behind / 4
    fill := (4 - behind % 4) % 4
    txBytes := p.txBytes - BitVec.ofNat 32 ((behind + 3) / 4 * 4)
    out := [] }

/-- `ifx_ssc_tx_int`, taken by `do_IRQ`: the line is masked on entry, and `end_danube_irq` opens it again
behind the handler, since `disable_danube_irq` does not set `IRQ_DISABLED`. -/
def Ssc.txHandler (s : Ssc) (fifoSpace : Nat) : Ssc :=
  let s :=
    if fifoSpace ≠ 0 ∧ s.port.txbufEnd < s.port.txbufPtr then
      let f := (txBehind s.port fifoSpace).half.byte
      let s := { s with
        port := { s.port with txbufPtr := f.ptr, txBytes := f.txBytes }
        fault := s.fault || !(f.out.all s.readable) }
      { s.kfree s.port.txbuf with port := { s.port with txbuf := 0 } }
    else s.txInt fifoSpace
  { s with port := { s.port with txirq := true } }

/-- Enable the transmit interrupt if there is something left to send. -/
def Ssc.enableTxirq (s : Ssc) : Ssc :=
  if s.port.txbufPtr < s.port.txbufEnd then { s with port := { s.port with txirq := true } } else s

/-- `ifx_ssc_abort`. -/
def Ssc.abort (s : Ssc) : Ssc :=
  let s := { s with port := { s.port with rxirq := false, txirq := false } }
  if s.port.txbuf = 0 then s
  else
    let s := s.kfree s.port.txbuf
    { s with port := { s.port with txbuf := 0 } }

/-- `ifx_ssc_open`. -/
def Ssc.open (s : Ssc) : Ssc × Int :=
  if s.port.portIsOpen ≠ 0 then (s, eBusy)
  else
    ({ s with
      port := { s.port with
        portIsOpen := s.port.portIsOpen + 1
        rxirq := false
        txirq := false
        rxbufPtr := 0
        txbufPtr := 0
        enabled := true } }, 0)

/-- `ifx_ssc_close`. The controller is disabled before the call of `ifx_ssc_abort`, so it stays so. -/
def Ssc.close (s : Ssc) : Ssc × Int :=
  let s := Ssc.abort { s with port := { s.port with enabled := false } }
  ({ s with port := { s.port with portIsOpen := s.port.portIsOpen - 1 } }, 0)

/-- `ifx_ssc_write_helper`, behind the assignment of `txbuf`: a buffer that it accepts is the port's. -/
def Ssc.writeHelper (s : Ssc) (b : KBuf) (fifoSpace : Nat) : Ssc × Int :=
  if s.port.modeRxTx = .rx then (s, eFault)
  else
    let s := { s with
      port := { s.port with txbufPtr := s.port.txbuf, txbufEnd := s.port.txbuf + b.len }
      live := s.live ++ [(s.next, b)]
      next := s.next + 1 }
    if s.port.modeRxTx = .tx then ((s.txInt fifoSpace).enableTxirq, b.len) else (s, b.len)

/-- The common part of the writes: `txbuf` is free, and is so again if the helper fails. -/
def Ssc.writeBuf (s : Ssc) (b : KBuf) (fifoSpace : Nat) : Ssc × Int :=
  let r := Ssc.writeHelper { s with port := { s.port with txbuf := b.addr } } b fifoSpace
  if r.2 < 0 then ({ r.1 with port := { r.1.port with txbuf := 0 } }, r.2) else r

/-- `ifx_ssc_kwrite`. -/
def Ssc.kwrite (s : Ssc) (b : KBuf) (fifoSpace : Nat) : Ssc × Int :=
  if b.len = 0 then (s, 0)
  else if s.port.txbuf ≠ 0 then (s, eBusy)
  else s.writeBuf b fifoSpace

/-- `ifx_ssc_write`, with the outcome of `kmalloc` and of `copy_from_user`. -/
def Ssc.write (s : Ssc) (b : KBuf) (allocated copied : Bool) (fifoSpace : Nat) : Ssc × Int :=
  if b.len = 0 then (s, 0)
  else if s.port.txbuf ≠ 0 then (s, eBusy)
  else if !allocated then (s, eNoMem)
  else if !copied then (s, eFault)
  else s.writeBuf b fifoSpace

/-- `ifx_ssc_kread` up to the polling loop. -/
def Ssc.kread (s : Ssc) (kbuf len : Nat) : Ssc × Int :=
  if len = 0 then (s, 0)
  else if s.port.rxbuf ≠ 0 then (s, eBusy)
  else if kbuf = 0 then (s, eInval)
  else if s.port.modeRxTx = .tx then
    ({ s with port := { s.port with rxbuf := 0, rxirq := false } }, eFault)
  else
    ({ s with
      port := { s.port with rxbuf := kbuf, rxbufPtr := kbuf, rxbufEnd := kbuf + len }
      reader := some .poll }, 0)

/-- `rx_int` as far as the port sees it: `n` bytes have come in, of which the buffer takes what it has
room for. -/
def Ssc.rxInt (s : Ssc) (n : Nat) : Ssc :=
  let s := { s with port := { s.port with
    rxbufPtr := s.port.rxbufPtr + min n (s.port.rxbufEnd - s.port.rxbufPtr) } }
  if s.port.rxbufEnd ≤ s.port.rxbufPtr then { s with port := { s.port with rxirq := false } } else s

/-- `ifx_ssc_rx_int`, taken by `do_IRQ`. -/
def Ssc.rxHandler (s : Ssc) (n : Nat) : Ssc :=
  let s := s.rxInt n
  { s with port := { s.port with rxirq := true } }

/-- One round of the loop of `ifx_ssc_read_helper_poll`. -/
def Ssc.poll (s : Ssc) (fifoSpace n : Nat) : Ssc :=
  let s := if s.port.txbufPtr < s.port.txbufEnd then s.txInt fifoSpace else s
  s.rxInt n

/-- The end of a read: `rxbuf` is free again. For a read that a signal ends `copy_to_user` gets the
negative code as a length and fails. -/
def Ssc.readDone (s : Ssc) : Ssc × Int :=
  ({ s with port := { s.port with rxbuf := 0, rxirq := false }, reader := none },
    if s.port.rxbufEnd ≤ s.port.rxbufPtr then (s.port.rxbufPtr : Int) - s.port.rxbuf else eFault)

/-- `ifx_ssc_read` up to the sleep of `ifx_ssc_read_helper`: `rxbuf` is the result of `kmalloc`, `busy`
says that `RXCNT` is not 0. A helper that fails leaves `rxbuf` free, and its code is lost in
`copy_to_user`. -/
def Ssc.read (s : Ssc) (rxbuf len fifoSpace : Nat) (busy : Bool) : Ssc × Int :=
  if s.port.rxbuf ≠ 0 then (s, eBusy)
  else if rxbuf = 0 then (s, eNoMem)
  else if s.port.modeRxTx = .tx then
    ({ s with port := { s.port with rxirq := false } }, eFault)
  else
    let s := { s with port := { s.port with rxbufPtr := rxbuf, rxbufEnd := rxbuf + len } }
    if s.port.modeRxTx = .rxtx then
      if s.port.txbuf = 0 ∨ s.port.txbuf ≠ s.port.txbufPtr ∨
          s.port.txbufEnd ≠ len + s.port.txbuf then
        ({ s with port := { s.port with rxirq := false } }, eFault)
      else
        let s := (s.txInt fifoSpace).enableTxirq
        ({ s with port := { s.port with rxbuf := rxbuf, rxirq := true }, reader := some .sleep }, 0)
    else if busy then ({ s with port := { s.port with rxirq := false } }, eFault)
    else
      ({ s with port := { s.port with rxbuf := rxbuf, rxirq := true }, reader := some .sleep }, 0)

inductive SscEvent
  | open
  | close
  | abort
  | modeSet (mode : SscMode)
  | kwrite (b : KBuf) (fifoSpace : Nat)
  | write (b : KBuf) (allocated copied : Bool) (fifoSpace : Nat)
  | kread (kbuf len : Nat)
  | poll (fifoSpace n : Nat)
  | pollDone
  | read (rxbuf len fifoSpace : Nat) (busy : Bool)
  | readDone
  | txInterrupt (fifoSpace : Nat)
  | rxInterrupt (n : Nat)
  deriving DecidableEq

/-- Whole calls, one after the other, and the interrupts between them. The polling reader goes round until
its buffer is full; the sleeping one may also leave on a signal. -/
def sscStep (s : Ssc) : SscEvent → Option Ssc
  | .open => some s.open.1
  | .close => some s.close.1
  | .abort => some s.abort
  | .modeSet mode => some { s with port := { s.port with modeRxTx := mode } }
  | .kwrite b fifoSpace => some (s.kwrite b fifoSpace).1
  | .write b allocated copied fifoSpace => some (s.write b allocated copied fifoSpace).1
  | .kread kbuf len => some (s.kread kbuf len).1
  | .poll fifoSpace n =>
    if s.reader = some .poll ∧ s.port.rxbufPtr < s.port.rxbufEnd then some (s.poll fifoSpace n)
    else none
  | .pollDone =>
    if s.reader = some .poll ∧ s.port.rxbufEnd ≤ s.port.rxbufPtr then some s.readDone.1 else none
  | .read rxbuf len fifoSpace busy => some (s.read rxbuf len fifoSpace busy).1
  | .readDone => if s.reader = some .sleep then some s.readDone.1 else none
  | .txInterrupt fifoSpace => if s.port.txirq then some (s.txHandler fifoSpace) else none
  | .rxInterrupt n => if s.port.rxirq then some (s.rxHandler n) else none

end DanubeBsp
