import DanubeBsp.Ssc
import DanubeBsp.SscRx

namespace DanubeBsp

/-- The local variables of `rx_int` behind its loop of words, and what that has stored. -/
structure RxFill where
  level : Nat
  bytes : Nat
  fifo : List (List Byte)
  out : List Byte

/-- The loop of `rx_int` with 32 bits per entry. -/
def rxWords : Nat → Nat → List (List Byte) → RxFill
  | 0, bytes, fifo => ⟨0, bytes, fifo, []⟩
  | level + 1, bytes, fifo =>
    if 4 ≤ bytes then
      let f := rxWords level (bytes - 4) fifo.tail
      { f with out := storeWord (rbValue (fifo.headD [])) ++ f.out }
    else ⟨level + 1, bytes, fifo, []⟩

/-- The loop of `rx_int` for the rest. It does not count `fifo_fill_lev` down, so that it also takes
entries that come in meanwhile. -/
def rxTail (level : Nat) : Nat → List (List Byte) → List Byte
  | _, [] => []
  | bytes, e :: fifo =>
    if 0 < bytes ∧ 0 < level ∧ e.length ≠ 0 then
      let validCnt := if bytes < e.length then bytes else e.length
      storeTail (rbValue e) validCnt ++ rxTail level (bytes - validCnt) fifo
    else []

/-- What `rx_int` stores where the buffer has room for `bytes` more. -/
def rxStored (bytes level : Nat) (fifo : List (List Byte)) : List Byte :=
  let f := rxWords level bytes fifo
  f.out ++ rxTail f.level f.bytes f.fifo

/-- The largest of `cache_sizes`. -/
def kmallocMax : Nat := 131072

/-- What `kmalloc` may return for a size: `NULL` or a block, aligned to a word. -/
def KmallocReturns (size : Word) (addr : Nat) : Prop :=
  addr = 0 ∨ 4 ∣ addr ∧ size.toNat ≤ kmallocMax ∧ addr + size.toNat < 2 ^ 32

instance (size : Word) (addr : Nat) : Decidable (KmallocReturns size addr) :=
  inferInstanceAs (Decidable (_ ∨ _))

/-- Where `ifx_ssc_read` is: before its checks, asleep in `ifx_ssc_read_helper`, at `copy_to_user` with
`ret_val` for the length, or returned. -/
inductive SscReadPc
  | start
  | wait
  | copy (ret : Int)
  | done (ret : Int)
  deriving DecidableEq

/-- A call of `ifx_ssc_read` for `len` bytes: `kmem` is the buffer that it has allocated, `stored` what
`rx_int` has stored there, `copied` what the user has got and `freed` what went to `kfree`. -/
structure SscRead where
  port : SscPort
  len : Word
  kmem : Nat
  stored : List Byte
  signal : Bool
  pc : SscReadPc
  copied : List Byte
  freed : List Nat

def sscReadStart (p : SscPort) (len : Word) : SscRead := ⟨p, len, 0, [], false, .start, [], []⟩

/-- `ifx_ssc_read_helper` up to its wait. -/
def SscRead.helper (s : SscRead) (fifoSpace : Nat) (todo : Bool) : SscRead :=
  if s.port.modeRxTx = .tx then { s with pc := .copy eFault }
  else
    let s := { s with
      port := { s.port with
        rxbufPtr := s.port.rxbuf
        rxbufEnd := (s.port.rxbuf + s.len.toNat) % 2 ^ 32 }
      stored := [] }
    if s.port.modeRxTx = .rxtx then
      if s.port.txbuf = 0 ∨ s.port.txbuf ≠ s.port.txbufPtr ∨
          s.port.txbufEnd ≠ (s.len.toNat + s.port.txbuf) % 2 ^ 32 then
        { s with pc := .copy eFault }
      else
        let p := (txInt s.port fifoSpace).port
        let p := if p.txbufPtr < p.txbufEnd then { p with txirq := true } else p
        { s with port := { p with rxirq := true }, pc := .wait }
    else if todo then { s with pc := .copy eBusy }
    else { s with port := { s.port with rxirq := true }, pc := .wait }

/-- `ifx_ssc_read` up to the wait, with the result of `kmalloc`. -/
def SscRead.enter (s : SscRead) (rxbuf fifoSpace : Nat) (todo : Bool) : SscRead :=
  if s.port.rxbuf ≠ 0 then { s with pc := .done eBusy }
  else if rxbuf = 0 then { s with pc := .done eNoMem }
  else
    SscRead.helper { s with port := { s.port with rxbuf := rxbuf }, kmem := rxbuf } fifoSpace todo

/-- The port behind `rx_int` that has stored `n` bytes. -/
def SscPort.rxAdvance (p : SscPort) (n : Nat) : SscPort :=
  let p := { p with rxbufPtr := p.rxbufPtr + n }
  if p.rxbufEnd ≤ p.rxbufPtr then { p with rxirq := false } else p

/-- `rx_int`. -/
def SscRead.rxInt (s : SscRead) (level : Nat) (fifo : List (List Byte)) : SscRead :=
  let out := rxStored (s.port.rxbufEnd - s.port.rxbufPtr) level fifo
  { s with port := s.port.rxAdvance out.length, stored := s.stored ++ out }

/-- `ifx_ssc_abort`. It wakes the reader. -/
def SscRead.abort (s : SscRead) : SscRead :=
  { s with port := { s.port with rxirq := false, txirq := false, txbuf := 0 } }

/-- One round of the loop of `ifx_ssc_read_helper`. -/
def SscRead.look (s : SscRead) : SscRead :=
  if s.port.rxbufEnd ≤ s.port.rxbufPtr then
    { s with pc := .copy ((s.port.rxbufPtr : Int) - s.port.rxbuf) }
  else if s.signal then { s with pc := .copy eRestartSys }
  else s

/-- The end of `ifx_ssc_read`. `copy_to_user` refuses a length with the sign bit set, and stops where the
`copies` bytes end that the user may write to. -/
def SscRead.leave (s : SscRead) (ret : Int) (copies : Nat) : SscRead :=
  let n := if ret < 0 then 0 else min copies ret.toNat
  { s with
    port := { s.port with rxirq := false, rxbuf := 0 }
    pc := .done (if (n : Int) = ret then ret else eFault)
    copied := s.stored.take n
    freed := s.freed ++ [s.port.rxbuf] }

inductive SscReadEvent
  | enter (rxbuf fifoSpace : Nat) (todo : Bool)
  | look
  | leave (copies : Nat)
  | rxInt (level : Nat) (fifo : List (List Byte))
  | txInt (fifoSpace : Nat)
  | abort
  | signal
  deriving DecidableEq

def sscReadStep (s : SscRead) : SscReadEvent → Option SscRead
  | .enter rxbuf fifoSpace todo =>
    if s.pc = .start ∧ KmallocReturns (s.len + 3#32) rxbuf then some (s.enter rxbuf fifoSpace todo)
    else none
  | .look => if s.pc = .wait then some s.look else none
  | .leave copies =>
    match s.pc with
    | .copy ret => some (s.leave ret copies)
    | _ => none
  | .rxInt level fifo => if s.port.rxirq then some (s.rxInt level fifo) else none
  | .txInt fifoSpace =>
    if s.port.txirq then some { s with port := (txInt s.port fifoSpace).port } else none
  | .abort => some s.abort
  | .signal => some { s with signal := true }

/-- The call can still return without a signal. -/
def SscRead.CanReturn (s : SscRead) : Prop :=
  ∃ es t r, .signal ∉ es ∧ run sscReadStep s es = some t ∧ t.pc = .done r

/-- What the user gets is the whole read or an error and nothing. -/
structure ReadClean (s : SscRead) : Prop where
  copyLen : ∀ ret, s.pc = .copy ret → 0 ≤ ret ∧ ret ≤ s.len.toNat
  result : ∀ ret, s.pc = .done ret →
    ret = s.len.toNat ∧ s.copied = s.stored ∧ s.stored.length = s.len.toNat ∨
      ret < 0 ∧ s.copied = []
  freed : ∀ ret, s.pc = .done ret → s.freed = if s.kmem = 0 then [] else [s.kmem]
  released : ∀ ret, s.pc = .done ret → s.kmem ≠ 0 → s.port.rxbuf = 0 ∧ s.port.rxirq = false
  returns : s.pc = .wait → s.CanReturn

/-- The checks of `ifx_ssc_read_helper` pass. -/
def SscRead.Accepts (s : SscRead) (todo : Bool) : Prop :=
  match s.port.modeRxTx with
  | .tx => False
  | .rxtx =>
    s.port.txbuf ≠ 0 ∧ s.port.txbuf = s.port.txbufPtr ∧
      s.port.txbufEnd = (s.len.toNat + s.port.txbuf) % 2 ^ 32
  | _ => todo = false

/-- The buffer is full. -/
def SscRead.Full (s : SscRead) : Prop := s.port.rxbufEnd ≤ s.port.rxbufPtr

/-- The helper has nothing to refuse, no signal or abort ends the wait, and the user can write to all of
the buffer or to none of it. -/
def ReadUndisturbed (s : SscRead) : SscReadEvent → Prop
  | .enter rxbuf _ todo => s.pc = .start → KmallocReturns (s.len + 3#32) rxbuf →
      s.port.rxbuf = 0 → rxbuf ≠ 0 → s.Accepts todo
  | .look => s.pc = .wait → ¬s.Full → s.signal = false
  | .leave copies => ∀ ret, s.pc = .copy ret →
      s.len.toNat + 3 < 2 ^ 32 ∧ (s.len.toNat ≤ copies ∨ copies = 0)
  | .abort => s.pc = .wait → s.Full ∨ s.signal = true
  | .rxInt _ _ | .txInt _ | .signal => True

end DanubeBsp
