import DanubeBsp.SscRead

namespace DanubeBsp

/-- The arguments of `ssc_session`: the bytes behind `tx_buf`, or `NULL`; whether `rx_buf` is not
`NULL`; and the lengths. -/
structure SscArgs where
  txBuf : Option (Nat → Byte)
  txLen : Word
  rxBuf : Bool
  rxLen : Word

/-- `ifx_ssc_tx`. -/
def ifxSscTx (txBuf : Option (Nat → Byte)) (txLen : Word) : SscArgs := ⟨txBuf, txLen, false, 0#32⟩

/-- `ifx_ssc_rx`. -/
def ifxSscRx (rxBuf : Bool) (rxLen : Word) : SscArgs := ⟨none, 0#32, rxBuf, rxLen⟩

/-- The mode of a session, `none` for invalid parameters. -/
def SscArgs.mode (a : SscArgs) : Option SscMode :=
  if a.txBuf = none ∧ a.txLen = 0 ∧ a.rxBuf = false ∧ a.rxLen = 0 then none
  else if a.txBuf = none ∨ a.txLen = 0 then
    if a.rxBuf = true ∧ a.rxLen ≠ 0 then some .rx else none
  else if a.rxBuf = false ∨ a.rxLen = 0 then
    if a.txBuf ≠ none ∧ a.txLen ≠ 0 then some .tx else none
  else some .rxtx

/-- `eff_size`. -/
def SscArgs.effSize (a : SscArgs) : Word :=
  match a.mode with
  | some .rxtx => a.txLen + a.rxLen
  | some .rx => a.rxLen
  | _ => a.txLen

/-- The size of the session buffers, aligned to 4 bytes. -/
def SscArgs.size (a : SscArgs) : Word := (a.effSize + 3#32) &&& ~~~3#32

/-- What the two calls of `kmalloc` return: blocks that nobody else has. -/
structure SessionMem (p : SscPort) (size : Word) where
  tx : Nat
  rx : Nat
  txReturned : KmallocReturns size tx
  rxReturned : KmallocReturns size rx
  apart : tx = 0 ∨ tx ≠ rx
  txFresh : tx = 0 ∨ tx ≠ p.txbuf
  rxFresh : rx = 0 ∨ rx ≠ p.rxbuf

/-- A `memset` or `memcpy` of `n` bytes, with the room behind its two pointers. -/
structure SessionCopy where
  src : Nat
  dst : Nat
  n : Nat
  deriving DecidableEq

def SessionCopy.Inside (c : SessionCopy) : Prop := c.n ≤ c.src ∧ c.n ≤ c.dst

/-- The copies before the write: two `memset`s, which read nothing, and the one of `tx_buf`. -/
def SscArgs.copiesIn (a : SscArgs) : List SessionCopy :=
  [⟨a.effSize.toNat, a.size.toNat, a.effSize.toNat⟩, ⟨a.effSize.toNat, a.size.toNat, a.effSize.toNat⟩] ++
    if 0 < a.txLen then
      [⟨if a.txBuf = none then 0 else a.txLen.toNat, a.size.toNat, a.txLen.toNat⟩]
    else []

/-- The copy to `rx_buf`. -/
def SscArgs.copyOut (a : SscArgs) : SessionCopy where
  src := a.size.toNat - a.txLen.toNat
  dst := if a.rxBuf then a.rxLen.toNat else 0
  n := a.rxLen.toNat

/-- A call of `ifx_ssc_kwrite`: the port behind it, what it has freed and its result. -/
structure KwriteOutcome where
  port : SscPort
  freed : List Nat
  ret : Int

/-- `ifx_ssc_write_helper` for the buffer in `txbuf`. -/
def SscPort.writeHelper (p : SscPort) (len : Word) (fifoSpace : Nat) : KwriteOutcome :=
  if p.modeRxTx = .rx then ⟨p, [], eFault⟩
  else
    let p := { p with
      txbufPtr := p.txbuf
      txbufEnd := (len.toNat + p.txbuf) % 2 ^ 32 }
    if p.modeRxTx = .tx then
      let r := txInt p fifoSpace
      let q := if r.port.txbufPtr < r.port.txbufEnd then { r.port with txirq := true } else r.port
      ⟨q, r.kfreed.toList, len.toInt⟩
    else ⟨p, [], len.toInt⟩

/-- `ifx_ssc_kwrite`. -/
def SscPort.kwrite (p : SscPort) (kbuf : Nat) (len : Word) (fifoSpace : Nat) : KwriteOutcome :=
  if len = 0 then ⟨p, [], 0⟩
  else if p.txbuf ≠ 0 then ⟨p, [], eBusy⟩
  else
    let r := SscPort.writeHelper { p with txbuf := kbuf } len fifoSpace
    if r.ret < 0 then { r with port := { r.port with txbuf := 0 } } else r

/-- What one round of the polling loop finds: the free entries of the transmit FIFO, `fifo_fill_lev` and
the entries of the receive FIFO. -/
structure SscRound where
  fifoSpace : Nat
  level : Nat
  fifo : List (List Byte)
  deriving DecidableEq

/-- A call of `ifx_ssc_kread`: the port, the bytes that `rx_int` has stored, and what has been freed. -/
structure SscPoll where
  port : SscPort
  stored : List Byte
  freed : List Nat

/-- One round of the loop of `ifx_ssc_read_helper_poll`. -/
def SscPoll.round (s : SscPoll) (r : SscRound) : SscPoll :=
  let t := if s.port.txbufPtr < s.port.txbufEnd then txInt s.port r.fifoSpace else ⟨s.port, [], none⟩
  let out := rxStored (t.port.rxbufEnd - t.port.rxbufPtr) r.level r.fifo
  { port := t.port.rxAdvance out.length
    stored := s.stored ++ out
    freed := s.freed ++ t.kfreed.toList }

/-- The loop of `ifx_ssc_read_helper_poll`; `none` if it still polls behind the given rounds. -/
def SscPoll.loop : SscPoll → List SscRound → Option SscPoll
  | s, [] => if s.port.rxbufPtr < s.port.rxbufEnd then none else some s
  | s, r :: rounds =>
    if s.port.rxbufPtr < s.port.rxbufEnd then SscPoll.loop (s.round r) rounds else some s

/-- The port that begins to poll. -/
def SscPort.pollStart (p : SscPort) (kbuf : Nat) (len : Word) : SscPort :=
  { p with rxbuf := kbuf, rxbufPtr := kbuf, rxbufEnd := (kbuf + len.toNat) % 2 ^ 32 }

/-- `ifx_ssc_kread`. -/
def SscPort.kread (p : SscPort) (kbuf : Nat) (len : Word) (rounds : List SscRound) :
    Option (SscPoll × Int) :=
  if len = 0 then some (⟨p, [], []⟩, 0)
  else if p.rxbuf ≠ 0 then some (⟨p, [], []⟩, eBusy)
  else if kbuf = 0 then some (⟨p, [], []⟩, eInval)
  else if p.modeRxTx = .tx then some (⟨{ p with rxbuf := 0, rxirq := false }, [], []⟩, eFault)
  else
    (SscPoll.loop ⟨p.pollStart kbuf len, [], []⟩ rounds).map fun s =>
      ({ s with port := { s.port with rxbuf := 0, rxirq := false } },
        (s.port.rxbufPtr : Int) - s.port.rxbuf)

/-- A session that has returned: `stored` is what came in, `reply` what `rx_buf` got. -/
structure SessionOutcome where
  port : SscPort
  ret : Int
  copies : List SessionCopy
  freed : List Nat
  stored : List Byte
  reply : List Byte

/-- `ssc_session_exit`, with the frees before it. -/
def sessionExit (p : SscPort) (ret : Int) (copies : List SessionCopy) (freed : List Nat)
    (sscTxBuf sscRxBuf : Nat) (stored reply : List Byte) : SessionOutcome where
  port := p
  ret := ret
  copies := copies
  freed := freed ++ (if sscTxBuf ≠ 0 then [sscTxBuf] else []) ++
    (if sscRxBuf ≠ 0 then [sscRxBuf] else [])
  stored := stored
  reply := reply

/-- `ssc_session`; `none` if it still polls behind the given rounds. -/
def SscPort.sscSession (p : SscPort) (a : SscArgs) (mem : SessionMem p a.size) (fifoSpace : Nat)
    (rounds : List SscRound) : Option SessionOutcome :=
  match a.mode with
  | none => some (sessionExit p eInval [] [] 0 0 [] [])
  | some mode =>
    if mem.tx = 0 ∨ mem.rx = 0 then some (sessionExit p eNoMem [] [] mem.tx mem.rx [] [])
    else
      let w := p.kwrite mem.tx a.effSize fifoSpace
      let sscTxBuf := if 0 < w.ret then 0 else mem.tx
      if w.ret ≠ a.effSize.toInt then
        some (sessionExit w.port w.ret a.copiesIn w.freed sscTxBuf mem.rx [] [])
      else
        (w.port.kread mem.rx a.effSize rounds).map fun (s, ret) =>
          if ret ≠ a.effSize.toInt then
            sessionExit s.port ret a.copiesIn (w.freed ++ s.freed) sscTxBuf mem.rx s.stored []
          else
            let content := s.stored ++ List.replicate (a.size.toNat - s.stored.length) 0#8
            sessionExit s.port (if mode = .tx then a.txLen.toInt else a.rxLen.toInt)
              (a.copiesIn ++ [a.copyOut]) (w.freed ++ s.freed) sscTxBuf mem.rx s.stored
              ((content.drop a.txLen.toNat).take a.rxLen.toNat)

/-- The transmit path is about to free the buffer: its interrupt is on and needs room in the FIFO. -/
def SscPort.Drains (p : SscPort) (buf : Nat) : Prop :=
  p.txirq = true ∧ ∃ fifoSpace, (txInt p fifoSpace).kfreed = some buf

end DanubeBsp
