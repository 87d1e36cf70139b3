import Mathlib.Data.PNat.Basic
import DanubeBsp.Runs
import DanubeBsp.RingSlice
import DanubeBsp.WordMemory

namespace DanubeBsp

/-- A DMA descriptor: bit 31 of the status word is `OWN`, bit 30 is `C`. -/
structure DmaDesc where
  status : Word
  dataPointer : Word
  deriving DecidableEq

def DmaDesc.dmaOwn (d : DmaDesc) : Bool := d.status.getLsbD 31

def DmaDesc.complete (d : DmaDesc) : Bool := d.status.getLsbD 30

/-- `OWN == CPU_OWN && C`: the hardware has finished with the descriptor. -/
def DmaDesc.done (d : DmaDesc) : Bool := !d.dmaOwn && d.complete

def DmaDesc.zero : DmaDesc := ⟨0, 0⟩

def cphysaddr (a : Word) : Word := a &&& 0x1fffffff#32

/-- `__va`: the cached kernel address of a physical one. -/
def kernelVa (a : Word) : Word := a + 0x80000000#32

/-- The fields of `dma_channel_info` that the transmit path reads; `cctrlOn` is bit 0 of CCTRL. -/
structure TxChan where
  desc : Nat → DmaDesc
  opt : Nat → Word
  descLen : Nat
  currDesc : Nat
  prevDesc : Nat
  cctrlOn : Bool

structure TxPacket where
  dataptr : Word
  len : Word
  opt : Word
  deriving DecidableEq

/-- The arguments of a `buffer_free` call. -/
structure FreeCall where
  dataptr : Word
  opt : Word
  deriving DecidableEq

/-- One iteration of the reclaim loop: free the buffer, clear the descriptor, advance. -/
def reclaimOne (ch : TxChan) : TxChan × FreeCall :=
  let d := ch.desc ch.prevDesc
  ({ ch with
      desc := Function.update ch.desc ch.prevDesc .zero
      prevDesc := (ch.prevDesc + 1) % ch.descLen },
    ⟨kernelVa d.dataPointer, ch.opt ch.prevDesc⟩)

/-- The reclaim loop of `dma_device_write`; `none` means that the fuel ran out. -/
def reclaim : Nat → TxChan → Option (TxChan × List FreeCall)
  | 0, _ => none
  | fuel + 1, ch =>
    if (ch.desc ch.prevDesc).done then do
      let (ch', freed) ← reclaim fuel (reclaimOne ch).1
      pure (ch', (reclaimOne ch).2 :: freed)
    else some (ch, [])

/-- The place of a packet in its burst. `tx_burst_len` is positive, or the division traps. -/
def txByteOffset (txBurstLen : ℕ+) (p : TxPacket) : Nat :=
  (cphysaddr p.dataptr).toNat % (txBurstLen * 4)

def txDataPointer (txBurstLen : ℕ+) (p : TxPacket) : Word :=
  cphysaddr p.dataptr - BitVec.ofNat 32 (txByteOffset txBurstLen p)

/-- `DMA_OWN`, `SOP`, `EOP`, the byte offset and the length, or-ed together. -/
def txStatus (txBurstLen : ℕ+) (p : TxPacket) : Word :=
  0x80000000#32 ||| 0x20000000#32 ||| 0x10000000#32 |||
    (BitVec.ofNat 32 (txByteOffset txBurstLen p) <<< 23) ||| p.len

/-- Fill the current descriptor, advance `curr_desc` and open the channel. -/
def submit (txBurstLen : ℕ+) (ch : TxChan) (p : TxPacket) : TxChan :=
  { ch with
    opt := Function.update ch.opt ch.currDesc p.opt
    desc := Function.update ch.desc ch.currDesc ⟨txStatus txBurstLen p, txDataPointer txBurstLen p⟩
    currDesc := if ch.currDesc + 1 = ch.descLen then 0 else ch.currDesc + 1
    cctrlOn := true }

/-- The outcome of a `dma_device_write`: the return value, whether the packet was queued, the
`buffer_free` calls and the number of `TX_BUF_FULL_INT` calls. -/
structure TxWrite where
  ret : Word
  queued : Bool
  chan : TxChan
  freed : List FreeCall
  bufFull : Nat

/-- The part of `dma_device_write` after the reclaim loop. -/
def queuePacket (txBurstLen : ℕ+) (ch : TxChan) (p : TxPacket) (freed : List FreeCall) : TxWrite :=
  let d := ch.desc ch.currDesc
  if d.dmaOwn || d.complete then { ret := 0, queued := false, chan := ch, freed, bufFull := 1 }
  else
    let ch := submit txBurstLen ch p
    { ret := p.len, queued := true, chan := ch, freed,
      bufFull := if (ch.desc ch.currDesc).dmaOwn then 1 else 0 }

def dmaDeviceWrite (txBurstLen : ℕ+) (ch : TxChan) (p : TxPacket) : Option TxWrite := do
  let (ch, freed) ← reclaim (ch.descLen + 1) ch
  pure (queuePacket txBurstLen ch p freed)

/-- A transmit channel with the hardware's own index and the logs of a run. -/
structure TxSys where
  ch : TxChan
  hw : Nat
  accepted : List TxPacket
  freed : List FreeCall
  completed : Nat

inductive TxEvent
  | write (p : TxPacket)
  | complete (status : Word)

/-- The hardware finishes its descriptors in ring order: it clears `OWN`, sets `C` and may
change every other bit of the status word. -/
def txComplete (s : TxSys) (status : Word) : Option TxSys :=
  let d := s.ch.desc s.hw
  if d.dmaOwn then
    let status := (status &&& 0x7fffffff#32) ||| 0x40000000#32
    some { s with
      ch := { s.ch with desc := Function.update s.ch.desc s.hw { d with status } }
      hw := (s.hw + 1) % s.ch.descLen
      completed := s.completed + 1 }
  else none

def afterWrite (s : TxSys) (p : TxPacket) (w : TxWrite) : TxSys :=
  { s with
    ch := w.chan
    accepted := if w.queued then s.accepted ++ [p] else s.accepted
    freed := s.freed ++ w.freed }

def txStep (txBurstLen : ℕ+) (s : TxSys) : TxEvent → Option TxSys
  | .write p => (dmaDeviceWrite txBurstLen s.ch p).map (afterWrite s p)
  | .complete status => txComplete s status

/-- The channel after `dma_device_register`: every descriptor zeroed, both indices 0. -/
def txInit (descLen : Nat) (opt : Nat → Word) : TxSys :=
  { ch := { desc := fun _ => .zero, opt, descLen, currDesc := 0, prevDesc := 0, cctrlOn := false }
    hw := 0, accepted := [], freed := [], completed := 0 }

/-- The `buffer_free` call that an accepted packet is owed. -/
def owedFree (txBurstLen : ℕ+) (p : TxPacket) : FreeCall :=
  ⟨kernelVa (txDataPointer txBurstLen p), p.opt⟩

theorem txStatus_dmaOwn (txBurstLen : ℕ+) (p : TxPacket) (a : Word) :
    DmaDesc.dmaOwn ⟨txStatus txBurstLen p, a⟩ = true := by
  simp [DmaDesc.dmaOwn, txStatus]

theorem completed_status (status a : Word) :
    DmaDesc.done ⟨(status &&& 0x7fffffff#32) ||| 0x40000000#32, a⟩ = true := by
  simp [DmaDesc.done, DmaDesc.dmaOwn, DmaDesc.complete]

end DanubeBsp
