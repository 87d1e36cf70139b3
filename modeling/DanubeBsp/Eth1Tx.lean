import Mathlib.Logic.Function.Basic
import DanubeBsp.Runs
import DanubeBsp.WordMemory

namespace DanubeBsp

/-- `ETH1_TX_DESC_NUM`. -/
def eth1TxDescNum : Nat := 32

/-- `ETH1_TX_TOTAL_CHANNEL_USED`. -/
def eth1TxTotalChannelUsed : Nat := 4

/-- `MIN_TX_PACKET_LENGTH`, that is `ETH_ZLEN`. -/
def minTxPacketLength : Word := 60#32

/-- A packet buffer; `id` is its serial number among all buffers that are ever allocated. -/
structure Skb where
  id : Nat
  data : Word
  len : Word
  deriving DecidableEq

/-- `struct tx_descriptor`, by its two words. -/
structure TxDescriptor where
  word0 : Word
  word1 : Word
  deriving DecidableEq

def TxDescriptor.own (d : TxDescriptor) : Bool := d.word0.getLsbD 31

def TxDescriptor.byteoff (d : TxDescriptor) : BitVec 5 := d.word0.extractLsb' 23 5

def TxDescriptor.datalen (d : TxDescriptor) : BitVec 16 := d.word0.extractLsb' 0 16

def TxDescriptor.dataptr (d : TxDescriptor) : BitVec 28 := d.word1.extractLsb' 0 28

/-- The byte address that the second word and the byte offset give together. -/
def TxDescriptor.address (d : TxDescriptor) : Nat := 4 * d.word1.toNat + d.byteoff.toNat

/-- The firmware gives a descriptor back. -/
def TxDescriptor.release (d : TxDescriptor) : TxDescriptor :=
  { d with word0 := d.word0 &&& 0x7fffffff#32 }

/-- The descriptor that `eth1_xmit` writes for a buffer. -/
def txDescriptorOf (skb : Skb) : TxDescriptor where
  word0 := 0xf0000000#32 ||| ((skb.data &&& 3#32) <<< 23) |||
    (if skb.len < minTxPacketLength then minTxPacketLength else skb.len)
  word1 := skb.data >>> 2

/-- The fields of `struct eth_dev_tx_ch` without the lock. -/
structure EthDevTxCh where
  base : Nat → TxDescriptor
  allocPos : Nat
  skbPointers : Nat → Skb

/-- The state of the second port. -/
structure Eth1 where
  txCh : Nat → EthDevTxCh
  devTxIrq : Word
  ier : Word
  dmaCh2TxNotRun : Word
  queueStopped : Bool
  txPackets : Word
  txBytes : Word
  txDropped : Word

/-- `eth1_alloc_tx_desc`: the index of the descriptor, if there is one, and `f_full`. -/
def eth1AllocTxDesc (pch : EthDevTxCh) : EthDevTxCh × Option Nat × Bool :=
  let descPos := pch.allocPos
  if (pch.base descPos).own then (pch, none, true)
  else
    let allocPos := if pch.allocPos + 1 = eth1TxDescNum then 0 else pch.allocPos + 1
    ({ pch with allocPos := allocPos }, some descPos, (pch.base allocPos).own)

/-- The bits of all channels in `eth1_dev_tx_irq`. -/
def eth1TxIrqMask : Word := 0xf0000#32

/-- What `eth1_xmit` does when `f_full` is set: ask for an interrupt of the channel. -/
def eth1Full (e : Eth1) (ch : Nat) : Eth1 :=
  let irq := e.devTxIrq ||| (1#32 <<< (ch + 16))
  { e with
    devTxIrq := irq
    ier := irq
    queueStopped := e.queueStopped || irq == eth1TxIrqMask }

/-- With `ENABLE_D2` channel 1 is the firmware's own. -/
def eth1Channel (ch : Nat) : Nat := if ch = 1 then 0 else ch

/-- `eth1_xmit`, with the buffers that it passes to `dev_kfree_skb_any`. -/
def eth1Xmit (e : Eth1) (skb : Skb) (ch : Nat) : Eth1 × List Skb :=
  let ch := eth1Channel ch
  let r := eth1AllocTxDesc (e.txCh ch)
  let e := { e with
    txCh := Function.update e.txCh ch r.1
    txPackets := e.txPackets + 1#32
    txBytes := e.txBytes + skb.len }
  let e := if r.2.2 then eth1Full e ch else e
  match r.2.1 with
  | none => ({ e with txDropped := e.txDropped + 1#32 }, [skb])
  | some descPos =>
    let pch := { r.1 with
      skbPointers := Function.update r.1.skbPointers descPos skb
      base := Function.update r.1.base descPos (txDescriptorOf skb) }
    ({ e with txCh := Function.update e.txCh ch pch }, [r.1.skbPointers descPos])

/-- `mailbox_irq_handler`, with the interrupt status and the `OWN` bit of the first descriptor of DMA
channel 2. -/
def mailboxIrqHandler (e : Eth1) (isr : Word) (ch2Own : Bool) : Eth1 :=
  let txIrq := isr &&& e.devTxIrq
  let r :=
    if e.dmaCh2TxNotRun ≠ 0#32 ∧ txIrq &&& e.dmaCh2TxNotRun ≠ 0#32 ∧ ch2Own = true then
      ({ e with
        dmaCh2TxNotRun := 0#32
        devTxIrq := e.devTxIrq &&& eth1TxIrqMask
        ier := e.devTxIrq &&& eth1TxIrqMask }, txIrq &&& eth1TxIrqMask)
    else (e, txIrq)
  if r.2 = 0#32 then r.1
  else { r.1 with
    devTxIrq := r.1.devTxIrq ^^^ r.2
    ier := r.1.devTxIrq ^^^ r.2
    queueStopped := false }

/-- The allocation loop of `init_local_variables`: `alloc` gives the data address of each buffer. A
failure frees the buffers that are there, the last one first. -/
def initSkbPointers (alloc : Nat → Option Word) : Nat → Except (List Skb) (List Skb)
  | 0 => .ok []
  | i + 1 => do
    let skbs ← initSkbPointers alloc i
    match alloc i with
    | some data => .ok (skbs ++ [⟨i, data, 0#32⟩])
    | none => .error skbs.reverse

/-- A channel behind `init_local_variables`, `clear_share_buffer` and `alloc_dma`. -/
def initTxCh (skbs : List Skb) (i : Nat) : EthDevTxCh :=
  let skbPointers := fun p => skbs.getD (i * eth1TxDescNum + p) ⟨0, 0#32, 0#32⟩
  { base := fun p =>
      if i = 1 then ⟨0x30000000#32, ((skbPointers p).data &&& 0x1fffffff#32) >>> 2⟩
      else ⟨0#32, 0#32⟩
    allocPos := 0
    skbPointers := skbPointers }

/-- `clear_local_variables`: the buffers that it frees, in order. -/
def clearLocalVariables (e : Eth1) : List Skb :=
  (List.range (eth1TxTotalChannelUsed * eth1TxDescNum)).map fun i =>
    (e.txCh (i / eth1TxDescNum)).skbPointers (i % eth1TxDescNum)

/-- The port and the firmware, with its position in each ring, the next serial number, and the
buffers freed so far. -/
structure Eth1Sys where
  drv : Eth1
  fw : Nat → Nat
  next : Nat
  freed : List Nat

inductive Eth1Event
  | xmit (ch : Fin 4) (data len : Word)
  | complete (ch : Fin 4)
  | mailboxIrq (isr : Word) (ch2Own : Bool)
  deriving DecidableEq

/-- The driver with its buffers: `init_mailbox` masks all interrupts, then the one of DMA channel 2 is
asked for. -/
def eth1Ready (skbs : List Skb) : Eth1Sys where
  drv := {
    txCh := initTxCh skbs
    devTxIrq := 1#32
    ier := 1#32
    dmaCh2TxNotRun := 1#32
    queueStopped := false
    txPackets := 0#32
    txBytes := 0#32
    txDropped := 0#32 }
  fw := fun _ => 0
  next := eth1TxTotalChannelUsed * eth1TxDescNum
  freed := []

/-- Load the driver. -/
def eth1Load (alloc : Nat → Option Word) : Except (List Skb) Eth1Sys :=
  (initSkbPointers alloc (eth1TxTotalChannelUsed * eth1TxDescNum)).map eth1Ready

/-- Every packet comes in a buffer of its own. The firmware completes the descriptors of a ring in
order. -/
def eth1Step (s : Eth1Sys) : Eth1Event → Option Eth1Sys
  | .xmit ch data len =>
    let r := eth1Xmit s.drv ⟨s.next, data, len⟩ ch
    some { s with drv := r.1, next := s.next + 1, freed := s.freed ++ r.2.map Skb.id }
  | .complete ch =>
    let pch := s.drv.txCh ch
    let d := pch.base (s.fw ch)
    if d.own then
      let pch := { pch with base := Function.update pch.base (s.fw ch) d.release }
      some { s with
        drv := { s.drv with txCh := Function.update s.drv.txCh ch pch }
        fw := Function.update s.fw ch ((s.fw ch + 1) % eth1TxDescNum) }
    else none
  | .mailboxIrq isr ch2Own => some { s with drv := mailboxIrqHandler s.drv isr ch2Own }

end DanubeBsp
