import DanubeBsp.DmaTx

namespace DanubeBsp

/-- The fields of `dma_channel_info` that the receive path reads. -/
structure RxChan where
  desc : Nat → DmaDesc
  opt : Nat → Word
  descLen : Nat
  currDesc : Nat
  packetSize : Word

/-- What a successful `buffer_alloc` returns. -/
structure RxBuffer where
  addr : Word
  byteOffset : Word
  opt : Word
  deriving DecidableEq

/-- The return value of `dma_device_read` with its two output arguments. -/
structure RxPacket where
  len : Word
  dataptr : Word
  opt : Word
  deriving DecidableEq

def dataLength (d : DmaDesc) : Word := d.status &&& 0xffff#32

/-- The packet that the hardware has left in a descriptor. -/
def RxChan.packetAt (ch : RxChan) (i : Nat) : RxPacket :=
  ⟨dataLength (ch.desc i), kernelVa (ch.desc i).dataPointer, ch.opt i⟩

/-- A descriptor given to the hardware with a fresh buffer. -/
def rxDesc (packetSize : Word) (b : RxBuffer) : DmaDesc :=
  ⟨0x80000000#32 ||| (b.byteOffset <<< 23) ||| packetSize, cphysaddr b.addr⟩

def rxAdvance (ch : RxChan) : RxChan :=
  { ch with currDesc := if ch.currDesc + 1 = ch.descLen then 0 else ch.currDesc + 1 }

/-- `dma_device_read`, with the result of its `buffer_alloc` call as an argument. Without a
completed descriptor it returns at once; when the allocation fails the descriptor stays as it is and
the call hands nothing over, but `curr_desc` advances all the same, and the packet is only found again
when `curr_desc` has gone round the ring. -/
def dmaDeviceRead (ch : RxChan) (alloc : Option RxBuffer) : Option RxPacket × RxChan :=
  if (ch.desc ch.currDesc).done then
    match alloc with
    | some b =>
      (some (ch.packetAt ch.currDesc), rxAdvance { ch with
        opt := Function.update ch.opt ch.currDesc b.opt
        desc := Function.update ch.desc ch.currDesc (rxDesc ch.packetSize b) })
    | none => (some ⟨0, 0, 0⟩, rxAdvance ch)
  else (none, ch)

/-- A descriptor as `dma_device_register` fills it, field by field. -/
def rxRegisterDesc (packetSize : Word) (b : RxBuffer) : DmaDesc :=
  ⟨0x80000000#32 ||| ((b.byteOffset &&& 3#32) <<< 23) ||| (packetSize &&& 0xffff#32),
    cphysaddr b.addr⟩

/-- The descriptor loop of `dma_device_register`: it stops at the first failed allocation. -/
def rxRegister (packetSize : Word) (alloc : Nat → Option RxBuffer) :
    Nat → (Nat → DmaDesc) × (Nat → Word) × Bool
  | 0 => (fun _ => .zero, fun _ => 0, true)
  | n + 1 =>
    let (desc, opt, going) := rxRegister packetSize alloc n
    match going, alloc n with
    | true, some b =>
      (Function.update desc n (rxRegisterDesc packetSize b), Function.update opt n b.opt, true)
    | _, _ => (desc, opt, false)

/-- A receive channel with the hardware's own index and the logs of a run. -/
structure RxSys where
  ch : RxChan
  hw : Nat
  arrived : List RxPacket
  delivered : List RxPacket
  buffers : List RxBuffer

inductive RxEvent
  | arrive (status : Word)
  | read (alloc : Option RxBuffer)

/-- The hardware stores a packet in the next descriptor of the ring, if it owns it. -/
def rxArrive (s : RxSys) (status : Word) : Option RxSys :=
  let d := s.ch.desc s.hw
  if d.dmaOwn then
    let status := (status &&& 0x7fffffff#32) ||| 0x40000000#32
    let ch := { s.ch with desc := Function.update s.ch.desc s.hw { d with status } }
    some { s with
      ch := ch
      hw := (s.hw + 1) % s.ch.descLen
      arrived := s.arrived ++ [ch.packetAt s.hw] }
  else none

/-- The upper layer takes a packet when it gets a data pointer. -/
def rxRead (s : RxSys) (alloc : Option RxBuffer) : RxSys :=
  let (packet, ch) := dmaDeviceRead s.ch alloc
  { s with
    ch := ch
    delivered := s.delivered ++ (packet.toList.filter fun p => p.dataptr ≠ 0)
    buffers := if packet.isSome then s.buffers ++ alloc.toList else s.buffers }

def rxStep (s : RxSys) : RxEvent → Option RxSys
  | .arrive status => rxArrive s status
  | .read alloc => some (rxRead s alloc)

def rxInit (descLen : Nat) (packetSize : Word) (alloc : Nat → Option RxBuffer) : RxSys :=
  let (desc, opt, _) := rxRegister packetSize alloc descLen
  { ch := { desc, opt, descLen, currDesc := 0, packetSize }
    hw := 0, arrived := [], delivered := [], buffers := (List.range descLen).filterMap alloc }

theorem rxDesc_dmaOwn (packetSize : Word) (b : RxBuffer) :
    (rxDesc packetSize b).dmaOwn = true := by
  simp [DmaDesc.dmaOwn, rxDesc]

theorem rxRegisterDesc_dmaOwn (packetSize : Word) (b : RxBuffer) :
    (rxRegisterDesc packetSize b).dmaOwn = true := by
  simp [DmaDesc.dmaOwn, rxRegisterDesc]

theorem kernelVa_cphysaddr_ne_zero (a : Word) : kernelVa (cphysaddr a) ≠ 0 := by
  intro h
  have hbit := congrArg (fun w : Word => w.getLsbD 31) h
  have hcarry : cphysaddr a + 0x80000000#32 = cphysaddr a ||| 0x80000000#32 := by
    apply BitVec.add_eq_or_of_and_eq_zero
    rw [cphysaddr, BitVec.and_assoc]
    simp
  rw [kernelVa, hcarry] at hbit
  simp at hbit

end DanubeBsp
