import DanubeBsp.ByteOrder
import DanubeBsp.Runs
import DanubeBsp.VoiceWrite

namespace DanubeBsp

/-- `DEVTYPE`; the source numbers the voice devices from 2. -/
inductive VcpuDevType
  | unknown
  | command
  | voice (chan : Fin 4)
  deriving DecidableEq

def VcpuDevType.code : VcpuDevType → Nat
  | .unknown => 0
  | .command => 1
  | .voice chan => chan + 2

/-- `MailboxParam_s`: the pointers are byte addresses. -/
structure MailboxParam where
  pStart : Nat
  pEnd : Nat
  pWrite : Nat
  pRead : Nat
  fifoSize : Word
  deriving DecidableEq

/-- The shared memory, with the addresses of the words that the driver has accessed in this call. -/
structure MbxMem where
  bytes : Nat → Byte
  touched : List Nat

def MbxMem.load (m : MbxMem) (a : Nat) : Word × MbxMem :=
  (loadBe m.bytes a, { m with touched := m.touched ++ [a] })

def MbxMem.store (m : MbxMem) (a : Nat) (w : Word) : MbxMem :=
  ⟨storeBe m.bytes a w, m.touched ++ [a]⟩

/-- The difference of the pointers counts words, the size counts bytes, and the result is an `s8`. -/
def mbxFifoMemAvailable (mbx : MailboxParam) : BitVec 8 :=
  let words := BitVec.ofInt 32 (((mbx.pRead : Int) - mbx.pWrite) / 4)
  (mbx.fifoSize - (words &&& (mbx.fifoSize - 1))).setWidth 8

/-- The cast of the available words to `u32` extends the sign. -/
def mbxFifoMemReq (mbx : MailboxParam) (reqMem : Word) : Bool :=
  reqMem ≤ (mbxFifoMemAvailable mbx).signExtend 32

def mbxUpdReadPtr (mbx : MailboxParam) : MailboxParam :=
  if mbx.pRead > mbx.pEnd then { mbx with pRead := mbx.pRead - 4 }
  else { mbx with pRead := mbx.pStart }

def mbxUpdWritePtr (mbx : MailboxParam) : MailboxParam :=
  if mbx.pWrite > mbx.pEnd then { mbx with pWrite := mbx.pWrite - 4 }
  else { mbx with pWrite := mbx.pStart }

def mbxWriteWord (mbx : MailboxParam) (mem : MbxMem) (data : Word) : MailboxParam × MbxMem :=
  (mbxUpdWritePtr mbx, mem.store mbx.pWrite data)

/-- The loop over the words of a message in `DANUBE_MPS_MbxWriteDwnstr`. -/
def mbxWriteWords (mbx : MailboxParam) (mem : MbxMem) : List Word → MailboxParam × MbxMem
  | [] => (mbx, mem)
  | w :: ws =>
    let (mbx, mem) := mbxWriteWord mbx mem w
    mbxWriteWords mbx mem ws

def mbxReadWord (mbx : MailboxParam) (mem : MbxMem) : Word × MailboxParam × MbxMem :=
  let (w, mem) := mem.load mbx.pRead
  (w, mbxUpdReadPtr mbx, mem)

/-- The loop over the payload in `DANUBE_MPS_MbxReadUpstrmMsg`. -/
def mbxReadWords (mbx : MailboxParam) (mem : MbxMem) : Nat → List Word × MailboxParam × MbxMem
  | 0 => ([], mbx, mem)
  | n + 1 =>
    let (w, mbx, mem) := mbxReadWord mbx mem
    let (ws, mbx, mem) := mbxReadWords mbx mem n
    (w :: ws, mbx, mem)

/-- The header and the payload of the message at the read pointer; an odd length is an error. -/
def mbxReadUpstrmMsg (fifo : MailboxParam) (mem : MbxMem) :
    Option (List Word) × MailboxParam × MbxMem :=
  let (header, fifo, mem) := mbxReadWord fifo mem
  if plength header % 2 ≠ 0 then (none, fifo, mem)
  else
    let (data, fifo, mem) := mbxReadWords fifo mem (plength header / 2)
    (some (header :: data), fifo, mem)

/-- What `DSP_READWRITE` gets: a command is passed whole, a data message as pointer, size and offset. -/
inductive DspPkg
  | command (words : List Word)
  | data (pData nDataBytes rtpPaylOffset : Word)
  deriving DecidableEq

/-- The package for the words of a message; the message structure is zero behind them. -/
def dspPkg (words : List Word) : VcpuDevType → Option DspPkg
  | .unknown => none
  | .command => some (.command words)
  | .voice _ => some (.data (words.getD 1 0) (words.getD 2 0) (words.getD 3 0 &&& 0x0000ffff))

/-- `MPS_MB_DEV_STR`: each device has copies of the pointers of its own. -/
structure MpsMbDev where
  devId : VcpuDevType
  upstrmFifo : MailboxParam
  dwstrmFifo : MailboxParam

/-- `none` is the return value `ERROR`. -/
def mbxReadUpstrmFifo (dev : MpsMbDev) (mem : MbxMem) : Option DspPkg × MpsMbDev × MbxMem :=
  let (msg, upstrmFifo, mem) := mbxReadUpstrmMsg dev.upstrmFifo mem
  (msg.bind (dspPkg · dev.devId), { dev with upstrmFifo }, mem)

def vcpuMaxFifoWriteRetries : Nat := 10

/-- The `retries` after the loop that waits for memory, with `n` tries left. -/
def mbxRequestRetries (mbx : MailboxParam) (req32 : Word) (retries : Nat) : Nat → Nat
  | 0 => retries
  | n + 1 =>
    if mbxFifoMemReq mbx req32 then retries else mbxRequestRetries mbx req32 (retries + 1) n

/-- The words of a message, by the length in halfwords in the low byte of its header. -/
def mbxRequired (header : Word) : Nat :=
  let req16 := plength header
  req16 / 2 + if req16 % 2 ≠ 0 then 2 else 1

def mbxWriteDwnstr (dev : MpsMbDev) (mem : MbxMem) (pData : List Word) : Int × MpsMbDev × MbxMem :=
  let req32 := mbxRequired (pData.getD 0 0)
  let retries := mbxRequestRetries dev.dwstrmFifo (BitVec.ofNat 32 req32) 0 vcpuMaxFifoWriteRetries
  if retries < vcpuMaxFifoWriteRetries then
    let (dwstrmFifo, mem) := mbxWriteWords dev.dwstrmFifo mem (pData.take req32)
    (0, { dev with dwstrmFifo }, mem)
  else (eAgain, dev, mem)

/-- `plength` is set to a comparison of the byte count with one, plus two. -/
def dwnstrDataHeader (devId : VcpuDevType) (nDataBytes : Word) : Word :=
  mbxMsgHd 0 devId.code ((if nDataBytes > 1 then 1 else 0) + 2)

/-- The message on the stack: the header and 30 data words. -/
def dwnstrDataMsg (devId : VcpuDevType) (pData nDataBytes : Word) : List Word :=
  dwnstrDataHeader devId nDataBytes :: pData :: nDataBytes :: List.replicate 28 0

def mbxWriteDwnstrData (dev : MpsMbDev) (mem : MbxMem) (pData nDataBytes : Word) :
    Int × MpsMbDev × MbxMem :=
  match dev.devId with
  | .voice _ => mbxWriteDwnstr dev mem (dwnstrDataMsg dev.devId pData nDataBytes)
  | _ => (-1, dev, mem)

/-! The set-up. The cast of `MBX_BASEADDRESS` to the register structure binds tighter than the sum in
that macro, so the registers lie away from the memory of the FIFOs. -/

def mpsBaseaddress : Nat := 0xBF101400

def mbxBaseaddress : Nat := mpsBaseaddress + 0x100

def mbxUpstrmDataFifoBase : Nat := mbxBaseaddress + 8 + 8

def mbxDnstrmDataFifoBase : Nat := mbxUpstrmDataFifoBase + 8

/-- The base, size, read and write registers of one FIFO. -/
structure MbxRegs where
  base : Nat
  size : Nat
  read : Nat
  write : Nat

/-- The pointers are set to the base plus the number of words, less one; the base is a byte address. -/
def mbxRegsInit (base : Nat) : MbxRegs :=
  let top := base + mbxDataFifoSize / 4 - 1
  ⟨base, mbxDataFifoSize, top, top⟩

def mailboxParam (r : MbxRegs) : MailboxParam :=
  ⟨r.base + r.size / 4 - 1, r.base, r.write, r.read, BitVec.ofNat 32 r.size⟩

/-- The data mailbox: the shared registers and bytes and the four voice devices, with the addresses of
the downstream messages that the voice CPU has not taken yet, and the words, each with its address, of
the upstream messages that have not been read yet. -/
structure VcpuMbx where
  up : MbxRegs
  down : MbxRegs
  bytes : Nat → Byte
  voiceMb : Fin 4 → MpsMbDev
  pending : List (List Nat)
  unread : List (List (Nat × Word))

def mpsInitStructures (bytes : Nat → Byte) : VcpuMbx where
  up := mbxRegsInit mbxUpstrmDataFifoBase
  down := mbxRegsInit mbxDnstrmDataFifoBase
  bytes := bytes
  voiceMb := fun i => ⟨.voice i, mailboxParam (mbxRegsInit mbxUpstrmDataFifoBase),
    mailboxParam (mbxRegsInit mbxDnstrmDataFifoBase)⟩
  pending := []
  unread := []

/-- `DANUBE_MPS_MbxGetMsgChannel` on the header of a message. -/
def mbxMsgChannel (header : Word) : VcpuDevType :=
  if h : ((header >>> 16) &&& 0xf).toNat < 4 then .voice ⟨_, h⟩ else .unknown

/-- The device that the oldest unread upstream message names. -/
def VcpuMbx.headChannel (s : VcpuMbx) : VcpuDevType :=
  match s.unread with
  | [] => .unknown
  | m :: _ => mbxMsgChannel ((m.map Prod.snd).getD 0 0)

/-- The driver calls, and the voice CPU: it stores a message at any addresses and moves the shared
write pointer, or takes a message and moves the shared read pointer. -/
inductive VcpuEvent
  | writeDwnstrData (i : Fin 4) (pData nDataBytes : Word)
  | readUpstrmFifo (i : Fin 4)
  | produce (msg : List (Nat × Word)) (write : Nat)
  | consume (read : Nat)

def vcpuWrite (s : VcpuMbx) (i : Fin 4) (pData nDataBytes : Word) : Int × MpsMbDev × MbxMem :=
  mbxWriteDwnstrData (s.voiceMb i) ⟨s.bytes, []⟩ pData nDataBytes

def vcpuRead (s : VcpuMbx) (i : Fin 4) : Option DspPkg × MpsMbDev × MbxMem :=
  mbxReadUpstrmFifo (s.voiceMb i) ⟨s.bytes, []⟩

def vcpuStep (s : VcpuMbx) : VcpuEvent → Option VcpuMbx
  | .writeDwnstrData i pData nDataBytes =>
    let (result, dev, mem) := vcpuWrite s i pData nDataBytes
    some { s with
      bytes := mem.bytes
      voiceMb := Function.update s.voiceMb i dev
      pending := if result = 0 then s.pending ++ [mem.touched] else s.pending }
  | .readUpstrmFifo i =>
    if s.headChannel = .voice i then
      let (_, dev, mem) := vcpuRead s i
      some { s with
        bytes := mem.bytes
        voiceMb := Function.update s.voiceMb i dev
        unread := s.unread.tail }
    else none
  | .produce msg write =>
    some { s with
      up := { s.up with write }
      bytes := msg.foldl (fun bytes (a, w) => storeBe bytes a w) s.bytes
      unread := s.unread ++ [msg] }
  | .consume read => some { s with down := { s.down with read }, pending := s.pending.tail }

/-- A word of the FIFO at `base`. -/
def FifoWord (base a : Nat) : Prop := 4 ∣ a ∧ base ≤ a ∧ a + 4 ≤ base + mbxDataFifoSize

def VcpuMbx.occupied (s : VcpuMbx) : List Nat :=
  s.pending.flatten ++ s.unread.flatten.map Prod.fst

/-- A call of `DANUBE_MPS_MbxWriteDwnstrData` is right: it stays in the FIFO; if it is accepted, the
words that it asked for were free, and the whole message is in words that held no unread one. -/
structure DwnstrWritten (s : VcpuMbx) (i : Fin 4) (pData nDataBytes : Word) : Prop where
  inside : ∀ a ∈ (vcpuWrite s i pData nDataBytes).2.2.touched, FifoWord mbxDnstrmDataFifoBase a
  granted : (vcpuWrite s i pData nDataBytes).1 = 0 →
    mbxRequired (dwnstrDataHeader (.voice i) nDataBytes) + s.pending.flatten.length ≤
      mbxDataFifoSize / 4
  free : (vcpuWrite s i pData nDataBytes).1 = 0 →
    ∀ a ∈ (vcpuWrite s i pData nDataBytes).2.2.touched, ∀ b ∈ s.occupied, a + 4 ≤ b ∨ b + 4 ≤ a
  full : (vcpuWrite s i pData nDataBytes).1 = 0 →
    [dwnstrDataHeader (.voice i) nDataBytes, pData, nDataBytes] <+:
      (vcpuWrite s i pData nDataBytes).2.2.touched.map
        (loadBe (vcpuWrite s i pData nDataBytes).2.2.bytes)

/-- A call of `DANUBE_MPS_MbxReadUpstrmFifo` is right: it stays in the FIFO and returns the oldest
unread message. -/
structure UpstrmRead (s : VcpuMbx) (i : Fin 4) : Prop where
  inside : ∀ a ∈ (vcpuRead s i).2.2.touched, FifoWord mbxUpstrmDataFifoBase a
  oldest : ∀ m rest, s.unread = m :: rest →
    (vcpuRead s i).1 = dspPkg (m.map Prod.snd) (.voice i)

def VcpuStepGood (s : VcpuMbx) : VcpuEvent → Prop
  | .writeDwnstrData i pData nDataBytes => DwnstrWritten s i pData nDataBytes
  | .readUpstrmFifo i => s.headChannel = .voice i → UpstrmRead s i
  | _ => True

/-- The driver does not touch the mailbox. -/
def VcpuUntouched (s : VcpuMbx) : VcpuEvent → Prop
  | .writeDwnstrData _ _ _ => False
  | .readUpstrmFifo i => s.headChannel ≠ .voice i
  | _ => True

end DanubeBsp
