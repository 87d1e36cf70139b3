import Mathlib.Logic.Function.Basic
import DanubeBsp.ByteOrder

namespace DanubeBsp

structure MPMessage where
  iFunction : Half
  iGroup : Half
  iAddress : Half
  iIndex : Half
  iPayload : Nat → Half

def newMpPayloadSize : Nat := 12

/-- `MSG_RECV_LENGTH`, which is also the size of a message. -/
def msgRecvLength : Nat := 32

/-- The message in 32 bytes of memory. -/
def MPMessage.ofBytes (bs : List Byte) : MPMessage :=
  let half (i : Nat) : Half := beHalf (bs.getD (2 * i) 0) (bs.getD (2 * i + 1) 0)
  ⟨half 0, half 1, half 2, half 3, fun i => half (4 + i)⟩

def MPMessage.payloadBytes (m : MPMessage) : List Byte :=
  (List.range newMpPayloadSize).flatMap fun i => halfBytes (m.iPayload i)

/-- The memory of a message. What the server writes past the payload is not in it. -/
def MPMessage.toBytes (m : MPMessage) : List Byte :=
  halfBytes m.iFunction ++ halfBytes m.iGroup ++ halfBytes m.iAddress ++ halfBytes m.iIndex ++
    m.payloadBytes

/-- `Parameter`. -/
structure MeiParameter where
  iAddress : Word
  iData : Word

/-- `ReadDebug_Parameter`. -/
structure ReadDebugParameter where
  iAddress : Word
  iReadCount : Nat
  buffer : Nat → Word

inductive MeiCtl where
  | reset
  | start
  | reboot
  | download
  | run
  | halt

/-- The MEI driver below the server: its state and its ioctls, and the write of the firmware. -/
structure MeiDriver (δ : Type) where
  ctl : MeiCtl → δ → δ × Int
  remote : Word → δ → δ
  firmware : δ → δ
  readDebug : ReadDebugParameter → δ → δ × ReadDebugParameter
  cmvRead : MeiParameter → δ → δ × MeiParameter
  cmvWrite : MeiParameter → δ → δ × MeiParameter
  cmvWinhost : MPMessage → δ → δ × MPMessage

/-- The variables of the server that live from one message to the next, with the requests that it has
handled and what it has sent. `past` lists how many halves were stored past the payload of `TxMsg`. -/
structure DebugServer (δ : Type) where
  dev : δ
  rx : Nat → Byte
  tx : MPMessage
  debug : ReadDebugParameter
  handled : List (List Byte)
  sent : List (List Byte)
  past : List Nat

def dceCommand : Half := 0x1000#16

def hostDceFlag : Half := 0x1000#16

def meiSpaceAccess : Word := 0xbe116000#32

def byteSize : Half := 0x4000#16

def wordSize : Half := 0#16

def dwordSize : Half := 0x8000#16

/-- `(function_opcode << 4)` in an `iFunction`. -/
def opcodeBits (opcode : Nat) : Half := BitVec.ofNat 16 opcode <<< 4

def functionOpcode (m : MPMessage) : Nat := ((m.iFunction &&& 0x0ff0#16) >>> 4).toNat

/-- A reply without an address and a payload. -/
def MPMessage.bare (iFunction : Half) : MPMessage := ⟨iFunction, 0, 0, 0, fun _ => 0⟩

def loHalf (w : Word) : Half := w.extractLsb' 0 16

def hiHalf (w : Word) : Half := w.extractLsb' 16 16

section Handling

variable {δ : Type} (mei : MeiDriver δ)

/-- Two halves of the payload, from `j` on. -/
def MPMessage.setPair (m : MPMessage) (j : Nat) (lo hi : Half) : MPMessage :=
  { m with iPayload := Function.update (Function.update m.iPayload (j + 1) hi) j lo }

/-- The count of words and the offset of a read of bytes. -/
def byteRead (count addr : Nat) : Nat × Nat :=
  if count % 4 ≠ 0 then (count / 4 + 1, addr % 4)
  else if addr % 4 ≠ 0 then (count / 4 + 2, addr % 4)
  else (count / 4, 0)

/-- The count of words and the offset of a read of 16-bit words. -/
def wordRead (count addr : Nat) : Nat × Nat :=
  if count % 2 = 1 then (count / 2 + 1, if addr / 2 % 2 = 1 then 1 else 0)
  else if addr / 2 % 2 = 1 then (count / 2 + 1, 1)
  else (count / 2, 0)

/-- One turn of the loop that lays out the bytes of the buffer. -/
def layByte (buffer : Nat → Word) (offset : Nat) (m : MPMessage) (i : Nat) : MPMessage :=
  let j := i * 2
  match offset with
  | 0 => m.setPair j (loHalf (buffer i)) (hiHalf (buffer i))
  | 1 => m.setPair j
      (loHalf ((buffer j &&& 0x0000ff00#32) >>> 8) ||| loHalf ((buffer (j + 1) &&& 0x00ff0000#32) >>> 8))
      (loHalf ((buffer (j + 1) &&& 0xff000000#32) >>> 24) |||
        loHalf ((buffer (j + 1) &&& 0x000000ff#32) <<< 8))
  | 2 => m.setPair j (hiHalf (buffer j)) (loHalf (buffer (j + 1)))
  | _ => m.setPair j
      (loHalf ((buffer (j + 1) &&& 0x00ff0000#32) >>> 16) |||
        loHalf ((buffer (j + 1) &&& 0x000000ff#32) <<< 8))
      (loHalf ((buffer (j + 1) &&& 0x0000ff00#32) >>> 8) |||
        loHalf ((buffer (j + 2) &&& 0x00ff0000#32) >>> 8))

def layWord (buffer : Nat → Word) (offset : Nat) (m : MPMessage) (i : Nat) : MPMessage :=
  if offset = 0 then m.setPair (i * 2) (loHalf (buffer i)) (hiHalf (buffer i))
  else m.setPair (i * 2) (hiHalf (buffer (i + offset + 1))) (loHalf (buffer (i + offset)))

/-- The ioctl of a read with the count cut to 12, and its words laid out. -/
def readDebugInto (s : DebugServer δ) (p : ReadDebugParameter)
    (lay : (Nat → Word) → MPMessage → Nat → MPMessage) : DebugServer δ :=
  let r := mei.readDebug p s.dev
  let debug := { r.2 with iReadCount := min r.2.iReadCount 12 }
  { s with
    dev := r.1
    debug := debug
    tx := (List.range debug.iReadCount).foldl (lay debug.buffer) s.tx
    past := if newMpPayloadSize < 2 * debug.iReadCount then
      s.past ++ [2 * debug.iReadCount - newMpPayloadSize] else s.past }

/-- `H2DCE_DEBUG_READDEBUG`. Group and address of the reply stay as the last one left them. -/
def readDebug (s : DebugServer δ) (m : MPMessage) : DebugServer δ :=
  let addr : Word := m.iAddress ++ m.iIndex
  let count := (m.iFunction &&& 0x0f#16).toNat
  let aligned := addr &&& 0xfffffffc#32
  let tx := { s.tx with iFunction :=
    (m.iFunction &&& 0xc000#16) ||| opcodeBits 0x15 ||| hostDceFlag ||| 0x0010#16 |||
      (m.iFunction &&& 0x0f#16) }
  let s := { s with tx := tx }
  let size := m.iFunction &&& 0xc000#16
  let s :=
    if size = byteSize then
      let r := byteRead count addr.toNat
      readDebugInto mei s { s.debug with iAddress := aligned, iReadCount := r.1 }
        fun buffer => layByte buffer r.2
    else if size = wordSize then
      let r := wordRead count addr.toNat
      let p := { s.debug with iAddress := aligned, iReadCount := r.1 }
      if r.1 ≤ 20 then readDebugInto mei s p fun buffer => layWord buffer r.2
      else { s with debug := p }
    else if size = dwordSize then
      readDebugInto mei s { s.debug with iAddress := addr, iReadCount := count }
        fun buffer => layWord buffer 0
    else { s with debug := { s.debug with iAddress := addr, iReadCount := count } }
  { s with tx := { s.tx with iIndex := m.iIndex } }

/-- The address and the data of a request on an MEI register. -/
def meiParameter (m : MPMessage) : MeiParameter :=
  ⟨m.iAddress.setWidth 32 + meiSpaceAccess, m.iPayload 1 ++ m.iPayload 0⟩

/-- The reply to a request on an MEI register. -/
def meiReply (tx m : MPMessage) (opcode : Nat) (data : Word) : MPMessage :=
  { tx with
    iFunction := opcodeBits opcode ||| hostDceFlag ||| 2#16
    iAddress := m.iAddress
    iIndex := m.iIndex }.setPair 0 (loHalf data) (hiHalf data)

/-- Reset and reboot start the modem again unless they fail. -/
def ctlAndStart (c : MeiCtl) (dev : δ) : δ :=
  let r := mei.ctl c dev
  if r.2 < 0 then r.1 else (mei.ctl .start r.1).1

/-- A message for the DCE. -/
def dceMessage (s : DebugServer δ) (m : MPMessage) : DebugServer δ :=
  let opcode := functionOpcode m
  if opcode = 0x02 then
    { s with dev := ctlAndStart mei .reset s.dev, tx := .bare (opcodeBits 0x03 ||| dceCommand) }
  else if opcode = 0x04 then
    { s with dev := ctlAndStart mei .reboot s.dev, tx := .bare s.tx.iFunction }
  else if opcode = 0x0a then
    { s with
      dev := (mei.ctl .download (mei.firmware s.dev)).1
      tx := .bare (opcodeBits opcode ||| dceCommand) }
  else if opcode = 0x14 then readDebug mei s m
  else if opcode = 0x06 then
    let p := meiParameter m
    let r := if m.iGroup = 0 then mei.cmvRead p s.dev else (s.dev, p)
    { s with dev := r.1, tx := meiReply s.tx m 0x07 r.2.iData }
  else if opcode = 0x08 then
    let r := mei.cmvWrite (meiParameter m) s.dev
    { s with dev := r.1, tx := meiReply s.tx m 0x09 r.2.iData }
  else if opcode = 0x0e then
    { s with
      dev := (mei.ctl .halt s.dev).1
      tx := .bare (opcodeBits 0x0f ||| dceCommand ||| 1#16) }
  else if opcode = 0x10 then
    { s with
      dev := mei.remote ((m.iPayload 0).setWidth 32) s.dev
      tx := .bare (opcodeBits (0x10 + 1) ||| dceCommand ||| 1#16) }
  else if opcode = 0x0c then
    { s with dev := (mei.ctl .run s.dev).1, tx := .bare (opcodeBits opcode ||| dceCommand) }
  else { s with tx := .bare (opcodeBits 0x0b ||| dceCommand ||| 1#16) }

/-- The message goes to the modem, and its answer back with another function. -/
def winhost (s : DebugServer δ) (m : MPMessage) (iFunction : Half) : DebugServer δ :=
  let r := mei.cmvWinhost m s.dev
  { s with dev := r.1, rx := writeBlock s.rx 0 r.2.toBytes, tx := { r.2 with iFunction := iFunction } }

def swapPairs : List Byte → List Byte
  | a :: b :: rest => b :: a :: swapPairs rest
  | rest => rest

/-- The payload one byte down. -/
def offsetPayload (m : MPMessage) : MPMessage :=
  let bytes := swapPairs m.payloadBytes
  let bytes := swapPairs (bytes.drop 1 ++ bytes.drop 23)
  { m with iPayload := fun i => beHalf (bytes.getD (2 * i) 0) (bytes.getD (2 * i + 1) 0) }

/-- `H2D_DEBUG_READ_DM`. -/
def readDm (s : DebugServer δ) (m : MPMessage) : DebugServer δ :=
  let size := m.iFunction &&& 0xc000#16
  let itemp := m.iFunction &&& 0xf#16
  let payload :=
    if size = byteSize then min ((itemp.toNat + 1) / 2 + 1) 12
    else if size = dwordSize then min (itemp.toNat * 2) 12
    else itemp.toNat
  let offset := if size = byteSize then m.iIndex.toNat % 2 else 0
  let m := { m with
    iIndex := m.iIndex - BitVec.ofNat 16 offset
    iFunction := ((m.iFunction &&& ~~~0xf#16) ||| BitVec.ofNat 16 payload) &&& ~~~0xc000#16 }
  let s := winhost mei s m 0
  let tx := if offset ≠ 0 then offsetPayload s.tx else s.tx
  let flag := if size = byteSize then byteSize else if size = dwordSize then dwordSize else 0
  { s with tx := { tx with iFunction := opcodeBits 0x03 ||| itemp ||| flag } }

/-- A message for the modem. -/
def modemMessage (s : DebugServer δ) (m : MPMessage) : DebugServer δ :=
  let opcode := functionOpcode m
  let payload := m.iFunction &&& 0xf#16
  if opcode &&& 0x02 = 0 then
    if opcode = 0x00 then winhost mei s m (opcodeBits 0x01 ||| payload)
    else if opcode = 0x04 then winhost mei s m (opcodeBits 0x05 ||| 1#16)
    else winhost mei s m (opcodeBits 0x31 ||| 1#16)
  else if opcode = 0x02 then readDm mei s m
  else if opcode = 0x06 then winhost mei s m (opcodeBits 0x07 ||| payload)
  else if opcode = 0x0a then
    winhost mei s m (opcodeBits 0x0b ||| payload ||| (m.iFunction &&& 0xc000#16))
  else if opcode = 0x0e then winhost mei s m (opcodeBits 0x0f ||| payload)
  else winhost mei s m (opcodeBits 0x33 ||| 1#16)

/-- A message of the right size is handled and answered; every branch sets the reply flag. -/
def processMessage (s : DebugServer δ) : DebugServer δ :=
  let request := readBlock s.rx 0 msgRecvLength
  let m := MPMessage.ofBytes request
  let s := if m.iFunction &&& dceCommand ≠ 0 then dceMessage mei s m else modemMessage mei s m
  { s with handled := s.handled ++ [request], sent := s.sent ++ [s.tx.toBytes] }

/-- The receive loop of `TCP_Server_SendnReceiveMessage`, for the results of `recv` in turn. They go to
the start of `RxMsg`; an empty one is the end of the connection. -/
def tcpServerSendnReceiveMessage : DebugServer δ → List (List Byte) → DebugServer δ
  | s, [] => s
  | s, chunk :: chunks =>
    if chunk.length = 0 then s
    else
      let s := { s with rx := writeBlock s.rx 0 chunk }
      if chunk.length = msgRecvLength then tcpServerSendnReceiveMessage (processMessage mei s) chunks
      else tcpServerSendnReceiveMessage s chunks

end Handling

end DanubeBsp
