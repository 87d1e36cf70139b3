import DanubeBsp.Runs
import DanubeBsp.ByteOrder

namespace DanubeBsp

/-- The cast to `s32`. -/
def toS32 (x : Nat) : Int := if x < 2 ^ 31 then x else (x : Int) - 2 ^ 32

/-- The cast to `u32`. -/
def toU32 (x : Int) : Nat := (x % 2 ^ 32).toNat

/-- `mps_fifo` of the voice mailbox: memory by byte offset from `pend`, which is the lowest address;
both offsets move downwards. -/
structure VoiceFifo where
  mem : Nat → Word
  preadOff : Nat
  pwriteOff : Nat
  size : Nat
  minSpace : Nat

def ifxMpsFifoClear (fifo : VoiceFifo) : VoiceFifo :=
  { fifo with preadOff := toU32 (fifo.size - 4), pwriteOff := toU32 (fifo.size - 4) }

def ifxMpsFifoNotEmpty (fifo : VoiceFifo) : Bool := fifo.pwriteOff != fifo.preadOff

def ifxMpsFifoMemAvailable (fifo : VoiceFifo) : Nat :=
  toU32 ((fifo.size : Int) - 1 - (fifo.preadOff - fifo.pwriteOff)) &&& toU32 ((fifo.size : Int) - 1)

def ifxMpsFifoMemRequest (fifo : VoiceFifo) (bytes : Nat) : Bool :=
  decide (ifxMpsFifoMemAvailable fifo > bytes)

/-- The index arithmetic that both pointer updates share: one lap up below zero. -/
def downIndex (off size increment : Nat) : Nat :=
  let newIndex := toS32 off - increment
  if newIndex ≥ 0 then toU32 newIndex else toU32 (newIndex + toS32 size)

/-- The caller's increment is cut to `u8`. -/
def ifxMpsFifoReadPtrInc (fifo : VoiceFifo) (increment : Nat) : VoiceFifo :=
  let increment := increment % 2 ^ 8
  if increment > fifo.size then fifo
  else { fifo with preadOff := downIndex fifo.preadOff fifo.size increment }

/-- The caller's increment is cut to `u16`. -/
def ifxMpsFifoWritePtrInc (fifo : VoiceFifo) (increment : Nat) : VoiceFifo :=
  let increment := increment % 2 ^ 16
  if increment > fifo.size then fifo
  else { fifo with pwriteOff := downIndex fifo.pwriteOff fifo.size increment }

/-- The address of the word `offset` bytes below the index, relative to `pend`. -/
def downAddress (off size offset : Nat) : Nat :=
  toU32 (off - offset + if toS32 off - offset < 0 then (size : Int) else 0)

/-- The offset is cut to `u8`; an offset beyond the FIFO is rejected with -1. -/
def ifxMpsFifoWrite (fifo : VoiceFifo) (data : Word) (offset : Nat) : VoiceFifo × Int :=
  let offset := offset % 2 ^ 8
  if offset > fifo.size then (fifo, -1)
  else ({ fifo with
    mem := Function.update fifo.mem (downAddress fifo.pwriteOff fifo.size offset) data }, 0)

def ifxMpsFifoRead (fifo : VoiceFifo) (offset : Nat) : Word :=
  let offset := offset % 2 ^ 8
  if offset > fifo.size then 0xffffffff#32
  else fifo.mem (downAddress fifo.preadOff fifo.size offset)

/-- The big-endian load `*(u32*)(msg_ptr + i)`. -/
def loadWord (bytes : List Byte) (i : Nat) : Word :=
  BitVec.ofNat 32 ((bytes.getD i 0).toNat * 2 ^ 24 + (bytes.getD (i + 1) 0).toNat * 2 ^ 16 +
    (bytes.getD (i + 2) 0).toNat * 2 ^ 8 + (bytes.getD (i + 3) 0).toNat)

/-- `ifx_mps_mbx_build_word`: the same word, byte by byte. -/
def ifxMpsMbxBuildWord (bytes : List Byte) (i : Nat) : Word :=
  (List.range 4).foldl (fun result j =>
    result + ((bytes.getD (i + j) 0).setWidth 32 <<< ((3 - j) * 8))) 0#32

theorem ifxMpsMbxBuildWord_eq_loadWord (bytes : List Byte) (i : Nat) :
    ifxMpsMbxBuildWord bytes i = loadWord bytes i := by
  have h0 := (bytes.getD i 0).isLt
  have h1 := (bytes.getD (i + 1) 0).isLt
  have h2 := (bytes.getD (i + 2) 0).isLt
  have h3 := (bytes.getD (i + 3) 0).isLt
  apply BitVec.eq_of_toNat_eq
  simp only [ifxMpsMbxBuildWord, loadWord, List.range, List.range.loop, List.foldl_cons,
    List.foldl_nil, BitVec.toNat_add, BitVec.toNat_shiftLeft, BitVec.toNat_setWidth,
    BitVec.toNat_ofNat, Nat.shiftLeft_eq, Nat.add_zero]
  omega

def maxFifoWriteRetries : Nat := 80

def maxUpstrmDatawords : Nat := 30

/-- The final value of `retries` in the wait loop of the writer, started at `retries`. -/
def requestRetries (fifo : VoiceFifo) (bytes : Nat) (inInterrupt : Bool) : Nat → Nat → Nat
  | 0, retries => retries
  | fuel + 1, retries =>
    let retries := retries + 1
    if retries < maxFifoWriteRetries then
      if ifxMpsFifoMemRequest fifo bytes then retries
      else if inInterrupt then maxFifoWriteRetries
      else requestRetries fifo bytes inInterrupt fuel retries
    else retries

/-- The copy loop of the writer from byte offset `i` on. -/
def writeWords (fifo : VoiceFifo) (i : Nat) : List Word → VoiceFifo
  | [] => fifo
  | w :: ws => writeWords (ifxMpsFifoWrite fifo w i).1 (i + 4) ws

/-- The words that the copy loop takes from the message, by the load that fits its alignment. -/
def messageLoads (msgPtr : Word) (bytes : List Byte) : List Word :=
  (List.range ((bytes.length + 3) / 4)).map fun j =>
    if msgPtr &&& 3#32 = 0 then loadWord bytes (4 * j) else ifxMpsMbxBuildWord bytes (4 * j)

inductive WriteStatus
  | ok
  | eagain
  deriving DecidableEq

/-- `ifx_mps_mbx_write_message` with the `min_space` statistic. -/
def ifxMpsMbxWriteMessage (fifo : VoiceFifo) (msgPtr : Word) (bytes : List Byte)
    (inInterrupt : Bool) : WriteStatus × VoiceFifo :=
  if requestRetries fifo bytes.length inInterrupt maxFifoWriteRetries 0 < maxFifoWriteRetries then
    let fifo := writeWords fifo 0 (messageLoads msgPtr bytes)
    let fifo := ifxMpsFifoWritePtrInc fifo bytes.length
    let available := ifxMpsFifoMemAvailable fifo
    (.ok, { fifo with minSpace := if fifo.minSpace < available then available else fifo.minSpace })
  else (.eagain, fifo)

/-- Field `plength` of the message header. -/
def plength (header : Word) : Nat := (header &&& 0xff#32).toNat

/-- `data` are the words that the call stores from `msg->data` on, of which the first 30 have room in
`MbxMsg_s`, and `bytes` is what it answers in `*bytes`. -/
inductive MbxRead
  | message (header : Word) (data : List Word) (bytes : Nat)
  | oddLength
  deriving DecidableEq

def ifxMpsMbxReadMessage (fifo : VoiceFifo) : MbxRead × VoiceFifo :=
  let header := ifxMpsFifoRead fifo 0
  let len := plength header
  if len % 4 ≠ 0 then (.oddLength, fifo)
  else
    let data := (List.range (len / 4)).map fun j => ifxMpsFifoRead fifo (4 * j + 4)
    (.message header data (len + 4), ifxMpsFifoReadPtrInc fifo (len + 4))

/-- The big-endian words of a buffer. -/
def wordsOf (bytes : List Byte) : List Word :=
  (List.range ((bytes.length + 3) / 4)).map fun j => loadWord bytes (4 * j)

/-- A well-formed message of the writer's caller: whole words, and the header gives the number of
payload bytes. -/
structure VoiceMessage where
  msgPtr : Word
  bytes : List Byte
  head : Word
  payload : List Word
  whole : bytes.length % 4 = 0
  words : wordsOf bytes = head :: payload
  header : plength head = 4 * payload.length

/-- The result of reading the message back. -/
def VoiceMessage.asRead (m : VoiceMessage) : MbxRead := .message m.head m.payload m.bytes.length

structure VoiceSys where
  fifo : VoiceFifo
  written : List VoiceMessage
  received : List MbxRead

inductive VoiceEvent
  | write (m : VoiceMessage) (inInterrupt : Bool)
  | read

/-- The writer may run at any time, the reader on a non-empty FIFO. -/
def voiceStep (s : VoiceSys) : VoiceEvent → Option VoiceSys
  | .write m inInterrupt =>
    let (st, fifo) := ifxMpsMbxWriteMessage s.fifo m.msgPtr m.bytes inInterrupt
    some { s with fifo, written := if st = .ok then s.written ++ [m] else s.written }
  | .read =>
    if ifxMpsFifoNotEmpty s.fifo then
      let (result, fifo) := ifxMpsMbxReadMessage s.fifo
      some { s with fifo, received := s.received ++ [result] }
    else none

def voiceInit (size : Nat) (mem : Nat → Word) : VoiceSys :=
  { fifo := ifxMpsFifoClear { mem, preadOff := 0, pwriteOff := 0, size, minSpace := size }
    written := [], received := [] }

theorem VoiceMessage.bytes_length (m : VoiceMessage) : m.bytes.length = 4 * (m.payload.length + 1) := by
  have hw := m.whole
  have hl := congrArg List.length m.words
  simp only [wordsOf, List.length_map, List.length_range, List.length_cons] at hl
  omega

/-- Both loads give the message's words, whatever the alignment of the buffer. -/
theorem messageLoads_eq (msgPtr : Word) (bytes : List Byte) :
    messageLoads msgPtr bytes = wordsOf bytes := by
  apply List.map_congr_left
  intro j _
  rw [ifxMpsMbxBuildWord_eq_loadWord, ite_self]

theorem requestRetries_refused {fifo : VoiceFifo} {bytes : Nat} (inInterrupt : Bool)
    (hreq : ifxMpsFifoMemRequest fifo bytes = false) {fuel retries : Nat}
    (hf : maxFifoWriteRetries ≤ retries + fuel) :
    maxFifoWriteRetries ≤ requestRetries fifo bytes inInterrupt fuel retries := by
  induction fuel generalizing retries with
  | zero => exact hf
  | succ fuel ih =>
    simp only [requestRetries, hreq, Bool.false_eq_true, if_false]
    split
    next =>
      split
      next => exact le_refl _
      next => exact ih (by omega)
    next h => omega

/-- The wait loop ends with room exactly when the request is granted. -/
theorem requestRetries_lt_iff (fifo : VoiceFifo) (bytes : Nat) (inInterrupt : Bool) :
    requestRetries fifo bytes inInterrupt maxFifoWriteRetries 0 < maxFifoWriteRetries ↔
      ifxMpsFifoMemRequest fifo bytes = true := by
  cases hreq : ifxMpsFifoMemRequest fifo bytes with
  | false =>
    have hge := requestRetries_refused inInterrupt hreq
      (by omega : maxFifoWriteRetries ≤ 0 + maxFifoWriteRetries)
    simpa using hge
  | true =>
    have hone : requestRetries fifo bytes inInterrupt maxFifoWriteRetries 0 = 1 := by
      simp [maxFifoWriteRetries, requestRetries, hreq]
    rw [hone]
    simp [maxFifoWriteRetries]

end DanubeBsp
