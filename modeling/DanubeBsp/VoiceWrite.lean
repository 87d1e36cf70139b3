import DanubeBsp.Errno
import DanubeBsp.VoiceFifoRing
import DanubeBsp.WordMemory

namespace DanubeBsp

/-- `ifx_mps_mbx_write_message` of `msgBytes` bytes, after the loads from the message buffer. -/
def writeLoads (fifo : VoiceFifo) (words : List Word) (msgBytes : Nat) (inInterrupt : Bool) :
    WriteStatus × VoiceFifo :=
  if requestRetries fifo msgBytes inInterrupt maxFifoWriteRetries 0 < maxFifoWriteRetries then
    let fifo := writeWords fifo 0 words
    let fifo := ifxMpsFifoWritePtrInc fifo msgBytes
    let available := ifxMpsFifoMemAvailable fifo
    (.ok, { fifo with minSpace := if fifo.minSpace < available then available else fifo.minSpace })
  else (.eagain, fifo)

theorem ifxMpsMbxWriteMessage_eq_writeLoads (fifo : VoiceFifo) (msgPtr : Word) (bytes : List Byte)
    (inInterrupt : Bool) : ifxMpsMbxWriteMessage fifo msgPtr bytes inInterrupt =
      writeLoads fifo (messageLoads msgPtr bytes) bytes.length inInterrupt := rfl

inductive MpsDevices
  | unknown
  | command
  | voice0
  | voice1
  | voice2
  | voice3
  deriving DecidableEq

/-- `mps_message`; the offset of the RTP header is not used by the writers. -/
structure MpsRw where
  pData : Word
  nDataBytes : Word
  cmdType : Word

/-- The downstream mailboxes and the `provide_buffer` semaphore. -/
structure VoiceMbxs where
  cmd : VoiceFifo
  data : VoiceFifo
  provideBuffer : Nat

def mbxCmdFifoSize : Nat := 64

def mbxDataFifoSize : Nat := 128

def WriteStatus.code : WriteStatus → Int
  | .ok => 0
  | .eagain => eAgain

/-- `MbxMsgHd_u` with a type of 5 bits, a channel of 4 and a length of 8. -/
def mbxMsgHd (type chan plength : Nat) : Word :=
  BitVec.ofNat 32 (type % 2 ^ 5 * 2 ^ 24 + chan % 2 ^ 4 * 2 ^ 16 + plength % 2 ^ 8)

def physaddr (a : Word) : Word := a &&& 0x1fffffff#32

def voiceChan : MpsDevices → Option Nat
  | .voice0 => some 0
  | .voice1 => some 1
  | .voice2 => some 2
  | .voice3 => some 3
  | _ => none

/-- The words that the copy loop loads for `n` bytes: the last load may go beyond them. -/
def bufferLoads (pData : Word) (buf : Nat → Byte) (n : Nat) : List Word :=
  messageLoads pData (readBlock buf 0 (4 * ((n + 3) / 4)))

/-- The tests of the byte count and of the pointer only print a warning. -/
def ifxMpsMbxWriteCmd (s : VoiceMbxs) (devId : MpsDevices) (rw : MpsRw) (buf : Nat → Byte)
    (inInterrupt : Bool) : Int × VoiceMbxs :=
  if devId = .command then
    let n := rw.nDataBytes.toNat
    let (st, cmd) := writeLoads s.cmd (bufferLoads rw.pData buf n) n inInterrupt
    (st.code, { s with cmd })
  else (-1, s)

def ifxMpsMbxWriteBufferProvMessage (fifo : VoiceFifo) (segments : List Word) (segmentSize : Word)
    (inInterrupt : Bool) : WriteStatus × VoiceFifo :=
  writeLoads fifo (mbxMsgHd 8 0 (segments.length * 4 + 4) :: (segments ++ [segmentSize]))
    ((segments.length + 2) * 4) inInterrupt

def provisionSegments : Nat := 12

/-- `alloc` are the addresses of the buffers that `malloc` returns until it fails. -/
def ifxMpsBufmanBufProvide (fifo : VoiceFifo) (alloc : List Word) (segmentSize : Word)
    (inInterrupt : Bool) : Bool × VoiceFifo :=
  if alloc.length < provisionSegments then (false, fifo)
  else
    let (st, fifo) := ifxMpsMbxWriteBufferProvMessage fifo (alloc.take provisionSegments)
      segmentSize inInterrupt
    (st = .ok, fifo)

/-- The provision at the start of a data write; a failed one gives the semaphore back. -/
def provideOnWrite (s : VoiceMbxs) (alloc : List Word) (segmentSize : Word) (inInterrupt : Bool) :
    VoiceMbxs :=
  if s.provideBuffer = 0 then s
  else
    match ifxMpsBufmanBufProvide s.data alloc segmentSize inInterrupt with
    | (true, data) => { s with data, provideBuffer := s.provideBuffer - 1 }
    | (false, data) => { s with data }

def dataMessage (chan : Nat) (rw : MpsRw) : List Word :=
  [mbxMsgHd rw.cmdType.toNat chan 8, physaddr rw.pData, rw.nDataBytes]

def ifxMpsMbxWriteData (s : VoiceMbxs) (devId : MpsDevices) (rw : MpsRw) (alloc : List Word)
    (segmentSize : Word) (inInterrupt : Bool) : Int × VoiceMbxs :=
  match voiceChan devId with
  | none => (-1, s)
  | some chan =>
    let s := provideOnWrite s alloc segmentSize inInterrupt
    let (st, data) := writeLoads s.data (dataMessage chan rw) 12 inInterrupt
    (st.code, { s with data })

/-- The bytes by which the write offset has gone down. -/
def writeAdvance (before after : VoiceFifo) : Nat :=
  (before.pwriteOff + before.size - after.pwriteOff) % before.size

/-- The header that a reader finds who has come to the old write offset. -/
def headerAt (before after : VoiceFifo) : Word :=
  ifxMpsFifoRead { after with preadOff := before.pwriteOff } 0

/-- The message is rejected with the FIFO unchanged, or it moves the write offset by whole words to where
the length in its header ends. -/
def AlignedWrite (before : VoiceFifo) (result : WriteStatus × VoiceFifo) : Prop :=
  (result.1 = .eagain ∧ result.2 = before) ∨
    (result.1 = .ok ∧ writeAdvance before result.2 % 4 = 0 ∧
      writeAdvance before result.2 = plength (headerAt before result.2) + 4)

/-- The FIFO of a mailbox with its write offset inside. -/
structure FifoInside (size : Nat) (fifo : VoiceFifo) : Prop where
  size_eq : fifo.size = size
  inside : fifo.pwriteOff < size

theorem memRequest_lt {fifo : VoiceFifo} {n : Nat} (hs : fifo.size ≤ 2 ^ 31) (hpos : 0 < fifo.size)
    (h : ifxMpsFifoMemRequest fifo n = true) : n + 1 < fifo.size := by
  have hlt : n < ifxMpsFifoMemAvailable fifo := of_decide_eq_true h
  have hle : ifxMpsFifoMemAvailable fifo ≤ toU32 ((fifo.size : Int) - 1) := Nat.and_le_right
  have hmask : toU32 ((fifo.size : Int) - 1) = fifo.size - 1 := by
    unfold toU32
    omega
  omega

/-- The copy loop leaves the offsets and the word at the write offset alone, from the second word on. -/
theorem writeWords_frame {fifo : VoiceFifo} {i : Nat} {ws : List Word} (hs : fifo.size ≤ 2 ^ 8)
    (hoff : fifo.pwriteOff < fifo.size) (hlen : i + 4 * ws.length < fifo.size + 4) :
    (writeWords fifo i ws).size = fifo.size ∧ (writeWords fifo i ws).pwriteOff = fifo.pwriteOff ∧
      (0 < i → (writeWords fifo i ws).mem fifo.pwriteOff = fifo.mem fifo.pwriteOff) := by
  induction ws generalizing fifo i with
  | nil => exact ⟨rfl, rfl, fun _ => rfl⟩
  | cons w ws ih =>
    rw [List.length_cons] at hlen
    have hcut : i % 2 ^ 8 = i := Nat.mod_eq_of_lt (by omega)
    have hwrite : (ifxMpsFifoWrite fifo w i).1 = { fifo with
        mem := Function.update fifo.mem (downAddress fifo.pwriteOff fifo.size i) w } := by
      simp only [ifxMpsFifoWrite, hcut]
      rw [if_neg (by omega)]
    have hnext := @ih (ifxMpsFifoWrite fifo w i).1 (i + 4) (by rw [hwrite]; exact hs)
      (by rw [hwrite]; exact hoff) (by rw [hwrite]; dsimp only; omega)
    rw [hwrite] at hnext
    rw [writeWords, hwrite]
    refine ⟨hnext.1, hnext.2.1, ?_⟩
    intro hi
    rw [hnext.2.2 (by omega)]
    have haddr := downAddress_eq (i := i) hoff (by omega) (by omega)
    refine Function.update_of_ne ?_ _ _
    rw [haddr]
    dsimp only
    split
    next => omega
    next => omega

theorem writeAdvance_down {before after : VoiceFifo} {n : Nat} (hs : before.size ≤ 2 ^ 31)
    (hoff : before.pwriteOff < before.size) (hn : n < before.size)
    (h : after.pwriteOff = downIndex before.pwriteOff before.size n) : writeAdvance before after = n := by
  unfold writeAdvance
  rw [h, downIndex_eq hoff hs (by omega)]
  split
  next hle =>
    have heq : before.pwriteOff + before.size - (before.pwriteOff - n) = n + before.size := by omega
    rw [heq, Nat.add_mod_right, Nat.mod_eq_of_lt hn]
  next hgt =>
    have heq : before.pwriteOff + before.size - (before.pwriteOff + before.size - n) = n := by omega
    rw [heq, Nat.mod_eq_of_lt hn]

/-- A granted message advances the write offset by its bytes and leaves its first word there. -/
theorem writeLoads_granted {fifo : VoiceFifo} {words : List Word} {n : Nat} (inInterrupt : Bool)
    (hs : fifo.size ≤ 2 ^ 8) (hoff : fifo.pwriteOff < fifo.size)
    (hlen : words.length = (n + 3) / 4) (hreq : ifxMpsFifoMemRequest fifo n = true) :
    (writeLoads fifo words n inInterrupt).1 = .ok ∧
      (writeLoads fifo words n inInterrupt).2.size = fifo.size ∧
      (writeLoads fifo words n inInterrupt).2.pwriteOff = downIndex fifo.pwriteOff fifo.size n ∧
      ∀ w ws, words = w :: ws → headerAt fifo (writeLoads fifo words n inInterrupt).2 = w := by
  have hlt := memRequest_lt (by omega) (by omega) hreq
  obtain ⟨hsize, hwrite, -⟩ := @writeWords_frame fifo 0 words hs hoff (by omega)
  have hcut : n % 2 ^ 16 = n := Nat.mod_eq_of_lt (by omega)
  have hinc : ifxMpsFifoWritePtrInc (writeWords fifo 0 words) n =
      { writeWords fifo 0 words with pwriteOff := downIndex fifo.pwriteOff fifo.size n } := by
    simp only [ifxMpsFifoWritePtrInc, hcut, hsize, hwrite]
    rw [if_neg (by omega)]
  unfold writeLoads
  rw [if_pos ((requestRetries_lt_iff fifo n inInterrupt).mpr hreq)]
  dsimp only
  rw [hinc]
  refine ⟨rfl, hsize, rfl, ?_⟩
  rintro w ws rfl
  have hzero : downAddress fifo.pwriteOff fifo.size 0 = fifo.pwriteOff := by
    rw [downAddress_eq hoff (by omega) (by omega)]
    simp
  have hfirst : (ifxMpsFifoWrite fifo w 0).1 =
      { fifo with mem := Function.update fifo.mem fifo.pwriteOff w } := by
    simp only [ifxMpsFifoWrite, Nat.zero_mod, Nat.not_lt_zero, gt_iff_lt, if_false, hzero]
  rw [List.length_cons] at hlen
  have hrest := @writeWords_frame { fifo with mem := Function.update fifo.mem fifo.pwriteOff w } 4 ws
    hs hoff (by dsimp only; omega)
  have hsize' : (writeWords fifo 0 (w :: ws)).size = fifo.size := hsize
  simp only [headerAt, ifxMpsFifoRead, Nat.zero_mod, Nat.not_lt_zero, gt_iff_lt, if_false, hsize',
    hzero]
  rw [writeWords, hfirst, hrest.2.2 (by decide)]
  exact Function.update_self _ _ _

/-- A message is written in line with its header exactly if its bytes are whole words and fit the header,
where the FIFO has room for them. -/
theorem writeLoads_aligned_iff {fifo : VoiceFifo} {words : List Word} {n : Nat} (inInterrupt : Bool)
    (hs : fifo.size ≤ 2 ^ 8) (hoff : fifo.pwriteOff < fifo.size) (hlen : words.length = (n + 3) / 4) :
    AlignedWrite fifo (writeLoads fifo words n inInterrupt) ↔
      (ifxMpsFifoMemRequest fifo n = true →
        n % 4 = 0 ∧ ∃ w ws, words = w :: ws ∧ n = plength w + 4) := by
  cases hreq : ifxMpsFifoMemRequest fifo n with
  | false =>
    have hdenied : writeLoads fifo words n inInterrupt = (.eagain, fifo) := by
      unfold writeLoads
      rw [if_neg]
      rw [requestRetries_lt_iff, hreq]
      decide
    rw [hdenied]
    simp [AlignedWrite]
  | true =>
    have hlt := memRequest_lt (by omega) (by omega) hreq
    obtain ⟨hok, -, hwrite, hheader⟩ := writeLoads_granted inInterrupt hs hoff hlen hreq
    have hadv := writeAdvance_down (by omega) hoff (by omega) hwrite
    simp only [AlignedWrite, hok, reduceCtorEq, false_and, false_or, true_and, hadv, forall_const]
    refine and_congr_right ?_
    intro hmod
    cases words with
    | nil =>
      rw [List.length_nil] at hlen
      constructor
      · intro h
        omega
      · rintro ⟨w, ws, h, -⟩
        cases h
    | cons w ws =>
      rw [hheader w ws rfl]
      constructor
      · exact fun h => ⟨w, ws, rfl, h⟩
      · rintro ⟨w', ws', h, hn⟩
        cases h
        exact hn

theorem FifoInside.writeLoads {size n : Nat} {fifo : VoiceFifo} {words : List Word}
    (h : FifoInside size fifo) (hs : size ≤ 2 ^ 8) (hlen : words.length = (n + 3) / 4)
    (inInterrupt : Bool) : FifoInside size (writeLoads fifo words n inInterrupt).2 := by
  obtain ⟨rfl, hoff⟩ := h
  cases hreq : ifxMpsFifoMemRequest fifo n with
  | false =>
    have hdenied : ¬ requestRetries fifo n inInterrupt maxFifoWriteRetries 0 < maxFifoWriteRetries := by
      rw [requestRetries_lt_iff, hreq]
      decide
    unfold DanubeBsp.writeLoads
    rw [if_neg hdenied]
    exact ⟨rfl, hoff⟩
  | true =>
    have hlt := memRequest_lt (by omega) (by omega) hreq
    obtain ⟨-, hsize, hwrite, -⟩ := writeLoads_granted inInterrupt hs hoff hlen hreq
    refine ⟨hsize, ?_⟩
    rw [hwrite, downIndex_eq hoff (by omega) (by omega)]
    split
    next => omega
    next => omega

/-- The calls of the writers; the voice CPU takes messages out of both mailboxes and asks for buffers. -/
inductive VoiceCall
  | writeCmd (devId : MpsDevices) (rw : MpsRw) (buf : Nat → Byte) (inInterrupt : Bool)
  | writeData (devId : MpsDevices) (rw : MpsRw) (alloc : List Word) (segmentSize : Word)
      (inInterrupt : Bool)
  | readCmd (preadOff : Word)
  | readData (preadOff : Word)
  | upProvideBuffer

def voiceCallStep (s : VoiceMbxs) : VoiceCall → Option VoiceMbxs
  | .writeCmd devId rw buf inInterrupt => some (ifxMpsMbxWriteCmd s devId rw buf inInterrupt).2
  | .writeData devId rw alloc segmentSize inInterrupt =>
    some (ifxMpsMbxWriteData s devId rw alloc segmentSize inInterrupt).2
  | .readCmd preadOff => some { s with cmd := { s.cmd with preadOff := preadOff.toNat } }
  | .readData preadOff => some { s with data := { s.data with preadOff := preadOff.toNat } }
  | .upProvideBuffer => some { s with provideBuffer := s.provideBuffer + 1 }

def voiceMbxsInit (cmdMem dataMem : Nat → Word) : VoiceMbxs :=
  ⟨ifxMpsFifoClear ⟨cmdMem, 0, 0, mbxCmdFifoSize, mbxCmdFifoSize⟩,
    ifxMpsFifoClear ⟨dataMem, 0, 0, mbxDataFifoSize, mbxDataFifoSize⟩, 0⟩

/-- Every message that the call writes is rejected or written in line with its header: the command, or
the buffer provision and the data message behind it. -/
def WritesAligned (s : VoiceMbxs) : VoiceCall → Prop
  | .writeCmd devId rw buf inInterrupt =>
    if devId = .command then
      AlignedWrite s.cmd (writeLoads s.cmd (bufferLoads rw.pData buf rw.nDataBytes.toNat)
        rw.nDataBytes.toNat inInterrupt)
    else (ifxMpsMbxWriteCmd s devId rw buf inInterrupt).2 = s
  | .writeData devId rw alloc segmentSize inInterrupt =>
    match voiceChan devId with
    | none => (ifxMpsMbxWriteData s devId rw alloc segmentSize inInterrupt).2 = s
    | some chan =>
      (0 < s.provideBuffer → provisionSegments ≤ alloc.length →
        AlignedWrite s.data (ifxMpsMbxWriteBufferProvMessage s.data (alloc.take provisionSegments)
          segmentSize inInterrupt)) ∧
        AlignedWrite (provideOnWrite s alloc segmentSize inInterrupt).data
          (writeLoads (provideOnWrite s alloc segmentSize inInterrupt).data (dataMessage chan rw) 12
            inInterrupt)
  | _ => True

/-- The first word of a command buffer. -/
def bufHeader (buf : Nat → Byte) : Word := loadWord (readBlock buf 0 4) 0

/-- A command for which the mailbox has room is as long as its header says, in whole words. -/
def CommandFitsHeader (s : VoiceMbxs) : VoiceCall → Prop
  | .writeCmd devId rw buf _ => devId = .command →
      ifxMpsFifoMemRequest s.cmd rw.nDataBytes.toNat = true →
      rw.nDataBytes.toNat % 4 = 0 ∧ rw.nDataBytes.toNat = plength (bufHeader buf) + 4
  | _ => True

def VoiceMbxsInv (s : VoiceMbxs) : Prop :=
  FifoInside mbxCmdFifoSize s.cmd ∧ FifoInside mbxDataFifoSize s.data

theorem FifoInside.clear (fifo : VoiceFifo) (h : 4 ≤ fifo.size) (hs : fifo.size ≤ 2 ^ 8) :
    FifoInside fifo.size (ifxMpsFifoClear fifo) := by
  refine ⟨rfl, ?_⟩
  simp only [ifxMpsFifoClear, toU32]
  omega

theorem voiceMbxsInit_inv (cmdMem dataMem : Nat → Word) :
    VoiceMbxsInv (voiceMbxsInit cmdMem dataMem) :=
  ⟨FifoInside.clear ⟨cmdMem, 0, 0, mbxCmdFifoSize, mbxCmdFifoSize⟩ (by simp [mbxCmdFifoSize])
      (by simp [mbxCmdFifoSize]),
    FifoInside.clear ⟨dataMem, 0, 0, mbxDataFifoSize, mbxDataFifoSize⟩ (by simp [mbxDataFifoSize])
      (by simp [mbxDataFifoSize])⟩

theorem bufferLoads_length (pData : Word) (buf : Nat → Byte) (n : Nat) :
    (bufferLoads pData buf n).length = (n + 3) / 4 := by
  simp only [bufferLoads, messageLoads, readBlock, List.length_map, List.length_range]
  omega

theorem loadWord_readBlock (buf : Nat → Byte) {k : Nat} (hk : 4 ≤ k) :
    loadWord (readBlock buf 0 k) 0 = bufHeader buf := by
  have hget : ∀ k j : Nat, j < k → (readBlock buf 0 k).getD j 0 = buf j := by
    intro k j hj
    simp [readBlock, List.getD_eq_getElem?_getD, hj]
  simp only [bufHeader, loadWord, Nat.zero_add]
  rw [hget k 0 (by omega), hget k 1 (by omega), hget k 2 (by omega), hget k 3 (by omega),
    hget 4 0 (by omega), hget 4 1 (by omega), hget 4 2 (by omega), hget 4 3 (by omega)]

theorem bufferLoads_head {pData : Word} {buf : Nat → Byte} {n : Nat} {w : Word} {ws : List Word}
    (h : bufferLoads pData buf n = w :: ws) : w = bufHeader buf := by
  have hlen := bufferLoads_length pData buf n
  rw [h, List.length_cons] at hlen
  have hhead : (bufferLoads pData buf n).head? = some w := by rw [h]; rfl
  have hblock : (readBlock buf 0 (4 * ((n + 3) / 4))).length = 4 * ((n + 3) / 4) := by
    simp [readBlock]
  rw [bufferLoads, messageLoads_eq, wordsOf, List.head?_map, hblock, List.head?_range,
    if_neg (by omega)] at hhead
  rw [← Option.some.inj hhead]
  exact loadWord_readBlock buf (by omega)

theorem plength_mbxMsgHd (type chan : Nat) {n : Nat} (hn : n < 2 ^ 8) :
    plength (mbxMsgHd type chan n) = n := by
  have hmask : ∀ w : Word, (w &&& 0xff#32).toNat = w.toNat % 2 ^ 8 := by
    intro w
    rw [BitVec.toNat_and]
    exact Nat.and_two_pow_sub_one_eq_mod w.toNat 8
  rw [plength, hmask, mbxMsgHd, BitVec.toNat_ofNat]
  omega

/-- A message with a header for its own length is always written in line with it. -/
theorem writeLoads_aligned {fifo : VoiceFifo} {words : List Word} {type chan : Nat}
    (inInterrupt : Bool) (hs : fifo.size ≤ 2 ^ 8) (hoff : fifo.pwriteOff < fifo.size)
    (hlen : words.length < 2 ^ 6) :
    AlignedWrite fifo (writeLoads fifo (mbxMsgHd type chan (words.length * 4) :: words)
      ((words.length + 1) * 4) inInterrupt) := by
  refine (writeLoads_aligned_iff inInterrupt hs hoff ?_).mpr ?_
  · rw [List.length_cons]
    omega
  · intro _
    refine ⟨by omega, _, _, rfl, ?_⟩
    rw [plength_mbxMsgHd type chan (by omega)]
    omega

theorem provMessage_aligned {fifo : VoiceFifo} {segments : List Word} (segmentSize : Word)
    (inInterrupt : Bool) (h : FifoInside mbxDataFifoSize fifo)
    (hlen : segments.length ≤ provisionSegments) :
    AlignedWrite fifo
      (ifxMpsMbxWriteBufferProvMessage fifo segments segmentSize inInterrupt) := by
  obtain ⟨hsize, hoff⟩ := h
  simp only [mbxDataFifoSize, provisionSegments] at *
  have hwrite := @writeLoads_aligned fifo (segments ++ [segmentSize]) 8 0 inInterrupt (by omega)
    (by omega) (by simp; omega)
  have hbytes : (segments ++ [segmentSize]).length * 4 = segments.length * 4 + 4 := by
    simp
    omega
  have hwords : ((segments ++ [segmentSize]).length + 1) * 4 = (segments.length + 2) * 4 := by simp
  rw [hbytes, hwords] at hwrite
  exact hwrite

theorem FifoInside.provide {s : VoiceMbxs} (h : FifoInside mbxDataFifoSize s.data)
    (alloc : List Word) (segmentSize : Word) (inInterrupt : Bool) :
    FifoInside mbxDataFifoSize (provideOnWrite s alloc segmentSize inInterrupt).data := by
  have hmsg : FifoInside mbxDataFifoSize (ifxMpsMbxWriteBufferProvMessage s.data
      (alloc.take provisionSegments) segmentSize inInterrupt).2 := by
    refine h.writeLoads (by decide) ?_ inInterrupt
    simp only [List.length_cons, List.length_append, List.length_nil]
    omega
  have hprov : FifoInside mbxDataFifoSize
      (ifxMpsBufmanBufProvide s.data alloc segmentSize inInterrupt).2 := by
    unfold ifxMpsBufmanBufProvide
    split
    next => exact h
    next => exact hmsg
  unfold provideOnWrite
  split
  next => exact h
  next =>
    split
    next heq =>
      rw [heq] at hprov
      exact hprov
    next heq =>
      rw [heq] at hprov
      exact hprov

theorem voiceCallStep_inv {s t : VoiceMbxs} {c : VoiceCall} (h : VoiceMbxsInv s)
    (hs : voiceCallStep s c = some t) : VoiceMbxsInv t := by
  obtain ⟨hcmd, hdata⟩ := h
  cases c with
  | writeCmd devId rw buf inInterrupt =>
    cases hs
    unfold ifxMpsMbxWriteCmd
    split
    next => exact ⟨hcmd.writeLoads (by decide) (bufferLoads_length _ _ _) inInterrupt, hdata⟩
    next => exact ⟨hcmd, hdata⟩
  | writeData devId rw alloc segmentSize inInterrupt =>
    cases hs
    unfold ifxMpsMbxWriteData
    split
    next => exact ⟨hcmd, hdata⟩
    next chan _ =>
      refine ⟨?_, (hdata.provide alloc segmentSize inInterrupt).writeLoads (by decide) rfl inInterrupt⟩
      unfold provideOnWrite
      split
      next => exact hcmd
      next => split <;> exact hcmd
  | readCmd preadOff =>
    cases hs
    exact ⟨⟨hcmd.size_eq, hcmd.inside⟩, hdata⟩
  | readData preadOff =>
    cases hs
    exact ⟨hcmd, hdata.size_eq, hdata.inside⟩
  | upProvideBuffer =>
    cases hs
    exact ⟨hcmd, hdata⟩

theorem writesAligned_iff {s : VoiceMbxs} {c : VoiceCall} (h : VoiceMbxsInv s) :
    CommandFitsHeader s c ↔ WritesAligned s c := by
  obtain ⟨hcmd, hdata⟩ := h
  cases c with
  | writeCmd devId rw buf inInterrupt =>
    by_cases hdev : devId = .command
    · have hsize := hcmd.size_eq
      have hoff := hcmd.inside
      simp only [mbxCmdFifoSize] at hsize hoff
      simp only [CommandFitsHeader, WritesAligned, if_pos hdev]
      rw [writeLoads_aligned_iff inInterrupt (by omega) (by omega) (bufferLoads_length _ _ _)]
      constructor
      · intro hfit hreq
        obtain ⟨hmod, hn⟩ := hfit hdev hreq
        have hne : bufferLoads rw.pData buf rw.nDataBytes.toNat ≠ [] := by
          rw [← List.length_pos_iff, bufferLoads_length]
          omega
        obtain ⟨w, ws, hw⟩ := List.exists_cons_of_ne_nil hne
        refine ⟨hmod, w, ws, hw, ?_⟩
        rw [bufferLoads_head hw]
        exact hn
      · intro hal _ hreq
        obtain ⟨hmod, w, ws, hw, hn⟩ := hal hreq
        rw [bufferLoads_head hw] at hn
        exact ⟨hmod, hn⟩
    · refine iff_of_true (fun heq => absurd heq hdev) ?_
      simp only [WritesAligned, ifxMpsMbxWriteCmd, if_neg hdev]
  | writeData devId rw alloc segmentSize inInterrupt =>
    refine iff_of_true trivial ?_
    cases hchan : voiceChan devId with
    | none => simp only [WritesAligned, ifxMpsMbxWriteData, hchan]
    | some chan =>
      simp only [WritesAligned, hchan]
      refine ⟨?_, ?_⟩
      · intro _ _
        exact provMessage_aligned segmentSize inInterrupt hdata (List.length_take_le _ _)
      · obtain ⟨hsize, hoff⟩ := hdata.provide alloc segmentSize inInterrupt
        simp only [mbxDataFifoSize] at hsize hoff
        exact @writeLoads_aligned _ [physaddr rw.pData, rw.nDataBytes] rw.cmdType.toNat chan
          inInterrupt (by omega) (by omega) (by simp)
  | readCmd preadOff => exact Iff.rfl
  | readData preadOff => exact Iff.rfl
  | upProvideBuffer => exact Iff.rfl

/-- Along every run of the writers, the messages all are rejected or written in line with their headers
exactly when every command for which there is room is as long as its header says. -/
theorem voice_writes_aligned_iff (cmdMem dataMem : Nat → Word) (cs : List VoiceCall) :
    RunMeets voiceCallStep CommandFitsHeader (voiceMbxsInit cmdMem dataMem) cs ↔
      RunMeets voiceCallStep WritesAligned (voiceMbxsInit cmdMem dataMem) cs := by
  exact runMeets_congr writesAligned_iff (fun h _ hs => voiceCallStep_inv h hs)
    (voiceMbxsInit_inv cmdMem dataMem) cs

/-- A command of six bytes whose header says ten. -/
theorem voice_write_unaligned :
    let rw : MpsRw := ⟨0, 6, 0⟩
    let buf : Nat → Byte := fun i => if i = 3 then 6 else 0
    let s := voiceMbxsInit (fun _ => 0) (fun _ => 0)
    (ifxMpsMbxWriteCmd s .command rw buf false).1 = 0 ∧
      (ifxMpsMbxWriteCmd s .command rw buf false).2.cmd.pwriteOff = 54 ∧
      ¬ WritesAligned s (.writeCmd .command rw buf false) := by
  intro rw buf s
  refine ⟨by decide +kernel, by decide +kernel, ?_⟩
  intro h
  have hfit := (writesAligned_iff (voiceMbxsInit_inv _ _)).mpr h rfl (by decide +kernel)
  exact absurd hfit.1 (by decide)

end DanubeBsp
