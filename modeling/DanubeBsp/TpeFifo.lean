import DanubeBsp.WordMemory

namespace DanubeBsp

/-- Bit `msg_ready` of the second header word. -/
def msgReady (val1 : Word) : Bool := val1.getLsbD 15

/-- Bit `msg_next_wrapped` of the second header word. -/
def msgNextWrapped (val1 : Word) : Bool := val1.getLsbD 14

/-- Field `msg_len` of the second header word: the payload bytes. -/
def msgLen (val1 : Word) : Nat := (val1 &&& 0xff).toNat

/-- `MPS_MSGHDR_LEN` in bytes. -/
def mpsMsghdrLen : Nat := 8

/-- `_MPS_MIN_MARGIN_` in words: the room of the next header. -/
def mpsMinMargin : Nat := 2

/-- The words from `pstart` on; the offsets count words and `size` counts bytes. -/
structure MpsFifo where
  mem : Nat → Word
  preadOff : Nat
  pwriteOff : Nat
  size : Nat

inductive Status
  | ok
  | error
  deriving DecidableEq, Repr

def ifxMpsdrvFifoClear (fifo : MpsFifo) : MpsFifo := { fifo with preadOff := 0, pwriteOff := 0 }

/-- The test of the wrap marker that opens both reader calls. -/
def skipWrapped (fifo : MpsFifo) : MpsFifo :=
  if msgNextWrapped (fifo.mem (fifo.preadOff + 1)) then { fifo with preadOff := 0 } else fifo

def ifxMpsdrvFifoNotEmpty (fifo : MpsFifo) : Bool × MpsFifo :=
  let fifo := skipWrapped fifo
  (msgReady (fifo.mem (fifo.preadOff + 1)), fifo)

/-- The offset of the message, or `none` for the null pointer. -/
def ifxMpsdrvFifoRead (fifo : MpsFifo) : Option Nat × MpsFifo :=
  let fifo := skipWrapped fifo
  if msgReady (fifo.mem (fifo.preadOff + 1)) then (some fifo.preadOff, fifo) else (none, fifo)

def ifxMpsdrvFifoReadPtrInc (fifo : MpsFifo) (increment : Nat) : MpsFifo :=
  if increment > fifo.size then fifo
  else
    let pos := fifo.preadOff + 1
    { fifo with
      mem := Function.update fifo.mem pos (fifo.mem pos &&& ~~~0x8000#32)
      preadOff := fifo.preadOff + increment }

/-- The length in words that the read loops compute from the header of the message at `pos`. -/
def msg4bytesAt (fifo : MpsFifo) (pos : Nat) : Nat :=
  (mpsMsghdrLen + msgLen (fifo.mem (pos + 1)) + 3) / 4

/-- Mark the entry at the write offset as wrapped and restart at offset 0. -/
def markWrapped (fifo : MpsFifo) : MpsFifo :=
  { fifo with mem := Function.update fifo.mem (fifo.pwriteOff + 1) 0x4000#32, pwriteOff := 0 }

/-- Copy the message, mark it ready, advance the write offset and clear the next header. -/
def storeMessage (fifo : MpsFifo) (data : List Word) (msg4bytes : Nat) : MpsFifo :=
  let copied := writeBlock fifo.mem fifo.pwriteOff (data.take msg4bytes)
  let pos := fifo.pwriteOff + 1
  let marked := Function.update copied pos (copied pos ||| 0x8000#32)
  let next := fifo.pwriteOff + msg4bytes
  { fifo with
    mem := Function.update (Function.update marked (next + 1) 0) next 0
    pwriteOff := next }

def ifxMpsdrvFifoWrite (fifo : MpsFifo) (data : List Word) (length : Nat) : Status × MpsFifo :=
  if length > fifo.size then (.error, fifo)
  else if msgReady (fifo.mem (fifo.pwriteOff + 1)) then (.error, fifo)
  else
    let msg4bytes := (length + 3) / 4
    if fifo.pwriteOff < fifo.preadOff then
      if fifo.pwriteOff + msg4bytes + mpsMinMargin > fifo.preadOff then (.error, fifo)
      else (.ok, storeMessage fifo data msg4bytes)
    else if fifo.pwriteOff + msg4bytes + mpsMinMargin ≥ fifo.size / 4 then
      let fifo := markWrapped fifo
      if msgReady (fifo.mem 1) then (.error, fifo)
      else if fifo.pwriteOff + msg4bytes + mpsMinMargin > fifo.preadOff then (.error, fifo)
      else (.ok, storeMessage fifo data msg4bytes)
    else (.ok, storeMessage fifo data msg4bytes)

/-- A message as the senders build it: ready, not a wrap marker, padded to whole words. -/
structure MpsMessage where
  val0 : Word
  val1 : Word
  payload : List Word
  ready : msgReady val1 = true
  notWrapped : msgNextWrapped val1 = false
  len : 4 * payload.length = msgLen val1
  deriving DecidableEq

def MpsMessage.words (m : MpsMessage) : List Word := m.val0 :: m.val1 :: m.payload

/-- The `length` argument that the senders pass with the message. -/
def MpsMessage.bytes (m : MpsMessage) : Nat := mpsMsghdrLen + msgLen m.val1

theorem MpsMessage.words_length (m : MpsMessage) : m.words.length = m.payload.length + 2 := rfl

theorem MpsMessage.words4bytes (m : MpsMessage) : (m.bytes + 3) / 4 = m.words.length := by
  have hl := m.len
  simp only [MpsMessage.bytes, MpsMessage.words_length, mpsMsghdrLen]
  omega

/-- The words of a list of messages, one after the other. -/
def messageWords (ms : List MpsMessage) : List Word := ms.flatMap MpsMessage.words

@[simp] theorem messageWords_nil : messageWords [] = [] := rfl

@[simp] theorem messageWords_singleton (m : MpsMessage) : messageWords [m] = m.words := by
  simp [messageWords]

theorem messageWords_cons (m : MpsMessage) (ms : List MpsMessage) :
    messageWords (m :: ms) = m.words ++ messageWords ms := List.flatMap_cons

theorem messageWords_append (ms ns : List MpsMessage) :
    messageWords (ms ++ ns) = messageWords ms ++ messageWords ns := List.flatMap_append

@[simp] theorem storeMessage_preadOff (fifo : MpsFifo) (data : List Word) (n : Nat) :
    (storeMessage fifo data n).preadOff = fifo.preadOff := rfl

@[simp] theorem storeMessage_pwriteOff (fifo : MpsFifo) (data : List Word) (n : Nat) :
    (storeMessage fifo data n).pwriteOff = fifo.pwriteOff + n := rfl

@[simp] theorem markWrapped_preadOff (fifo : MpsFifo) :
    (markWrapped fifo).preadOff = fifo.preadOff := rfl

@[simp] theorem markWrapped_pwriteOff (fifo : MpsFifo) : (markWrapped fifo).pwriteOff = 0 := rfl

/-- Everything a write can do: reject, move the write offset and reject, or store. -/
theorem ifxMpsdrvFifoWrite_cases {fifo out : MpsFifo} {m : MpsMessage} {st : Status}
    (h : ifxMpsdrvFifoWrite fifo m.words m.bytes = (st, out)) :
    (st = .error ∧ out = fifo) ∨
    (msgReady (fifo.mem (fifo.pwriteOff + 1)) = false ∧
      ((fifo.pwriteOff < fifo.preadOff ∧ fifo.pwriteOff + m.words.length + 2 ≤ fifo.preadOff ∧
          st = .ok ∧ out = storeMessage fifo m.words m.words.length) ∨
        (fifo.preadOff ≤ fifo.pwriteOff ∧ fifo.pwriteOff + m.words.length + 2 < fifo.size / 4 ∧
          st = .ok ∧ out = storeMessage fifo m.words m.words.length) ∨
        (fifo.preadOff ≤ fifo.pwriteOff ∧ m.bytes ≤ fifo.size ∧
          fifo.size / 4 ≤ fifo.pwriteOff + m.words.length + 2 ∧
          st = .error ∧ out = markWrapped fifo) ∨
        (fifo.preadOff ≤ fifo.pwriteOff ∧ m.words.length + 2 ≤ fifo.preadOff ∧
          msgReady ((markWrapped fifo).mem 1) = false ∧
          st = .ok ∧ out = storeMessage (markWrapped fifo) m.words m.words.length))) := by
  simp only [ifxMpsdrvFifoWrite, m.words4bytes, mpsMinMargin] at h
  split at h
  next => simp_all
  next hlen =>
    split at h
    next => simp_all
    next hready =>
      simp only [Bool.not_eq_true] at hready
      split at h
      next hlt =>
        split at h
        next => simp_all
        next hfit =>
          simp only [Prod.mk.injEq] at h
          exact .inr ⟨hready, .inl ⟨hlt, by omega, h.1.symm, h.2.symm⟩⟩
      next hge =>
        split at h
        next hend =>
          split at h
          next =>
            simp only [Prod.mk.injEq] at h
            exact .inr ⟨hready, .inr (.inr (.inl ⟨by omega, by omega, hend, h.1.symm, h.2.symm⟩))⟩
          next hfirst =>
            split at h
            next =>
              simp only [Prod.mk.injEq] at h
              exact .inr ⟨hready, .inr (.inr (.inl ⟨by omega, by omega, hend, h.1.symm, h.2.symm⟩))⟩
            next hfit =>
              simp only [Prod.mk.injEq, Bool.not_eq_true] at h hfirst
              simp only [markWrapped] at hfit
              exact .inr ⟨hready, .inr (.inr (.inr
                ⟨by omega, by omega, hfirst, h.1.symm, h.2.symm⟩))⟩
        next hroom =>
          simp only [Prod.mk.injEq] at h
          exact .inr ⟨hready, .inr (.inl ⟨by omega, by omega, h.1.symm, h.2.symm⟩)⟩

/-- The unread messages fill the memory from the read offset to the write offset. -/
structure Flat (fifo : MpsFifo) (pend : List MpsMessage) : Prop where
  stored : BlockAt fifo.mem fifo.preadOff (messageWords pend)
  extent : fifo.preadOff + (messageWords pend).length = fifo.pwriteOff
  idle : msgReady (fifo.mem (fifo.pwriteOff + 1)) = false
  unmarked : fifo.pwriteOff ≠ 0 → msgNextWrapped (fifo.mem (fifo.pwriteOff + 1)) = false
  origin : fifo.preadOff = 0 ∨ 2 ≤ fifo.preadOff ∧ msgReady (fifo.mem 1) = false
  room : fifo.pwriteOff = 0 ∨ fifo.pwriteOff + 2 < fifo.size / 4

/-- The header at the write offset is free and lies below the read offset. -/
def WriteGap (fifo : MpsFifo) : Prop :=
  fifo.pwriteOff + 2 ≤ fifo.preadOff ∧ msgReady (fifo.mem (fifo.pwriteOff + 1)) = false ∧
    (fifo.pwriteOff ≠ 0 → msgNextWrapped (fifo.mem (fifo.pwriteOff + 1)) = false)

/-- The older messages end at a wrap marker and the newer ones restart at offset 0. -/
structure Wrapped (fifo : MpsFifo) (upper lower : List MpsMessage) (stop : Nat) : Prop where
  stored : BlockAt fifo.mem fifo.preadOff (messageWords upper)
  extent : fifo.preadOff + (messageWords upper).length = stop
  marker : msgNextWrapped (fifo.mem (stop + 1)) = true
  storedLower : BlockAt fifo.mem 0 (messageWords lower)
  extentLower : (messageWords lower).length = fifo.pwriteOff
  apart : WriteGap fifo ∨
    fifo.preadOff = 0 ∧ fifo.pwriteOff = 0 ∧ lower = [] ∧ upper ≠ []
  room : stop + 2 < fifo.size / 4

/-- The messages before the next wrap of the reader, and those after it. -/
def Layout (fifo : MpsFifo) (front back : List MpsMessage) : Prop :=
  Flat fifo front ∧ back = [] ∨ ∃ stop, Wrapped fifo front back stop

theorem messageWords_length_pos {ms : List MpsMessage} (h : ms ≠ []) :
    2 ≤ (messageWords ms).length := by
  cases ms with
  | nil => exact absurd rfl h
  | cons m ms =>
    rw [messageWords_cons, List.length_append, m.words_length]
    omega

theorem Layout.stored {fifo : MpsFifo} {front back : List MpsMessage}
    (h : Layout fifo front back) : BlockAt fifo.mem fifo.preadOff (messageWords front) := by
  rcases h with ⟨hf, -⟩ | ⟨stop, hw⟩
  · exact hf.stored
  · exact hw.stored

theorem Layout.head {fifo : MpsFifo} {m : MpsMessage} {front back : List MpsMessage}
    (h : Layout fifo (m :: front) back) :
    BlockAt fifo.mem fifo.preadOff m.words ∧ fifo.mem (fifo.preadOff + 1) = m.val1 := by
  have hs := h.stored
  rw [messageWords_cons, blockAt_append] at hs
  exact ⟨hs.1, hs.1.2.1⟩

theorem Layout.skipWrapped_eq {fifo : MpsFifo} {m : MpsMessage} {front back : List MpsMessage}
    (h : Layout fifo (m :: front) back) : skipWrapped fifo = fifo := by
  simp [skipWrapped, h.head.2, m.notWrapped]

theorem Layout.head_ready {fifo : MpsFifo} {m : MpsMessage} {front back : List MpsMessage}
    (h : Layout fifo (m :: front) back) : msgReady (fifo.mem (fifo.preadOff + 1)) = true := by
  rw [h.head.2]
  exact m.ready

theorem Layout.msg4bytesAt_eq {fifo : MpsFifo} {m : MpsMessage} {front back : List MpsMessage}
    (h : Layout fifo (m :: front) back) : msg4bytesAt fifo fifo.preadOff = m.words.length := by
  rw [msg4bytesAt, h.head.2]
  exact m.words4bytes

theorem Flat.head_idle {fifo : MpsFifo} (h : Flat fifo []) :
    msgReady (fifo.mem (fifo.preadOff + 1)) = false := by
  have he := h.extent
  simp only [messageWords_nil, List.length_nil, Nat.add_zero] at he
  rw [he]
  exact h.idle

theorem Flat.skipWrapped_nil {fifo : MpsFifo} (h : Flat fifo []) : skipWrapped fifo = fifo := by
  have he := h.extent
  simp only [messageWords_nil, List.length_nil, Nat.add_zero] at he
  unfold skipWrapped
  split
  next hm =>
    by_cases hw : fifo.pwriteOff = 0
    · have hr : fifo.preadOff = 0 := by omega
      rw [← hr]
    · rw [he, h.unmarked hw] at hm
      exact absurd hm (by decide)
  next => rfl

/-- Following the marker turns a wrapped memory without older messages into a flat one. -/
theorem Wrapped.unwrap {fifo : MpsFifo} {lower : List MpsMessage} {stop : Nat}
    (h : Wrapped fifo [] lower stop) :
    skipWrapped fifo = { fifo with preadOff := 0 } ∧ Flat { fifo with preadOff := 0 } lower := by
  have he := h.extent
  simp only [messageWords_nil, List.length_nil, Nat.add_zero] at he
  obtain ⟨hgap, hidle, hmark⟩ | ⟨-, -, -, hne⟩ := h.apart
  · have hroom := h.room
    refine ⟨by simp [skipWrapped, he, h.marker], ?_⟩
    exact {
      stored := h.storedLower
      extent := by simpa using h.extentLower
      idle := hidle
      unmarked := hmark
      origin := .inl rfl
      room := .inr (by dsimp only; omega) }
  · exact absurd rfl hne

/-- After the wrap test the reader stands at the oldest unread message. -/
theorem Layout.skipWrapped {fifo : MpsFifo} {front back : List MpsMessage}
    (h : Layout fifo front back) :
    ∃ front' back', front' ++ back' = front ++ back ∧ Layout (skipWrapped fifo) front' back' ∧
      (front' = [] → back' = [] ∧ Flat (DanubeBsp.skipWrapped fifo) []) := by
  cases front with
  | cons m front =>
    refine ⟨m :: front, back, rfl, ?_, by simp⟩
    rw [h.skipWrapped_eq]
    exact h
  | nil =>
    rcases h with ⟨hf, rfl⟩ | ⟨stop, hw⟩
    · rw [hf.skipWrapped_nil]
      exact ⟨[], [], rfl, .inl ⟨hf, rfl⟩, fun _ => ⟨rfl, hf⟩⟩
    · obtain ⟨heq, hflat⟩ := hw.unwrap
      rw [heq]
      refine ⟨back, [], by simp, .inl ⟨hflat, rfl⟩, ?_⟩
      rintro rfl
      exact ⟨rfl, hflat⟩

theorem ready_clear (w : Word) : msgReady (w &&& ~~~0x8000#32) = false := by
  simp [msgReady]

theorem ready_set {w : Word} (h : msgReady w = true) : w ||| 0x8000#32 = w := by
  have hbit : (0x8000#32) = BitVec.twoPow 32 15 := by decide
  apply BitVec.eq_of_getLsbD_eq
  intro i hi
  rw [hbit, BitVec.getLsbD_or, BitVec.getLsbD_twoPow]
  by_cases h15 : i = 15
  · subst i
    have hw : w.getLsbD 15 = true := h
    simp [hw]
  · simp [Ne.symm h15]

/-- The memory after a store: the message, a cleared header behind it, the rest as before. -/
theorem storeMessage_spec (fifo : MpsFifo) (m : MpsMessage) :
    BlockAt (storeMessage fifo m.words m.words.length).mem fifo.pwriteOff m.words ∧
    (∀ i, i < fifo.pwriteOff ∨ fifo.pwriteOff + m.words.length + 2 ≤ i →
      (storeMessage fifo m.words m.words.length).mem i = fifo.mem i) ∧
    (storeMessage fifo m.words m.words.length).mem (fifo.pwriteOff + m.words.length + 1) = 0 := by
  have hlen := m.words_length
  have hcopy := blockAt_writeBlock fifo.mem fifo.pwriteOff m.words
  have hhead : writeBlock fifo.mem fifo.pwriteOff m.words (fifo.pwriteOff + 1) = m.val1 :=
    hcopy.2.1
  have hmark : m.val1 ||| 0x8000#32 = m.val1 := ready_set m.ready
  have hmem : (storeMessage fifo m.words m.words.length).mem =
      Function.update (Function.update (writeBlock fifo.mem fifo.pwriteOff m.words)
        (fifo.pwriteOff + m.words.length + 1) 0) (fifo.pwriteOff + m.words.length) 0 := by
    simp only [storeMessage, List.take_length, hhead, hmark]
    rw [← hhead, Function.update_eq_self]
  rw [hmem]
  refine ⟨blockAt_congr ?_ hcopy, ?_, by simp⟩
  · intro i hi hlt
    rw [Function.update_of_ne (by omega), Function.update_of_ne (by omega)]
  · intro i hi
    rw [Function.update_of_ne (by omega), Function.update_of_ne (by omega),
      writeBlock_outside (by omega)]

end DanubeBsp
