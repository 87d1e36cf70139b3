import DanubeBsp.Runs
import DanubeBsp.TpeFifoSteps

namespace DanubeBsp

/-- Where the reader stands between its calls; `nullRead` is a dereferenced null pointer. -/
inductive ReaderPhase
  | idle
  | notEmpty
  | pointing (pos : Nat)
  | copied (words : List Word) (msg4bytes : Nat)
  | nullRead
  deriving DecidableEq

structure TpeState where
  fifo : MpsFifo
  phase : ReaderPhase
  sent : List MpsMessage
  received : List (List Word)

inductive TpeEvent
  | write (m : MpsMessage)
  | notEmpty
  | read
  | copy
  | readPtrInc

def tpeWrite (s : TpeState) (m : MpsMessage) : TpeState :=
  let (st, fifo) := ifxMpsdrvFifoWrite s.fifo m.words m.bytes
  { s with fifo, sent := if st = .ok then s.sent ++ [m] else s.sent }

/-- One atomic call of the writer or of the read loop; the reader calls follow the loop's order. -/
def tpeStep (s : TpeState) : TpeEvent → Option TpeState
  | .write m => some (tpeWrite s m)
  | .notEmpty =>
    match s.phase with
    | .idle =>
      let (found, fifo) := ifxMpsdrvFifoNotEmpty s.fifo
      some { s with fifo, phase := if found then .notEmpty else .idle }
    | _ => none
  | .read =>
    match s.phase with
    | .notEmpty =>
      match ifxMpsdrvFifoRead s.fifo with
      | (some pos, fifo) => some { s with fifo, phase := .pointing pos }
      | (none, fifo) => some { s with fifo, phase := .nullRead }
    | _ => none
  | .copy =>
    match s.phase with
    | .pointing pos =>
      let msg4bytes := msg4bytesAt s.fifo pos
      some { s with phase := .copied (readBlock s.fifo.mem pos msg4bytes) msg4bytes }
    | _ => none
  | .readPtrInc =>
    match s.phase with
    | .copied words msg4bytes =>
      some { s with
        fifo := ifxMpsdrvFifoReadPtrInc s.fifo msg4bytes
        phase := .idle
        received := s.received ++ [words] }
    | _ => none

/-- `ifx_mpsdrv_fifo_clear` on zeroed memory. -/
def tpeInit (preadOff pwriteOff size : Nat) : TpeState :=
  { fifo := ifxMpsdrvFifoClear { mem := fun _ => 0, preadOff, pwriteOff, size }
    phase := .idle
    sent := []
    received := [] }

/-- What the reader holds belongs to the oldest unread message. -/
def PhaseOk (fifo : MpsFifo) (front : List MpsMessage) : ReaderPhase → Prop
  | .idle => True
  | .notEmpty => front ≠ []
  | .pointing pos => front ≠ [] ∧ pos = fifo.preadOff
  | .copied words msg4bytes => ∃ m rest, front = m :: rest ∧ words = m.words ∧
      msg4bytes = m.words.length
  | .nullRead => False

/-- The unread messages are laid out in memory and complete the received ones to the sent ones. -/
def TpeInv (s : TpeState) : Prop :=
  ∃ front back, Layout s.fifo front back ∧ PhaseOk s.fifo front s.phase ∧
    s.received ++ (front ++ back).map MpsMessage.words = s.sent.map MpsMessage.words

theorem tpeInit_inv (preadOff pwriteOff size : Nat) : TpeInv (tpeInit preadOff pwriteOff size) := by
  refine ⟨[], [], .inl ⟨?_, rfl⟩, trivial, rfl⟩
  exact ⟨trivial, rfl, by simp [tpeInit, ifxMpsdrvFifoClear, msgReady], fun h => absurd rfl h,
    .inl rfl, .inl rfl⟩

theorem PhaseOk.extend {fifo out : MpsFifo} {front extra : List MpsMessage} {phase : ReaderPhase}
    (h : PhaseOk fifo front phase) (hr : out.preadOff = fifo.preadOff) :
    PhaseOk out (front ++ extra) phase := by
  cases phase with
  | idle => trivial
  | notEmpty => exact fun he => h (List.append_eq_nil_iff.mp he).1
  | pointing pos => exact ⟨fun he => h.1 (List.append_eq_nil_iff.mp he).1, h.2.trans hr.symm⟩
  | copied words n =>
    obtain ⟨m, rest, rfl, hw, hn⟩ := h
    exact ⟨m, rest ++ extra, rfl, hw, hn⟩
  | nullRead => exact h

theorem tpeWrite_inv {s : TpeState} (m : MpsMessage) (h : TpeInv s) : TpeInv (tpeWrite s m) := by
  obtain ⟨front, back, hl, hp, hq⟩ := h
  unfold tpeWrite
  rcases hw : ifxMpsdrvFifoWrite s.fifo m.words m.bytes with ⟨st, out⟩
  obtain ⟨hr, extra, back', hl', heq⟩ := hl.write hw
  refine ⟨front ++ extra, back', hl', hp.extend hr, ?_⟩
  rw [heq, List.map_append, ← List.append_assoc, hq]
  cases st with
  | ok => simp
  | error => simp

theorem tpeNotEmpty_inv {s t : TpeState} (h : TpeInv s) (hs : tpeStep s .notEmpty = some t) :
    TpeInv t := by
  obtain ⟨front, back, hl, hp, hq⟩ := h
  obtain ⟨front', back', heq, hl', hnil⟩ := hl.skipWrapped
  simp only [tpeStep] at hs
  split at hs
  next hphase =>
    cases Option.some.inj hs
    refine ⟨front', back', hl', ?_, by rw [heq]; exact hq⟩
    by_cases hfound : (ifxMpsdrvFifoNotEmpty s.fifo).1 = true
    · simp only [if_pos hfound]
      intro he
      have hidle : (ifxMpsdrvFifoNotEmpty s.fifo).1 = false := (hnil he).2.head_idle
      exact absurd (hfound.symm.trans hidle) (by decide)
    · simp only [if_neg hfound]
      trivial
  next => simp at hs

theorem tpeRead_inv {s t : TpeState} (h : TpeInv s) (hs : tpeStep s .read = some t) :
    TpeInv t := by
  obtain ⟨front, back, hl, hp, hq⟩ := h
  simp only [tpeStep] at hs
  split at hs
  next hphase =>
    rw [hphase] at hp
    obtain ⟨m, front, rfl⟩ := List.exists_cons_of_ne_nil hp
    have hread : ifxMpsdrvFifoRead s.fifo = (some s.fifo.preadOff, s.fifo) := by
      simp [ifxMpsdrvFifoRead, hl.skipWrapped_eq, hl.head_ready]
    simp only [hread, Option.some.injEq] at hs
    subst t
    exact ⟨m :: front, back, hl, ⟨by simp, rfl⟩, hq⟩
  next => simp at hs

theorem tpeCopy_inv {s t : TpeState} (h : TpeInv s) (hs : tpeStep s .copy = some t) :
    TpeInv t := by
  obtain ⟨front, back, hl, hp, hq⟩ := h
  simp only [tpeStep] at hs
  split at hs
  next pos hphase =>
    rw [hphase] at hp
    obtain ⟨hne, rfl⟩ := hp
    obtain ⟨m, front, rfl⟩ := List.exists_cons_of_ne_nil hne
    rw [hl.msg4bytesAt_eq, readBlock_of_blockAt hl.head.1] at hs
    cases Option.some.inj hs
    exact ⟨m :: front, back, hl, ⟨m, front, rfl, rfl, rfl⟩, hq⟩
  next => simp at hs

theorem tpeReadPtrInc_inv {s t : TpeState} (h : TpeInv s) (hs : tpeStep s .readPtrInc = some t) :
    TpeInv t := by
  obtain ⟨front, back, hl, hp, hq⟩ := h
  simp only [tpeStep] at hs
  split at hs
  next words n hphase =>
    rw [hphase] at hp
    obtain ⟨m, rest, rfl, rfl, rfl⟩ := hp
    cases Option.some.inj hs
    refine ⟨rest, back, hl.readPtrInc, trivial, ?_⟩
    simpa using hq
  next => simp at hs

theorem tpeStep_inv {s t : TpeState} {e : TpeEvent} (h : TpeInv s) (hs : tpeStep s e = some t) :
    TpeInv t := by
  cases e with
  | write m => cases Option.some.inj hs; exact tpeWrite_inv m h
  | notEmpty => exact tpeNotEmpty_inv h hs
  | read => exact tpeRead_inv h hs
  | copy => exact tpeCopy_inv h hs
  | readPtrInc => exact tpeReadPtrInc_inv h hs

/-- Once the test reports an empty FIFO, nothing is left to receive. -/
theorem TpeInv.received_all {s : TpeState} (h : TpeInv s)
    (hempty : (ifxMpsdrvFifoNotEmpty s.fifo).1 = false) :
    s.received = s.sent.map MpsMessage.words := by
  obtain ⟨front, back, hl, -, hq⟩ := h
  obtain ⟨front', back', heq, hl', hnil⟩ := hl.skipWrapped
  cases front' with
  | nil =>
    rw [← heq, (hnil rfl).1] at hq
    simpa using hq
  | cons m front' =>
    simp only [ifxMpsdrvFifoNotEmpty, hl'.head_ready] at hempty
    exact absurd hempty (by decide)

/-- The mailbox FIFO is a queue: for every order of writer and reader calls the received
messages are the first sent ones, the read never fails, and an empty FIFO has lost nothing. -/
theorem tpeFifo_refines_queue (preadOff pwriteOff size : Nat) (es : List TpeEvent) (s : TpeState)
    (h : run tpeStep (tpeInit preadOff pwriteOff size) es = some s) :
    s.received <+: s.sent.map MpsMessage.words ∧ s.phase ≠ .nullRead ∧
      ((ifxMpsdrvFifoNotEmpty s.fifo).1 = false → s.received = s.sent.map MpsMessage.words) := by
  have hinv := run_invariant tpeStep_inv (tpeInit_inv preadOff pwriteOff size) h
  refine ⟨?_, ?_, hinv.received_all⟩
  · obtain ⟨front, back, -, -, hq⟩ := hinv
    exact ⟨_, hq⟩
  · intro hphase
    obtain ⟨front, back, -, hp, -⟩ := hinv
    rw [hphase] at hp
    exact hp

/-- One send and one receive through an eight-word FIFO. -/
theorem tpeFifo_refines_queue_small :
    ∃ s, run tpeStep (tpeInit 3 5 32) [.write ⟨7, 0x8004, [9], rfl, rfl, rfl⟩, .notEmpty, .read,
        .copy, .readPtrInc] = some s ∧ s.received = [[7, 0x8004, 9]] ∧
      s.received <+: s.sent.map MpsMessage.words := by
  refine ⟨_, rfl, by decide, ?_⟩
  exact (tpeFifo_refines_queue 3 5 32 [.write ⟨7, 0x8004, [9], rfl, rfl, rfl⟩, .notEmpty, .read,
    .copy, .readPtrInc] _ rfl).1

end DanubeBsp
