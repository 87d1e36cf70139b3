import DanubeBsp.Runs
import DanubeBsp.TpeFifoSteps

namespace DanubeBsp

/-- The FIFO between calls in any order. `held` is the result of the last `ifx_mpsdrv_fifo_read`, until
the message is released; `unread` are the messages stored and not released, with their offsets. -/
structure TpeCalls where
  fifo : MpsFifo
  held : Option Nat
  unread : List (Nat × MpsMessage)

inductive TpeCall
  | write (m : MpsMessage)
  | notEmpty
  | read
  | readPtrInc

/-- The message that a write has just stored ends at the write offset. -/
def callWrite (s : TpeCalls) (m : MpsMessage) : TpeCalls :=
  let (st, fifo) := ifxMpsdrvFifoWrite s.fifo m.words m.bytes
  { s with
    fifo
    unread := if st = .ok then s.unread ++ [(fifo.pwriteOff - m.words.length, m)] else s.unread }

/-- A message is released by the length in its header, after a read has returned it. -/
def tpeCallStep (s : TpeCalls) : TpeCall → Option TpeCalls
  | .write m => some (callWrite s m)
  | .notEmpty => some { s with fifo := (ifxMpsdrvFifoNotEmpty s.fifo).2 }
  | .read =>
    let (held, fifo) := ifxMpsdrvFifoRead s.fifo
    some { s with fifo, held }
  | .readPtrInc =>
    s.held.map fun pos =>
      ⟨ifxMpsdrvFifoReadPtrInc s.fifo (msg4bytesAt s.fifo pos), none, s.unread.tail⟩

/-- Memory whose first header is not ready. A FIFO that `FIO_MPS_RESET` clears while messages are in it
can have one that is, and is not covered. -/
structure IdleMem where
  mem : Nat → Word
  idle : msgReady (mem 1) = false

def zeroMem : IdleMem := ⟨fun _ => 0, rfl⟩

def tpeCallInit (m : IdleMem) (preadOff pwriteOff size : Nat) : TpeCalls :=
  ⟨ifxMpsdrvFifoClear { mem := m.mem, preadOff, pwriteOff, size }, none, []⟩

/-- Messages one after the other from `pos` on. -/
def placed : Nat → List MpsMessage → List (Nat × MpsMessage)
  | _, [] => []
  | pos, m :: ms => (pos, m) :: placed (pos + m.words.length) ms

theorem placed_append (pos : Nat) (ms ns : List MpsMessage) :
    placed pos (ms ++ ns) = placed pos ms ++ placed (pos + (messageWords ms).length) ns := by
  induction ms generalizing pos with
  | nil => rfl
  | cons m ms ih =>
    rw [List.cons_append, placed, placed, ih, messageWords_cons, List.length_append, Nat.add_assoc]
    rfl

theorem placed_bounds {pos p : Nat} {m : MpsMessage} {ms : List MpsMessage}
    (h : (p, m) ∈ placed pos ms) :
    pos ≤ p ∧ p + m.words.length ≤ pos + (messageWords ms).length := by
  induction ms generalizing pos with
  | nil => cases h
  | cons n ms ih =>
    rw [messageWords_cons, List.length_append]
    rcases List.mem_cons.mp h with heq | h
    · cases heq
      omega
    · have hb := ih h
      omega

/-- The unread messages are where they were stored, and a message that the reader holds is the oldest. -/
structure TpeLaid (s : TpeCalls) (front back : List MpsMessage) : Prop where
  layout : Layout s.fifo front back
  places : s.unread = placed s.fifo.preadOff front ++ placed 0 back
  held : ∀ pos, s.held = some pos → pos = s.fifo.preadOff ∧ front ≠ []

def TpeCallInv (s : TpeCalls) : Prop := ∃ front back, TpeLaid s front back

theorem Flat.idleInit (m : IdleMem) (preadOff pwriteOff size : Nat) :
    Flat (tpeCallInit m preadOff pwriteOff size).fifo [] :=
  ⟨trivial, rfl, m.idle, fun h => absurd rfl h, .inl rfl, .inl rfl⟩

theorem TpeLaid.init (m : IdleMem) (preadOff pwriteOff size : Nat) :
    TpeLaid (tpeCallInit m preadOff pwriteOff size) [] [] :=
  ⟨.inl ⟨Flat.idleInit m preadOff pwriteOff size, rfl⟩, rfl, fun _ h => by cases h⟩

theorem TpeLaid.write {s : TpeCalls} {front back : List MpsMessage} (h : TpeLaid s front back)
    (m : MpsMessage) : ∃ front' back', TpeLaid (callWrite s m) front' back' := by
  have hplaces := h.places
  unfold callWrite
  rcases hw : ifxMpsdrvFifoWrite s.fifo m.words m.bytes with ⟨st, out⟩
  obtain ⟨hr, -, ⟨rfl, hl⟩ | ⟨rfl, rfl, hf⟩ | ⟨rfl, stop, hwr⟩⟩ := h.layout.write_cases hw
  · refine ⟨front, back, hl, ?_, ?_⟩
    · simpa [hr] using hplaces
    · simpa [hr] using h.held
  · have hext := hf.extent
    refine ⟨front ++ [m], [], .inl ⟨hf, rfl⟩, ?_, ?_⟩
    · have hpos : out.pwriteOff - m.words.length =
          out.preadOff + (messageWords front).length := by
        rw [messageWords_append, messageWords_singleton, List.length_append] at hext
        omega
      simp only [if_true, hplaces, hpos, hr, placed_append, placed, List.append_nil]
    · intro pos hpos
      exact ⟨(h.held pos hpos).1.trans hr.symm, by simp⟩
  · have hlow := hwr.extentLower
    refine ⟨front, back ++ [m], .inr ⟨stop, hwr⟩, ?_, ?_⟩
    · have hpos : out.pwriteOff - m.words.length = 0 + (messageWords back).length := by
        rw [messageWords_append, messageWords_singleton, List.length_append] at hlow
        omega
      simp only [if_true, hplaces, hpos, hr, placed_append, placed, List.append_assoc]
    · intro pos hpos
      exact ⟨(h.held pos hpos).1.trans hr.symm, (h.held pos hpos).2⟩

/-- The wrap test of the reader moves it to the messages behind the marker, once it has read those
before. -/
theorem TpeLaid.skip {s : TpeCalls} {front back : List MpsMessage} (h : TpeLaid s front back) :
    ∃ front' back', TpeLaid { s with fifo := skipWrapped s.fifo } front' back' ∧
      (skipWrapped s.fifo = s.fifo ∨ Flat (skipWrapped s.fifo) front') ∧
      (front' = [] → msgReady ((skipWrapped s.fifo).mem ((skipWrapped s.fifo).preadOff + 1)) = false) := by
  have hplaces := h.places
  cases front with
  | cons m front =>
    refine ⟨m :: front, back, ?_, .inl h.layout.skipWrapped_eq, by simp⟩
    rw [h.layout.skipWrapped_eq]
    exact h
  | nil =>
    have hheld : ∀ pos, s.held ≠ some pos := fun pos hpos => (h.held pos hpos).2 rfl
    rcases h.layout with ⟨hf, rfl⟩ | ⟨stop, hw⟩
    · refine ⟨[], [], ?_, .inl hf.skipWrapped_nil, ?_⟩
      · rw [hf.skipWrapped_nil]
        exact h
      · intro _
        rw [hf.skipWrapped_nil]
        exact hf.head_idle
    · obtain ⟨heq, hflat⟩ := hw.unwrap
      refine ⟨back, [], ⟨?_, ?_, fun pos hpos => absurd hpos (hheld pos)⟩, .inr ?_, ?_⟩
      · rw [heq]
        exact .inl ⟨hflat, rfl⟩
      · rw [heq]
        simpa [placed] using hplaces
      · rw [heq]
        exact hflat
      · rintro rfl
        rw [heq]
        exact hflat.head_idle

theorem ifxMpsdrvFifoRead_eq (fifo : MpsFifo) : ifxMpsdrvFifoRead fifo =
    (if msgReady ((skipWrapped fifo).mem ((skipWrapped fifo).preadOff + 1)) then
      some (skipWrapped fifo).preadOff else none, skipWrapped fifo) := by
  unfold ifxMpsdrvFifoRead
  dsimp only
  split <;> rfl

theorem TpeLaid.read {s : TpeCalls} {front back : List MpsMessage} (h : TpeLaid s front back) :
    ∃ front' back', TpeLaid
      { s with fifo := (ifxMpsdrvFifoRead s.fifo).2, held := (ifxMpsdrvFifoRead s.fifo).1 }
      front' back' := by
  obtain ⟨front', back', hl, -, hnil⟩ := h.skip
  rw [ifxMpsdrvFifoRead_eq]
  refine ⟨front', back', hl.layout, hl.places, ?_⟩
  intro pos hpos
  dsimp only at hpos
  split at hpos
  next hready =>
    refine ⟨(Option.some.inj hpos).symm, ?_⟩
    intro hf
    exact absurd (hready.symm.trans (hnil hf)) (by decide)
  next => cases hpos

theorem TpeLaid.release {s : TpeCalls} {front back : List MpsMessage} (h : TpeLaid s front back)
    {pos : Nat} (hpos : s.held = some pos) : ∃ front' back', TpeLaid
      ⟨ifxMpsdrvFifoReadPtrInc s.fifo (msg4bytesAt s.fifo pos), none, s.unread.tail⟩ front' back' := by
  obtain ⟨rfl, hne⟩ := h.held pos hpos
  obtain ⟨m, front, rfl⟩ := List.exists_cons_of_ne_nil hne
  have hfit := h.layout.head_fits
  have hlen := h.layout.msg4bytesAt_eq
  refine ⟨front, back, ?_, ?_, fun pos hpos => by cases hpos⟩
  · rw [hlen]
    exact h.layout.readPtrInc
  · have hr : (ifxMpsdrvFifoReadPtrInc s.fifo m.words.length).preadOff =
        s.fifo.preadOff + m.words.length := by
      rw [ifxMpsdrvFifoReadPtrInc, if_neg (by omega)]
    rw [h.places, hlen, hr]
    rfl

theorem tpeCallStep_inv {s t : TpeCalls} {c : TpeCall} (h : TpeCallInv s)
    (hs : tpeCallStep s c = some t) : TpeCallInv t := by
  obtain ⟨front, back, hl⟩ := h
  cases c with
  | write m =>
    cases hs
    exact hl.write m
  | notEmpty =>
    cases hs
    obtain ⟨front', back', hl', -⟩ := hl.skip
    exact ⟨front', back', hl'⟩
  | read =>
    cases hs
    exact hl.read
  | readPtrInc =>
    obtain ⟨pos, hpos, rfl⟩ := Option.map_eq_some_iff.mp hs
    exact hl.release hpos

theorem tpeCallStep_size {s t : TpeCalls} {c : TpeCall} (h : TpeCallInv s)
    (hs : tpeCallStep s c = some t) : t.fifo.size = s.fifo.size := by
  have hskip : ∀ fifo : MpsFifo, (skipWrapped fifo).size = fifo.size := by
    intro fifo
    unfold skipWrapped
    split <;> rfl
  cases c with
  | write m =>
    cases hs
    obtain ⟨front, back, hl⟩ := h
    unfold callWrite
    rcases hw : ifxMpsdrvFifoWrite s.fifo m.words m.bytes with ⟨st, out⟩
    exact (hl.layout.write_cases hw).2.1
  | notEmpty =>
    cases hs
    exact hskip s.fifo
  | read =>
    simp only [tpeCallStep, ifxMpsdrvFifoRead_eq, Option.some.injEq] at hs
    subst hs
    exact hskip s.fifo
  | readPtrInc =>
    obtain ⟨pos, -, rfl⟩ := Option.map_eq_some_iff.mp hs
    dsimp only [ifxMpsdrvFifoReadPtrInc]
    split <;> rfl

theorem tpeCallRun_inv {m : IdleMem} {preadOff pwriteOff size : Nat} {cs : List TpeCall}
    {s : TpeCalls} (h : run tpeCallStep (tpeCallInit m preadOff pwriteOff size) cs = some s) :
    TpeCallInv s ∧ s.fifo.size = size := by
  have hstep : ∀ {s t : TpeCalls} {c : TpeCall}, TpeCallInv s ∧ s.fifo.size = size →
      tpeCallStep s c = some t → TpeCallInv t ∧ t.fifo.size = size := by
    intro s t c hs hc
    exact ⟨tpeCallStep_inv hs.1 hc, (tpeCallStep_size hs.1 hc).trans hs.2⟩
  exact run_invariant hstep ⟨⟨[], [], TpeLaid.init _ _ _ _⟩, rfl⟩ h

end DanubeBsp
