import DanubeBsp.TpeFifo

namespace DanubeBsp

theorem Flat.store {fifo : MpsFifo} {pend : List MpsMessage} {m : MpsMessage}
    (h : Flat fifo pend) (hroom : fifo.pwriteOff + m.words.length + 2 < fifo.size / 4) :
    Flat (storeMessage fifo m.words m.words.length) (pend ++ [m]) := by
  obtain ⟨hblock, hsame, hzero⟩ := storeMessage_spec fifo m
  have hext := h.extent
  have hlen := m.words_length
  refine ⟨?_, ?_, ?_, ?_, ?_, .inr hroom⟩
  · rw [messageWords_append, blockAt_append, messageWords_singleton]
    simp only [storeMessage_preadOff, hext]
    refine ⟨blockAt_congr (fun i hi hlt => hsame i (.inl (by omega))) h.stored, ?_⟩
    exact hblock
  · rw [messageWords_append, messageWords_singleton, List.length_append]
    simp only [storeMessage_preadOff, storeMessage_pwriteOff]
    omega
  · rw [storeMessage_pwriteOff, hzero]
    decide
  · intro _
    rw [storeMessage_pwriteOff, hzero]
    decide
  · rcases h.origin with hr | ⟨hr, hidle⟩
    · exact .inl hr
    · exact .inr ⟨hr, by rw [hsame 1 (.inl (by omega))]; exact hidle⟩

theorem Wrapped.store {fifo : MpsFifo} {upper lower : List MpsMessage} {stop : Nat} {m : MpsMessage}
    (h : Wrapped fifo upper lower stop)
    (hfit : fifo.pwriteOff + m.words.length + 2 ≤ fifo.preadOff) :
    Wrapped (storeMessage fifo m.words m.words.length) upper (lower ++ [m]) stop := by
  obtain ⟨hblock, hsame, hzero⟩ := storeMessage_spec fifo m
  have hext := h.extent
  have hlow := h.extentLower
  refine ⟨?_, hext, ?_, ?_, ?_, .inl ⟨hfit, ?_, ?_⟩, h.room⟩
  · exact blockAt_congr (fun i hi hlt => hsame i (.inr (hfit.trans hi))) h.stored
  · rw [hsame (stop + 1) (.inr (by omega))]
    exact h.marker
  · rw [messageWords_append, blockAt_append, messageWords_singleton]
    refine ⟨blockAt_congr (fun i hi hlt => hsame i (.inl (by omega))) h.storedLower, ?_⟩
    rw [Nat.zero_add, hlow]
    exact hblock
  · rw [messageWords_append, messageWords_singleton, List.length_append, hlow]
    simp
  · rw [storeMessage_pwriteOff, hzero]
    decide
  · intro _
    rw [storeMessage_pwriteOff, hzero]
    decide

/-- A marker at offset 0 changes nothing for the reader; elsewhere it ends the older messages. -/
theorem Flat.markWrapped {fifo : MpsFifo} {pend : List MpsMessage} (h : Flat fifo pend) :
    Flat (markWrapped fifo) pend ∨ Wrapped (markWrapped fifo) pend [] fifo.pwriteOff := by
  have hext := h.extent
  by_cases hw : fifo.pwriteOff = 0
  · left
    have hr : fifo.preadOff = 0 := by omega
    have hpend : pend = [] := by
      by_contra hne
      have := messageWords_length_pos hne
      omega
    subst hpend
    refine ⟨trivial, by simpa using hr, ?_, by simp, .inl hr, .inl rfl⟩
    simp only [DanubeBsp.markWrapped, hw, Nat.zero_add, Function.update_self]
    decide
  · right
    have hsame : ∀ i, i ≠ fifo.pwriteOff + 1 → (DanubeBsp.markWrapped fifo).mem i = fifo.mem i :=
      fun i hi => Function.update_of_ne hi _ _
    refine ⟨?_, hext, ?_, trivial, rfl, ?_, h.room.resolve_left hw⟩
    · exact blockAt_congr (fun i hi hlt => hsame i (by rw [markWrapped_preadOff] at hlt; omega)) h.stored
    · simp only [DanubeBsp.markWrapped, Function.update_self]
      decide
    · rcases h.origin with hr | ⟨hr, hidle⟩
      · refine .inr ⟨hr, rfl, rfl, ?_⟩
        rintro rfl
        simp only [messageWords_nil, List.length_nil] at hext
        omega
      · refine .inl ⟨hr, ?_, fun hne => absurd rfl hne⟩
        rw [markWrapped_pwriteOff, hsame 1 (by omega)]
        exact hidle

/-- What a write does to the layout: it stores nothing, extends the older messages or the newer ones. -/
theorem Layout.write_cases {fifo out : MpsFifo} {front back : List MpsMessage} {m : MpsMessage}
    {st : Status} (h : Layout fifo front back)
    (hw : ifxMpsdrvFifoWrite fifo m.words m.bytes = (st, out)) :
    out.preadOff = fifo.preadOff ∧ out.size = fifo.size ∧
      ((st = .error ∧ Layout out front back) ∨
        (st = .ok ∧ back = [] ∧ Flat out (front ++ [m])) ∨
        (st = .ok ∧ ∃ stop, Wrapped out front (back ++ [m]) stop)) := by
  rcases ifxMpsdrvFifoWrite_cases hw with ⟨rfl, rfl⟩ | ⟨hidle, hw⟩
  · exact ⟨rfl, rfl, .inl ⟨rfl, h⟩⟩
  · rcases h with ⟨hf, rfl⟩ | ⟨stop, hwr⟩
    · have hext := hf.extent
      rcases hw with ⟨hlt, -⟩ | ⟨-, hroom, rfl, rfl⟩ | ⟨-, -, -, rfl, rfl⟩ |
        ⟨-, hfit, -, rfl, rfl⟩
      · omega
      · exact ⟨rfl, rfl, .inr (.inl ⟨rfl, rfl, hf.store hroom⟩)⟩
      · refine ⟨rfl, rfl, .inl ⟨rfl, ?_⟩⟩
        rcases hf.markWrapped with hf | hwr
        · exact .inl ⟨hf, rfl⟩
        · exact .inr ⟨_, hwr⟩
      · have hlen := m.words_length
        rcases hf.markWrapped with hf | hwr
        · have hz := hf.extent
          simp only [markWrapped_preadOff, markWrapped_pwriteOff] at hz
          omega
        · have hs := hwr.store (m := m) (by simpa using hfit)
          exact ⟨rfl, rfl, .inr (.inr ⟨rfl, _, hs⟩)⟩
    · rcases hwr.apart with ⟨hgap, -⟩ | ⟨hr, hw0, -, hne⟩
      · rcases hw with ⟨-, hfit, rfl, rfl⟩ | ⟨hge, -⟩ | ⟨hge, -⟩ | ⟨hge, -⟩
        · exact ⟨rfl, rfl, .inr (.inr ⟨rfl, stop, hwr.store hfit⟩)⟩
        all_goals omega
      · obtain ⟨m', front, rfl⟩ := List.exists_cons_of_ne_nil hne
        have hready := Layout.head_ready (.inr ⟨stop, hwr⟩)
        rw [hr, ← hw0, hidle] at hready
        exact absurd hready (by decide)

/-- A write extends the unread messages exactly when it reports success. -/
theorem Layout.write {fifo out : MpsFifo} {front back : List MpsMessage} {m : MpsMessage}
    {st : Status} (h : Layout fifo front back)
    (hw : ifxMpsdrvFifoWrite fifo m.words m.bytes = (st, out)) :
    out.preadOff = fifo.preadOff ∧ ∃ extra back', Layout out (front ++ extra) back' ∧
      front ++ extra ++ back' = front ++ back ++ (if st = .ok then [m] else []) := by
  obtain ⟨hr, -, ⟨rfl, hl⟩ | ⟨rfl, rfl, hf⟩ | ⟨rfl, stop, hwr⟩⟩ := h.write_cases hw
  · exact ⟨hr, [], back, by simpa using hl, by simp⟩
  · exact ⟨hr, [m], [], .inl ⟨hf, rfl⟩, by simp⟩
  · exact ⟨hr, [], back ++ [m], .inr ⟨stop, by simpa using hwr⟩, by simp⟩

theorem Layout.head_fits {fifo : MpsFifo} {m : MpsMessage} {front back : List MpsMessage}
    (h : Layout fifo (m :: front) back) : m.words.length ≤ fifo.size := by
  have hlen := m.words_length
  rcases h with ⟨hf, -⟩ | ⟨stop, hw⟩
  · have hext := hf.extent
    have hroom := hf.room
    rw [messageWords_cons, List.length_append] at hext
    omega
  · have hext := hw.extent
    have hroom := hw.room
    rw [messageWords_cons, List.length_append] at hext
    omega

theorem ifxMpsdrvFifoReadPtrInc_mem_of_ne {fifo : MpsFifo} {n i : Nat}
    (hi : i ≠ fifo.preadOff + 1) : (ifxMpsdrvFifoReadPtrInc fifo n).mem i = fifo.mem i := by
  unfold ifxMpsdrvFifoReadPtrInc
  split
  next => rfl
  next => exact Function.update_of_ne hi _ _

theorem ifxMpsdrvFifoReadPtrInc_header {fifo : MpsFifo} {n : Nat} (hn : n ≤ fifo.size) :
    msgReady ((ifxMpsdrvFifoReadPtrInc fifo n).mem (fifo.preadOff + 1)) = false := by
  have hle : ¬ n > fifo.size := by omega
  simp only [ifxMpsdrvFifoReadPtrInc, if_neg hle, Function.update_self]
  exact ready_clear _

/-- Releasing the oldest message leaves exactly the younger ones. -/
theorem Layout.readPtrInc {fifo : MpsFifo} {m : MpsMessage} {front back : List MpsMessage}
    (h : Layout fifo (m :: front) back) :
    Layout (ifxMpsdrvFifoReadPtrInc fifo m.words.length) front back := by
  have hfit := h.head_fits
  have hlen := m.words_length
  have hle : ¬ m.words.length > fifo.size := by omega
  have hsame := @ifxMpsdrvFifoReadPtrInc_mem_of_ne fifo m.words.length
  have hclear := ifxMpsdrvFifoReadPtrInc_header hfit
  have hr : (ifxMpsdrvFifoReadPtrInc fifo m.words.length).preadOff =
      fifo.preadOff + m.words.length := by
    simp [ifxMpsdrvFifoReadPtrInc, if_neg hle]
  have hw : (ifxMpsdrvFifoReadPtrInc fifo m.words.length).pwriteOff = fifo.pwriteOff := by
    simp [ifxMpsdrvFifoReadPtrInc, if_neg hle]
  have hs : (ifxMpsdrvFifoReadPtrInc fifo m.words.length).size = fifo.size := by
    simp [ifxMpsdrvFifoReadPtrInc, if_neg hle]
  generalize ifxMpsdrvFifoReadPtrInc fifo m.words.length = out at *
  rcases h with ⟨hf, rfl⟩ | ⟨stop, hwr⟩
  · left
    have hext := hf.extent
    have hst := hf.stored
    rw [messageWords_cons, List.length_append] at hext
    rw [messageWords_cons, blockAt_append] at hst
    refine ⟨⟨?_, by omega, ?_, ?_, .inr ⟨by omega, ?_⟩, by rw [hw, hs]; exact hf.room⟩, rfl⟩
    · rw [hr]
      exact blockAt_congr (fun i hi _ => hsame (by omega)) hst.2
    · rw [hw, hsame (by omega)]
      exact hf.idle
    · rw [hw, hsame (by omega)]
      exact hf.unmarked
    · rcases hf.origin with h0 | ⟨h2, hidle⟩
      · simpa [h0] using hclear
      · rw [hsame (by omega)]
        exact hidle
  · right
    have hext := hwr.extent
    have hst := hwr.stored
    have hlow := hwr.extentLower
    rw [messageWords_cons, List.length_append] at hext
    rw [messageWords_cons, blockAt_append] at hst
    refine ⟨stop, ?_, by omega, ?_, ?_, hlow.trans hw.symm, .inl ?_, by rw [hs]; exact hwr.room⟩
    · rw [hr]
      exact blockAt_congr (fun i hi _ => hsame (by omega)) hst.2
    · rw [hsame (by omega)]
      exact hwr.marker
    · rcases hwr.apart with ⟨hgap, -⟩ | ⟨-, -, rfl, -⟩
      · exact blockAt_congr (fun i _ hlt => hsame (by omega)) hwr.storedLower
      · exact blockAt_nil _ _
    · rcases hwr.apart with ⟨hgap, hidle, hmark⟩ | ⟨h0, hw0, -, -⟩
      · refine ⟨by omega, ?_, ?_⟩
        · rw [hw, hsame (by omega)]
          exact hidle
        · rw [hw, hsame (by omega)]
          exact hmark
      · refine ⟨by omega, ?_, fun hne => absurd (hw.trans hw0) hne⟩
        rw [hw, hw0, ← h0]
        exact hclear

end DanubeBsp
