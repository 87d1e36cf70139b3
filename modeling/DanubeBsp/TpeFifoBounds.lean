import DanubeBsp.TpeFifoCalls

namespace DanubeBsp

/-- The stores of a copy loop to ascending words. -/
def blockStores : Nat → List Word → List (Nat × Word)
  | _, [] => []
  | pos, w :: ws => (pos, w) :: blockStores (pos + 1) ws

/-- The stores of `storeMessage`: the copy loop, the ready bit, and both words of the next header. -/
def messageStores (fifo : MpsFifo) (data : List Word) (msg4bytes : Nat) : List (Nat × Word) :=
  let copied := writeBlock fifo.mem fifo.pwriteOff (data.take msg4bytes)
  let pos := fifo.pwriteOff + 1
  let next := fifo.pwriteOff + msg4bytes
  blockStores fifo.pwriteOff (data.take msg4bytes) ++
    [(pos, copied pos ||| 0x8000#32), (next + 1, 0), (next, 0)]

/-- The stores of `ifx_mpsdrv_fifo_write` to the words of the FIFO, in order. -/
def ifxMpsdrvFifoWriteStores (fifo : MpsFifo) (data : List Word) (length : Nat) :
    List (Nat × Word) :=
  if length > fifo.size then []
  else if msgReady (fifo.mem (fifo.pwriteOff + 1)) then []
  else
    let msg4bytes := (length + 3) / 4
    if fifo.pwriteOff < fifo.preadOff then
      if fifo.pwriteOff + msg4bytes + mpsMinMargin > fifo.preadOff then []
      else messageStores fifo data msg4bytes
    else if fifo.pwriteOff + msg4bytes + mpsMinMargin ≥ fifo.size / 4 then
      (fifo.pwriteOff + 1, 0x4000#32) ::
        (let fifo := markWrapped fifo
        if msgReady (fifo.mem 1) then []
        else if fifo.pwriteOff + msg4bytes + mpsMinMargin > fifo.preadOff then []
        else messageStores fifo data msg4bytes)
    else messageStores fifo data msg4bytes

def applyStores (mem : Nat → Word) (stores : List (Nat × Word)) : Nat → Word :=
  stores.foldl (fun mem st => Function.update mem st.1 st.2) mem

theorem applyStores_append (mem : Nat → Word) (us vs : List (Nat × Word)) :
    applyStores mem (us ++ vs) = applyStores (applyStores mem us) vs := List.foldl_append

theorem applyStores_block (mem : Nat → Word) (pos : Nat) (ws : List Word) :
    applyStores mem (blockStores pos ws) = writeBlock mem pos ws := by
  induction ws generalizing mem pos with
  | nil => rfl
  | cons w ws ih => exact ih (Function.update mem pos w) (pos + 1)

theorem applyStores_message (fifo : MpsFifo) (data : List Word) (n : Nat) :
    applyStores fifo.mem (messageStores fifo data n) = (storeMessage fifo data n).mem := by
  unfold messageStores
  dsimp only
  rw [applyStores_append, applyStores_block]
  rfl

/-- The listed stores are what the call does to the memory. -/
theorem ifxMpsdrvFifoWrite_mem (fifo : MpsFifo) (data : List Word) (length : Nat) :
    (ifxMpsdrvFifoWrite fifo data length).2.mem =
      applyStores fifo.mem (ifxMpsdrvFifoWriteStores fifo data length) := by
  unfold ifxMpsdrvFifoWrite ifxMpsdrvFifoWriteStores
  split
  next => rfl
  next =>
    split
    next => rfl
    next =>
      dsimp only
      split
      next =>
        split
        next => rfl
        next => exact (applyStores_message fifo data _).symm
      next =>
        split
        next =>
          split
          next => rfl
          next =>
            split
            next => rfl
            next => exact (applyStores_message (markWrapped fifo) data _).symm
        next => exact (applyStores_message fifo data _).symm

theorem mem_blockStores {pos i : Nat} {w : Word} {ws : List Word} (h : (i, w) ∈ blockStores pos ws) :
    pos ≤ i ∧ i < pos + ws.length := by
  induction ws generalizing pos with
  | nil => cases h
  | cons v ws ih =>
    rw [List.length_cons]
    rcases List.mem_cons.mp h with heq | h
    · cases heq
      omega
    · have hb := ih h
      omega

theorem mem_messageStores {fifo : MpsFifo} {m : MpsMessage} {i : Nat} {w : Word}
    (h : (i, w) ∈ messageStores fifo m.words m.words.length) :
    fifo.pwriteOff ≤ i ∧ i < fifo.pwriteOff + m.words.length + 2 := by
  have hlen := m.words_length
  unfold messageStores at h
  dsimp only at h
  rw [List.take_length] at h
  rcases List.mem_append.mp h with h | h
  · have hb := mem_blockStores h
    omega
  · simp only [List.mem_cons, Prod.mk.injEq, List.not_mem_nil, or_false] at h
    omega

/-- Where a write can store, by the relation of the two offsets. -/
theorem mem_writeStores {fifo : MpsFifo} {m : MpsMessage} {i : Nat} {w : Word}
    (h : (i, w) ∈ ifxMpsdrvFifoWriteStores fifo m.words m.bytes) :
    msgReady (fifo.mem (fifo.pwriteOff + 1)) = false ∧
      ((fifo.pwriteOff < fifo.preadOff ∧ fifo.pwriteOff ≤ i ∧ i < fifo.preadOff) ∨
        (fifo.preadOff ≤ fifo.pwriteOff ∧ fifo.pwriteOff ≤ i ∧ i < fifo.size / 4) ∨
        (fifo.preadOff ≤ fifo.pwriteOff ∧ i = fifo.pwriteOff + 1) ∨
        (fifo.preadOff ≤ fifo.pwriteOff ∧ i < fifo.preadOff)) := by
  simp only [ifxMpsdrvFifoWriteStores, m.words4bytes, mpsMinMargin] at h
  split at h
  next => cases h
  next =>
    split at h
    next => cases h
    next hready =>
      refine ⟨by simpa using hready, ?_⟩
      split at h
      next hlt =>
        split at h
        next => cases h
        next =>
          have hb := mem_messageStores h
          omega
      next hge =>
        split at h
        next =>
          rcases List.mem_cons.mp h with heq | h
          · cases heq
            omega
          · split at h
            next => cases h
            next =>
              split at h
              next => cases h
              next =>
                have hb := mem_messageStores h
                simp only [markWrapped_pwriteOff, markWrapped_preadOff] at *
                omega
        next =>
          have hb := mem_messageStores h
          omega

theorem Layout.offsets_le {fifo : MpsFifo} {front back : List MpsMessage}
    (h : Layout fifo front back) (hsize : mpsMsghdrLen ≤ fifo.size) :
    fifo.pwriteOff + mpsMinMargin ≤ fifo.size / 4 ∧ fifo.preadOff ≤ fifo.size / 4 := by
  simp only [mpsMsghdrLen, mpsMinMargin] at *
  rcases h with ⟨hf, -⟩ | ⟨stop, hw⟩
  · have hext := hf.extent
    have hroom := hf.room
    omega
  · have hext := hw.extent
    have hroom := hw.room
    rcases hw.apart with ⟨hgap, -⟩ | ⟨-, hw0, -, -⟩
    · omega
    · omega

/-- Where a write stores anything, the unread messages lie between the two offsets: those behind the
read offset up to the end, and those of a wrapped memory below the write offset. -/
theorem TpeLaid.unread_bounds {s : TpeCalls} {front back : List MpsMessage} (h : TpeLaid s front back)
    (hidle : msgReady (s.fifo.mem (s.fifo.pwriteOff + 1)) = false) {p : Nat} {u : MpsMessage}
    (hu : (p, u) ∈ s.unread) :
    (s.fifo.preadOff ≤ s.fifo.pwriteOff ∧ s.fifo.preadOff ≤ p ∧
        p + u.words.length ≤ s.fifo.pwriteOff) ∨
      (s.fifo.pwriteOff + 2 ≤ s.fifo.preadOff ∧
        (s.fifo.preadOff ≤ p ∨ p + u.words.length ≤ s.fifo.pwriteOff)) := by
  rw [h.places] at hu
  rcases h.layout with ⟨hf, rfl⟩ | ⟨stop, hw⟩
  · have hext := hf.extent
    rw [placed, List.append_nil] at hu
    have hb := placed_bounds hu
    exact .inl (by omega)
  · have hlow := hw.extentLower
    rcases hw.apart with ⟨hgap, -⟩ | ⟨hr, hw0, -, hne⟩
    · right
      rcases List.mem_append.mp hu with hu | hu
      · exact ⟨hgap, .inl (placed_bounds hu).1⟩
      · have hb := placed_bounds hu
        exact ⟨hgap, .inr (by omega)⟩
    · -- the oldest message stands at the write offset, and its header is ready
      obtain ⟨m, front, rfl⟩ := List.exists_cons_of_ne_nil hne
      have hready := h.layout.head_ready
      rw [hr, ← hw0, hidle] at hready
      exact absurd hready (by decide)

/-- In every state that the calls reach, a write of any message stores only inside the FIFO and outside
the unread messages, and the write offset leaves room for a header. -/
theorem tpeFifo_write_in_bounds {mem : IdleMem} {preadOff pwriteOff size : Nat} {cs : List TpeCall}
    {s : TpeCalls} (hsize : mpsMsghdrLen ≤ size)
    (h : run tpeCallStep (tpeCallInit mem preadOff pwriteOff size) cs = some s) :
    s.fifo.pwriteOff + mpsMinMargin ≤ size / 4 ∧
      ∀ (m : MpsMessage) (i : Nat) (w : Word),
        (i, w) ∈ ifxMpsdrvFifoWriteStores s.fifo m.words m.bytes →
        i < size / 4 ∧ ∀ p u, (p, u) ∈ s.unread → ¬ (p ≤ i ∧ i < p + u.words.length) := by
  obtain ⟨⟨front, back, hl⟩, rfl⟩ := tpeCallRun_inv h
  obtain ⟨hroom, hread⟩ := hl.layout.offsets_le hsize
  refine ⟨hroom, ?_⟩
  intro m i w hi
  obtain ⟨hidle, hcases⟩ := mem_writeStores hi
  simp only [mpsMinMargin] at hroom
  constructor
  · omega
  · intro p u hu hin
    have hb := hl.unread_bounds hidle hu
    omega

/-- Two messages, the release of the older one, and one that wraps to the front. -/
def wrappedCalls : List TpeCall :=
  [.write ⟨7, 0x8014, [1, 2, 3, 4, 5], rfl, rfl, rfl⟩, .write ⟨8, 0x8008, [6, 7], rfl, rfl, rfl⟩,
    .read, .readPtrInc, .write ⟨9, 0x8004, [8], rfl, rfl, rfl⟩]

theorem tpeFifo_write_in_bounds_wrapped :
    ∃ s, run tpeCallStep (tpeCallInit zeroMem 3 5 64) wrappedCalls = some s ∧
      s.unread.map Prod.fst = [7, 0] ∧
      (ifxMpsdrvFifoWriteStores s.fifo [10, 0x8000] 8).map Prod.fst = [3, 4, 4, 6, 5] ∧
      s.fifo.pwriteOff + mpsMinMargin ≤ 64 / 4 := by
  have hrun : (run tpeCallStep (tpeCallInit zeroMem 3 5 64) wrappedCalls).any (fun s =>
      s.unread.map Prod.fst = [7, 0] ∧
        (ifxMpsdrvFifoWriteStores s.fifo [10, 0x8000] 8).map Prod.fst = [3, 4, 4, 6, 5]) = true := by
    decide +kernel
  obtain ⟨s, hs, hp⟩ := (Option.any_eq_true _ _).mp hrun
  obtain ⟨hunread, hstores⟩ := of_decide_eq_true hp
  exact ⟨s, hs, hunread, hstores, (tpeFifo_write_in_bounds (by decide) hs).1⟩

end DanubeBsp
