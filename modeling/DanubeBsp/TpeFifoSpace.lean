import DanubeBsp.TpeFifoBounds

namespace DanubeBsp

/-- The offsets, the size and the result are `u32`, so the arithmetic wraps. -/
def ifxMpsdrvFifoMemAvailable (fifo : MpsFifo) : Word :=
  let pread := BitVec.ofNat 32 fifo.preadOff
  let pwrite := BitVec.ofNat 32 fifo.pwriteOff
  if pwrite < pread then 4 * (pread - pwrite)
  else BitVec.ofNat 32 fifo.size - 4 * (pwrite - pread)

def ifxMpsdrvFifoMemRequest (fifo : MpsFifo) (bytes : Word) : Bool :=
  bytes ≤ ifxMpsdrvFifoMemAvailable fifo

/-- The bytes that the unread messages occupy. -/
def occupiedBytes (s : TpeCalls) : Nat := (s.unread.map fun p => p.2.bytes).sum

/-- The free space is not overstated. -/
def SpaceTrue (size : Nat) (s : TpeCalls) : Prop :=
  (ifxMpsdrvFifoMemAvailable s.fifo).toNat ≤ size - occupiedBytes s

/-- The write does not wrap while the oldest unread message stands at offset 0. -/
def WrapsBehindReader (s : TpeCalls) : TpeCall → Prop
  | .write m => ¬ (s.fifo.preadOff = 0 ∧ s.fifo.pwriteOff ≠ 0 ∧ m.bytes ≤ s.fifo.size ∧
      s.fifo.size / 4 ≤ s.fifo.pwriteOff + m.words.length + mpsMinMargin)
  | _ => True

theorem memAvailable_toNat {fifo : MpsFifo} (hsize : fifo.size < 2 ^ 32)
    (hr : 4 * fifo.preadOff ≤ fifo.size) (hw : 4 * fifo.pwriteOff ≤ fifo.size) :
    (ifxMpsdrvFifoMemAvailable fifo).toNat =
      if fifo.pwriteOff < fifo.preadOff then 4 * (fifo.preadOff - fifo.pwriteOff)
      else fifo.size - 4 * (fifo.pwriteOff - fifo.preadOff) := by
  have hpr : (BitVec.ofNat 32 fifo.preadOff).toNat = fifo.preadOff := by
    rw [BitVec.toNat_ofNat, Nat.mod_eq_of_lt (by omega)]
  have hpw : (BitVec.ofNat 32 fifo.pwriteOff).toNat = fifo.pwriteOff := by
    rw [BitVec.toNat_ofNat, Nat.mod_eq_of_lt (by omega)]
  unfold ifxMpsdrvFifoMemAvailable
  dsimp only
  simp only [BitVec.lt_def, hpr, hpw]
  split
  next hlt =>
    simp only [BitVec.toNat_mul, BitVec.toNat_sub, hpr, hpw, BitVec.reduceToNat]
    omega
  next hge =>
    simp only [BitVec.toNat_sub, BitVec.toNat_mul, hpr, hpw, BitVec.reduceToNat,
      BitVec.toNat_ofNat, Nat.mod_eq_of_lt hsize]
    omega

theorem placed_bytes (pos : Nat) (ms : List MpsMessage) :
    ((placed pos ms).map fun p => p.2.bytes).sum = 4 * (messageWords ms).length := by
  induction ms generalizing pos with
  | nil => rfl
  | cons m ms ih =>
    have hm : m.bytes = 4 * m.words.length := by
      rw [MpsMessage.bytes, ← m.len, m.words_length, mpsMsghdrLen]
      omega
    rw [placed, List.map_cons, List.sum_cons, ih, messageWords_cons, List.length_append, hm]
    omega

theorem TpeLaid.occupiedBytes {s : TpeCalls} {front back : List MpsMessage} (h : TpeLaid s front back) :
    occupiedBytes s = 4 * ((messageWords front).length + (messageWords back).length) := by
  rw [DanubeBsp.occupiedBytes, h.places, List.map_append, List.sum_append, placed_bytes, placed_bytes]
  omega

theorem TpeLaid.unread_nil {s : TpeCalls} {front back : List MpsMessage} (h : TpeLaid s front back) :
    s.unread = [] ↔ front = [] ∧ back = [] := by
  rw [h.places]
  cases front <;> cases back <;> simp [placed]

/-- Equal offsets mean an empty FIFO, apart from the offset 0 that a failed wrap leaves. -/
theorem TpeLaid.equal_offsets {s : TpeCalls} {front back : List MpsMessage}
    (h : TpeLaid s front back) (heq : s.fifo.preadOff = s.fifo.pwriteOff) :
    s.unread = [] ∨ s.fifo.preadOff = 0 := by
  rcases h.layout with ⟨hf, rfl⟩ | ⟨stop, hw⟩
  · have hext := hf.extent
    refine .inl (h.unread_nil.mpr ⟨?_, rfl⟩)
    by_contra hne
    have hpos := messageWords_length_pos hne
    omega
  · rcases hw.apart with ⟨hgap, -⟩ | ⟨hr, -⟩
    · omega
    · exact .inr hr

/-- The calls reach a laid out FIFO, and no failed wrap has made the offsets equal. -/
structure SpaceInv (size : Nat) (s : TpeCalls) : Prop where
  laid : TpeCallInv s
  size_eq : s.fifo.size = size
  equal : s.fifo.preadOff = s.fifo.pwriteOff → s.unread = []

theorem SpaceInv.spaceTrue {size : Nat} {s : TpeCalls} (h : SpaceInv size s) (hsize : size < 2 ^ 32) :
    SpaceTrue size s := by
  obtain ⟨⟨front, back, hl⟩, rfl, hequal⟩ := h
  unfold SpaceTrue
  rw [hl.occupiedBytes]
  rcases hl.layout with ⟨hf, rfl⟩ | ⟨stop, hw⟩
  · have hext := hf.extent
    have hroom := hf.room
    rw [memAvailable_toNat hsize (by omega) (by omega), if_neg (by omega), messageWords_nil,
      List.length_nil]
    omega
  · have hext := hw.extent
    have hlow := hw.extentLower
    have hroom := hw.room
    rcases hw.apart with ⟨hgap, -⟩ | ⟨hr, hw0, -, hne⟩
    · rw [memAvailable_toNat hsize (by omega) (by omega), if_pos (by omega)]
      omega
    · exact absurd (hl.unread_nil.mp (hequal (hr.trans hw0.symm))).1 hne

/-- A write keeps the offsets apart, unless it resets the write offset to an oldest message at 0. -/
theorem SpaceInv.write_equal {size : Nat} {s : TpeCalls} {m : MpsMessage} (h : SpaceInv size s)
    (hok : WrapsBehindReader s (.write m))
    (heq : (callWrite s m).fifo.preadOff = (callWrite s m).fifo.pwriteOff)
    (hzero : (callWrite s m).fifo.preadOff = 0) : (callWrite s m).unread = [] := by
  have hlen := m.words_length
  unfold callWrite at *
  rcases hw : ifxMpsdrvFifoWrite s.fifo m.words m.bytes with ⟨st, out⟩
  simp only [hw] at heq hzero ⊢
  rcases ifxMpsdrvFifoWrite_cases hw with ⟨rfl, rfl⟩ | ⟨-, ⟨-, -, rfl, rfl⟩ | ⟨-, -, rfl, rfl⟩ |
    ⟨-, hbytes, hend, rfl, rfl⟩ | ⟨-, hfit, -, rfl, rfl⟩⟩
  · exact h.equal heq
  · simp only [storeMessage_preadOff, storeMessage_pwriteOff] at heq hzero
    omega
  · simp only [storeMessage_preadOff, storeMessage_pwriteOff] at heq hzero
    omega
  · have hw0 : s.fifo.pwriteOff = 0 := by
      by_contra hne
      exact hok ⟨hzero, hne, hbytes, hend⟩
    exact h.equal (hzero.trans hw0.symm)
  · simp only [storeMessage_preadOff, markWrapped_preadOff] at hzero
    omega

/-- The reader moves to offset 0 only where the messages behind the marker end at the write offset. -/
theorem SpaceInv.skip_equal {size : Nat} {s : TpeCalls} (h : SpaceInv size s)
    (heq : (skipWrapped s.fifo).preadOff = (skipWrapped s.fifo).pwriteOff) : s.unread = [] := by
  obtain ⟨front, back, hl⟩ := h.laid
  obtain ⟨front', back', hl', hsame | hflat, -⟩ := hl.skip
  · rw [hsame] at heq
    exact h.equal heq
  · have hext := hflat.extent
    have hfront : front' = [] := by
      by_contra hne
      have hpos := messageWords_length_pos hne
      omega
    rcases hl'.layout with ⟨-, hback⟩ | ⟨stop, hwr⟩
    · exact hl'.unread_nil.mpr ⟨hfront, hback⟩
    · rcases hwr.apart with ⟨hgap, -⟩ | ⟨-, -, -, hne⟩
      · dsimp only at hgap
        omega
      · exact absurd hfront hne

theorem SpaceInv.release_ne_zero {size : Nat} {s : TpeCalls} (h : SpaceInv size s) {pos : Nat}
    (hpos : s.held = some pos) :
    (ifxMpsdrvFifoReadPtrInc s.fifo (msg4bytesAt s.fifo pos)).preadOff ≠ 0 := by
  obtain ⟨front, back, hl⟩ := h.laid
  obtain ⟨rfl, hne⟩ := hl.held pos hpos
  obtain ⟨m, front, rfl⟩ := List.exists_cons_of_ne_nil hne
  have hfit := hl.layout.head_fits
  have hlen := m.words_length
  rw [hl.layout.msg4bytesAt_eq, ifxMpsdrvFifoReadPtrInc, if_neg (by omega)]
  dsimp only
  omega

theorem SpaceInv.step {size : Nat} {s t : TpeCalls} {c : TpeCall} (h : SpaceInv size s)
    (hok : WrapsBehindReader s c) (hs : tpeCallStep s c = some t) : SpaceInv size t := by
  have hinv := tpeCallStep_inv h.laid hs
  refine ⟨hinv, (tpeCallStep_size h.laid hs).trans h.size_eq, ?_⟩
  intro heq
  obtain ⟨front, back, hl⟩ := hinv
  rcases hl.equal_offsets heq with hnil | hzero
  · exact hnil
  · cases c with
    | write m =>
      cases hs
      exact h.write_equal hok heq hzero
    | notEmpty =>
      cases hs
      exact h.skip_equal heq
    | read =>
      simp only [tpeCallStep, ifxMpsdrvFifoRead_eq, Option.some.injEq] at hs
      subst hs
      exact h.skip_equal heq
    | readPtrInc =>
      obtain ⟨pos, hpos, rfl⟩ := Option.map_eq_some_iff.mp hs
      exact absurd hzero (h.release_ne_zero hpos)

/-- A wrap onto an oldest message at offset 0 fails after it has reset the write offset. -/
theorem Flat.write_onto_reader {fifo : MpsFifo} {pend : List MpsMessage} {m : MpsMessage}
    (h : Flat fifo pend) (hr : fifo.preadOff = 0) (hw : fifo.pwriteOff ≠ 0)
    (hbytes : m.bytes ≤ fifo.size)
    (hend : fifo.size / 4 ≤ fifo.pwriteOff + m.words.length + mpsMinMargin) :
    ifxMpsdrvFifoWrite fifo m.words m.bytes = (.error, DanubeBsp.markWrapped fifo) := by
  have hext := h.extent
  have hpend : pend ≠ [] := by
    rintro rfl
    rw [messageWords_nil, List.length_nil] at hext
    omega
  obtain ⟨u, pend, rfl⟩ := List.exists_cons_of_ne_nil hpend
  have hready := Layout.head_ready (.inl ⟨h, rfl⟩)
  rw [hr, Nat.zero_add] at hready
  have hfirst : msgReady ((DanubeBsp.markWrapped fifo).mem 1) = true := by
    simp only [DanubeBsp.markWrapped]
    rw [Function.update_of_ne (by omega)]
    exact hready
  simp only [ifxMpsdrvFifoWrite, m.words4bytes, h.idle, if_neg (Nat.not_lt.mpr hbytes), hr,
    Nat.not_lt_zero, if_false, if_pos hend, hfirst, if_true, Bool.false_eq_true]

theorem SpaceInv.meets {size : Nat} {s t : TpeCalls} {c : TpeCall} (h : SpaceInv size s)
    (hsize : size < 2 ^ 32) (hs : tpeCallStep s c = some t) (ht : SpaceTrue size t) :
    WrapsBehindReader s c := by
  cases c with
  | write m =>
    rintro ⟨hr, hw, hbytes, hend⟩
    obtain ⟨⟨front, back, hl⟩, rfl, -⟩ := h
    rcases hl.layout with ⟨hf, rfl⟩ | ⟨stop, hwr⟩
    · have hext := hf.extent
      have hroom := hf.room
      have hwrite := hf.write_onto_reader hr hw hbytes hend
      cases hs
      unfold SpaceTrue at ht
      simp only [callWrite, hwrite, reduceCtorEq, if_false] at ht
      have hun : occupiedBytes { s with fifo := markWrapped s.fifo } = occupiedBytes s := rfl
      have hav : (ifxMpsdrvFifoMemAvailable (markWrapped s.fifo)).toNat = s.fifo.size := by
        have hmark : (markWrapped s.fifo).size < 2 ^ 32 := hsize
        rw [memAvailable_toNat hmark (by simp [hr]) (by simp), if_neg (by simp [hr])]
        simp [markWrapped]
      rw [hun, hl.occupiedBytes, hav] at ht
      omega
    · rcases hwr.apart with ⟨hgap, -⟩ | ⟨-, hw0, -⟩
      · omega
      · exact hw hw0
  | notEmpty => trivial
  | read => trivial
  | readPtrInc => trivial

/-- The reported free space is within the size less the unread bytes in every state of a run exactly
when no write of the run wraps onto an oldest message at offset 0. -/
theorem tpeFifo_space_iff (mem : IdleMem) (preadOff pwriteOff : Nat) (size : Word)
    (cs : List TpeCall) :
    RunMeets tpeCallStep WrapsBehindReader (tpeCallInit mem preadOff pwriteOff size.toNat) cs ↔
      ∀ pre t, pre <+: cs →
        run tpeCallStep (tpeCallInit mem preadOff pwriteOff size.toNat) pre = some t →
        SpaceTrue size.toNat t := by
  have hinit : SpaceInv size.toNat (tpeCallInit mem preadOff pwriteOff size.toNat) :=
    ⟨⟨[], [], TpeLaid.init _ _ _ _⟩, rfl, fun _ => rfl⟩
  refine runMeets_iff_states (fun h => h.spaceTrue size.isLt) SpaceInv.step
    (fun h hs ht => h.meets size.isLt hs ht) ?_ hinit cs
  intro s c _ hs
  cases c with
  | write m => cases hs
  | notEmpty => trivial
  | read => trivial
  | readPtrInc => trivial

/-- A second message that does not fit behind the first one: the whole FIFO is reported free. -/
theorem tpeFifo_space_overstated : ∃ m s,
    run tpeCallStep (tpeCallInit zeroMem 0 0 64) [.write m, .write m] = some s ∧ s.unread = [(0, m)] ∧
      ifxMpsdrvFifoMemAvailable s.fifo = 64 ∧ ¬ SpaceTrue 64 s := by
  let m : MpsMessage := ⟨7, 0x8014, [1, 2, 3, 4, 5], rfl, rfl, rfl⟩
  have hrun : (run tpeCallStep (tpeCallInit zeroMem 0 0 64) [.write m, .write m]).any (fun s =>
      s.unread = [(0, m)] ∧ ifxMpsdrvFifoMemAvailable s.fifo = 64 ∧
        ¬ (ifxMpsdrvFifoMemAvailable s.fifo).toNat ≤ 64 - occupiedBytes s) = true := by
    decide +kernel
  obtain ⟨s, hs, hp⟩ := (Option.any_eq_true _ _).mp hrun
  obtain ⟨hunread, hfree, hlarge⟩ := of_decide_eq_true hp
  exact ⟨m, s, hs, hunread, hfree, hlarge⟩

end DanubeBsp
