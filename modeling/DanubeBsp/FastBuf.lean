import DanubeBsp.CircularScan
import DanubeBsp.Runs
import DanubeBsp.WordMemory

namespace DanubeBsp

/-- `FASTBUF_USED`, the busy indicator in bit 0 of an entry. -/
def fastbufUsed : Word := 0x00000001#32

/-- `FASTBUF_BUFS`, twice `MPS_BUFFER_INITIAL`. -/
def fastbufBufs : Nat := 36 * 2

/-- `FASTBUF_BUFSIZE`, which is `MPS_MEM_SEG_DATASIZE`. -/
def fastbufBufsize : Nat := 512

/-- The globals `fastbuf_pool` and `fastbuf_index`. -/
structure FastBuf where
  pool : Nat → Word
  index : Nat

/-- The memory that `kmalloc` returns for the pool. -/
structure FastBufBlock where
  addr : Word
  nonnull : addr ≠ 0
  aligned : addr.toNat % 32 = 0
  fits : addr.toNat + fastbufBufs * (fastbufBufsize + fastbufBufsize % 32) ≤ 2 ^ 32

/-- The chunk of entry `i`. -/
def FastBufBlock.buffer (b : FastBufBlock) (i : Nat) : Word :=
  b.addr + BitVec.ofNat 32 (i * (fastbufBufsize + fastbufBufsize % 32))

/-- `ifx_mps_fastbuf_init` behind a successful `kmalloc`. -/
def ifxMpsFastbufInit (b : FastBufBlock) : FastBuf := ⟨b.buffer, 0⟩

/-- `fastbuf_pool[i] & FASTBUF_USED` is 0. -/
def FastBuf.unused (s : FastBuf) (i : Nat) : Bool := s.pool i &&& fastbufUsed == 0

/-- `fastbuf_pool[i] == (ptr | FASTBUF_USED)`. -/
def FastBuf.usedBy (s : FastBuf) (ptr : Word) (i : Nat) : Bool := s.pool i == ptr ||| fastbufUsed

/-- The result and the pool, or `none` when the loop goes on after `rounds` rounds. -/
def ifxMpsFastbufMalloc (rounds : Nat) (s : FastBuf) (size : Nat) : Option (Word × FastBuf) :=
  if size > fastbufBufsize then some (0, s)
  else
    match scanUp fastbufBufs s.index s.unused rounds s.index with
    | none => none
    | some none => some (0, s)
    | some (some i) =>
      some (s.pool i, ⟨Function.update s.pool i (s.pool i ||| fastbufUsed), i⟩)

def ifxMpsFastbufFree (rounds : Nat) (s : FastBuf) (ptr : Word) : Option FastBuf :=
  match scanDown fastbufBufs s.index (s.usedBy ptr) rounds s.index with
  | none => none
  | some none => some s
  | some (some i) => some { s with pool := Function.update s.pool i (s.pool i &&& ~~~fastbufUsed) }

inductive FastBufCall
  | malloc (size : Nat)
  | free (ptr : Word)

/-- A call whose loop has at most `rounds` rounds. -/
def FastBuf.call (rounds : Nat) (s : FastBuf) : FastBufCall → Option FastBuf
  | .malloc size => (ifxMpsFastbufMalloc rounds s size).map Prod.snd
  | .free ptr => ifxMpsFastbufFree rounds s ptr

/-- The calls of a run end within one revolution. -/
def fastBufStep (s : FastBuf) (c : FastBufCall) : Option FastBuf := s.call fastbufBufs c

/-- The loop of the call finds what it looks for, or does not start where it cannot stop. -/
def ScanStops (s : FastBuf) : FastBufCall → Prop
  | .malloc size => size > fastbufBufsize ∨ s.index ≠ 0 ∨ ∃ i < fastbufBufs, s.unused i = true
  | .free ptr => s.index ≠ fastbufBufs - 1 ∨ ∃ i < fastbufBufs, s.usedBy ptr i = true

instance (s : FastBuf) (c : FastBufCall) : Decidable (ScanStops s c) := by
  cases c <;> exact inferInstanceAs (Decidable (_ ∨ _))

theorem fastbufBufs_pos : 0 < fastbufBufs := by decide

section Calls

variable {s : FastBuf} (hs : s.index < fastbufBufs)

include hs

/-- What a call of `ifx_mps_fastbuf_malloc` that returns can do. -/
theorem malloc_cases {rounds size : Nat} {ptr : Word} {t : FastBuf}
    (h : ifxMpsFastbufMalloc rounds s size = some (ptr, t)) :
    (ptr = 0 ∧ t = s ∧ (size > fastbufBufsize ∨ ∀ i < fastbufBufs, s.unused i = false)) ∨
    (size ≤ fastbufBufsize ∧ ∃ i < fastbufBufs, s.unused i = true ∧ ptr = s.pool i ∧
      t = ⟨Function.update s.pool i (s.pool i ||| fastbufUsed), i⟩) := by
  unfold ifxMpsFastbufMalloc at h
  split at h
  next hsize =>
    cases h
    exact .inl ⟨rfl, rfl, .inl hsize⟩
  next hsize =>
    split at h
    next => simp at h
    next hscan =>
      cases h
      refine .inl ⟨rfl, rfl, .inr ?_⟩
      intro i hi
      by_contra hfree
      obtain ⟨j, hj⟩ := scanUp_finds hs ⟨i, hi, by simpa using hfree⟩
      cases scanUp_unique hscan hj
    next i hscan =>
      cases h
      obtain ⟨hi, hfree⟩ := scanUp_hit hs.le fastbufBufs_pos hscan
      exact .inr ⟨by omega, i, hi, hfree, rfl, rfl⟩

theorem free_cases {rounds : Nat} {ptr : Word} {t : FastBuf}
    (h : ifxMpsFastbufFree rounds s ptr = some t) :
    t = s ∨ ∃ i < fastbufBufs, s.usedBy ptr i = true ∧
      t = { s with pool := Function.update s.pool i (s.pool i &&& ~~~fastbufUsed) } := by
  unfold ifxMpsFastbufFree at h
  split at h
  next => simp at h
  next =>
    cases h
    exact .inl rfl
  next i hscan =>
    cases h
    obtain ⟨hi, hptr⟩ := scanDown_hit hs hscan
    exact .inr ⟨i, hi, hptr, rfl⟩

theorem call_index {rounds : Nat} {c : FastBufCall} {t : FastBuf} (h : s.call rounds c = some t) :
    t.index < fastbufBufs := by
  cases c with
  | malloc size =>
    obtain ⟨⟨ptr, u⟩, hu, rfl⟩ := Option.map_eq_some_iff.mp h
    obtain ⟨-, rfl, -⟩ | ⟨-, i, hi, -, -, rfl⟩ := malloc_cases hs hu
    · exact hs
    · exact hi
  | free ptr =>
    obtain rfl | ⟨i, -, -, rfl⟩ := free_cases hs h
    · exact hs
    · exact hs

/-- A malloc that finds an entry without a user is through after one revolution. -/
theorem malloc_finds {size : Nat} (hsize : size ≤ fastbufBufsize)
    (hfree : ∃ i < fastbufBufs, s.unused i = true) :
    ∃ i < fastbufBufs, s.unused i = true ∧ ifxMpsFastbufMalloc fastbufBufs s size =
      some (s.pool i, ⟨Function.update s.pool i (s.pool i ||| fastbufUsed), i⟩) := by
  obtain ⟨i, hi⟩ := scanUp_finds hs hfree
  obtain ⟨hlt, hunused⟩ := scanUp_hit hs.le fastbufBufs_pos hi
  refine ⟨i, hlt, hunused, ?_⟩
  unfold ifxMpsFastbufMalloc
  rw [if_neg (by omega), hi]

/-- So is a free of a pointer that is in use. -/
theorem free_finds {ptr : Word} (hptr : ∃ i < fastbufBufs, s.usedBy ptr i = true) :
    ∃ i < fastbufBufs, s.usedBy ptr i = true ∧ ifxMpsFastbufFree fastbufBufs s ptr =
      some { s with pool := Function.update s.pool i (s.pool i &&& ~~~fastbufUsed) } := by
  obtain ⟨i, hi⟩ := scanDown_finds hs hptr
  obtain ⟨hlt, hused⟩ := scanDown_hit hs hi
  refine ⟨i, hlt, hused, ?_⟩
  unfold ifxMpsFastbufFree
  rw [hi]

theorem call_ends {c : FastBufCall} (h : ScanStops s c) : ∃ t, s.call fastbufBufs c = some t := by
  cases c with
  | malloc size =>
    by_cases hsize : size > fastbufBufsize
    · exact ⟨s, by simp [FastBuf.call, ifxMpsFastbufMalloc, hsize]⟩
    · by_cases hfree : ∃ i < fastbufBufs, s.unused i = true
      · obtain ⟨i, -, -, hm⟩ := malloc_finds hs (Nat.le_of_not_lt hsize) hfree
        exact ⟨_, by rw [FastBuf.call, hm]; rfl⟩
      · have hpos : s.index ≠ 0 := (h.resolve_left hsize).resolve_right hfree
        have hmiss : ∀ i < fastbufBufs, s.unused i = false :=
          fun i hi => Bool.not_eq_true _ ▸ fun he => hfree ⟨i, hi, he⟩
        refine ⟨s, ?_⟩
        rw [FastBuf.call, ifxMpsFastbufMalloc, if_neg hsize, scanUp_misses hs hpos hmiss]
        rfl
  | free ptr =>
    by_cases hptr : ∃ i < fastbufBufs, s.usedBy ptr i = true
    · obtain ⟨i, -, -, hf⟩ := free_finds hs hptr
      exact ⟨_, hf⟩
    · have hlast : s.index ≠ fastbufBufs - 1 := h.resolve_right hptr
      have hmiss : ∀ i < fastbufBufs, s.usedBy ptr i = false :=
        fun i hi => Bool.not_eq_true _ ▸ fun he => hptr ⟨i, hi, he⟩
      refine ⟨s, ?_⟩
      rw [FastBuf.call, ifxMpsFastbufFree, scanDown_misses hs hlast hmiss]

end Calls

/-- The start at index 0, or at the last index for a free, is never met again. -/
theorem call_forever {s : FastBuf} {c : FastBufCall} (h : ¬ScanStops s c) (rounds : Nat) :
    s.call rounds c = none := by
  cases c with
  | malloc size =>
    simp only [ScanStops, not_or, not_not, not_exists, not_and, Bool.not_eq_true] at h
    obtain ⟨hsize, hzero, hused⟩ := h
    rw [FastBuf.call, ifxMpsFastbufMalloc, if_neg hsize, hzero,
      scanUp_forever fastbufBufs_pos hused (Nat.zero_le _)]
    rfl
  | free ptr =>
    simp only [ScanStops, not_or, not_not, not_exists, not_and, Bool.not_eq_true] at h
    obtain ⟨hlast, hptr⟩ := h
    rw [FastBuf.call, ifxMpsFastbufFree, hlast, scanDown_forever fastbufBufs_pos hptr]

/-- From every start, that of `ifx_mps_fastbuf_init` and any other with the index in the table, the loops
of the next call end within one revolution or never. -/
theorem fastbuf_scans_end_iff {s₀ s : FastBuf} (h₀ : s₀.index < fastbufBufs) {cs : List FastBufCall}
    (h : run fastBufStep s₀ cs = some s) (c : FastBufCall) :
    ((s.call fastbufBufs c).isSome = true ↔ ScanStops s c) ∧
      (¬ScanStops s c → ∀ rounds, s.call rounds c = none) := by
  have hs : s.index < fastbufBufs := run_invariant (fun hs h => call_index hs h) h₀ h
  refine ⟨⟨?_, ?_⟩, fun hc rounds => call_forever hc rounds⟩
  · intro hsome
    by_contra hc
    rw [call_forever hc] at hsome
    simp at hsome
  · intro hc
    obtain ⟨t, ht⟩ := call_ends hs hc
    rw [ht]
    rfl

def samplePool : FastBufBlock := ⟨0x80400000#32, by decide, by decide, by decide⟩

/-- Two allocations, and the first one is freed. -/
theorem fastbuf_scans_end_three : ∃ s, run fastBufStep (ifxMpsFastbufInit samplePool)
    [.malloc 512, .malloc 100, .free 0x80400000#32] = some s ∧
      ((s.call fastbufBufs (.malloc 512)).isSome = true ↔ ScanStops s (.malloc 512)) := by
  have hrun : (run fastBufStep (ifxMpsFastbufInit samplePool)
      [.malloc 512, .malloc 100, .free 0x80400000#32]).isSome = true := by decide +kernel
  obtain ⟨s, hs⟩ := Option.isSome_iff_exists.mp hrun
  exact ⟨s, hs, (fastbuf_scans_end_iff fastbufBufs_pos hs (.malloc 512)).1⟩

theorem hangs_of_any {s₀ : FastBuf} {cs : List FastBufCall} {c : FastBufCall}
    (h : (run fastBufStep s₀ cs).any (fun s => !decide (ScanStops s c)) = true) :
    ∃ s, run fastBufStep s₀ cs = some s ∧ ∀ rounds, s.call rounds c = none := by
  obtain ⟨s, hs, hc⟩ := (Option.any_eq_true _ _).mp h
  exact ⟨s, hs, call_forever (by simpa using hc)⟩

/-- All buffers are out, one comes back and goes out again: the index is 0 and the next call never
returns. With the index at the last entry, the free of a pointer that is not in use never returns. -/
theorem fastbuf_scan_hangs :
    (∃ s, run fastBufStep (ifxMpsFastbufInit samplePool)
      (List.replicate fastbufBufs (.malloc 512) ++ [.free 0x80400000#32, .malloc 512]) = some s ∧
        ∀ rounds, s.call rounds (.malloc 512) = none) ∧
    ∃ s, run fastBufStep (ifxMpsFastbufInit samplePool)
      (List.replicate fastbufBufs (.malloc 512)) = some s ∧
        ∀ rounds, s.call rounds (.free 0#32) = none := by
  refine ⟨hangs_of_any ?_, hangs_of_any ?_⟩
  · decide +kernel
  · decide +kernel

end DanubeBsp
