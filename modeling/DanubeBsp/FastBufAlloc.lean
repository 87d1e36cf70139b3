import DanubeBsp.FastBuf
import DanubeBsp.WordBits

namespace DanubeBsp

/-- The pool, and the buffers that have been returned by a malloc and not been freed since. -/
structure FastBufUse where
  fb : FastBuf
  out : List Word

local instance fastBufLawfulBEq : LawfulBEq Word := inferInstance

/-- A free is given a buffer that is handed out. -/
def fastBufUseStep (s : FastBufUse) : FastBufCall → Option FastBufUse
  | .malloc size => (ifxMpsFastbufMalloc fastbufBufs s.fb size).map fun (ptr, fb) =>
      ⟨fb, if ptr = 0 then s.out else ptr :: s.out⟩
  | .free ptr =>
    if ptr ∈ s.out then
      (ifxMpsFastbufFree fastbufBufs s.fb ptr).map fun fb => ⟨fb, s.out.filter (· ≠ ptr)⟩
    else none

/-- The pool as an allocator of the buffers that are not handed out. -/
structure SetAllocator (b : FastBufBlock) (s : FastBufUse) : Prop where
  index : s.fb.index < fastbufBufs
  available : ∀ i < fastbufBufs, s.fb.unused i = true ↔ b.buffer i ∉ s.out
  malloc : ∀ size ≤ fastbufBufsize, ∀ rounds ptr t,
    ifxMpsFastbufMalloc rounds s.fb size = some (ptr, t) →
      (ptr = 0 ∧ t = s.fb ∧ ∀ i < fastbufBufs, b.buffer i ∈ s.out) ∨
      (ptr ≠ 0 ∧ ptr ∉ s.out ∧ (∃ i < fastbufBufs, ptr = b.buffer i) ∧
        ∀ i < fastbufBufs, t.unused i = true ↔ s.fb.unused i = true ∧ b.buffer i ≠ ptr)
  serves : ∀ size ≤ fastbufBufsize, (∃ i < fastbufBufs, b.buffer i ∉ s.out) →
    ∃ ptr t, ifxMpsFastbufMalloc fastbufBufs s.fb size = some (ptr, t) ∧ ptr ≠ 0
  refuses : ∀ size > fastbufBufsize, ∀ rounds,
    ifxMpsFastbufMalloc rounds s.fb size = some (0, s.fb)
  free : ∀ ptr ∈ s.out, ∃ t, ifxMpsFastbufFree fastbufBufs s.fb ptr = some t ∧
    ∀ i < fastbufBufs, t.unused i = true ↔ s.fb.unused i = true ∨ b.buffer i = ptr

/-- The entries are the buffers, with the busy indicator of those that are handed out. -/
structure FastBufHolds (b : FastBufBlock) (s : FastBufUse) : Prop where
  index : s.fb.index < fastbufBufs
  entry : ∀ i < fastbufBufs, s.fb.pool i =
    if b.buffer i ∈ s.out then b.buffer i ||| fastbufUsed else b.buffer i
  inside : ∀ ptr ∈ s.out, ∃ i < fastbufBufs, ptr = b.buffer i

section Entries

theorem getLsbD_used (i : Nat) : fastbufUsed.getLsbD i = decide (i = 0) := by
  have hbit : fastbufUsed = 1#32 <<< 0 := by decide
  rw [hbit, getLsbD_bit (by decide)]

theorem even_and_used {w : Word} (h : w.toNat % 2 = 0) : w &&& fastbufUsed = 0 := by
  apply BitVec.eq_of_toNat_eq
  rw [BitVec.toNat_and]
  show w.toNat &&& 1 = 0
  rw [Nat.and_one_is_mod, h]

theorem used_and_used (w : Word) : (w ||| fastbufUsed) &&& fastbufUsed ≠ 0 := by
  intro h
  have hbit : ((w ||| fastbufUsed) &&& fastbufUsed).getLsbD 0 = (0 : Word).getLsbD 0 := by rw [h]
  have hzero : (0 : Word).getLsbD 0 = false := rfl
  rw [BitVec.getLsbD_and, BitVec.getLsbD_or, getLsbD_used, hzero] at hbit
  simp at hbit

theorem even_unused {w : Word} (h : w.toNat % 2 = 0) : (w ||| fastbufUsed) &&& ~~~fastbufUsed = w := by
  have hlow : w.getLsbD 0 = false := by
    rw [← BitVec.testBit_toNat, Nat.testBit_zero, h]
    rfl
  apply BitVec.eq_of_getLsbD_eq
  intro i hi
  rw [getLsbD_and_not, BitVec.getLsbD_or, getLsbD_used]
  by_cases hz : i = 0
  · subst hz
    rw [hlow]
    rfl
  · simp [hz]

theorem used_inj {w v : Word} (hw : w.toNat % 2 = 0) (hv : v.toNat % 2 = 0)
    (h : w ||| fastbufUsed = v ||| fastbufUsed) : w = v := by
  rw [← even_unused hw, h, even_unused hv]

variable (b : FastBufBlock)

theorem FastBufBlock.buffer_toNat {i : Nat} (hi : i < fastbufBufs) :
    (b.buffer i).toNat = b.addr.toNat + i * 512 := by
  have hfits := b.fits
  simp only [fastbufBufs, fastbufBufsize] at hfits hi
  simp only [FastBufBlock.buffer, fastbufBufsize, BitVec.toNat_add, BitVec.toNat_ofNat]
  omega

theorem FastBufBlock.buffer_even {i : Nat} (hi : i < fastbufBufs) : (b.buffer i).toNat % 2 = 0 := by
  have haligned := b.aligned
  rw [b.buffer_toNat hi]
  omega

theorem FastBufBlock.buffer_inj {i j : Nat} (hi : i < fastbufBufs) (hj : j < fastbufBufs)
    (h : b.buffer i = b.buffer j) : i = j := by
  have ht := congrArg BitVec.toNat h
  rw [b.buffer_toNat hi, b.buffer_toNat hj] at ht
  omega

theorem FastBufBlock.buffer_ne_zero {i : Nat} (hi : i < fastbufBufs) : b.buffer i ≠ 0 := by
  intro h
  have ht := congrArg BitVec.toNat h
  have hpos : b.addr.toNat ≠ 0 := fun hz => b.nonnull (BitVec.eq_of_toNat_eq hz)
  have hzero : (0 : Word).toNat = 0 := rfl
  rw [b.buffer_toNat hi, hzero] at ht
  omega

end Entries

section Invariant

variable {b : FastBufBlock} {s : FastBufUse} (h : FastBufHolds b s)

include h

theorem FastBufHolds.unused_iff {i : Nat} (hi : i < fastbufBufs) :
    s.fb.unused i = true ↔ b.buffer i ∉ s.out := by
  unfold FastBuf.unused
  rw [beq_iff_eq, h.entry i hi]
  split
  next hout => exact iff_of_false (used_and_used _) (fun hn => hn hout)
  next hout => exact iff_of_true (even_and_used (b.buffer_even hi)) hout

theorem FastBufHolds.usedBy_iff {i j : Nat} (hi : i < fastbufBufs) (hj : j < fastbufBufs) :
    s.fb.usedBy (b.buffer j) i = true ↔ i = j ∧ b.buffer j ∈ s.out := by
  unfold FastBuf.usedBy
  rw [beq_iff_eq, h.entry i hi]
  constructor
  · intro he
    split at he
    next hout =>
      have hij := b.buffer_inj hi hj (used_inj (b.buffer_even hi) (b.buffer_even hj) he)
      subst hij
      exact ⟨rfl, hout⟩
    next =>
      have hz := even_and_used (b.buffer_even hi)
      rw [he] at hz
      exact absurd hz (used_and_used _)
  · rintro ⟨rfl, hout⟩
    rw [if_pos hout]

/-- The entry of a buffer that goes out. -/
theorem FastBufHolds.take {i : Nat} (hi : i < fastbufBufs) (hfree : s.fb.unused i = true) :
    s.fb.pool i = b.buffer i ∧ FastBufHolds b
      ⟨⟨Function.update s.fb.pool i (s.fb.pool i ||| fastbufUsed), i⟩, b.buffer i :: s.out⟩ := by
  have hout := (h.unused_iff hi).mp hfree
  have hentry : s.fb.pool i = b.buffer i := by rw [h.entry i hi, if_neg hout]
  refine ⟨hentry, hi, ?_, ?_⟩
  · intro j hj
    by_cases hij : j = i
    · subst hij
      dsimp only
      rw [Function.update_self, if_pos List.mem_cons_self, hentry]
    · have hne : b.buffer j ≠ b.buffer i := fun he => hij (b.buffer_inj hj hi he)
      simp only [Function.update_of_ne hij, h.entry j hj, List.mem_cons, hne, false_or]
  · intro ptr hptr
    obtain rfl | hptr := List.mem_cons.mp hptr
    · exact ⟨i, hi, rfl⟩
    · exact h.inside ptr hptr

/-- The entry of a buffer that comes back. -/
theorem FastBufHolds.give {i : Nat} (hi : i < fastbufBufs) (hout : b.buffer i ∈ s.out) :
    FastBufHolds b
      ⟨{ s.fb with pool := Function.update s.fb.pool i (s.fb.pool i &&& ~~~fastbufUsed) },
        s.out.filter (· ≠ b.buffer i)⟩ := by
  have hentry : s.fb.pool i = b.buffer i ||| fastbufUsed := by rw [h.entry i hi, if_pos hout]
  refine ⟨h.index, ?_, ?_⟩
  · intro j hj
    by_cases hij : j = i
    · subst hij
      simp only [Function.update_self, hentry, even_unused (b.buffer_even hj)]
      simp
    · have hne : b.buffer j ≠ b.buffer i := fun he => hij (b.buffer_inj hj hi he)
      simp only [Function.update_of_ne hij, h.entry j hj, List.mem_filter, hne, ne_eq,
        not_false_eq_true, decide_true, and_true]
  · intro ptr hptr
    exact h.inside ptr (List.mem_filter.mp hptr).1

theorem FastBufHolds.step {c : FastBufCall} {t : FastBufUse} (ht : fastBufUseStep s c = some t) :
    FastBufHolds b t := by
  cases c with
  | malloc size =>
    obtain ⟨⟨ptr, fb⟩, hm, rfl⟩ := Option.map_eq_some_iff.mp ht
    obtain ⟨rfl, rfl, -⟩ | ⟨-, i, hi, hfree, rfl, rfl⟩ := malloc_cases h.index hm
    · exact h
    · obtain ⟨hentry, hnext⟩ := h.take hi hfree
      have hne : s.fb.pool i ≠ 0 := by
        rw [hentry]
        exact b.buffer_ne_zero hi
      dsimp only
      rw [if_neg hne, hentry]
      rw [hentry] at hnext
      exact hnext
  | free ptr =>
    simp only [fastBufUseStep] at ht
    split at ht
    next hout =>
      obtain ⟨fb, hf, rfl⟩ := Option.map_eq_some_iff.mp ht
      obtain ⟨j, hj, rfl⟩ := h.inside ptr hout
      obtain ⟨i, hi, hused, hfree⟩ := free_finds h.index ⟨j, hj, (h.usedBy_iff hj hj).mpr ⟨rfl, hout⟩⟩
      cases hf.symm.trans hfree
      obtain ⟨rfl, -⟩ := (h.usedBy_iff hi hj).mp hused
      exact h.give hi hout
    next => simp at ht

end Invariant

theorem FastBufHolds.init (b : FastBufBlock) : FastBufHolds b ⟨ifxMpsFastbufInit b, []⟩ := by
  refine ⟨fastbufBufs_pos, ?_, ?_⟩
  · intro i _
    simp [ifxMpsFastbufInit]
  · intro ptr hptr
    cases hptr

section Allocator

variable {b : FastBufBlock} {s : FastBufUse} (h : FastBufHolds b s)

include h

theorem FastBufHolds.malloc_spec {size rounds : Nat} {ptr : Word} {t : FastBuf}
    (hsize : size ≤ fastbufBufsize) (hm : ifxMpsFastbufMalloc rounds s.fb size = some (ptr, t)) :
    (ptr = 0 ∧ t = s.fb ∧ ∀ i < fastbufBufs, b.buffer i ∈ s.out) ∨
      (ptr ≠ 0 ∧ ptr ∉ s.out ∧ (∃ i < fastbufBufs, ptr = b.buffer i) ∧
        ∀ i < fastbufBufs, t.unused i = true ↔ s.fb.unused i = true ∧ b.buffer i ≠ ptr) := by
  obtain ⟨rfl, rfl, hlarge | hfull⟩ | ⟨-, i, hi, hfree, rfl, rfl⟩ := malloc_cases h.index hm
  · omega
  · refine .inl ⟨rfl, rfl, ?_⟩
    intro i hi
    by_contra hout
    exact absurd (hfull i hi) (by simp [(h.unused_iff hi).mpr hout])
  · obtain ⟨hentry, hnext⟩ := h.take hi hfree
    rw [hentry]
    refine .inr ⟨b.buffer_ne_zero hi, (h.unused_iff hi).mp hfree, ⟨i, hi, rfl⟩, ?_⟩
    intro j hj
    rw [hentry] at hnext
    rw [hnext.unused_iff hj, h.unused_iff hj, List.mem_cons, not_or, and_comm]

theorem FastBufHolds.serves {size : Nat} (hsize : size ≤ fastbufBufsize)
    (hex : ∃ i < fastbufBufs, b.buffer i ∉ s.out) :
    ∃ ptr t, ifxMpsFastbufMalloc fastbufBufs s.fb size = some (ptr, t) ∧ ptr ≠ 0 := by
  obtain ⟨j, hj, hout⟩ := hex
  obtain ⟨i, hi, hfree, hm⟩ := malloc_finds h.index hsize ⟨j, hj, (h.unused_iff hj).mpr hout⟩
  refine ⟨_, _, hm, ?_⟩
  rw [(h.take hi hfree).1]
  exact b.buffer_ne_zero hi

theorem FastBufHolds.free_spec {ptr : Word} (hout : ptr ∈ s.out) :
    ∃ t, ifxMpsFastbufFree fastbufBufs s.fb ptr = some t ∧
      ∀ i < fastbufBufs, t.unused i = true ↔ s.fb.unused i = true ∨ b.buffer i = ptr := by
  obtain ⟨j, hj, rfl⟩ := h.inside ptr hout
  obtain ⟨i, hi, hused, hf⟩ := free_finds h.index ⟨j, hj, (h.usedBy_iff hj hj).mpr ⟨rfl, hout⟩⟩
  obtain ⟨rfl, -⟩ := (h.usedBy_iff hi hj).mp hused
  refine ⟨_, hf, ?_⟩
  intro k hk
  rw [(h.give hi hout).unused_iff hk, h.unused_iff hk, List.mem_filter, not_and_or]
  simp

theorem FastBufHolds.setAllocator : SetAllocator b s := by
  refine ⟨h.index, fun i hi => h.unused_iff hi, fun size hsize rounds ptr t hm => h.malloc_spec hsize hm,
    fun size hsize hex => h.serves hsize hex, ?_, fun ptr hout => h.free_spec hout⟩
  intro size hsize rounds
  unfold ifxMpsFastbufMalloc
  rw [if_pos hsize]

end Allocator

/-- In every state of every run the pool hands out what is not handed out. -/
theorem fastbuf_set_allocator (b : FastBufBlock) (cs : List FastBufCall) (s : FastBufUse)
    (h : run fastBufUseStep ⟨ifxMpsFastbufInit b, []⟩ cs = some s) : SetAllocator b s :=
  (run_invariant (fun hs hc => FastBufHolds.step hs hc) (FastBufHolds.init b) h).setAllocator

/-- Two buffers go out and the first comes back. -/
theorem fastbuf_set_allocator_two : ∃ s, run fastBufUseStep ⟨ifxMpsFastbufInit samplePool, []⟩
    [.malloc 512, .malloc 100, .free 0x80400000#32] = some s ∧ SetAllocator samplePool s := by
  have hrun : (run fastBufUseStep ⟨ifxMpsFastbufInit samplePool, []⟩
      [.malloc 512, .malloc 100, .free 0x80400000#32]).isSome = true := by decide +kernel
  obtain ⟨s, hs⟩ := Option.isSome_iff_exists.mp hrun
  exact ⟨s, hs, fastbuf_set_allocator samplePool _ s hs⟩

/-- A request for 513 bytes is refused with all buffers there. -/
theorem fastbuf_refuses_large : ∃ size rounds,
    ifxMpsFastbufMalloc rounds (ifxMpsFastbufInit samplePool) size =
      some (0, ifxMpsFastbufInit samplePool) ∧
    ∀ i < fastbufBufs, (ifxMpsFastbufInit samplePool).unused i = true :=
  ⟨513, fastbufBufs, rfl, by decide +kernel⟩

end DanubeBsp
