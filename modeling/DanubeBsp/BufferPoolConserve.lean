import Mathlib.Data.List.Nodup
import DanubeBsp.BufferPoolFree

namespace DanubeBsp

/-- The book-keeping counter: one decrement for the worker and one for each failed attempt. -/
def LockInv (s : PoolState) : Prop :=
  s.mpsListBookKeepX + (if s.cpu0 = .idle then 0 else 1) + s.retreating = 1

theorem LockInv.idle {s : PoolState} (h : LockInv s) : s.mpsListBookKeepX = 1 → s.cpu0 = .idle := by
  intro hx
  by_contra hpc
  rw [LockInv, if_neg hpc] at h
  omega

theorem cpu0Step_lock {s t : PoolState} {allocOk : Bool} (h : LockInv s)
    (hs : cpu0Step s allocOk = some t) : LockInv t ∧ t.allocQ.maxcount = s.allocQ.maxcount ∧
      t.freeQ.maxcount = s.freeQ.maxcount := by
  unfold cpu0Step at hs
  unfold LockInv at h ⊢
  split at hs
  next => simp at hs
  all_goals next hpc =>
    rw [hpc, if_neg (by simp)] at h
    repeat' split at hs
    all_goals
      cases Option.some.inj hs
      refine ⟨?_, rfl, rfl⟩
      simp only [reduceCtorEq, if_true, if_false]
      omega

theorem cpu1Step_lock {s t : PoolState} (h : LockInv s) (hs : cpu1Step s = some t) :
    LockInv t ∧ t.allocQ.maxcount = s.allocQ.maxcount ∧ t.freeQ.maxcount = s.freeQ.maxcount := by
  unfold cpu1Step at hs
  split at hs
  next => simp at hs
  all_goals
    cases Option.some.inj hs
    exact ⟨h, rfl, rfl⟩

theorem bookKeepEnter_lock {s : PoolState} {pc : Cpu0Pc} (h : LockInv s) (hpc : pc ≠ .idle) :
    LockInv (bookKeepEnter s pc) := by
  have hidle := h.idle
  unfold LockInv at h ⊢
  simp only [bookKeepEnter]
  split
  next hx =>
    have hcpu := hidle (by omega)
    rw [if_pos hcpu] at h
    simp only
    omega
  next =>
    push_cast
    omega

theorem mpsQueueFill_spec {first n : Nat} {allocFn : Nat → Bool} {mem buf : Nat → QItem}
    (h : mpsQueueFill first allocFn mem n = .ok buf) : ∀ i, i < n → buf i = .buf (first + i) := by
  induction n generalizing buf with
  | zero => intro i hi; omega
  | succ n ih =>
    simp only [mpsQueueFill] at h
    cases hf : mpsQueueFill first allocFn mem n with
    | error e => rw [hf] at h; cases h
    | ok prev =>
      rw [hf] at h
      change (if allocFn n = true then _ else _) = _ at h
      split at h
      next =>
        cases h
        intro i hi
        by_cases he : i = n
        · subst i
          exact Function.update_self _ _ _
        · rw [Function.update_of_ne he]
          exact ih hf i (by omega)
      next => cases h

/-- A queue set up by `mps_queue_init` holds its fresh buffers in order. -/
theorem mpsQueueInit_spec {size n first : Nat} {allocFn : Nat → Bool} {mem : Nat → QItem}
    {q : BuffHead} (h : mpsQueueInit size n first allocFn mem = .ok q) :
    q.maxcount = n ∧ q.rpos = 0 ∧ q.wpos = setupCount size n ∧
      ringSlice (n + 1) q.circularBuf 0 (setupCount size n) =
        (List.range (setupCount size n)).map fun i => .buf (first + i) := by
  unfold mpsQueueInit at h
  split at h
  next hsize =>
    cases hf : mpsQueueFill first allocFn mem n with
    | error e => rw [hf] at h; cases h
    | ok buf =>
      rw [hf] at h
      cases h
      have hcount : setupCount size n = n := if_pos hsize
      refine ⟨rfl, rfl, hcount.symm, ?_⟩
      rw [hcount]
      apply List.map_congr_left
      intro i hi
      have hi := List.mem_range.mp hi
      rw [Nat.zero_add, Nat.mod_eq_of_lt (by omega)]
      exact mpsQueueFill_spec hf i hi
  next hsize =>
    cases h
    have hcount : setupCount size n = 0 := if_neg hsize
    rw [hcount]
    exact ⟨rfl, rfl, rfl, rfl⟩

theorem setupCount_le (size n : Nat) : setupCount size n ≤ n := by
  unfold setupCount
  split
  next => exact le_refl n
  next => exact Nat.zero_le n

/-- The buffers that the initialisation puts into the free queue. -/
def freeStart (p : PoolSetup) : List QItem :=
  (List.range (setupCount p.freeSize p.freeEntries)).map
    fun i => .buf (setupCount p.allocSize p.allocEntries + i)

structure PoolInv (p : PoolSetup) (s : PoolState) : Prop where
  alloc : AllocInv (freeStart p) s
  free : FreeInv (freeStart p) s
  lock : LockInv s
  allocMax : s.allocQ.maxcount = p.allocEntries
  freeMax : s.freeQ.maxcount = p.freeEntries

theorem poolInit_inv {p : PoolSetup} {s : PoolState} (h : poolInit p = .ok s) : PoolInv p s := by
  unfold poolInit at h
  cases ha : mpsQueueInit p.allocSize p.allocEntries 0 p.allocOk p.allocMem with
  | error e => rw [ha] at h; cases h
  | ok allocQ =>
    rw [ha] at h
    cases hf : mpsQueueInit p.freeSize p.freeEntries (setupCount p.allocSize p.allocEntries)
        p.freeOk p.freeMem with
    | error e => simp only [hf] at h; cases h
    | ok freeQ =>
      simp only [hf] at h
      cases h
      obtain ⟨hamax, har, haw, haslice⟩ := mpsQueueInit_spec ha
      obtain ⟨hfmax, hfr, hfw, hfslice⟩ := mpsQueueInit_spec hf
      let total := setupCount p.allocSize p.allocEntries + setupCount p.freeSize p.freeEntries
      have hale := setupCount_le p.allocSize p.allocEntries
      have hfle := setupCount_le p.freeSize p.freeEntries
      have haring : AllocRing (poolStart allocQ freeQ total) 0 (setupCount p.allocSize p.allocEntries) := {
        rpos := by rw [Nat.zero_mod]; exact har
        wpos := by simp only [poolStart]; rw [haw, hamax, Nat.mod_eq_of_lt (by omega)]
        le := Nat.zero_le _
        lap := by simp only [poolStart, hamax]; omega
        cpu0 := trivial
        cpu1 := trivial }
      have hfring : FreeRing (poolStart allocQ freeQ total) 0 0 (setupCount p.freeSize p.freeEntries) := {
        rpos := by rw [Nat.zero_mod]; exact hfr
        wpos := by simp only [poolStart]; rw [hfw, hfmax, Nat.mod_eq_of_lt (by omega)]
        start := le_refl 0
        le := Nat.zero_le _
        lap := by simp only [poolStart, hfmax]; omega
        cpu0 := rfl
        cpu1 := trivial }
      refine ⟨⟨⟨0, _, haring⟩, ?_⟩, ⟨⟨0, 0, _, hfring⟩, ?_⟩, rfl, hamax, hfmax⟩
      · rw [AllocBooks, haring.place (by simp [poolStart]), Nat.sub_zero]
        simp only [poolStart, hamax, haslice, allocPending, freeStart, List.append_nil,
          List.range_add, List.map_append, List.map_map, Nat.zero_add]
        exact List.Perm.refl _
      · rw [FreeBooks, hfring.place, Nat.sub_zero]
        simp only [poolStart, hfmax, hfslice, freePending, freeStart, List.append_nil, List.nil_append]
        exact List.Perm.refl _

theorem PoolInv.enter {p : PoolSetup} {s : PoolState} {pc : Cpu0Pc} (h : PoolInv p s)
    (hpc : pc = .topupStart ∨ pc = .releaseWpos) : PoolInv p (bookKeepEnter s pc) := by
  have hmax : (bookKeepEnter s pc).allocQ = s.allocQ ∧ (bookKeepEnter s pc).freeQ = s.freeQ := by
    simp only [bookKeepEnter]
    split
    next => exact ⟨rfl, rfl⟩
    next => exact ⟨rfl, rfl⟩
  refine ⟨?_, ?_, bookKeepEnter_lock h.lock ?_, by rw [hmax.1]; exact h.allocMax,
    by rw [hmax.2]; exact h.freeMax⟩
  · refine h.alloc.bookKeepEnter h.lock.idle ?_ ?_
    · rcases hpc with rfl | rfl
      · exact fun _ _ => trivial
      · exact fun _ _ => trivial
    · intro t ht
      rcases hpc with rfl | rfl
      · rw [allocPending, ht]
      · rw [allocPending, ht]
  · refine h.free.bookKeepEnter h.lock.idle ?_
    rcases hpc with rfl | rfl
    · rfl
    · rfl
  · rcases hpc with rfl | rfl
    · simp
    · simp

/-- The hit counters and the undone decrements of the lock do not touch the rings. -/
theorem PoolInv.counters {p : PoolSetup} {s : PoolState} (h : PoolInv p s) (hits hits' : Nat)
    (x : Int) (n : Nat) (hx : x + n = s.mpsListBookKeepX + s.retreating) :
    PoolInv p { s with
      allocHitCount := hits, freeHitCount := hits', mpsListBookKeepX := x, retreating := n } := by
  refine ⟨?_, ?_, ?_, h.allocMax, h.freeMax⟩
  · exact h.alloc.frame rfl rfl rfl (fun _ _ hr => hr.cpu0) (fun _ _ hr => hr.cpu1) rfl rfl
  · exact h.free.quiet rfl rfl rfl (fun _ _ _ hr => hr.cpu0) (fun _ _ _ hr => hr.cpu1) rfl rfl rfl
  · have hl := h.lock
    unfold LockInv at hl ⊢
    dsimp only
    omega

theorem poolStep_inv {p : PoolSetup} {s t : PoolState} {e : PoolEvent} (h : PoolInv p s)
    (hs : poolStep s e = some t) : PoolInv p t := by
  cases e with
  | topupEnter =>
    cases Option.some.inj hs
    unfold topupEnter
    dsimp only
    split
    next => exact (h.counters 0 s.freeHitCount _ _ rfl).enter (.inl rfl)
    next => exact h.counters _ s.freeHitCount _ _ rfl
  | releaseEnter =>
    cases Option.some.inj hs
    unfold releaseEnter
    dsimp only
    split
    next => exact (h.counters s.allocHitCount 0 _ _ rfl).enter (.inr rfl)
    next => exact h.counters s.allocHitCount _ _ _ rfl
  | retreat =>
    simp only [poolStep] at hs
    split at hs
    next => simp at hs
    next hpos =>
      cases Option.some.inj hs
      exact h.counters s.allocHitCount s.freeHitCount _ _ (by omega)
  | cpu0 allocOk =>
    obtain ⟨hlock, hamax, hfmax⟩ := cpu0Step_lock h.lock hs
    exact ⟨cpu0Step_alloc h.alloc hs, cpu0Step_free h.free hs, hlock, hamax.trans h.allocMax,
      hfmax.trans h.freeMax⟩
  | fastAlloc =>
    simp only [poolStep] at hs
    split at hs
    next hpc =>
      cases Option.some.inj hs
      split
      next => exact h
      next hne =>
        refine ⟨h.alloc.fastAlloc hpc (by simpa using hne), ?_, h.lock, h.allocMax, h.freeMax⟩
        exact h.free.quiet rfl rfl (by simp [freePending, hpc]) (fun _ _ _ hr => hr.cpu0)
          (fun _ _ _ _ => trivial) rfl rfl rfl
    next => simp at hs
  | fastFree buf =>
    simp only [poolStep] at hs
    split at hs
    next hpc =>
      cases Option.some.inj hs
      split
      next => exact h
      next hroom =>
        refine ⟨?_, h.free.fastFree hpc.1 hpc.2 (by simpa using hroom), h.lock, h.allocMax,
          h.freeMax⟩
        exact h.alloc.frame rfl (by simp [allocCursor, hpc.1]) rfl (fun _ _ hr => hr.cpu0)
          (fun _ _ _ => trivial) rfl rfl
    next => simp at hs
  | cpu1 =>
    obtain ⟨hlock, hamax, hfmax⟩ := cpu1Step_lock h.lock hs
    exact ⟨cpu1Step_alloc h.alloc hs, cpu1Step_free h.free hs, hlock, hamax.trans h.allocMax,
      hfmax.trans h.freeMax⟩

/-- The places of the buffers partition the allocated ones. -/
theorem PoolInv.partition {p : PoolSetup} {s : PoolState} (h : PoolInv p s) :
    (allocPlace s ++ s.hands ++ freePlace s ++ s.released).Perm
      ((List.range s.allocated).map QItem.buf) := by
  have ha := h.alloc.2
  have hf := h.free.2
  rw [AllocBooks, List.append_assoc] at ha
  refine List.Perm.trans ?_ ha
  rw [List.append_assoc, List.append_assoc]
  refine List.Perm.append_left _ ?_
  rw [← List.append_assoc]
  exact hf

theorem PoolInv.returned_nodup {p : PoolSetup} {s : PoolState} (h : PoolInv p s) :
    s.returned.Nodup := by
  have hnodup : ((List.range s.allocated).map QItem.buf).Nodup :=
    List.Nodup.map (fun _ _ he => QItem.buf.inj he) List.nodup_range
  have hall := h.alloc.2.nodup_iff.mpr hnodup
  exact (List.nodup_append.mp (List.nodup_append.mp hall).1).2.1

/-- Every allocated buffer is in exactly one place, whatever the order of the steps of the two
processors; no buffer is dequeued twice, and the rings never overflow. -/
theorem bufferPool_conserves (p : PoolSetup) (s s' : PoolState) (es : List PoolEvent)
    (hinit : poolInit p = .ok s) (hrun : run poolStep s es = some s') :
    (allocPlace s' ++ s'.hands ++ freePlace s' ++ s'.released).Perm
        ((List.range s'.allocated).map QItem.buf) ∧
      s'.returned.Nodup ∧
      (allocPlace s').length ≤ p.allocEntries ∧ (freePlace s').length ≤ p.freeEntries ∧
      s'.allocQ.rpos ≤ p.allocEntries ∧ s'.allocQ.wpos ≤ p.allocEntries ∧
      s'.freeQ.rpos ≤ p.freeEntries ∧ s'.freeQ.wpos ≤ p.freeEntries := by
  have hinv := run_invariant poolStep_inv (poolInit_inv hinit) hrun
  obtain ⟨⟨R, W, haring⟩, -⟩ := hinv.alloc
  obtain ⟨⟨R', C', W', hfring⟩, -⟩ := hinv.free
  have ha := haring.place_length
  have hf := hfring.place_length
  have har := haring.rpos
  have haw := haring.wpos
  have hfr := hfring.rpos
  have hfw := hfring.wpos
  rw [hinv.allocMax] at ha har haw
  rw [hinv.freeMax] at hf hfr hfw
  have hmod : ∀ n k : Nat, k % (n + 1) ≤ n := fun n k => Nat.le_of_lt_succ (Nat.mod_lt k (by omega))
  refine ⟨hinv.partition, hinv.returned_nodup, ha, hf, ?_, ?_, ?_, ?_⟩
  · rw [har]; exact hmod _ _
  · rw [haw]; exact hmod _ _
  · rw [hfr]; exact hmod _ _
  · rw [hfw]; exact hmod _ _

/-- Two buffers, one of which CPU1 takes and gives back. -/
def smallPool : PoolSetup :=
  { allocSize := 64, allocEntries := 2, allocMem := fun _ => .null, allocOk := fun _ => true
    freeSize := 0, freeEntries := 2, freeMem := fun _ => .null, freeOk := fun _ => true }

theorem bufferPool_conserves_small :
    ∃ s s', poolInit smallPool = .ok s ∧
      run poolStep s [.fastAlloc, .cpu1, .cpu1, .fastFree (.buf 0), .cpu1, .cpu1] = some s' ∧
      freePlace s' = [.buf 0] ∧
      (allocPlace s' ++ s'.hands ++ freePlace s' ++ s'.released).Perm
        ((List.range s'.allocated).map QItem.buf) := by
  refine ⟨_, _, rfl, rfl, rfl, ?_⟩
  exact (bufferPool_conserves smallPool _ _
    [.fastAlloc, .cpu1, .cpu1, .fastFree (.buf 0), .cpu1, .cpu1] rfl rfl).1

end DanubeBsp
