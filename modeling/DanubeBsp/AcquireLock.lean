import Mathlib.Algebra.Group.Nat.Defs
import Mathlib.Data.Finset.Card
import Mathlib.Data.Fintype.Card
import DanubeBsp.Runs

namespace DanubeBsp

/-- Where a context stands with the lock. `failing` is between the decrement of a failed attempt and
the increment that undoes it, `waiting` is `acquire_lock` before it tries again. -/
inductive LockPhase
  | outside
  | failing (blocking : Bool)
  | waiting
  | inside
  deriving DecidableEq

/-- The counter with the phase of every context. -/
structure LockSys (ι : Type*) where
  lock : Int
  phase : ι → LockPhase

/-- The atomic steps of the three functions. -/
inductive LockEvent (ι : Type*)
  | acquireLockNb (i : ι)
  | acquireLock (i : ι)
  | undo (i : ι)
  | releaseLock (i : ι)

/-- `atomic_dec_and_test`. -/
def atomicDecAndTest (v : Int) : Int × Bool := (v - 1, v - 1 == 0)

/-- The lock is initialised to 1. -/
def lockInit {ι : Type*} : LockSys ι := { lock := 1, phase := fun _ => .outside }

/-- The context has decremented the counter and not incremented it again. -/
def LockPhase.taken : LockPhase → Bool
  | .failing _ => true
  | .inside => true
  | _ => false

section

variable {ι : Type*}

/-- The counter is 1 less the contexts that have decremented it, of which at most one is inside. -/
structure LockCount (taken : Finset ι) (s : LockSys ι) : Prop where
  mem : ∀ i, i ∈ taken ↔ (s.phase i).taken = true
  counter : s.lock = 1 - taken.card
  exclusive : ∀ i j, s.phase i = .inside → s.phase j = .inside → i = j

theorem lockCount_init : LockCount (∅ : Finset ι) lockInit where
  mem i := by simp [lockInit, LockPhase.taken]
  counter := rfl
  exclusive i j h := by cases h

/-- Nobody holds the lock or is about to undo a failed attempt. -/
def LockQuiet (s : LockSys ι) : Prop := ∀ i, (s.phase i).taken = false

theorem LockCount.quiet {taken : Finset ι} {s : LockSys ι} (hs : LockCount taken s)
    (hq : LockQuiet s) : s.lock = 1 := by
  have hempty : taken = ∅ := by
    apply Finset.eq_empty_of_forall_notMem
    intro i hi
    have htaken := (hs.mem i).mp hi
    rw [hq i] at htaken
    cases htaken
  rw [hs.counter, hempty, Finset.card_empty]
  rfl

/-- The 32-bit test of the decremented counter gives the same answer, for fewer contexts than the
counter has values. -/
theorem LockCount.word_test [Fintype ι] {taken : Finset ι} {s : LockSys ι} (hs : LockCount taken s)
    (hcard : Fintype.card ι < 2 ^ 32) :
    (BitVec.ofInt 32 s.lock - 1#32 = 0#32) ↔ (atomicDecAndTest s.lock).2 = true := by
  have hle := taken.card_le_univ
  have hcount := hs.counter
  simp only [← BitVec.toNat_inj, BitVec.toNat_sub, BitVec.toNat_ofInt, BitVec.toNat_ofNat,
    atomicDecAndTest, beq_iff_eq]
  omega

variable [DecidableEq ι]

/-- An attempt of context `i`; a failed one of `acquire_lock` is repeated later. -/
def lockAttempt (s : LockSys ι) (i : ι) (blocking : Bool) : LockSys ι :=
  let (lock, zero) := atomicDecAndTest s.lock
  { lock, phase := Function.update s.phase i (if zero then .inside else .failing blocking) }

/-- The increment of `release_lock` or after a failed attempt. -/
def lockInc (s : LockSys ι) (i : ι) (phase : LockPhase) : LockSys ι :=
  { lock := s.lock + 1, phase := Function.update s.phase i phase }

def lockStep (s : LockSys ι) : LockEvent ι → Option (LockSys ι)
  | .acquireLockNb i => if s.phase i = .outside then some (lockAttempt s i false) else none
  | .acquireLock i =>
    if s.phase i = .outside ∨ s.phase i = .waiting then some (lockAttempt s i true) else none
  | .undo i =>
    match s.phase i with
    | .failing blocking => some (lockInc s i (if blocking then .waiting else .outside))
    | _ => none
  | .releaseLock i => if s.phase i = .inside then some (lockInc s i .outside) else none

/-- What a step does: one context decrements the counter, and is inside exactly when it was 1, or
increments it. -/
theorem lockStep_cases {s t : LockSys ι} {e : LockEvent ι} (h : lockStep s e = some t) :
    ∃ i p, t.phase = Function.update s.phase i p ∧
      (((s.phase i).taken = false ∧ p.taken = true ∧ (p = .inside ↔ s.lock = 1) ∧
          t.lock = s.lock - 1) ∨
        ((s.phase i).taken = true ∧ p.taken = false ∧ t.lock = s.lock + 1)) := by
  have hattempt : ∀ i blocking, (s.phase i).taken = false → t = lockAttempt s i blocking →
      ∃ i p, t.phase = Function.update s.phase i p ∧
        (((s.phase i).taken = false ∧ p.taken = true ∧ (p = .inside ↔ s.lock = 1) ∧
            t.lock = s.lock - 1) ∨
          ((s.phase i).taken = true ∧ p.taken = false ∧ t.lock = s.lock + 1)) := by
    rintro i blocking hout rfl
    refine ⟨i, _, rfl, .inl ⟨hout, ?_, ?_, rfl⟩⟩
    · split
      next => rfl
      next => rfl
    · by_cases hzero : s.lock = 1
      · simp [hzero]
      · have hne : ¬ s.lock - 1 = 0 := by omega
        simp [hzero, hne]
  cases e with
  | acquireLockNb i =>
    simp only [lockStep] at h
    split at h
    next hp => exact hattempt i false (by rw [hp]; rfl) (Option.some.inj h).symm
    next => cases h
  | acquireLock i =>
    simp only [lockStep] at h
    split at h
    next hp =>
      have hout : (s.phase i).taken = false := by
        rcases hp with hp | hp
        · rw [hp]
          rfl
        · rw [hp]
          rfl
      exact hattempt i true hout (Option.some.inj h).symm
    next => cases h
  | undo i =>
    simp only [lockStep] at h
    split at h
    next blocking hp =>
      obtain rfl := Option.some.inj h
      refine ⟨i, _, rfl, .inr ⟨by rw [hp]; rfl, ?_, rfl⟩⟩
      cases blocking with
      | false => rfl
      | true => rfl
    next => cases h
  | releaseLock i =>
    simp only [lockStep] at h
    split at h
    next hp =>
      obtain rfl := Option.some.inj h
      exact ⟨i, _, rfl, .inr ⟨by rw [hp]; rfl, rfl, rfl⟩⟩
    next => cases h

theorem LockCount.step {taken : Finset ι} {s t : LockSys ι} {e : LockEvent ι} (hs : LockCount taken s)
    (h : lockStep s e = some t) : ∃ taken', LockCount taken' t := by
  obtain ⟨i, p, hphase, hcase⟩ := lockStep_cases h
  have hcount := hs.counter
  rcases hcase with ⟨hout, hp, hinside, hlock⟩ | ⟨hin, hp, hlock⟩
  · have hi : i ∉ taken := by simp [hs.mem, hout]
    refine ⟨insert i taken, ?_, ?_, ?_⟩
    · intro j
      rw [hphase, Finset.mem_insert, hs.mem]
      by_cases hj : j = i
      · simp [hj, hp]
      · simp [hj]
    · rw [hlock, hcount, Finset.card_insert_of_notMem hi]
      push_cast
      omega
    · -- a successful attempt found the counter at 1, so nobody had decremented it
      intro j k hj hk
      by_cases hone : s.lock = 1
      · have hempty : taken = ∅ := Finset.card_eq_zero.mp (by omega)
        have houtside : ∀ m, m ≠ i → t.phase m ≠ .inside := by
          intro m hm hin
          rw [hphase, Function.update_of_ne hm] at hin
          have hmem := (hs.mem m).mpr (by rw [hin]; rfl)
          simp [hempty] at hmem
        have hji : j = i := by
          by_contra hne
          exact houtside j hne hj
        have hki : k = i := by
          by_contra hne
          exact houtside k hne hk
        rw [hji, hki]
      · have hold : ∀ m, t.phase m = .inside → s.phase m = .inside := by
          intro m hin
          by_cases hm : m = i
          · rw [hphase, hm, Function.update_self] at hin
            exact absurd (hinside.mp hin) hone
          · rwa [hphase, Function.update_of_ne hm] at hin
        exact hs.exclusive j k (hold j hj) (hold k hk)
  · have hi : i ∈ taken := (hs.mem i).mpr hin
    refine ⟨taken.erase i, ?_, ?_, ?_⟩
    · intro j
      rw [hphase, Finset.mem_erase, hs.mem]
      by_cases hj : j = i
      · simp [hj, hp]
      · simp [hj]
    · have hcard := Finset.card_erase_of_mem hi
      have hpos := Finset.card_pos.mpr ⟨i, hi⟩
      rw [hlock, hcount, hcard]
      omega
    · have hold : ∀ m, t.phase m = .inside → s.phase m = .inside := by
        intro m hin'
        by_cases hm : m = i
        · rw [hphase, hm, Function.update_self] at hin'
          rw [hin'] at hp
          cases hp
        · rwa [hphase, Function.update_of_ne hm] at hin'
      intro j k hj hk
      exact hs.exclusive j k (hold j hj) (hold k hk)

def LockOk (s : LockSys ι) : Prop := ∃ taken, LockCount taken s

theorem LockOk.step {s t : LockSys ι} {e : LockEvent ι} (hs : LockOk s)
    (h : lockStep s e = some t) : LockOk t := by
  obtain ⟨taken, hs⟩ := hs
  exact hs.step h

theorem lockCount_run {s : LockSys ι} {es : List (LockEvent ι)}
    (h : run lockStep lockInit es = some s) : LockOk s :=
  run_invariant LockOk.step ⟨∅, lockCount_init⟩ h

theorem lockAttempt_inside {s : LockSys ι} (hs : s.lock = 1) (i : ι) (blocking : Bool) :
    (lockAttempt s i blocking).phase i = .inside := by
  simp [lockAttempt, atomicDecAndTest, hs]

theorem lock_exclusive_and_recovers {s : LockSys ι} {es : List (LockEvent ι)}
    (h : run lockStep lockInit es = some s) :
    (∀ i j, s.phase i = .inside → s.phase j = .inside → i = j) ∧
      (LockQuiet s → s.lock = (lockInit : LockSys ι).lock ∧ ∀ i,
        (s.phase i = .outside → ∃ t, lockStep s (.acquireLockNb i) = some t ∧ t.phase i = .inside) ∧
          ∃ t, lockStep s (.acquireLock i) = some t ∧ t.phase i = .inside) := by
  obtain ⟨taken, hs⟩ := lockCount_run h
  refine ⟨hs.exclusive, ?_⟩
  intro hq
  have hone := hs.quiet hq
  refine ⟨hone, ?_⟩
  intro i
  constructor
  · intro hout
    exact ⟨lockAttempt s i false, if_pos hout, lockAttempt_inside hone i false⟩
  · have hfree : s.phase i = .outside ∨ s.phase i = .waiting := by
      have hi := hq i
      cases hp : s.phase i with
      | outside => exact .inl rfl
      | waiting => exact .inr rfl
      | failing blocking =>
        rw [hp] at hi
        cases hi
      | inside =>
        rw [hp] at hi
        cases hi
    exact ⟨lockAttempt s i true, if_pos hfree, lockAttempt_inside hone i true⟩

/-- Two failed attempts overlap the holder and its release. -/
def overlappingAttempts : List (LockEvent (Fin 3)) :=
  [.acquireLockNb 0, .acquireLockNb 1, .acquireLock 2, .releaseLock 0, .undo 1, .undo 2]

theorem overlappingAttempts_recover :
    ∃ s, run lockStep lockInit overlappingAttempts = some s ∧ LockQuiet s ∧ s.lock = 1 ∧
      ∃ t, lockStep s (.acquireLockNb 1) = some t ∧ t.phase 1 = .inside := by
  obtain ⟨s, hrun⟩ : ∃ s, run lockStep lockInit overlappingAttempts = some s := ⟨_, rfl⟩
  have hquiet : LockQuiet s := by
    obtain rfl := Option.some.inj hrun
    intro i
    revert i
    decide
  have hout : s.phase 1 = .outside := by
    obtain rfl := Option.some.inj hrun
    rfl
  obtain ⟨hone, hnext⟩ := (lock_exclusive_and_recovers hrun).2 hquiet
  exact ⟨s, hrun, hquiet, hone, (hnext 1).1 hout⟩

end

end DanubeBsp
