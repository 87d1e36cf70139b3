import DanubeBsp.BufferPool

namespace DanubeBsp

/-- What CPU0's snapshots say about the alloc ring with read position `R` and write position `W`:
its count never falls below the number of buffers in the ring. -/
def AllocCpu0 (q : BuffHead) (R W : Nat) : Cpu0Pc → Prop
  | .topupWpos rpos => ∃ R0, R0 ≤ R ∧ rpos = R0 % (q.maxcount + 1) ∧ W ≤ R0 + q.maxcount
  | .topupLoop count wpos => wpos = q.wpos ∧ W ≤ R + count ∧ count ≤ q.maxcount
  | .topupStore count wpos _ => wpos = q.wpos ∧ W + 1 ≤ R + count ∧ count ≤ q.maxcount
  | .topupPublish count wpos mpsBuf => wpos = q.wpos ∧ W + 1 ≤ R + count ∧ count ≤ q.maxcount ∧
      q.circularBuf q.wpos = mpsBuf
  | _ => True

/-- CPU1 takes a slot only after it has seen a buffer in the ring. -/
def AllocCpu1 (R W : Nat) : Cpu1Pc → Prop
  | .dequeueGet => R < W
  | .dequeuePublish => R < W
  | _ => True

structure AllocRing (s : PoolState) (R W : Nat) : Prop where
  rpos : s.allocQ.rpos = R % (s.allocQ.maxcount + 1)
  wpos : s.allocQ.wpos = W % (s.allocQ.maxcount + 1)
  le : R ≤ W
  lap : W ≤ R + s.allocQ.maxcount
  cpu0 : AllocCpu0 s.allocQ R W s.cpu0
  cpu1 : AllocCpu1 R W s.cpu1

/-- Every allocated buffer is in the alloc queue, was returned by a dequeue, or was put into the
free queue by its initialisation. -/
def AllocBooks (s : PoolState) (start : List QItem) : Prop :=
  (allocPlace s ++ s.returned ++ start).Perm ((List.range s.allocated).map QItem.buf)

def AllocInv (start : List QItem) (s : PoolState) : Prop :=
  (∃ R W, AllocRing s R W) ∧ AllocBooks s start

theorem mpsNextQPos_mod (max r : Nat) : mpsNextQPos (r % (max + 1)) max = (r + 1) % (max + 1) :=
  ringNext_mod max r

theorem mpsGetQCount_mod {max r w : Nat} (hle : r ≤ w) (hlap : w ≤ r + max) :
    mpsGetQCount (r % (max + 1)) (w % (max + 1)) max = w - r :=
  ringCount_mod hle hlap

theorem allocPlace_congr {s t : PoolState} (hq : t.allocQ = s.allocQ)
    (hc : allocCursor t = allocCursor s) (hp : allocPending t = allocPending s) :
    allocPlace t = allocPlace s := by
  rw [allocPlace, hq, hc, hp, allocPlace]

theorem AllocRing.place {s : PoolState} {R W : Nat} (h : AllocRing s R W)
    (hpc : s.cpu1 ≠ .dequeuePublish) :
    allocPlace s = ringSlice (s.allocQ.maxcount + 1) s.allocQ.circularBuf R (W - R) ++
      allocPending s := by
  have hc : allocCursor s = s.allocQ.rpos := by
    unfold allocCursor
    split
    next he => exact absurd he hpc
    next => rfl
  have hlap := h.lap
  rw [allocPlace, hc, h.rpos, h.wpos, ringDist_mod h.le (by omega), ringSlice_mod]

theorem AllocRing.place_publish {s : PoolState} {R W : Nat} (h : AllocRing s R W)
    (hpc : s.cpu1 = .dequeuePublish) :
    allocPlace s = ringSlice (s.allocQ.maxcount + 1) s.allocQ.circularBuf (R + 1) (W - (R + 1)) ++
      allocPending s := by
  have hlt := h.cpu1
  rw [hpc] at hlt
  have hlt : R < W := hlt
  have hlap := h.lap
  have hc : allocCursor s = (R + 1) % (s.allocQ.maxcount + 1) := by
    rw [allocCursor, hpc, h.rpos]
    exact mpsNextQPos_mod _ _
  rw [allocPlace, hc, h.wpos, ringDist_mod hlt (by omega), ringSlice_mod]

/-- The first slot that counts for CPU1, as an absolute position. -/
theorem AllocRing.place_from {s : PoolState} {R W : Nat} (h : AllocRing s R W) :
    ∃ C, R ≤ C ∧ C ≤ W ∧ allocPlace s = ringSlice (s.allocQ.maxcount + 1) s.allocQ.circularBuf C
      (W - C) ++ allocPending s ∧ allocCursor s = C % (s.allocQ.maxcount + 1) := by
  by_cases hpc : s.cpu1 = .dequeuePublish
  · have hlt := h.cpu1
    rw [hpc] at hlt
    have hlt : R < W := hlt
    refine ⟨R + 1, by omega, hlt, h.place_publish hpc, ?_⟩
    rw [allocCursor, hpc, h.rpos]
    exact mpsNextQPos_mod _ _
  · refine ⟨R, by omega, h.le, h.place hpc, ?_⟩
    rw [← h.rpos]
    unfold allocCursor
    split
    next he => exact absurd he hpc
    next => rfl

/-- The ring never holds more than `maxcount` buffers, the one being stored included. -/
theorem AllocRing.place_length {s : PoolState} {R W : Nat} (h : AllocRing s R W) :
    (allocPlace s).length ≤ s.allocQ.maxcount := by
  obtain ⟨C, hRC, hCW, hplace, -⟩ := h.place_from
  have hlap := h.lap
  have hcpu := h.cpu0
  rw [hplace, List.length_append, ringSlice_length]
  cases hpc : s.cpu0 with
  | topupStore count wpos b =>
    rw [hpc] at hcpu
    obtain ⟨-, hc, hm⟩ := hcpu
    simp only [allocPending, hpc, List.length_singleton]
    omega
  | topupPublish count wpos b =>
    rw [hpc] at hcpu
    obtain ⟨-, hc, hm, -⟩ := hcpu
    simp only [allocPending, hpc, List.length_singleton]
    omega
  | _ =>
    simp only [allocPending, hpc, List.length_nil]
    omega

/-- A step that leaves the alloc ring alone and moves CPU0 to a place without ring snapshots. -/
theorem AllocInv.frame {start : List QItem} {s t : PoolState} (h : AllocInv start s)
    (hq : t.allocQ = s.allocQ) (hc : allocCursor t = allocCursor s)
    (hp : allocPending t = allocPending s)
    (h0 : ∀ R W, AllocRing s R W → AllocCpu0 s.allocQ R W t.cpu0)
    (h1 : ∀ R W, AllocRing s R W → AllocCpu1 R W t.cpu1)
    (ha : t.allocated = s.allocated) (hr : t.returned = s.returned) : AllocInv start t := by
  obtain ⟨⟨R, W, hring⟩, hbooks⟩ := h
  refine ⟨⟨R, W, ?_⟩, ?_⟩
  · refine ⟨?_, ?_, hring.le, ?_, ?_, h1 R W hring⟩
    · rw [hq]; exact hring.rpos
    · rw [hq]; exact hring.wpos
    · rw [hq]; exact hring.lap
    · rw [hq]; exact h0 R W hring
  · rw [AllocBooks, allocPlace_congr hq hc hp, ha, hr]
    exact hbooks

/-- A step of CPU0 outside the top-up's use of the ring. -/
theorem AllocInv.quiet {start : List QItem} {s t : PoolState} (h : AllocInv start s)
    (hq : t.allocQ = s.allocQ) (hc : t.cpu1 = s.cpu1) (hp : allocPending t = allocPending s)
    (h0 : ∀ R W, AllocCpu0 s.allocQ R W t.cpu0) (ha : t.allocated = s.allocated)
    (hr : t.returned = s.returned) : AllocInv start t := by
  refine h.frame hq (by rw [allocCursor, hq, hc, allocCursor]) hp (fun R W _ => h0 R W) ?_ ha hr
  intro R W hring
  rw [hc]
  exact hring.cpu1

theorem AllocInv.take {start : List QItem} {s : PoolState} {count wpos : Nat}
    (h : AllocInv start s) (hpc : s.cpu0 = .topupLoop count wpos) (hlt : count < s.allocQ.maxcount) :
    AllocInv start { s with
      allocated := s.allocated + 1
      cpu0 := .topupStore (count + 1) wpos (.buf s.allocated) } := by
  obtain ⟨⟨R, W, hring⟩, hbooks⟩ := h
  have hcpu := hring.cpu0
  rw [hpc] at hcpu
  obtain ⟨hw, hc, hm⟩ := hcpu
  refine ⟨⟨R, W, hring.rpos, hring.wpos, hring.le, hring.lap, ⟨hw, by omega, hlt⟩, hring.cpu1⟩, ?_⟩
  have hpend : allocPending s = [] := by rw [allocPending, hpc]
  have hnew : allocPlace { s with
      allocated := s.allocated + 1
      cpu0 := .topupStore (count + 1) wpos (.buf s.allocated) } =
        allocPlace s ++ [.buf s.allocated] := by
    rw [allocPlace, allocPlace, hpend, List.append_nil]
    rfl
  rw [AllocBooks, hnew, List.range_succ, List.map_append]
  have hswap : (allocPlace s ++ [QItem.buf s.allocated] ++ s.returned ++ start).Perm
      (allocPlace s ++ s.returned ++ start ++ [QItem.buf s.allocated]) := by
    rw [List.append_assoc, List.append_assoc, List.append_assoc (allocPlace s),
      List.append_assoc (allocPlace s)]
    exact List.Perm.append_left _ (@List.perm_append_comm _ [QItem.buf s.allocated] _)
  exact hswap.trans (hbooks.append_right _)

theorem AllocInv.store {start : List QItem} {s : PoolState} {count wpos : Nat} {mpsBuf : QItem}
    (h : AllocInv start s) (hpc : s.cpu0 = .topupStore count wpos mpsBuf) :
    AllocInv start { s with
      allocQ := { s.allocQ with
        circularBuf := Function.update s.allocQ.circularBuf s.allocQ.wpos mpsBuf }
      cpu0 := .topupPublish count wpos mpsBuf } := by
  obtain ⟨⟨R, W, hring⟩, hbooks⟩ := h
  obtain ⟨C, hRC, hCW, hplace, hcur⟩ := hring.place_from
  have hlap := hring.lap
  have hcpu := hring.cpu0
  rw [hpc] at hcpu
  obtain ⟨hw, hc, hm⟩ := hcpu
  have hring' : AllocRing { s with
      allocQ := { s.allocQ with
        circularBuf := Function.update s.allocQ.circularBuf s.allocQ.wpos mpsBuf }
      cpu0 := .topupPublish count wpos mpsBuf } R W :=
    ⟨hring.rpos, hring.wpos, hring.le, hring.lap, ⟨hw, hc, hm, Function.update_self _ _ _⟩,
      hring.cpu1⟩
  refine ⟨⟨R, W, hring'⟩, ?_⟩
  have hslice := @ringSlice_update_end _ (s.allocQ.maxcount + 1) s.allocQ.circularBuf C (W - C)
    mpsBuf (by omega)
  have he : C + (W - C) = W := by omega
  rw [he, ← hring.wpos] at hslice
  have hdist := ringDist_mod hCW (by omega : W < C + (s.allocQ.maxcount + 1))
  rw [← hcur, ← hring.wpos] at hdist
  have hsame : allocPlace { s with
      allocQ := { s.allocQ with
        circularBuf := Function.update s.allocQ.circularBuf s.allocQ.wpos mpsBuf }
      cpu0 := .topupPublish count wpos mpsBuf } = allocPlace s := by
    rw [hplace, ← hslice]
    have hpend : allocPending s = [mpsBuf] := by rw [allocPending, hpc]
    rw [hpend, ← hdist, ← ringSlice_mod _ _ C, ← hcur]
    rfl
  rw [AllocBooks, hsame]
  exact hbooks

theorem AllocInv.publish {start : List QItem} {s : PoolState} {count wpos : Nat} {mpsBuf : QItem}
    (h : AllocInv start s) (hpc : s.cpu0 = .topupPublish count wpos mpsBuf) :
    AllocInv start { s with
      allocQ := { s.allocQ with wpos := mpsNextQPos wpos s.allocQ.maxcount }
      cpu0 := .topupLoop count (mpsNextQPos wpos s.allocQ.maxcount) } := by
  obtain ⟨⟨R, W, hring⟩, hbooks⟩ := h
  obtain ⟨C, hRC, hCW, hplace, hcur⟩ := hring.place_from
  have hlap := hring.lap
  have hcpu := hring.cpu0
  rw [hpc] at hcpu
  obtain ⟨rfl, hc, hm, hbuf⟩ := hcpu
  have hnext : mpsNextQPos s.allocQ.wpos s.allocQ.maxcount = (W + 1) % (s.allocQ.maxcount + 1) := by
    rw [hring.wpos]
    exact mpsNextQPos_mod _ _
  have hlt : AllocCpu1 R (W + 1) s.cpu1 := by
    have h1 := hring.cpu1
    cases hpc1 : s.cpu1 with
    | dequeueGet => rw [hpc1] at h1; exact Nat.lt_succ_of_lt h1
    | dequeuePublish => rw [hpc1] at h1; exact Nat.lt_succ_of_lt h1
    | _ => trivial
  have hle := hring.le
  refine ⟨⟨R, W + 1, hring.rpos, hnext, by omega, by dsimp only; omega,
    ⟨rfl, by omega, hm⟩, hlt⟩, ?_⟩
  have hdist := ringDist_mod (by omega : C ≤ W + 1) (by omega : W + 1 < C + (s.allocQ.maxcount + 1))
  have hsnoc := ringSlice_snoc (s.allocQ.maxcount + 1) s.allocQ.circularBuf C (W - C)
  have he : C + (W - C) = W := by omega
  have he' : W + 1 - C = W - C + 1 := by omega
  rw [he, ← hring.wpos, hbuf] at hsnoc
  have hsame : allocPlace { s with
      allocQ := { s.allocQ with wpos := mpsNextQPos s.allocQ.wpos s.allocQ.maxcount }
      cpu0 := .topupLoop count (mpsNextQPos s.allocQ.wpos s.allocQ.maxcount) } = allocPlace s := by
    have hpend : allocPending s = [mpsBuf] := by rw [allocPending, hpc]
    rw [hplace, hpend, ← hsnoc, ← he', ← hdist, ← hcur, ← hnext, ← ringSlice_mod _ _ C, ← hcur]
    exact List.append_nil _
  rw [AllocBooks, hsame]
  exact hbooks

theorem cpu0Step_alloc {start : List QItem} {s t : PoolState} {allocOk : Bool}
    (h : AllocInv start s) (hs : cpu0Step s allocOk = some t) : AllocInv start t := by
  unfold cpu0Step at hs
  split at hs
  next => simp at hs
  next hpc =>
    split at hs
    next =>
      cases Option.some.inj hs
      exact h.quiet rfl rfl (by simp [allocPending, hpc]) (fun _ _ => trivial) rfl rfl
    next =>
      cases Option.some.inj hs
      exact h.quiet rfl rfl (by simp [allocPending, hpc]) (fun _ _ => trivial) rfl rfl
  next hpc =>
    cases Option.some.inj hs
    exact h.frame rfl rfl (by simp [allocPending, hpc])
      (fun R _ hr => ⟨R, le_refl R, hr.rpos, hr.lap⟩) (fun _ _ hr => hr.cpu1) rfl rfl
  next rpos hpc =>
    cases Option.some.inj hs
    refine h.frame rfl rfl (by simp [allocPending, hpc]) ?_ (fun _ _ hr => hr.cpu1) rfl rfl
    intro R W hr
    have hcpu := hr.cpu0
    rw [hpc] at hcpu
    obtain ⟨R0, hR0, rfl, hlap⟩ := hcpu
    have hle := hr.le
    refine ⟨rfl, ?_, ?_⟩
    · rw [hr.wpos, mpsGetQCount_mod (by omega) hlap]
      omega
    · rw [hr.wpos, mpsGetQCount_mod (by omega) hlap]
      omega
  next count wpos hpc =>
    split at hs
    next hlt =>
      split at hs
      next =>
        cases Option.some.inj hs
        exact h.take hpc hlt
      next =>
        have hw : wpos = s.allocQ.wpos := by
          obtain ⟨⟨R, W, hring⟩, -⟩ := h
          have hcpu := hring.cpu0
          rw [hpc] at hcpu
          exact hcpu.1
        subst hw
        cases Option.some.inj hs
        exact h.quiet rfl rfl (by simp [allocPending, hpc]) (fun _ _ => trivial) rfl rfl
    next =>
      cases Option.some.inj hs
      exact h.quiet rfl rfl (by simp [allocPending, hpc]) (fun _ _ => trivial) rfl rfl
  next count wpos mpsBuf hpc =>
    cases Option.some.inj hs
    exact h.store hpc
  next count wpos mpsBuf hpc =>
    cases Option.some.inj hs
    exact h.publish hpc
  next hpc =>
    cases Option.some.inj hs
    exact h.quiet rfl rfl (by simp [allocPending, hpc]) (fun _ _ => trivial) rfl rfl
  next wpos hpc =>
    cases Option.some.inj hs
    exact h.quiet rfl rfl (by simp [allocPending, hpc]) (fun _ _ => trivial) rfl rfl
  next wpos rpos hpc =>
    split at hs
    next =>
      cases Option.some.inj hs
      exact h.quiet rfl rfl (by simp [allocPending, hpc]) (fun _ _ => trivial) rfl rfl
    next =>
      cases Option.some.inj hs
      exact h.quiet rfl rfl (by simp [allocPending, hpc]) (fun _ _ => trivial) rfl rfl
  next hpc =>
    cases Option.some.inj hs
    exact h.quiet rfl rfl (by simp [allocPending, hpc]) (fun _ _ => trivial) rfl rfl

/-- CPU1 takes the oldest buffer and poisons its slot. -/
theorem AllocInv.dequeue {start : List QItem} {s : PoolState} (h : AllocInv start s)
    (hpc : s.cpu1 = .dequeueGet) :
    AllocInv start { s with
      allocQ := { s.allocQ with
        circularBuf := Function.update s.allocQ.circularBuf s.allocQ.rpos .invalid }
      returned := s.returned ++ [s.allocQ.circularBuf s.allocQ.rpos]
      hands := s.hands ++ [s.allocQ.circularBuf s.allocQ.rpos]
      cpu1 := .dequeuePublish } := by
  obtain ⟨⟨R, W, hring⟩, hbooks⟩ := h
  have hlap := hring.lap
  have hlt := hring.cpu1
  rw [hpc] at hlt
  have hlt : R < W := hlt
  have hplace := hring.place (by rw [hpc]; simp)
  have he : W - R = W - (R + 1) + 1 := by omega
  rw [he, ringSlice_succ, ← hring.rpos] at hplace
  have hslice := @ringSlice_update_before _ (s.allocQ.maxcount + 1) s.allocQ.circularBuf R
    (W - (R + 1)) .invalid (by omega)
  rw [← hring.rpos] at hslice
  have hcpu : AllocCpu0 { s.allocQ with
      circularBuf := Function.update s.allocQ.circularBuf s.allocQ.rpos .invalid } R W s.cpu0 := by
    have h0 := hring.cpu0
    cases hpc0 : s.cpu0 with
    | topupPublish count wpos mpsBuf =>
      rw [hpc0] at h0
      obtain ⟨hw, hc, hm, hbuf⟩ := h0
      have hne : s.allocQ.wpos ≠ s.allocQ.rpos := by
        rw [hring.wpos, hring.rpos]
        intro heq
        have := ringPos_inj hring.le (by omega) heq.symm
        omega
      exact ⟨hw, hc, hm, (Function.update_of_ne hne _ _).trans hbuf⟩
    | topupWpos rpos => rw [hpc0] at h0; exact h0
    | topupLoop count wpos => rw [hpc0] at h0; exact h0
    | topupStore count wpos mpsBuf => rw [hpc0] at h0; exact h0
    | _ => trivial
  have hring' : AllocRing { s with
      allocQ := { s.allocQ with
        circularBuf := Function.update s.allocQ.circularBuf s.allocQ.rpos .invalid }
      returned := s.returned ++ [s.allocQ.circularBuf s.allocQ.rpos]
      hands := s.hands ++ [s.allocQ.circularBuf s.allocQ.rpos]
      cpu1 := .dequeuePublish } R W :=
    ⟨hring.rpos, hring.wpos, hring.le, hring.lap, hcpu, hlt⟩
  refine ⟨⟨R, W, hring'⟩, ?_⟩
  have hnew := hring'.place_publish rfl
  simp only [hslice] at hnew
  rw [AllocBooks] at hbooks ⊢
  rw [hplace] at hbooks
  rw [hnew]
  refine List.Perm.trans ?_ hbooks
  have hpend : allocPending { s with
      allocQ := { s.allocQ with
        circularBuf := Function.update s.allocQ.circularBuf s.allocQ.rpos .invalid }
      returned := s.returned ++ [s.allocQ.circularBuf s.allocQ.rpos]
      hands := s.hands ++ [s.allocQ.circularBuf s.allocQ.rpos]
      cpu1 := .dequeuePublish } = allocPending s := rfl
  rw [hpend]
  apply List.Perm.append_right
  simp only [← List.append_assoc]
  exact (List.perm_append_singleton _ _)

theorem cpu1Step_alloc {start : List QItem} {s t : PoolState} (h : AllocInv start s)
    (hs : cpu1Step s = some t) : AllocInv start t := by
  unfold cpu1Step at hs
  split at hs
  next => simp at hs
  next hpc =>
    cases Option.some.inj hs
    exact h.dequeue hpc
  next hpc =>
    cases Option.some.inj hs
    obtain ⟨⟨R, W, hring⟩, hbooks⟩ := h
    have hlap := hring.lap
    have hlt := hring.cpu1
    rw [hpc] at hlt
    have hlt : R < W := hlt
    have hcpu : AllocCpu0 s.allocQ (R + 1) W s.cpu0 := by
      have h0 := hring.cpu0
      cases hpc0 : s.cpu0 with
      | topupWpos rpos =>
        rw [hpc0] at h0
        obtain ⟨R0, hR0, hr, hl⟩ := h0
        exact ⟨R0, by omega, hr, hl⟩
      | topupLoop count wpos =>
        rw [hpc0] at h0
        obtain ⟨hw, hc, hm⟩ := h0
        exact ⟨hw, by omega, hm⟩
      | topupStore count wpos mpsBuf =>
        rw [hpc0] at h0
        obtain ⟨hw, hc, hm⟩ := h0
        exact ⟨hw, by omega, hm⟩
      | topupPublish count wpos mpsBuf =>
        rw [hpc0] at h0
        obtain ⟨hw, hc, hm, hbuf⟩ := h0
        exact ⟨hw, by omega, hm, hbuf⟩
      | _ => trivial
    refine ⟨⟨R + 1, W, ?_, hring.wpos, hlt, by dsimp only; omega, ?_, trivial⟩, ?_⟩
    · change mpsNextQPos s.allocQ.rpos s.allocQ.maxcount = _
      rw [hring.rpos]
      exact mpsNextQPos_mod _ _
    · cases hpc0 : s.cpu0 <;> rw [hpc0] at hcpu <;> exact hcpu
    · have hcur : allocCursor s = mpsNextQPos s.allocQ.rpos s.allocQ.maxcount := by
        rw [allocCursor, hpc]
      have hsame : allocPlace { s with
          allocQ := { s.allocQ with rpos := mpsNextQPos s.allocQ.rpos s.allocQ.maxcount }
          cpu1 := .idle } = allocPlace s := by
        rw [allocPlace, allocPlace, hcur]
        rfl
      rw [AllocBooks, hsame]
      exact hbooks
  next buf hpc =>
    cases Option.some.inj hs
    exact h.frame rfl (by simp [allocCursor, hpc]) rfl (fun _ _ hr => hr.cpu0)
      (fun _ _ _ => trivial) rfl rfl
  next buf hpc =>
    cases Option.some.inj hs
    exact h.frame rfl (by simp [allocCursor, hpc]) rfl (fun _ _ hr => hr.cpu0)
      (fun _ _ _ => trivial) rfl rfl

/-- The empty test of CPU1 on the published indices is exact. -/
theorem AllocInv.fastAlloc {start : List QItem} {s : PoolState} (h : AllocInv start s)
    (hpc : s.cpu1 = .idle) (hne : mpsIsQEmpty s.allocQ = false) :
    AllocInv start { s with cpu1 := .dequeueGet } := by
  refine h.frame rfl (by simp [allocCursor, hpc]) rfl (fun _ _ hr => hr.cpu0) ?_ rfl rfl
  intro R W hring
  have hle := hring.le
  have hdiff : s.allocQ.rpos ≠ s.allocQ.wpos := by simpa [mpsIsQEmpty] using hne
  rw [hring.rpos, hring.wpos] at hdiff
  refine Nat.lt_of_le_of_ne hle ?_
  rintro rfl
  exact hdiff rfl

theorem AllocInv.bookKeepEnter {start : List QItem} {s : PoolState} {pc : Cpu0Pc}
    (h : AllocInv start s) (hidle : s.mpsListBookKeepX = 1 → s.cpu0 = .idle)
    (hpc : ∀ R W, AllocCpu0 s.allocQ R W pc)
    (hpend : ∀ t : PoolState, t.cpu0 = pc → allocPending t = []) :
    AllocInv start (bookKeepEnter s pc) := by
  simp only [DanubeBsp.bookKeepEnter]
  split
  next hx =>
    have hcpu := hidle (by omega)
    refine h.quiet rfl rfl ?_ hpc rfl rfl
    rw [hpend _ rfl, allocPending, hcpu]
  next =>
    exact h.frame rfl rfl rfl (fun _ _ hr => hr.cpu0) (fun _ _ hr => hr.cpu1) rfl rfl

end DanubeBsp
