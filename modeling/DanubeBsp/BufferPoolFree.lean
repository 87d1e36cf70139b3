import DanubeBsp.BufferPoolAlloc

namespace DanubeBsp

/-- What CPU0's snapshots say about the free ring with published read position `R`, release
cursor `C` and write position `W`: it stops at a write position `V` that CPU1 has published. -/
def FreeCpu0 (q : BuffHead) (R C W : Nat) : Cpu0Pc → Prop
  | .releaseRpos wpos => C = R ∧ ∃ V, R ≤ V ∧ V ≤ W ∧ wpos = V % (q.maxcount + 1)
  | .releaseLoop wpos rpos => rpos = C % (q.maxcount + 1) ∧
      ∃ V, C ≤ V ∧ V ≤ W ∧ wpos = V % (q.maxcount + 1)
  | _ => C = R

/-- CPU1 stores a buffer from its hands only after it has seen a free slot. -/
def FreeCpu1 (s : PoolState) (R W : Nat) : Cpu1Pc → Prop
  | .tailStore buf => W + 1 ≤ R + s.freeQ.maxcount ∧ buf ∈ s.hands
  | .tailPublish buf => W + 1 ≤ R + s.freeQ.maxcount ∧ s.freeQ.circularBuf s.freeQ.wpos = buf
  | _ => True

structure FreeRing (s : PoolState) (R C W : Nat) : Prop where
  rpos : s.freeQ.rpos = R % (s.freeQ.maxcount + 1)
  wpos : s.freeQ.wpos = W % (s.freeQ.maxcount + 1)
  start : R ≤ C
  le : C ≤ W
  lap : W ≤ R + s.freeQ.maxcount
  cpu0 : FreeCpu0 s.freeQ R C W s.cpu0
  cpu1 : FreeCpu1 s R W s.cpu1

/-- The buffers given out, or present at the start, are held, in the free queue or released. -/
def FreeBooks (s : PoolState) (start : List QItem) : Prop :=
  (s.hands ++ freePlace s ++ s.released).Perm (s.returned ++ start)

def FreeInv (start : List QItem) (s : PoolState) : Prop :=
  (∃ R C W, FreeRing s R C W) ∧ FreeBooks s start

theorem FreeRing.cursor {s : PoolState} {R C W : Nat} (h : FreeRing s R C W) :
    freeCursor s = C % (s.freeQ.maxcount + 1) := by
  have h0 := h.cpu0
  have hr := h.rpos
  cases hpc : s.cpu0 with
  | releaseLoop wpos rpos =>
    rw [hpc] at h0
    rw [freeCursor, hpc]
    exact h0.1
  | releaseRpos wpos =>
    rw [hpc] at h0
    rw [freeCursor, hpc, h0.1]
    exact hr
  | _ =>
    rw [hpc] at h0
    have h0 : C = R := h0
    rw [freeCursor, hpc, h0]
    exact hr

theorem FreeRing.place {s : PoolState} {R C W : Nat} (h : FreeRing s R C W) :
    freePlace s = ringSlice (s.freeQ.maxcount + 1) s.freeQ.circularBuf C (W - C) ++
      freePending s := by
  have hlap := h.lap
  have hstart := h.start
  rw [freePlace, h.cursor, h.wpos, ringDist_mod h.le (by omega), ringSlice_mod]

theorem FreeRing.place_length {s : PoolState} {R C W : Nat} (h : FreeRing s R C W) :
    (freePlace s).length ≤ s.freeQ.maxcount := by
  have hlap := h.lap
  have hstart := h.start
  have hle := h.le
  have h1 := h.cpu1
  rw [h.place, List.length_append, ringSlice_length]
  cases hpc : s.cpu1 with
  | tailPublish buf =>
    rw [hpc] at h1
    have hroom := h1.1
    simp only [freePending, hpc, List.length_singleton]
    omega
  | _ =>
    simp only [freePending, hpc, List.length_nil]
    omega

/-- A step that leaves the free ring, CPU1 and the books of the free side alone. -/
theorem FreeInv.quiet {start : List QItem} {s t : PoolState} (h : FreeInv start s)
    (hq : t.freeQ = s.freeQ) (hc : freeCursor t = freeCursor s) (hp : freePending t = freePending s)
    (h0 : ∀ R C W, FreeRing s R C W → FreeCpu0 s.freeQ R C W t.cpu0)
    (h1 : ∀ R C W, FreeRing s R C W → FreeCpu1 s R W t.cpu1)
    (hh : t.hands = s.hands) (hr : t.returned = s.returned) (hd : t.released = s.released) :
    FreeInv start t := by
  obtain ⟨⟨R, C, W, hring⟩, hbooks⟩ := h
  refine ⟨⟨R, C, W, ?_⟩, ?_⟩
  · refine ⟨?_, ?_, hring.start, hring.le, ?_, ?_, ?_⟩
    · rw [hq]; exact hring.rpos
    · rw [hq]; exact hring.wpos
    · rw [hq]; exact hring.lap
    · rw [hq]; exact h0 R C W hring
    · have ht := h1 R C W hring
      cases hpc : t.cpu1 with
      | tailStore buf => rw [hpc] at ht; simpa only [FreeCpu1, hq, hh] using ht
      | tailPublish buf => rw [hpc] at ht; simpa only [FreeCpu1, hq] using ht
      | _ => trivial
  · rw [FreeBooks, freePlace, hq, hc, hp, hh, hr, hd]
    exact hbooks

theorem FreeInv.release {start : List QItem} {s : PoolState} {wpos rpos : Nat}
    (h : FreeInv start s) (hpc : s.cpu0 = .releaseLoop wpos rpos) (hne : rpos ≠ wpos) :
    FreeInv start { s with
      released := s.released ++ [s.freeQ.circularBuf rpos]
      cpu0 := .releaseLoop wpos (mpsNextQPos rpos s.freeQ.maxcount) } := by
  obtain ⟨⟨R, C, W, hring⟩, hbooks⟩ := h
  have h0 := hring.cpu0
  rw [hpc] at h0
  obtain ⟨rfl, V, hCV, hVW, rfl⟩ := h0
  have hlt : C < V := by
    refine Nat.lt_of_le_of_ne hCV ?_
    rintro rfl
    exact hne rfl
  have hring' : FreeRing { s with
      released := s.released ++ [s.freeQ.circularBuf (C % (s.freeQ.maxcount + 1))]
      cpu0 := .releaseLoop (V % (s.freeQ.maxcount + 1))
        (mpsNextQPos (C % (s.freeQ.maxcount + 1)) s.freeQ.maxcount) } R (C + 1) W := by
    have hstart := hring.start
    refine ⟨hring.rpos, hring.wpos, by omega, by omega, hring.lap,
      ⟨mpsNextQPos_mod _ _, V, by omega, hVW, rfl⟩, ?_⟩
    have h1 := hring.cpu1
    cases hpc1 : s.cpu1 <;> rw [hpc1] at h1 <;> exact h1
  refine ⟨⟨R, C + 1, W, hring'⟩, ?_⟩
  have hplace := hring.place
  have he : W - C = W - (C + 1) + 1 := by omega
  rw [he, ringSlice_succ] at hplace
  rw [FreeBooks] at hbooks ⊢
  rw [hplace] at hbooks
  rw [hring'.place]
  rw [List.perm_iff_count] at hbooks ⊢
  intro item
  have hcount := hbooks item
  simp only [List.count_append, List.count_cons, List.count_nil] at hcount ⊢
  change List.count item s.hands + (List.count item (ringSlice _ s.freeQ.circularBuf (C + 1) _) +
    List.count item (freePending s)) + _ = _
  omega

theorem FreeInv.publish {start : List QItem} {s : PoolState} {wpos : Nat} {pc : Cpu0Pc}
    (h : FreeInv start s) (hpc : s.cpu0 = .releaseLoop wpos wpos)
    (hcur : ∀ q, freeCursor { s with freeQ := q, cpu0 := pc } = q.rpos)
    (h0 : ∀ R W, FreeCpu0 s.freeQ R R W pc) :
    FreeInv start { s with freeQ := { s.freeQ with rpos := wpos }, cpu0 := pc } := by
  obtain ⟨⟨R, C, W, hring⟩, hbooks⟩ := h
  have hcpu := hring.cpu0
  rw [hpc] at hcpu
  obtain ⟨rfl, -⟩ := hcpu
  have hstart := hring.start
  have hlap := hring.lap
  refine ⟨⟨C, C, W, rfl, hring.wpos, le_refl C, hring.le, by dsimp only; omega, ?_, ?_⟩, ?_⟩
  · have hp := h0 C W
    cases pc <;> exact hp
  · have h1 := hring.cpu1
    cases hpc1 : s.cpu1 with
    | tailStore buf => rw [hpc1] at h1; exact ⟨by have := h1.1; dsimp only; omega, h1.2⟩
    | tailPublish buf => rw [hpc1] at h1; exact ⟨by have := h1.1; dsimp only; omega, h1.2⟩
    | _ => trivial
  · rw [FreeBooks, freePlace, hcur]
    rw [FreeBooks, freePlace, hring.cursor] at hbooks
    exact hbooks

/-- CPU0 holds a snapshot of the free ring. -/
def Cpu0Pc.releasing : Cpu0Pc → Bool
  | .releaseRpos _ => true
  | .releaseLoop _ _ => true
  | _ => false

theorem freeCpu0_of_not_releasing {q : BuffHead} {R C W : Nat} {pc : Cpu0Pc}
    (h : pc.releasing = false) : FreeCpu0 q R C W pc ↔ C = R := by
  cases pc with
  | releaseRpos wpos => simp [Cpu0Pc.releasing] at h
  | releaseLoop wpos rpos => simp [Cpu0Pc.releasing] at h
  | _ => exact Iff.rfl

theorem freeCursor_of_not_releasing {s : PoolState} (h : s.cpu0.releasing = false) :
    freeCursor s = s.freeQ.rpos := by
  unfold freeCursor
  split
  next wpos rpos hpc => rw [hpc] at h; simp [Cpu0Pc.releasing] at h
  next => rfl

/-- A step of CPU0 inside the top-up or at the lock. -/
theorem FreeInv.topup {start : List QItem} {s t : PoolState} (h : FreeInv start s)
    (hs : s.cpu0.releasing = false) (ht : t.cpu0.releasing = false) (hq : t.freeQ = s.freeQ)
    (h1 : t.cpu1 = s.cpu1) (hh : t.hands = s.hands) (hr : t.returned = s.returned)
    (hd : t.released = s.released) : FreeInv start t := by
  have hc : freeCursor t = freeCursor s := by
    rw [freeCursor_of_not_releasing hs, freeCursor_of_not_releasing ht, hq]
  refine h.quiet hq hc (by rw [freePending, h1, freePending]) ?_ ?_ hh hr hd
  · intro R C W hring
    exact (freeCpu0_of_not_releasing ht).mpr ((freeCpu0_of_not_releasing hs).mp hring.cpu0)
  · intro R C W hring
    rw [h1]
    exact hring.cpu1

theorem cpu0Step_free {start : List QItem} {s t : PoolState} {allocOk : Bool}
    (h : FreeInv start s) (hs : cpu0Step s allocOk = some t) : FreeInv start t := by
  unfold cpu0Step at hs
  split at hs
  next => simp at hs
  next hpc =>
    have hst : s.cpu0.releasing = false := by rw [hpc]; rfl
    split at hs
    next =>
      cases Option.some.inj hs
      exact h.topup hst rfl rfl rfl rfl rfl rfl
    next =>
      cases Option.some.inj hs
      exact h.topup hst rfl rfl rfl rfl rfl rfl
  next hpc =>
    cases Option.some.inj hs
    exact h.topup (by rw [hpc]; rfl) rfl rfl rfl rfl rfl rfl
  next rpos hpc =>
    cases Option.some.inj hs
    exact h.topup (by rw [hpc]; rfl) rfl rfl rfl rfl rfl rfl
  next count wpos hpc =>
    have hst : s.cpu0.releasing = false := by rw [hpc]; rfl
    split at hs
    next =>
      split at hs
      next =>
        cases Option.some.inj hs
        exact h.topup hst rfl rfl rfl rfl rfl rfl
      next =>
        cases Option.some.inj hs
        exact h.topup hst rfl rfl rfl rfl rfl rfl
    next =>
      cases Option.some.inj hs
      exact h.topup hst rfl rfl rfl rfl rfl rfl
  next count wpos mpsBuf hpc =>
    cases Option.some.inj hs
    exact h.topup (by rw [hpc]; rfl) rfl rfl rfl rfl rfl rfl
  next count wpos mpsBuf hpc =>
    cases Option.some.inj hs
    exact h.topup (by rw [hpc]; rfl) rfl rfl rfl rfl rfl rfl
  next hpc =>
    cases Option.some.inj hs
    refine h.quiet rfl (by simp [freeCursor, hpc]) rfl ?_ (fun _ _ _ hr => hr.cpu1) rfl rfl rfl
    intro R C W hring
    have h0 := hring.cpu0
    have hle := hring.le
    rw [hpc] at h0
    have h0 : C = R := h0
    exact ⟨h0, W, by omega, le_refl W, hring.wpos⟩
  next wpos hpc =>
    cases Option.some.inj hs
    refine h.quiet rfl (by simp [freeCursor, hpc]) rfl ?_ (fun _ _ _ hr => hr.cpu1) rfl rfl rfl
    intro R C W hring
    have h0 := hring.cpu0
    rw [hpc] at h0
    obtain ⟨rfl, V, hCV, hVW, hv⟩ := h0
    exact ⟨hring.rpos, V, hCV, hVW, hv⟩
  next wpos rpos hpc =>
    split at hs
    next hne =>
      cases Option.some.inj hs
      exact h.release hpc hne
    next heq =>
      have heq : rpos = wpos := by simpa using heq
      subst heq
      cases Option.some.inj hs
      exact h.publish hpc (fun _ => rfl) (fun _ _ => rfl)
  next hpc =>
    cases Option.some.inj hs
    exact h.topup (by rw [hpc]; rfl) rfl rfl rfl rfl rfl rfl

/-- CPU1 writes a buffer from its hands into the free slot behind the last one. -/
theorem FreeInv.tailStore {start : List QItem} {s : PoolState} {buf : QItem}
    (h : FreeInv start s) (hpc : s.cpu1 = .tailStore buf) :
    FreeInv start { s with
      freeQ := { s.freeQ with
        circularBuf := Function.update s.freeQ.circularBuf s.freeQ.wpos buf }
      hands := s.hands.erase buf
      cpu1 := .tailPublish buf } := by
  obtain ⟨⟨R, C, W, hring⟩, hbooks⟩ := h
  have hlap := hring.lap
  have hstart := hring.start
  have hle := hring.le
  have h1 := hring.cpu1
  rw [hpc] at h1
  obtain ⟨hroom, hmem⟩ := h1
  have hring' : FreeRing { s with
      freeQ := { s.freeQ with
        circularBuf := Function.update s.freeQ.circularBuf s.freeQ.wpos buf }
      hands := s.hands.erase buf
      cpu1 := .tailPublish buf } R C W := by
    refine ⟨hring.rpos, hring.wpos, hstart, hle, hlap, ?_, hroom, Function.update_self _ _ _⟩
    have h0 := hring.cpu0
    cases hpc0 : s.cpu0 <;> rw [hpc0] at h0 <;> exact h0
  refine ⟨⟨R, C, W, hring'⟩, ?_⟩
  have hslice := @ringSlice_update_end _ (s.freeQ.maxcount + 1) s.freeQ.circularBuf C (W - C)
    buf (by omega)
  have he : C + (W - C) = W := by omega
  rw [he, ← hring.wpos] at hslice
  have hpend : freePending s = [] := by rw [freePending, hpc]
  have hold := List.perm_iff_count.mp (List.perm_cons_erase hmem)
  rw [FreeBooks, hring.place, hpend] at hbooks
  rw [FreeBooks, hring'.place]
  rw [List.perm_iff_count] at hbooks ⊢
  intro item
  have hcount := hbooks item
  have herase := hold item
  simp only [hslice, freePending, List.count_append, List.count_cons, List.count_nil] at hcount herase ⊢
  omega

theorem FreeInv.tailPublish {start : List QItem} {s : PoolState} {buf : QItem}
    (h : FreeInv start s) (hpc : s.cpu1 = .tailPublish buf) :
    FreeInv start { s with
      freeQ := { s.freeQ with wpos := mpsNextQPos s.freeQ.wpos s.freeQ.maxcount }
      cpu1 := .idle } := by
  obtain ⟨⟨R, C, W, hring⟩, hbooks⟩ := h
  have hle := hring.le
  have h1 := hring.cpu1
  rw [hpc] at h1
  obtain ⟨hroom, hbuf⟩ := h1
  have hring' : FreeRing { s with
      freeQ := { s.freeQ with wpos := mpsNextQPos s.freeQ.wpos s.freeQ.maxcount }
      cpu1 := .idle } R C (W + 1) := by
    refine ⟨hring.rpos, ?_, hring.start, by omega, hroom, ?_, trivial⟩
    · change mpsNextQPos s.freeQ.wpos s.freeQ.maxcount = _
      rw [hring.wpos]
      exact mpsNextQPos_mod _ _
    · have h0 := hring.cpu0
      cases hpc0 : s.cpu0 with
      | releaseRpos wpos =>
        rw [hpc0] at h0
        obtain ⟨hc, V, hRV, hVW, hv⟩ := h0
        exact ⟨hc, V, hRV, by omega, hv⟩
      | releaseLoop wpos rpos =>
        rw [hpc0] at h0
        obtain ⟨hc, V, hCV, hVW, hv⟩ := h0
        exact ⟨hc, V, hCV, by omega, hv⟩
      | _ => rw [hpc0] at h0; exact h0
  refine ⟨⟨R, C, W + 1, hring'⟩, ?_⟩
  have hsnoc := ringSlice_snoc (s.freeQ.maxcount + 1) s.freeQ.circularBuf C (W - C)
  have he : C + (W - C) = W := by omega
  have he' : W + 1 - C = W - C + 1 := by omega
  rw [he, ← hring.wpos, hbuf, ← he'] at hsnoc
  have hpend : freePending s = [buf] := by rw [freePending, hpc]
  have hsame : freePlace { s with
      freeQ := { s.freeQ with wpos := mpsNextQPos s.freeQ.wpos s.freeQ.maxcount }
      cpu1 := .idle } = freePlace s := by
    rw [hring'.place, hring.place, hpend, ← hsnoc]
    exact List.append_nil _
  rw [FreeBooks, hsame]
  exact hbooks

theorem cpu1Step_free {start : List QItem} {s t : PoolState} (h : FreeInv start s)
    (hs : cpu1Step s = some t) : FreeInv start t := by
  unfold cpu1Step at hs
  split at hs
  next => simp at hs
  next hpc =>
    cases Option.some.inj hs
    obtain ⟨⟨R, C, W, hring⟩, hbooks⟩ := h
    refine ⟨⟨R, C, W, hring.rpos, hring.wpos, hring.start, hring.le, hring.lap, hring.cpu0, trivial⟩, ?_⟩
    have hpend : freePending s = [] := by rw [freePending, hpc]
    rw [FreeBooks, freePlace, hpend] at hbooks
    rw [FreeBooks, freePlace]
    rw [List.perm_iff_count] at hbooks ⊢
    intro item
    have hcount := hbooks item
    have hcur : ∀ q r g, freeCursor { s with
        allocQ := q, returned := r, hands := g, cpu1 := .dequeuePublish } = freeCursor s :=
      fun _ _ _ => rfl
    simp only [hcur, freePending, List.count_append] at hcount ⊢
    omega
  next hpc =>
    cases Option.some.inj hs
    exact h.quiet rfl rfl (by simp [freePending, hpc]) (fun _ _ _ hr => hr.cpu0)
      (fun _ _ _ _ => trivial) rfl rfl rfl
  next buf hpc =>
    cases Option.some.inj hs
    exact h.tailStore hpc
  next buf hpc =>
    cases Option.some.inj hs
    exact h.tailPublish hpc

/-- The full test of CPU1 is safe although CPU0 publishes its read position late. -/
theorem FreeInv.fastFree {start : List QItem} {s : PoolState} {buf : QItem} (h : FreeInv start s)
    (hpc : s.cpu1 = .idle) (hmem : buf ∈ s.hands) (hroom : mpsIsQFull s.freeQ = false) :
    FreeInv start { s with cpu1 := .tailStore buf } := by
  refine h.quiet rfl rfl (by simp [freePending, hpc]) (fun _ _ _ hr => hr.cpu0) ?_ rfl rfl rfl
  intro R C W hring
  have hlap := hring.lap
  have hdiff : mpsNextQPos s.freeQ.wpos s.freeQ.maxcount ≠ s.freeQ.rpos := by
    simpa [mpsIsQFull] using hroom
  rw [hring.wpos, hring.rpos, mpsNextQPos_mod] at hdiff
  refine ⟨?_, hmem⟩
  by_contra hfull
  have he : W + 1 = R + (s.freeQ.maxcount + 1) := by omega
  rw [he, Nat.add_mod_right] at hdiff
  exact hdiff rfl

theorem FreeInv.bookKeepEnter {start : List QItem} {s : PoolState} {pc : Cpu0Pc}
    (h : FreeInv start s) (hidle : s.mpsListBookKeepX = 1 → s.cpu0 = .idle)
    (hpc : pc.releasing = false) : FreeInv start (bookKeepEnter s pc) := by
  simp only [DanubeBsp.bookKeepEnter]
  split
  next hx =>
    have hcpu := hidle (by omega)
    exact h.topup (by rw [hcpu]; rfl) hpc rfl rfl rfl rfl rfl
  next =>
    exact h.quiet rfl rfl rfl (fun _ _ _ hr => hr.cpu0) (fun _ _ _ hr => hr.cpu1) rfl rfl rfl

end DanubeBsp
