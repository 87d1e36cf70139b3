import Mathlib.Data.List.Basic
import Mathlib.Order.WellFounded

namespace DanubeBsp

/-- Execute a list of events; an event that is not enabled stops the run. -/
def run {σ ε : Type*} (step : σ → ε → Option σ) (s : σ) (es : List ε) : Option σ :=
  es.foldlM step s

/-- Every event of the run meets `ok` in the state in which it happens. -/
def RunMeets {σ ε : Type*} (step : σ → ε → Option σ) (ok : σ → ε → Prop) : σ → List ε → Prop
  | _, [] => True
  | s, e :: es => ok s e ∧ ∀ t, step s e = some t → RunMeets step ok t es

@[simp] theorem run_nil {σ ε : Type*} (step : σ → ε → Option σ) (s : σ) :
    run step s [] = some s := rfl

theorem run_cons {σ ε : Type*} {step : σ → ε → Option σ} {s t : σ} {e : ε} {es : List ε}
    (h : run step s (e :: es) = some t) : ∃ u, step s e = some u ∧ run step u es = some t := by
  simpa [run, List.foldlM_cons, Option.bind_eq_some_iff] using h

theorem run_append {σ ε : Type*} (step : σ → ε → Option σ) (s : σ) (es fs : List ε) :
    run step s (es ++ fs) = (run step s es).bind fun t => run step t fs := by
  simp [run, List.foldlM_append, Option.bind_eq_bind]

theorem run_invariant {σ ε : Type*} {step : σ → ε → Option σ} {Inv : σ → Prop}
    (hstep : ∀ {s t e}, Inv s → step s e = some t → Inv t) {s t : σ} {es : List ε}
    (hs : Inv s) (h : run step s es = some t) : Inv t := by
  induction es generalizing s with
  | nil => cases Option.some.inj h; exact hs
  | cons e es ih =>
    obtain ⟨u, hu, h⟩ := run_cons h
    exact ih (hstep hs hu) h

/-- The invariant rule for runs whose steps all meet a condition. -/
theorem run_invariant_of_meets {σ ε : Type*} {step : σ → ε → Option σ} {ok : σ → ε → Prop}
    {Inv : σ → Prop} (hstep : ∀ {s t e}, Inv s → ok s e → step s e = some t → Inv t)
    {s t : σ} {es : List ε} (hs : Inv s) (hok : RunMeets step ok s es)
    (h : run step s es = some t) : Inv t := by
  induction es generalizing s with
  | nil => cases Option.some.inj h; exact hs
  | cons e es ih =>
    obtain ⟨u, hu, h⟩ := run_cons h
    exact ih (hstep hs hok.1 hu) (hok.2 u hu) h

theorem runMeets_cons_none {σ ε : Type*} {step : σ → ε → Option σ} {ok : σ → ε → Prop} {s : σ}
    {e : ε} (es : List ε) (h : step s e = none) : RunMeets step ok s (e :: es) ↔ ok s e := by
  simp [RunMeets, h]

theorem runMeets_cons_some {σ ε : Type*} {step : σ → ε → Option σ} {ok : σ → ε → Prop} {s t : σ}
    {e : ε} (es : List ε) (h : step s e = some t) :
    RunMeets step ok s (e :: es) ↔ ok s e ∧ RunMeets step ok t es := by
  simp [RunMeets, h]

instance decidableRunMeets {σ ε : Type*} (step : σ → ε → Option σ) (ok : σ → ε → Prop)
    [∀ s e, Decidable (ok s e)] : (s : σ) → (es : List ε) → Decidable (RunMeets step ok s es)
  | _, [] => .isTrue trivial
  | s, e :: es =>
    match h : step s e with
    | none => decidable_of_iff _ (runMeets_cons_none es h).symm
    | some t =>
      have := decidableRunMeets step ok t es
      decidable_of_iff _ (runMeets_cons_some es h).symm

/-- Two conditions that agree under an invariant, which either of them keeps, hold along the same runs. -/
theorem runMeets_congr {σ ε : Type*} {step : σ → ε → Option σ} {ok ok' : σ → ε → Prop}
    {Inv : σ → Prop} (hiff : ∀ {s e}, Inv s → (ok s e ↔ ok' s e))
    (hkeep : ∀ {s t e}, Inv s → ok s e → step s e = some t → Inv t) {s : σ} (hs : Inv s)
    (es : List ε) : RunMeets step ok s es ↔ RunMeets step ok' s es := by
  induction es generalizing s with
  | nil => exact Iff.rfl
  | cons e es ih =>
    constructor
    · rintro ⟨hok, hes⟩
      exact ⟨(hiff hs).mp hok, fun t ht => (ih (hkeep hs hok ht)).mp (hes t ht)⟩
    · rintro ⟨hok', hes⟩
      have hok := (hiff hs).mpr hok'
      exact ⟨hok, fun t ht => (ih (hkeep hs hok ht)).mpr (hes t ht)⟩

theorem runMeets_of_forall {σ ε : Type*} {step : σ → ε → Option σ} {P : ε → Prop} {es : List ε}
    (h : ∀ e ∈ es, P e) (s : σ) : RunMeets step (fun _ e => P e) s es := by
  induction es generalizing s with
  | nil => trivial
  | cons e es ih =>
    refine ⟨h e List.mem_cons_self, ?_⟩
    intro t _
    exact ih (fun f hf => h f (List.mem_cons_of_mem e hf)) t

theorem runMeets_of_all {σ ε : Type*} {step : σ → ε → Option σ} {ok : σ → ε → Prop}
    (h : ∀ s e, ok s e) (s : σ) (es : List ε) : RunMeets step ok s es := by
  induction es generalizing s with
  | nil => trivial
  | cons e es ih => exact ⟨h s e, fun t _ => ih t⟩

/-- Where a step out of the invariant reaches a good state only if it meets the condition, a run has
only good states exactly when all its steps meet the condition. -/
theorem runMeets_iff_states {σ ε : Type*} {step : σ → ε → Option σ} {ok : σ → ε → Prop}
    {Inv Good : σ → Prop} (hgood : ∀ {s}, Inv s → Good s)
    (hkeep : ∀ {s t e}, Inv s → ok s e → step s e = some t → Inv t)
    (hbreak : ∀ {s t e}, Inv s → step s e = some t → Good t → ok s e)
    (hnone : ∀ {s e}, Inv s → step s e = none → ok s e) {s : σ} (hs : Inv s) (es : List ε) :
    RunMeets step ok s es ↔ ∀ pre t, pre <+: es → run step s pre = some t → Good t := by
  induction es generalizing s with
  | nil =>
    refine iff_of_true trivial ?_
    intro pre t hpre h
    cases List.prefix_nil.mp hpre
    cases Option.some.inj h
    exact hgood hs
  | cons e es ih =>
    cases he : step s e with
    | none =>
      refine iff_of_true ((runMeets_cons_none es he).mpr (hnone hs he)) ?_
      intro pre t hpre h
      rcases List.prefix_cons_iff.mp hpre with rfl | ⟨pre, rfl, _⟩
      · cases Option.some.inj h
        exact hgood hs
      · obtain ⟨u, hu, _⟩ := run_cons h
        simp [he] at hu
    | some u =>
      rw [runMeets_cons_some es he]
      constructor
      · rintro ⟨hok, hes⟩ pre t hpre h
        rcases List.prefix_cons_iff.mp hpre with rfl | ⟨rest, rfl, hrest⟩
        · cases Option.some.inj h
          exact hgood hs
        · obtain ⟨v, hv, h⟩ := run_cons h
          cases Option.some.inj (he.symm.trans hv)
          exact (ih (hkeep hs hok he)).mp hes rest t hrest h
      · intro h
        have hok : ok s e := hbreak hs he (h [e] u (by simp) (by simp [run, he]))
        refine ⟨hok, (ih (hkeep hs hok he)).mpr ?_⟩
        intro pre t hpre hrun
        refine h (e :: pre) t (List.cons_prefix_cons.mpr ⟨rfl, hpre⟩) ?_
        simpa [run, List.foldlM_cons, he] using hrun

/-- A measure that no step lowers, and that exactly the steps meeting the condition keep, has not
moved at the end of a run exactly when all its steps meet the condition. -/
theorem runMeets_iff_measure {σ ε : Type*} {step : σ → ε → Option σ} {ok : σ → ε → Prop}
    {Inv : σ → Prop} {m : σ → Nat} (hkeep : ∀ {s t e}, Inv s → step s e = some t → Inv t)
    (hle : ∀ {s t e}, Inv s → step s e = some t → m s ≤ m t)
    (hok : ∀ {s t e}, Inv s → step s e = some t → (ok s e ↔ m t = m s))
    {s t : σ} {es : List ε} (hs : Inv s) (h : run step s es = some t) :
    m s ≤ m t ∧ (RunMeets step ok s es ↔ m t = m s) := by
  induction es generalizing s with
  | nil =>
    cases Option.some.inj h
    exact ⟨Nat.le_refl _, iff_of_true trivial rfl⟩
  | cons e es ih =>
    obtain ⟨u, hu, h⟩ := run_cons h
    obtain ⟨hmono, hiff⟩ := ih (hkeep hs hu) h
    have hfirst := hle hs hu
    refine ⟨Nat.le_trans hfirst hmono, ?_⟩
    rw [runMeets_cons_some es hu, hok hs hu, hiff]
    omega

/-- The run of a deterministic program from `s` ends in `t`, where there is no next step. -/
inductive Halts {σ : Type*} (step : σ → Option σ) : σ → σ → Prop
  | stop {s : σ} (h : step s = none) : Halts step s s
  | next {s t u : σ} (h : step s = some t) (ht : Halts step t u) : Halts step s u

/-- The variant rule: a rank in a well-founded order that every step can lower. -/
theorem halts_of_ranked {σ α : Type*} [LT α] [WellFoundedLT α] {step : σ → Option σ}
    (Ranked : σ → α → Prop)
    (hstep : ∀ {s t m}, Ranked s m → step s = some t → ∃ m', m' < m ∧ Ranked t m')
    {s : σ} {m : α} (hs : Ranked s m) : ∃ t, Halts step s t := by
  induction m using WellFoundedLT.induction generalizing s with
  | ind m ih =>
    cases ht : step s with
    | none => exact ⟨s, .stop ht⟩
    | some t =>
      obtain ⟨m', hlt, hm'⟩ := hstep hs ht
      obtain ⟨u, hu⟩ := ih m' hlt hm'
      exact ⟨u, .next ht hu⟩

/-- What the steps keep still holds at the end. -/
theorem Halts.final {σ : Type*} {step : σ → Option σ} {Inv : σ → Prop}
    (hstep : ∀ {s t}, Inv s → step s = some t → Inv t) {s t : σ} (hs : Inv s)
    (h : Halts step s t) : Inv t ∧ step t = none := by
  induction h with
  | stop h => exact ⟨hs, h⟩
  | next h _ ih => exact ih (hstep hs h)

/-- An invariant under which there always is a next step excludes halting. -/
theorem not_halts_of_invariant {σ : Type*} {step : σ → Option σ} (Inv : σ → Prop)
    (hstep : ∀ {s}, Inv s → ∃ t, step s = some t ∧ Inv t) {s t : σ} (hs : Inv s) :
    ¬Halts step s t := by
  intro h
  induction h with
  | stop h =>
    obtain ⟨t, ht, -⟩ := hstep hs
    exact absurd (ht.symm.trans h) (by simp)
  | next h _ ih =>
    obtain ⟨t, ht, hinv⟩ := hstep hs
    cases Option.some.inj (ht.symm.trans h)
    exact ih hinv

section

variable {σ κ ε : Type*} [DecidableEq κ]

/-- The events of one party, in their order. -/
def ownEvents (k : κ) (es : List (κ × ε)) : List (κ × ε) := es.filter fun e => e.1 = k

/-- Unwinding: if the party's own events keep the two states related, and the events of the others do
not disturb the relation, the party's part of a run is related to the whole. -/
theorem run_ownEvents {step : σ → κ × ε → Option σ} {ok : σ → κ × ε → Prop} {k : κ}
    {R : σ → σ → Prop}
    (own : ∀ {s s' t e}, R s s' → ok s (k, e) → step s (k, e) = some t →
      ∃ t', step s' (k, e) = some t' ∧ R t t')
    (other : ∀ {s s' t j e}, j ≠ k → R s s' → ok s (j, e) → step s (j, e) = some t → R t s')
    {es : List (κ × ε)} {s s' t : σ} (hR : R s s') (hok : RunMeets step ok s es)
    (hrun : run step s es = some t) : ∃ t', run step s' (ownEvents k es) = some t' ∧ R t t' := by
  induction es generalizing s s' with
  | nil =>
    cases Option.some.inj hrun
    exact ⟨s', rfl, hR⟩
  | cons e es ih =>
    obtain ⟨j, e⟩ := e
    obtain ⟨u, hu, hrest⟩ := run_cons hrun
    by_cases hj : j = k
    · subst hj
      obtain ⟨u', hu', hR'⟩ := own hR hok.1 hu
      obtain ⟨t', ht', hRt⟩ := ih hR' (hok.2 u hu) hrest
      refine ⟨t', ?_, hRt⟩
      have hown : ownEvents j ((j, e) :: es) = (j, e) :: ownEvents j es := by simp [ownEvents]
      rw [hown, run, List.foldlM_cons, hu']
      exact ht'
    · have hown : ownEvents k ((j, e) :: es) = ownEvents k es := by simp [ownEvents, hj]
      rw [hown]
      exact ih (other hj hR hok.1 hu) (hok.2 u hu) hrest

end

end DanubeBsp
