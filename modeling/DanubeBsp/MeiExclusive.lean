import Mathlib.Data.Fintype.Basic
import DanubeBsp.MeiSemaphore

namespace DanubeBsp

def MeiCtx.InCmv (x : MeiCtx) : Prop := x.stage ≠ .outside

/-- Between its `down` and its `up`. -/
def MeiCtx.Guarded (x : MeiCtx) : Prop := x.holds = true ∧ .up ∈ x.prog

/-- The context uses the interface or may enter it at any time. -/
def MeiCtx.Active (x : MeiCtx) : Prop := x.Guarded ∨ x.InCmv

instance (x : MeiCtx) : Decidable x.InCmv := inferInstanceAs (Decidable (_ ≠ _))

instance (x : MeiCtx) : Decidable x.Guarded := inferInstanceAs (Decidable (_ ∧ _))

variable {κ : Type*}

/-- At most one context is inside `meiCMV`, and the count of `mei_sema` is at most 1. -/
structure MeiExclusive (s : MeiSys κ) : Prop where
  semaLe : s.sema ≤ 1
  alone : ∀ c d, (s.ctx c).InCmv → (s.ctx d).InCmv → c = d

def NoneGuarded (s : MeiSys κ) : Prop := ∀ d, ¬(s.ctx d).Guarded

/-- A command takes the semaphore for `meiCMV` only while no call bypasses it, and a call bypasses it
only while no context is inside a section or a call. A context that did not take the semaphore gives
it back only when it is taken outside every section, and `meiResetARC` runs outside every section. -/
def OpDisciplined (s : MeiSys κ) (x : MeiCtx) : MeiOp → List MeiOp → Prop
  | .down, rest => .up ∈ rest → ∀ d, (s.ctx d).InCmv → (s.ctx d).Guarded
  | .up, _ => x.holds = true ∨ s.sema = 0 ∧ NoneGuarded s
  | .cmv, _ | .pollCmv, _ => x.Guarded ∨ ∀ d, ¬(s.ctx d).Guarded ∧ ¬(s.ctx d).InCmv
  | .resetARC, _ => NoneGuarded s
  | _, _ => True

/-- The discipline for the steps of contexts, and: a modem-ready message that nobody waits for comes
only while the semaphore is taken outside every section. -/
def MeiDisciplined (s : MeiSys κ) : MeiEvent κ → Prop
  | .exec c => ∀ op ∈ (s.ctx c).prog.head?, OpDisciplined s (s.ctx c) op (s.ctx c).prog.tail
  | .message modemReady =>
    modemReady = true → s.cmvWaiting = false → s.sema = 0 ∧ NoneGuarded s
  | _ => True

instance [Fintype κ] (s : MeiSys κ) : Decidable (NoneGuarded s) :=
  inferInstanceAs (Decidable (∀ d, ¬(s.ctx d).Guarded))

instance [Fintype κ] (s : MeiSys κ) (x : MeiCtx) (op : MeiOp) (rest : List MeiOp) :
    Decidable (OpDisciplined s x op rest) :=
  match op with
  | .down => inferInstanceAs (Decidable (.up ∈ rest → ∀ d, (s.ctx d).InCmv → (s.ctx d).Guarded))
  | .up => inferInstanceAs (Decidable (_ ∨ _ ∧ NoneGuarded s))
  | .cmv | .pollCmv =>
    inferInstanceAs (Decidable (x.Guarded ∨ ∀ d, ¬(s.ctx d).Guarded ∧ ¬(s.ctx d).InCmv))
  | .resetARC => inferInstanceAs (Decidable (NoneGuarded s))
  | .haltArc | .runArc | .runAdslModem _ | .startModem | .setShowtime | .enableInterrupts
  | .disableInterrupts => inferInstanceAs (Decidable True)

instance [Fintype κ] (s : MeiSys κ) (e : MeiEvent κ) : Decidable (MeiDisciplined s e) :=
  match e with
  | .exec c => inferInstanceAs (Decidable (∀ op ∈ (s.ctx c).prog.head?, OpDisciplined s _ op _))
  | .message _ => inferInstanceAs (Decidable (_ → _ → _ ∧ NoneGuarded s))
  | .call .. | .signal _ | .write _ | .leave .. => inferInstanceAs (Decidable True)

/-- A context in its section has the semaphore, and only one context is active. -/
structure MeiInv (sema : Nat) (ctx : κ → MeiCtx) : Prop where
  semaLe : sema ≤ 1
  taken : ∀ c, (ctx c).Guarded → sema = 0
  unique : ∀ c d, (ctx c).Active → (ctx d).Active → c = d

theorem meiInit_inv : MeiInv (meiInit κ).sema (meiInit κ).ctx := by
  refine ⟨le_rfl, ?_, ?_⟩
  · intro c hc
    simp [meiInit, MeiCtx.Guarded] at hc
  · intro c d hc
    simp [meiInit, MeiCtx.Active, MeiCtx.Guarded, MeiCtx.InCmv] at hc

theorem MeiInv.exclusive {s : MeiSys κ} (h : MeiInv s.sema s.ctx) : MeiExclusive s :=
  ⟨h.semaLe, fun c d hc hd => h.unique c d (.inr hc) (.inr hd)⟩

theorem MeiInv.not_guarded {n : Nat} {f : κ → MeiCtx} (h : MeiInv n f) (hn : 0 < n) (c : κ) :
    ¬(f c).Guarded := by
  intro hc
  have h0 := h.taken c hc
  omega

/-- The semaphore may take any value up to 1 while nobody is in a section. -/
theorem MeiInv.setSema {n m : Nat} {f : κ → MeiCtx} (h : MeiInv n f) (hm : m ≤ 1)
    (hf : ∀ c, ¬(f c).Guarded) : MeiInv m f :=
  ⟨hm, fun c hc => absurd hc (hf c), h.unique⟩

theorem up_of_runModemProg {s : MeiSys κ} {imageOk : Bool} {rest : List MeiOp}
    (h : .up ∈ runModemProg s imageOk ++ rest) : .up ∈ rest := by
  rcases List.mem_append.mp h with h | h
  · unfold runModemProg at h
    split at h
    · split at h <;> simp at h
    · simp at h
  · exact h

variable [DecidableEq κ]

/-- A context that becomes active was active before, or nobody was. -/
theorem unique_update {f : κ → MeiCtx} {x : MeiCtx} {c : κ}
    (h : ∀ c d, (f c).Active → (f d).Active → c = d)
    (hx : x.Active → (f c).Active ∨ ∀ d, ¬(f d).Active) (d e : κ)
    (hd : (Function.update f c x d).Active) (he : (Function.update f c x e).Active) : d = e := by
  by_cases hdc : d = c
  · subst hdc
    by_cases hec : e = d
    · exact hec.symm
    · simp only [Function.update_self, Function.update_of_ne hec] at hd he
      rcases hx hd with hc | hn
      · exact h d e hc he
      · exact absurd he (hn e)
  · simp only [Function.update_of_ne hdc] at hd
    by_cases hec : e = c
    · subst hec
      simp only [Function.update_self] at he
      rcases hx he with hc | hn
      · exact h d e hd hc
      · exact absurd hd (hn d)
    · simp only [Function.update_of_ne hec] at he
      exact h d e hd he

theorem guarded_update {f : κ → MeiCtx} {x : MeiCtx} {c d : κ}
    (hd : (Function.update f c x d).Guarded) : d = c ∧ x.Guarded ∨ d ≠ c ∧ (f d).Guarded := by
  by_cases hdc : d = c
  · subst hdc
    exact .inl ⟨rfl, by simpa using hd⟩
  · exact .inr ⟨hdc, by simpa [Function.update_of_ne hdc] using hd⟩

/-- A context that goes on in the same section, or leaves one. -/
theorem MeiInv.advance {n : Nat} {f : κ → MeiCtx} {x : MeiCtx} {c : κ} (h : MeiInv n f)
    (hg : x.Guarded → (f c).Guarded) (ha : x.InCmv → (f c).Active) :
    MeiInv n (Function.update f c x) := by
  refine ⟨h.semaLe, ?_, ?_⟩
  · intro d hd
    rcases guarded_update hd with ⟨rfl, hx⟩ | ⟨-, hd⟩
    · exact h.taken d (hg hx)
    · exact h.taken d hd
  · apply unique_update h.unique
    intro hx
    left
    rcases hx with hx | hx
    · exact .inl (hg hx)
    · exact ha hx

/-- A context enters `meiCMV` inside its section or bypasses the semaphore alone. -/
theorem MeiInv.enter {n : Nat} {f : κ → MeiCtx} {x : MeiCtx} {c : κ} (h : MeiInv n f)
    (hx : x = { f c with stage := .entered })
    (hok : (f c).Guarded ∨ ∀ d, ¬(f d).Guarded ∧ ¬(f d).InCmv) :
    MeiInv n (Function.update f c x) := by
  have hg : x.Guarded → (f c).Guarded := by
    subst hx
    exact id
  rcases hok with hc | hn
  · exact h.advance hg fun _ => .inl hc
  · refine ⟨h.semaLe, ?_, ?_⟩
    · intro d hd
      rcases guarded_update hd with ⟨rfl, hd'⟩ | ⟨-, hd'⟩
      · exact absurd (hg hd') (hn d).1
      · exact absurd hd' (hn d).1
    · apply unique_update h.unique
      intro _
      right
      rintro d (hd | hd)
      · exact (hn d).1 hd
      · exact (hn d).2 hd

theorem MeiInv.down {n : Nat} {f : κ → MeiCtx} {rest : List MeiOp} {c : κ} (h : MeiInv n f)
    (hn : 0 < n) (hok : .up ∈ rest → ∀ d, (f d).InCmv → (f d).Guarded) :
    MeiInv (n - 1) (Function.update f c ⟨rest, true, .outside⟩) := by
  have hle := h.semaLe
  refine ⟨by omega, fun d _ => by omega, ?_⟩
  apply unique_update h.unique
  rintro (hx | hx)
  · right
    rintro d (hd | hd)
    · exact h.not_guarded hn d hd
    · exact h.not_guarded hn d (hok hx.2 d hd)
  · exact absurd rfl hx

/-- `up` by the context that took the semaphore, or while it is taken outside every section. -/
theorem MeiInv.up {n : Nat} {f : κ → MeiCtx} {rest : List MeiOp} {holds : Bool} {c : κ}
    (h : MeiInv n f) (hc : f c = ⟨.up :: rest, holds, .outside⟩)
    (hok : holds = true ∨ n = 0 ∧ ∀ d, ¬(f d).Guarded) :
    MeiInv (n + 1) (Function.update f c ⟨rest, false, .outside⟩) := by
  have hx : ¬(⟨rest, false, .outside⟩ : MeiCtx).Guarded := fun hg => Bool.noConfusion hg.1
  have hlow : MeiInv n (Function.update f c ⟨rest, false, .outside⟩) :=
    h.advance (fun hg => absurd hg hx) (fun hi => absurd rfl hi)
  rcases hok with rfl | ⟨h0, hn⟩
  · have hg : (f c).Guarded := by
      rw [hc]
      exact ⟨rfl, List.mem_cons_self⟩
    have h0 := h.taken c hg
    apply hlow.setSema (by omega)
    intro d hd
    rcases guarded_update hd with ⟨-, hd⟩ | ⟨hne, hd⟩
    · exact hx hd
    · exact hne (h.unique d c (.inl hd) (.inl hg))
  · apply hlow.setSema (by omega)
    intro d hd
    rcases guarded_update hd with ⟨-, hd⟩ | ⟨-, hd⟩
    · exact hx hd
    · exact hn d hd

theorem MeiInv.goto {n : Nat} {f : κ → MeiCtx} {prog rest : List MeiOp} {holds : Bool} {c : κ}
    (h : MeiInv n f) (hc : f c = ⟨prog, holds, .outside⟩) (hr : .up ∈ rest → .up ∈ prog) :
    MeiInv n (Function.update f c ⟨rest, holds, .outside⟩) := by
  apply h.advance
  · intro hg
    rw [hc]
    exact ⟨hg.1, hr hg.2⟩
  · intro hi
    exact absurd rfl hi

theorem execOp_kept {s t : MeiSys κ} {c : κ} {op : MeiOp} {rest : List MeiOp} {holds : Bool}
    (h : MeiInv s.sema s.ctx) (hc : s.ctx c = ⟨op :: rest, holds, .outside⟩)
    (hok : OpDisciplined s ⟨op :: rest, holds, .outside⟩ op rest)
    (ht : execOp s c op rest ⟨op :: rest, holds, .outside⟩ = some t) : MeiInv t.sema t.ctx := by
  have hrest : MeiInv s.sema (Function.update s.ctx c ⟨rest, holds, .outside⟩) :=
    h.goto hc (List.mem_cons_of_mem op)
  have henter : s.ctx c = ⟨op :: rest, holds, .outside⟩ →
      ((⟨op :: rest, holds, .outside⟩ : MeiCtx).Guarded ∨
        ∀ d, ¬(s.ctx d).Guarded ∧ ¬(s.ctx d).InCmv) →
      MeiInv s.sema (Function.update s.ctx c ⟨op :: rest, holds, .entered⟩) := by
    intro hc hok
    rw [← hc] at hok
    apply h.enter _ hok
    rw [hc]
  cases op with
  | down =>
    simp only [execOp] at ht
    split at ht
    next hn =>
      cases Option.some.inj ht
      exact h.down hn hok
    next => simp at ht
  | up =>
    cases Option.some.inj ht
    exact h.up hc hok
  | cmv =>
    cases Option.some.inj ht
    exact henter hc hok
  | pollCmv =>
    simp only [execOp] at ht
    split at ht
    · cases Option.some.inj ht
      exact henter hc hok
    · cases Option.some.inj ht
      apply h.goto hc
      intro hu
      exact List.mem_cons_of_mem _ ((List.dropWhile_sublist _).subset hu)
  | resetARC =>
    cases Option.some.inj ht
    apply hrest.setSema le_rfl
    intro d hd
    rcases guarded_update hd with ⟨-, hd⟩ | ⟨-, hd⟩
    · apply hok c
      rw [hc]
      exact ⟨hd.1, List.mem_cons_of_mem _ hd.2⟩
    · exact hok d hd
  | runAdslModem imageOk =>
    cases Option.some.inj ht
    apply h.goto hc
    intro hu
    exact List.mem_cons_of_mem _ (up_of_runModemProg hu)
  | haltArc => cases Option.some.inj ht; exact hrest
  | runArc => cases Option.some.inj ht; exact hrest
  | startModem => cases Option.some.inj ht; exact hrest
  | setShowtime => cases Option.some.inj ht; exact hrest
  | enableInterrupts => cases Option.some.inj ht; exact hrest
  | disableInterrupts => cases Option.some.inj ht; exact hrest

theorem beginCommand_kept {s : MeiSys κ} (h : MeiInv s.sema s.ctx) (c : κ) (cmd : MeiCommand) :
    MeiInv (beginCommand s c cmd).sema (beginCommand s c cmd).ctx := by
  have hset : MeiInv s.sema (Function.update s.ctx c ⟨meiProg s cmd, false, .outside⟩) := by
    apply h.advance
    · intro hg
      exact Bool.noConfusion hg.1
    · intro hi
      exact absurd rfl hi
  cases cmd <;> exact hset

theorem meiStep_kept {s t : MeiSys κ} {e : MeiEvent κ} (h : MeiInv s.sema s.ctx)
    (hok : MeiDisciplined s e) (ht : meiStep s e = some t) : MeiInv t.sema t.ctx := by
  cases e with
  | call c cmd =>
    simp only [meiStep] at ht
    split at ht
    · cases Option.some.inj ht
      exact beginCommand_kept h c cmd
    · simp at ht
  | exec c =>
    simp only [meiStep] at ht
    simp only [MeiDisciplined] at hok
    split at ht
    next op rest holds hc =>
      rw [hc] at hok
      exact execOp_kept h hc (hok op rfl) ht
    next => simp at ht
  | signal c =>
    simp only [meiStep] at ht
    split at ht
    next rest holds hc =>
      cases Option.some.inj ht
      apply h.goto hc
      intro hu
      simp at hu
    next => simp at ht
  | write c =>
    simp only [meiStep] at ht
    split at ht
    next prog holds hc =>
      cases Option.some.inj ht
      apply h.advance
      · intro hg
        rw [hc]
        exact hg
      · intro _
        rw [hc]
        exact .inr (by simp [MeiCtx.InCmv])
    next => simp at ht
  | leave c timeout =>
    simp only [meiStep] at ht
    split at ht
    next op rest holds hc =>
      cases Option.some.inj ht
      apply h.advance
      · intro hg
        rw [hc]
        exact ⟨hg.1, List.mem_cons_of_mem op hg.2⟩
      · intro hi
        exact absurd rfl hi
    next => simp at ht
  | message modemReady =>
    simp only [meiStep] at ht
    split at ht
    · simp at ht
    split at ht
    · cases Option.some.inj ht
      exact h
    next hw =>
      split at ht
      next hm =>
        obtain ⟨h0, hn⟩ := hok hm (by simpa using hw)
        cases Option.some.inj ht
        apply h.setSema _ hn
        dsimp only
        omega
      next =>
        cases Option.some.inj ht
        exact h

/-- While the commands keep the discipline, CMV access is exclusive in every state. -/
theorem meiCmv_exclusive (es : List (MeiEvent κ)) (s : MeiSys κ)
    (hq : RunMeets meiStep MeiDisciplined (meiInit κ) es)
    (h : run meiStep (meiInit κ) es = some s) : MeiExclusive s := by
  have hinv : MeiInv s.sema s.ctx := run_invariant_of_meets meiStep_kept meiInit_inv hq h
  exact hinv.exclusive

/-- The modem is started and gets ready, then two contexts send one request each. -/
theorem meiCmv_exclusive_small :
    ∃ s, run meiStep (meiInit (Fin 2)) [.call 0 .writeImage, .exec 0, .exec 0,
        .call 0 (.start true), .exec 0, .exec 0, .exec 0, .exec 0, .message true,
        .call 0 .cmvWinhost, .call 1 .cmvWinhost, .exec 1, .exec 1, .write 1, .message false,
        .leave 1 false, .exec 1, .exec 0, .exec 0] = some s ∧
      (s.ctx 0).InCmv ∧ MeiExclusive s := by
  refine ⟨_, rfl, by decide, ?_⟩
  exact meiCmv_exclusive [.call 0 .writeImage, .exec 0, .exec 0, .call 0 (.start true), .exec 0,
    .exec 0, .exec 0, .exec 0, .message true, .call 0 .cmvWinhost, .call 1 .cmvWinhost, .exec 1,
    .exec 1, .write 1, .message false, .leave 1 false, .exec 1, .exec 0, .exec 0] _
    (by decide) rfl

/-- Started a second time without a reset in between, the modem frees the semaphore twice: its count
is 2 and two contexts enter `meiCMV`. The loop diagnostics command enters beside a holder. -/
theorem meiCmv_restart_not_exclusive :
    (∃ s, run meiStep (meiInit (Fin 2)) [.call 0 .writeImage, .exec 0, .exec 0,
        .call 0 (.start true), .exec 0, .exec 0, .exec 0, .exec 0, .message true,
        .call 0 (.start true), .exec 0, .exec 0, .exec 0, .exec 0, .exec 0, .exec 0,
        .message true] = some s ∧ s.sema = 2 ∧ ¬MeiExclusive s) ∧
    (∃ s, run meiStep (meiInit (Fin 2)) [.call 0 .writeImage, .exec 0, .exec 0,
        .call 0 (.start true), .exec 0, .exec 0, .exec 0, .exec 0, .message true,
        .call 0 (.start true), .exec 0, .exec 0, .exec 0, .exec 0, .exec 0, .exec 0,
        .message true, .call 0 .cmvWinhost, .exec 0, .exec 0, .call 1 .cmvWinhost, .exec 1,
        .exec 1] = some s ∧ (s.ctx 0).InCmv ∧ (s.ctx 1).InCmv ∧ ¬MeiExclusive s) ∧
    ∃ s, run meiStep (meiInit (Fin 2)) [.call 0 .cmvWinhost, .exec 0, .exec 0,
        .call 1 .loopDiagnosticModeComplete, .exec 1] = some s ∧
      (s.ctx 0).InCmv ∧ (s.ctx 1).InCmv ∧ ¬MeiExclusive s := by
  refine ⟨⟨_, rfl, rfl, ?_⟩, ⟨_, rfl, by decide, by decide, ?_⟩, _, rfl, by decide, by decide, ?_⟩
  · intro h
    exact absurd h.semaLe (by decide)
  · intro h
    exact absurd (h.alone 0 1 (by decide) (by decide)) (by decide)
  · intro h
    exact absurd (h.alone 0 1 (by decide) (by decide)) (by decide)

end DanubeBsp
