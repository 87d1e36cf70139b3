import Mathlib.Logic.Function.Basic
import DanubeBsp.Runs

namespace DanubeBsp

/-- A message of the modem: the reply to a request, named by the number of the `meiCMV` call, or an
autonomous indication. -/
inductive CmvMsg
  | reply (k : Nat)
  | indication (n : Nat)
  deriving DecidableEq

/-- Where the `meiCMV` call that holds `mei_sema` stands: `sent` after the mailbox write, `waiting`
until it tests `arcmsgav` for the last time, `timingOut` and `taking` in the two branches behind
that test. -/
inductive CmvPhase
  | idle
  | sent (k : Nat) (reply : Bool)
  | waiting (k : Nat)
  | timingOut (k : Nat)
  | taking (k : Nat)
  deriving DecidableEq

/-- The call that still waits for its reply. -/
def CmvPhase.wants : CmvPhase → Option Nat
  | .sent k true => some k
  | .waiting k => some k
  | .taking k => some k
  | _ => none

/-- What `meiCMV` returns; `success` with the message in `response`. -/
inductive CmvResult
  | success (response : Option CmvMsg)
  | noReply
  | failure
  | timeout
  deriving DecidableEq

/-- The flags and buffers of the CMV interface. `calls` counts the requests; `answered`, `results`
and `indicated` (the messages counted as indications, with the phase at that time) are history. -/
structure CmvSys where
  cmvWaiting : Bool
  arcmsgav : Bool
  cmvRxMsg : Option CmvMsg
  phase : CmvPhase
  calls : Nat
  answered : Nat → Bool
  results : List (Nat × CmvResult)
  indicated : List (CmvMsg × CmvPhase)

def cmvInit : CmvSys := ⟨false, false, none, .idle, 0, fun _ => false, [], []⟩

/-- `send` is the mailbox write of a new call; `ack` the wait for the modem to clear `MSGAV`; `test`
the test of `arcmsgav` after the sleep, which a wake-up, a timeout or a signal ends; `giveUp` and
`copy` the two ends; `interrupt` a message of the modem and `codeSwap` a code swap request. -/
inductive CmvEvent
  | send (reply : Bool)
  | ack (ok : Bool)
  | test
  | giveUp
  | copy
  | interrupt (m : CmvMsg)
  | codeSwap

/-- `mei_interrupt_arcmsgav` on a normal message. -/
def meiInterruptArcmsgav (s : CmvSys) (m : CmvMsg) : CmvSys :=
  let s := { s with cmvRxMsg := some m }
  if s.cmvWaiting then { s with arcmsgav := true, cmvWaiting := false }
  else { s with indicated := s.indicated ++ [(m, s.phase)] }

/-- The modem answers a request that it was sent at most once. -/
def deliver (s : CmvSys) : CmvMsg → Option CmvSys
  | .reply k =>
    if k < s.calls ∧ s.answered k = false then
      some (meiInterruptArcmsgav { s with answered := Function.update s.answered k true } (.reply k))
    else none
  | .indication n => some (meiInterruptArcmsgav s (.indication n))

def CmvSys.returns (s : CmvSys) (k : Nat) (r : CmvResult) : CmvSys :=
  { s with phase := .idle, results := s.results ++ [(k, r)] }

def cmvStep (s : CmvSys) : CmvEvent → Option CmvSys
  | .send reply =>
    if s.phase = .idle then
      some { s with phase := .sent s.calls reply, calls := s.calls + 1, cmvWaiting := true }
    else none
  | .ack ok =>
    match s.phase with
    | .sent k reply =>
      if !ok then some (s.returns k .failure)
      else if !reply then some (s.returns k .noReply)
      else some { s with phase := .waiting k }
    | _ => none
  | .test =>
    match s.phase with
    | .waiting k =>
      if s.arcmsgav then some { s with arcmsgav := false, phase := .taking k }
      else some { s with phase := .timingOut k }
    | _ => none
  | .giveUp =>
    match s.phase with
    | .timingOut k => some ({ s with cmvWaiting := false, arcmsgav := false }.returns k .timeout)
    | _ => none
  | .copy =>
    match s.phase with
    | .taking k => some (s.returns k (.success s.cmvRxMsg))
    | _ => none
  | .interrupt m => deliver s m
  | .codeSwap => some s

/-- A call that returns a message returns the reply to its own request, and no reply is counted as an
indication while its requester waits. -/
structure CmvMatched (s : CmvSys) : Prop where
  own : ∀ k m, (k, CmvResult.success m) ∈ s.results → m = some (.reply k)
  counted : ∀ k p, (CmvMsg.reply k, p) ∈ s.indicated → p.wants ≠ some k

/-- A call that wants a reply starts without a message left over, and until it returns only the reply
to it raises the interrupt. -/
def CmvQuiet (s : CmvSys) : CmvEvent → Prop
  | .send reply => reply = true → s.arcmsgav = false
  | .interrupt m => ∀ k, s.phase.wants = some k → m = .reply k
  | _ => True

instance (s : CmvSys) : (e : CmvEvent) → Decidable (CmvQuiet s e)
  | .send _ => inferInstanceAs (Decidable (_ → _))
  | .interrupt m =>
    match h : s.phase.wants with
    | none => .isTrue fun k hk => by simp [h] at hk
    | some k => decidable_of_iff (m = .reply k) ⟨fun he j hj => by simp_all, fun hm => hm k h⟩
  | .ack _ => .isTrue trivial
  | .test => .isTrue trivial
  | .giveUp => .isTrue trivial
  | .copy => .isTrue trivial
  | .codeSwap => .isTrue trivial

/-- The flags while a call wants its reply: still waiting, or the reply has come. -/
def AwaitOk (s : CmvSys) (k : Nat) : Prop :=
  (s.cmvWaiting = true ∧ s.arcmsgav = false ∧ s.answered k = false) ∨
    (s.cmvWaiting = false ∧ s.arcmsgav = true ∧ s.answered k = true ∧ s.cmvRxMsg = some (.reply k))

def PhaseKept (s : CmvSys) : Prop :=
  match s.phase with
  | .sent k true => AwaitOk s k
  | .waiting k => AwaitOk s k
  | .taking k => s.answered k = true ∧ s.cmvRxMsg = some (.reply k)
  | _ => True

structure CmvInv (s : CmvSys) : Prop where
  matched : CmvMatched s
  fresh : ∀ k, s.calls ≤ k → s.answered k = false
  phase : PhaseKept s

theorem cmvInit_inv : CmvInv cmvInit := by
  refine ⟨⟨?_, ?_⟩, fun _ _ => rfl, trivial⟩
  · simp [cmvInit]
  · simp [cmvInit]

theorem CmvInv.returns {s : CmvSys} (h : CmvInv s) {k : Nat} {r : CmvResult}
    (hr : ∀ m, r = .success m → m = some (.reply k)) : CmvInv (s.returns k r) := by
  refine ⟨⟨?_, h.matched.counted⟩, h.fresh, trivial⟩
  intro j m hm
  rcases List.mem_append.mp hm with hm | hm
  · exact h.matched.own j m hm
  · obtain ⟨rfl, hres⟩ := Prod.mk.inj (List.mem_singleton.mp hm)
    exact hr m hres.symm

theorem CmvInv.send {s : CmvSys} (h : CmvInv s) {reply : Bool}
    (hq : reply = true → s.arcmsgav = false) :
    CmvInv { s with phase := .sent s.calls reply, calls := s.calls + 1, cmvWaiting := true } := by
  refine ⟨⟨h.matched.own, h.matched.counted⟩, ?_, ?_⟩
  · intro k hk
    have hk : s.calls + 1 ≤ k := hk
    exact h.fresh k (by omega)
  · cases reply with
    | false => trivial
    | true => exact .inl ⟨rfl, hq rfl, h.fresh s.calls (Nat.le_refl _)⟩

theorem phaseKept_of_wants_none {s : CmvSys} (hw : s.phase.wants = none) : PhaseKept s := by
  unfold PhaseKept
  cases hp : s.phase with
  | sent k reply =>
    cases reply with
    | true => simp [hp, CmvPhase.wants] at hw
    | false => trivial
  | waiting k => simp [hp, CmvPhase.wants] at hw
  | taking k => simp [hp, CmvPhase.wants] at hw
  | idle => trivial
  | timingOut k => trivial

/-- A message that comes while no call wants a reply touches no result. -/
theorem CmvInv.interruptIdle {s : CmvSys} (h : CmvInv s) (hw : s.phase.wants = none) (m : CmvMsg) :
    CmvInv (meiInterruptArcmsgav s m) := by
  unfold meiInterruptArcmsgav
  dsimp only
  split
  next => exact ⟨⟨h.matched.own, h.matched.counted⟩, h.fresh, phaseKept_of_wants_none hw⟩
  next =>
    refine ⟨⟨h.matched.own, ?_⟩, h.fresh, phaseKept_of_wants_none hw⟩
    intro k p hp
    rcases List.mem_append.mp hp with hp | hp
    · exact h.matched.counted k p hp
    · obtain ⟨-, rfl⟩ := Prod.mk.inj (List.mem_singleton.mp hp)
      rw [hw]
      simp

theorem CmvInv.answer {s : CmvSys} (h : CmvInv s) (hw : s.phase.wants = none) {k : Nat}
    (hk : k < s.calls) : CmvInv { s with answered := Function.update s.answered k true } := by
  refine ⟨⟨h.matched.own, h.matched.counted⟩, ?_, phaseKept_of_wants_none hw⟩
  intro j hj
  have hj : s.calls ≤ j := hj
  show Function.update s.answered k true j = false
  rw [Function.update_of_ne (by omega)]
  exact h.fresh j hj

/-- The waiting call and its reply: the reply is stored for it, and it cannot come again. -/
theorem CmvInv.awaited {s : CmvSys} (h : CmvInv s) {k : Nat} (hw : s.phase.wants = some k)
    (hk : k < s.calls) (ha : s.answered k = false) :
    CmvInv (meiInterruptArcmsgav { s with answered := Function.update s.answered k true }
      (.reply k)) := by
  have hph := h.phase
  have hawait : AwaitOk s k ∧ (s.phase = .sent k true ∨ s.phase = .waiting k) := by
    unfold PhaseKept at hph
    cases hp : s.phase with
    | sent j reply =>
      cases reply with
      | true =>
        simp only [hp, CmvPhase.wants, Option.some.injEq] at hw hph
        subst hw
        exact ⟨hph, .inl rfl⟩
      | false => simp [hp, CmvPhase.wants] at hw
    | waiting j =>
      simp only [hp, CmvPhase.wants, Option.some.injEq] at hw hph
      subst hw
      exact ⟨hph, .inr rfl⟩
    | taking j =>
      simp only [hp, CmvPhase.wants, Option.some.injEq] at hw hph
      subst hw
      rw [ha] at hph
      exact absurd hph.1 Bool.false_ne_true
    | idle => simp [hp, CmvPhase.wants] at hw
    | timingOut j => simp [hp, CmvPhase.wants] at hw
  obtain ⟨hawait, hphase⟩ := hawait
  have hwait : s.cmvWaiting = true := by
    rcases hawait with hwt | hwt
    · exact hwt.1
    · rw [ha] at hwt
      exact absurd hwt.2.2.1 Bool.false_ne_true
  unfold meiInterruptArcmsgav
  dsimp only
  rw [if_pos hwait]
  refine ⟨⟨h.matched.own, h.matched.counted⟩, ?_, ?_⟩
  · intro j hj
    have hj : s.calls ≤ j := hj
    show Function.update s.answered k true j = false
    rw [Function.update_of_ne (by omega)]
    exact h.fresh j hj
  · have hdone : ∀ t : CmvSys, t.cmvWaiting = false → t.arcmsgav = true →
        t.answered = Function.update s.answered k true → t.cmvRxMsg = some (.reply k) →
        AwaitOk t k := by
      intro t h₁ h₂ h₃ h₄
      exact .inr ⟨h₁, h₂, by rw [h₃, Function.update_self], h₄⟩
    unfold PhaseKept
    rcases hphase with hp | hp
    · simp only [hp]
      exact hdone _ rfl rfl rfl rfl
    · simp only [hp]
      exact hdone _ rfl rfl rfl rfl

theorem CmvInv.deliver {s t : CmvSys} (h : CmvInv s) {m : CmvMsg}
    (hq : ∀ k, s.phase.wants = some k → m = .reply k) (hs : deliver s m = some t) : CmvInv t := by
  cases m with
  | reply k =>
    simp only [DanubeBsp.deliver] at hs
    split at hs
    next hk =>
      cases Option.some.inj hs
      cases hw : s.phase.wants with
      | none => exact (h.answer hw hk.1).interruptIdle hw (.reply k)
      | some j =>
        cases hq j hw
        exact h.awaited hw hk.1 hk.2
    next => simp at hs
  | indication n =>
    cases Option.some.inj hs
    cases hw : s.phase.wants with
    | none => exact h.interruptIdle hw (.indication n)
    | some j => cases hq j hw

theorem cmvStep_kept {s t : CmvSys} {e : CmvEvent} (h : CmvInv s) (hq : CmvQuiet s e)
    (hs : cmvStep s e = some t) : CmvInv t := by
  have hph := h.phase
  unfold PhaseKept at hph
  cases e with
  | send reply =>
    simp only [cmvStep] at hs
    split at hs
    next =>
      cases Option.some.inj hs
      exact h.send hq
    next => simp at hs
  | interrupt m => exact h.deliver hq hs
  | codeSwap =>
    cases Option.some.inj hs
    exact h
  | ack ok =>
    simp only [cmvStep] at hs
    cases hp : s.phase with
    | sent k reply =>
      simp only [hp] at hs hph
      cases ok with
      | false =>
        cases Option.some.inj hs
        exact h.returns (by simp)
      | true =>
        cases reply with
        | false =>
          cases Option.some.inj hs
          exact h.returns (by simp)
        | true =>
          cases Option.some.inj hs
          exact ⟨⟨h.matched.own, h.matched.counted⟩, h.fresh, hph⟩
    | idle => simp [hp] at hs
    | waiting k => simp [hp] at hs
    | timingOut k => simp [hp] at hs
    | taking k => simp [hp] at hs
  | test =>
    simp only [cmvStep] at hs
    cases hp : s.phase with
    | waiting k =>
      simp only [hp] at hs hph
      cases ha : s.arcmsgav with
      | true =>
        simp only [ha, if_true, Option.some.injEq] at hs
        subst hs
        rcases hph with hph | hph
        · rw [ha] at hph
          exact absurd hph.2.1 (by simp)
        · exact ⟨⟨h.matched.own, h.matched.counted⟩, h.fresh, hph.2.2⟩
      | false =>
        simp only [ha, Bool.false_eq_true, if_false, Option.some.injEq] at hs
        subst hs
        exact ⟨⟨h.matched.own, h.matched.counted⟩, h.fresh, trivial⟩
    | idle => simp [hp] at hs
    | sent k reply => simp [hp] at hs
    | timingOut k => simp [hp] at hs
    | taking k => simp [hp] at hs
  | giveUp =>
    simp only [cmvStep] at hs
    cases hp : s.phase with
    | timingOut k =>
      simp only [hp, Option.some.injEq] at hs
      subst hs
      apply CmvInv.returns _ (by simp)
      refine ⟨⟨h.matched.own, h.matched.counted⟩, h.fresh, ?_⟩
      exact phaseKept_of_wants_none (by simp [CmvPhase.wants])
    | idle => simp [hp] at hs
    | sent k reply => simp [hp] at hs
    | waiting k => simp [hp] at hs
    | taking k => simp [hp] at hs
  | copy =>
    simp only [cmvStep] at hs
    cases hp : s.phase with
    | taking k =>
      simp only [hp] at hs hph
      cases Option.some.inj hs
      apply h.returns
      intro m hm
      cases hm
      exact hph.2
    | idle => simp [hp] at hs
    | sent k reply => simp [hp] at hs
    | waiting k => simp [hp] at hs
    | timingOut k => simp [hp] at hs

/-- While calls start without a leftover message and only their own replies interrupt them, every
returned message is the reply to the request. -/
theorem meiCmv_replies_matched (es : List CmvEvent) (s : CmvSys)
    (hq : RunMeets cmvStep CmvQuiet cmvInit es) (h : run cmvStep cmvInit es = some s) :
    CmvMatched s :=
  CmvInv.matched (run_invariant_of_meets cmvStep_kept cmvInit_inv hq h)

/-- A read is answered, and an indication comes afterwards. -/
theorem meiCmv_replies_matched_small :
    ∃ s, run cmvStep cmvInit [.send true, .ack true, .interrupt (.reply 0), .test, .copy,
        .interrupt (.indication 7)] = some s ∧
      s.results = [(0, .success (some (.reply 0)))] ∧ CmvMatched s := by
  refine ⟨_, rfl, by decide, ?_⟩
  exact meiCmv_replies_matched [.send true, .ack true, .interrupt (.reply 0), .test, .copy,
    .interrupt (.indication 7)] _ (by decide) rfl

/-- The first request times out and its late reply is returned for the second. An indication that
comes in time is returned as the reply too. -/
theorem meiCmv_late_reply_returned :
    (∃ s, run cmvStep cmvInit [.send true, .ack true, .test, .giveUp, .send true, .ack true,
        .interrupt (.reply 0), .test, .copy] = some s ∧
      s.results = [(0, .timeout), (1, .success (some (.reply 0)))] ∧ ¬CmvMatched s) ∧
    ∃ s, run cmvStep cmvInit [.send true, .ack true, .interrupt (.indication 7), .test, .copy] =
        some s ∧ s.results = [(0, .success (some (.indication 7)))] ∧ ¬CmvMatched s := by
  constructor
  · refine ⟨_, rfl, by decide, ?_⟩
    intro h
    exact absurd (h.own 1 (some (.reply 0)) (by decide)) (by decide)
  · refine ⟨_, rfl, by decide, ?_⟩
    intro h
    exact absurd (h.own 0 (some (.indication 7)) (by decide)) (by decide)

end DanubeBsp
