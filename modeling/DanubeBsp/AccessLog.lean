import Mathlib.Control.Basic
import Mathlib.Data.List.Basic

namespace DanubeBsp

/-- A program that logs what it touches and may stop early. -/
structure Logged (τ ε α : Type) where
  log : List τ
  result : Except ε α

namespace Logged

variable {τ ε α β : Type}

def done (a : α) : Logged τ ε α := ⟨[], .ok a⟩

def andThen (c : Logged τ ε α) (f : α → Logged τ ε β) : Logged τ ε β :=
  match c.result with
  | .error e => ⟨c.log, .error e⟩
  | .ok a => ⟨c.log ++ (f a).log, (f a).result⟩

instance : Monad (Logged τ ε) where
  pure := done
  bind := andThen

def touch (t : τ) : Logged τ ε Unit := ⟨[t], .ok ()⟩

def halt (e : ε) : Logged τ ε α := ⟨[], .error e⟩

/-- Everything that `c` touches is in `P`, and a result that it has in `Q`. -/
def Within (P : τ → Prop) (c : Logged τ ε α) (Q : α → Prop) : Prop :=
  (∀ t ∈ c.log, P t) ∧ ∀ a, c.result = .ok a → Q a

section Rules

variable {P : τ → Prop} {Q : β → Prop}

theorem within_pure {R : α → Prop} (a : α) :
    Within P (pure a : Logged τ ε α) R ↔ R a := by
  constructor
  · intro h
    exact h.2 a rfl
  · intro h
    refine ⟨fun t ht => absurd ht List.not_mem_nil, ?_⟩
    intro b hb
    cases hb
    exact h

theorem within_touch {R : Unit → Prop} (t : τ) :
    Within P (touch t : Logged τ ε Unit) R ↔ P t ∧ R () := by
  constructor
  · intro h
    exact ⟨h.1 t List.mem_cons_self, h.2 () rfl⟩
  · intro h
    refine ⟨?_, fun _ _ => h.2⟩
    intro t' ht'
    rw [List.mem_singleton.mp ht']
    exact h.1

theorem within_halt {R : α → Prop} (e : ε) : Within P (halt e : Logged τ ε α) R := by
  refine ⟨fun t ht => absurd ht List.not_mem_nil, ?_⟩
  intro a ha
  cases ha

theorem within_bind (c : Logged τ ε α) (f : α → Logged τ ε β) :
    Within P (c >>= f) Q ↔ Within P c fun a => Within P (f a) Q := by
  obtain ⟨log, result⟩ := c
  cases result with
  | error e =>
    constructor
    · intro h
      refine ⟨h.1, ?_⟩
      intro a ha
      cases ha
    · intro h
      refine ⟨h.1, ?_⟩
      intro b hb
      cases hb
  | ok a =>
    constructor
    · intro h
      refine ⟨fun t ht => h.1 t (List.mem_append_left _ ht), ?_⟩
      intro a' ha'
      cases ha'
      exact ⟨fun t ht => h.1 t (List.mem_append_right _ ht), h.2⟩
    · intro h
      obtain ⟨hlog, hrest⟩ := h
      refine ⟨?_, (hrest a rfl).2⟩
      intro t ht
      obtain hold | hnew := List.mem_append.mp ht
      · exact hlog t hold
      · exact (hrest a rfl).1 t hnew

theorem within_ite {R : α → Prop} {p : Prop} [Decidable p] {c d : Logged τ ε α} {A B : Prop}
    (hc : Within P c R ↔ A) (hd : Within P d R ↔ B) :
    Within P (if p then c else d) R ↔ if p then A else B := by
  by_cases hp : p
  · rw [if_pos hp, if_pos hp]
    exact hc
  · rw [if_neg hp, if_neg hp]
    exact hd

theorem within_true {c : Logged τ ε α} : Within P c (fun _ => True) ↔ ∀ t ∈ c.log, P t :=
  and_iff_left fun _ _ => trivial

theorem within_congr {c : Logged τ ε α} {R S : α → Prop} (h : ∀ a, R a ↔ S a) :
    Within P c R ↔ Within P c S := by
  have heq : R = S := funext fun a => propext (h a)
  rw [heq]

end Rules

/-- `c` touches at most `n` things. -/
def AtMost (n : Nat) (c : Logged τ ε α) : Prop := c.log.length ≤ n

theorem atMost_pure (n : Nat) (a : α) : AtMost n (pure a : Logged τ ε α) := Nat.zero_le n

theorem atMost_touch (t : τ) : AtMost 1 (touch t : Logged τ ε Unit) := Nat.le_refl 1

theorem atMost_halt (n : Nat) (e : ε) : AtMost n (halt e : Logged τ ε α) := Nat.zero_le n

theorem AtMost.mono {c : Logged τ ε α} {m n : Nat} (h : AtMost m c) (hle : m ≤ n) : AtMost n c :=
  Nat.le_trans h hle

theorem atMost_bind {c : Logged τ ε α} {f : α → Logged τ ε β} {m n : Nat} (hc : AtMost m c)
    (hf : ∀ a, c.result = .ok a → AtMost n (f a)) : AtMost (m + n) (c >>= f) := by
  obtain ⟨log, result⟩ := c
  cases result with
  | error e => exact Nat.le_trans hc (Nat.le_add_right m n)
  | ok a =>
    show (log ++ (f a).log).length ≤ m + n
    rw [List.length_append]
    exact Nat.add_le_add hc (hf a rfl)

end Logged

end DanubeBsp
