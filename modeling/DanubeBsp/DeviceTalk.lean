import Mathlib.Control.Basic
import Mathlib.Data.List.Basic

namespace DanubeBsp

/-- One access to a register of a device, with the value that goes over the bus. -/
inductive RegAccess (A V : Type) where
  | read (addr : A) (value : V)
  | write (addr : A) (value : V)
  deriving DecidableEq

/-- What a program over device registers has done: its accesses and, if it does not wait for an
answer any more, its result with the answers left. -/
structure TalkRun (A V α : Type) where
  accesses : List (RegAccess A V)
  outcome : Option (α × List V)

/-- A program over device registers. The list has what the device answers to the reads. -/
def Talk (A V α : Type) : Type := List V → TalkRun A V α

namespace Talk

variable {A V α β γ : Type}

def done (a : α) : Talk A V α := fun answers => ⟨[], some (a, answers)⟩

def TalkRun.before (accesses : List (RegAccess A V)) (r : TalkRun A V α) : TalkRun A V α :=
  ⟨accesses ++ r.accesses, r.outcome⟩

def andThen (p : Talk A V α) (f : α → Talk A V β) : Talk A V β := fun answers =>
  match (p answers).outcome with
  | none => ⟨(p answers).accesses, none⟩
  | some (a, rest) => TalkRun.before (p answers).accesses (f a rest)

instance : Monad (Talk A V) where
  pure := done
  bind := andThen

def readReg (addr : A) : Talk A V V
  | [] => ⟨[], none⟩
  | v :: answers => ⟨[.read addr v], some (v, answers)⟩

def writeReg (addr : A) (value : V) : Talk A V Unit := fun answers =>
  ⟨[.write addr value], some ((), answers)⟩

/-- A register is read until the value is not busy, and that value is the result. -/
def pollReg (busy : V → Bool) (addr : A) : Talk A V V
  | [] => ⟨[], none⟩
  | v :: answers =>
    if busy v then TalkRun.before [.read addr v] (pollReg busy addr answers)
    else ⟨[.read addr v], some (v, answers)⟩

/-- The registers are written one after the other. -/
def writeRegs : List (A × V) → Talk A V Unit
  | [] => pure ()
  | (addr, value) :: rest => do
    writeReg addr value
    writeRegs rest

@[simp] theorem before_nil (r : TalkRun A V α) : TalkRun.before [] r = r := rfl

theorem before_before (l m : List (RegAccess A V)) (r : TalkRun A V α) :
    TalkRun.before l (TalkRun.before m r) = TalkRun.before (l ++ m) r := by
  simp [TalkRun.before, List.append_assoc]

theorem andThen_assoc (p : Talk A V α) (f : α → Talk A V β) (g : β → Talk A V γ) :
    andThen (andThen p f) g = andThen p fun a => andThen (f a) g := by
  funext answers
  unfold andThen
  cases hp : (p answers).outcome with
  | none => rfl
  | some ar =>
    obtain ⟨a, rest⟩ := ar
    dsimp only [TalkRun.before]
    cases hf : (f a rest).outcome with
    | none => rfl
    | some br =>
      obtain ⟨b, rest'⟩ := br
      exact (before_before (p answers).accesses (f a rest).accesses (g b rest')).symm

instance : LawfulMonad (Talk A V) := LawfulMonad.mk' _
  (fun p => by
    funext answers
    show andThen p _ answers = _
    unfold andThen
    cases hp : (p answers).outcome with
    | none => exact congrArg (TalkRun.mk _) hp.symm
    | some ar =>
      show TalkRun.mk ((p answers).accesses ++ []) (some ar) = _
      rw [List.append_nil, ← hp])
  (fun a f => rfl)
  (fun p f g => andThen_assoc p f g)

end Talk

end DanubeBsp
