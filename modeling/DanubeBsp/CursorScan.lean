import Mathlib.Data.List.Basic
import Mathlib.Logic.Function.Basic

namespace DanubeBsp

/-- What a scan of a text does: it moves its cursor, with so many cells left, or it loads or stores
a cell. -/
inductive CursorEvent where
  | move (p len : Nat)
  | load (i : Nat)
  | store (i : Nat)

/-- The event keeps the cursor and the cells left together at `stop`, and touches nothing behind. -/
def CursorEvent.Ok (stop : Nat) : CursorEvent → Prop
  | .move p len => p + len = stop
  | .load i => i ≤ stop
  | .store i => i ≤ stop

/-- The event touches only the first `size` cells. -/
def CursorEvent.Inside (size : Nat) : CursorEvent → Prop
  | .move _ _ => True
  | .load i => i < size
  | .store i => i < size

theorem CursorEvent.Ok.inside {stop size : Nat} (hlt : stop < size) {e : CursorEvent}
    (h : e.Ok stop) : e.Inside size := by
  cases e with
  | move => trivial
  | load i => exact Nat.lt_of_le_of_lt h hlt
  | store i => exact Nat.lt_of_le_of_lt h hlt

/-- The cells of a text, and what was done to it. -/
structure Tape (α : Type*) where
  cells : Nat → α
  log : List CursorEvent

namespace Tape

variable {α : Type*}

def move (t : Tape α) (p len : Nat) : Tape α := { t with log := t.log ++ [.move p len] }

def load (t : Tape α) (i : Nat) : Tape α := { t with log := t.log ++ [.load i] }

def store (t : Tape α) (i : Nat) (a : α) : Tape α :=
  { cells := Function.update t.cells i a, log := t.log ++ [.store i] }

@[simp] theorem move_cells (t : Tape α) (p len : Nat) : (t.move p len).cells = t.cells := rfl

@[simp] theorem load_cells (t : Tape α) (i : Nat) : (t.load i).cells = t.cells := rfl

@[simp] theorem store_cells (t : Tape α) (i : Nat) (a : α) :
    (t.store i a).cells = Function.update t.cells i a := rfl

/-- `u` comes from `t` by events that are in order for a text that ends at `stop`. -/
def Follows (stop : Nat) (t u : Tape α) : Prop :=
  ∃ es, u.log = t.log ++ es ∧ ∀ e ∈ es, e.Ok stop

variable {stop : Nat} {t u v : Tape α}

theorem Follows.refl (stop : Nat) (t : Tape α) : Follows stop t t :=
  ⟨[], (List.append_nil _).symm, fun _ h => absurd h List.not_mem_nil⟩

theorem Follows.trans (h : Follows stop t u) (h' : Follows stop u v) : Follows stop t v := by
  obtain ⟨es, hes, hok⟩ := h
  obtain ⟨es', hes', hok'⟩ := h'
  refine ⟨es ++ es', by rw [hes', hes, List.append_assoc], fun e he => ?_⟩
  rcases List.mem_append.mp he with h | h
  · exact hok e h
  · exact hok' e h

theorem Follows.event {e : CursorEvent} (h : u.log = t.log ++ [e]) (he : e.Ok stop) :
    Follows stop t u :=
  ⟨[e], h, fun e' he' => by rw [List.mem_singleton.mp he']; exact he⟩

theorem Follows.load {i : Nat} (hi : i ≤ stop) : Follows stop t (t.load i) := .event rfl hi

theorem Follows.store {i : Nat} (a : α) (hi : i ≤ stop) : Follows stop t (t.store i a) :=
  .event rfl hi

theorem Follows.move {p len : Nat} (h : p + len = stop) : Follows stop t (t.move p len) :=
  .event rfl h

theorem Follows.mem (h : Follows stop t u) {e : CursorEvent} (he : e ∈ t.log) : e ∈ u.log := by
  obtain ⟨es, hes, -⟩ := h
  rw [hes]
  exact List.mem_append_left _ he

theorem Follows.all (h : Follows stop t u) (ht : ∀ e ∈ t.log, e.Ok stop) :
    ∀ e ∈ u.log, e.Ok stop := by
  obtain ⟨es, hes, hok⟩ := h
  intro e he
  rw [hes] at he
  rcases List.mem_append.mp he with he | he
  · exact ht e he
  · exact hok e he

end Tape

/-- A text with a cursor, and the count of cells from the cursor to the end. -/
structure Cursor (α : Type*) where
  tape : Tape α
  p : Nat
  len : Nat

/-- The loop `while (len && test(*p)) { step; p++; len--; }`. -/
def scanWhile {α β : Type*} (test : α → Bool) (step : β → α → β) :
    Nat → Tape α → Nat → β → Cursor α × β
  | 0, t, p, b => (⟨t, p, 0⟩, b)
  | len + 1, t, p, b =>
    if test (t.cells p) then
      scanWhile test step len ((t.load p).move (p + 1) len) (p + 1) (step b (t.cells p))
    else (⟨t.load p, p, len + 1⟩, b)

def Cursor.scan {α β : Type*} (c : Cursor α) (test : α → Bool) (step : β → α → β) (b : β) :
    Cursor α × β :=
  scanWhile test step c.len c.tape c.p b

/-- How a scanner may move a cursor. -/
structure CursorStep {α : Type*} (c d : Cursor α) : Prop where
  stop : d.p + d.len = c.p + c.len
  len : d.len ≤ c.len
  follows : Tape.Follows (c.p + c.len) c.tape d.tape

theorem CursorStep.trans {α : Type*} {c d e : Cursor α} (h : CursorStep c d)
    (h' : CursorStep d e) : CursorStep c e where
  stop := h'.stop.trans h.stop
  len := Nat.le_trans h'.len h.len
  follows := h.follows.trans (h.stop ▸ h'.follows)

theorem CursorStep.refl {α : Type*} (c : Cursor α) : CursorStep c c :=
  ⟨rfl, Nat.le_refl _, .refl _ _⟩

theorem scanWhile_spec {α β : Type*} (test : α → Bool) (step : β → α → β) (len : Nat) (t : Tape α)
    (p : Nat) (b : β) :
    CursorStep ⟨t, p, len⟩ (scanWhile test step len t p b).1 ∧
      (scanWhile test step len t p b).1.tape.cells = t.cells ∧
      ((scanWhile test step len t p b).1.len = 0 ∨
        test (t.cells (scanWhile test step len t p b).1.p) = false) := by
  induction len generalizing t p b with
  | zero => exact ⟨CursorStep.refl _, rfl, Or.inl rfl⟩
  | succ len ih =>
    rw [scanWhile]
    by_cases ht : test (t.cells p)
    · rw [if_pos ht]
      obtain ⟨hstep, hcells, hend⟩ :=
        ih ((t.load p).move (p + 1) len) (p + 1) (step b (t.cells p))
      refine ⟨?_, hcells, hend⟩
      have hone : CursorStep ⟨t, p, len + 1⟩ ⟨(t.load p).move (p + 1) len, p + 1, len⟩ :=
        { stop := by simp only; omega
          len := Nat.le_succ len
          follows := (Tape.Follows.load (Nat.le_add_right _ _)).trans
            (.move (by simp only; omega)) }
      exact hone.trans hstep
    · rw [if_neg ht]
      refine ⟨⟨rfl, Nat.le_refl _, .load (Nat.le_add_right _ _)⟩, rfl, Or.inr ?_⟩
      exact Bool.not_eq_true _ ▸ ht

/-- A step that counts, counts what the scan takes from the cells left. -/
theorem scanWhile_count {α : Type*} (test : α → Bool) (len : Nat) (t : Tape α) (p n : Nat) :
    (scanWhile test (fun k _ => k + 1) len t p n).2 +
      (scanWhile test (fun k _ => k + 1) len t p n).1.len = n + len := by
  induction len generalizing t p n with
  | zero => rfl
  | succ len ih =>
    rw [scanWhile]
    by_cases ht : test (t.cells p)
    · rw [if_pos ht, ih]
      omega
    · rw [if_neg ht]

section Scan

variable {α β : Type*} (c : Cursor α) (test : α → Bool) (step : β → α → β) (b : β)

theorem Cursor.scan_step : CursorStep c (c.scan test step b).1 :=
  (scanWhile_spec test step c.len c.tape c.p b).1

theorem Cursor.scan_cells : (c.scan test step b).1.tape.cells = c.tape.cells :=
  (scanWhile_spec test step c.len c.tape c.p b).2.1

theorem Cursor.scan_end :
    (c.scan test step b).1.len = 0 ∨ test (c.tape.cells (c.scan test step b).1.p) = false :=
  (scanWhile_spec test step c.len c.tape c.p b).2.2

theorem Cursor.scan_count (n : Nat) :
    (c.scan test (fun k _ => k + 1) n).2 + (c.scan test (fun k _ => k + 1) n).1.len = n + c.len :=
  scanWhile_count test c.len c.tape c.p n

variable {c test}

/-- A scan that may go on at the cursor uses it up. -/
theorem Cursor.scan_progress (hlen : c.len ≠ 0) (ht : test (c.tape.cells c.p) = true) :
    (c.scan test step b).1.len < c.len := by
  obtain ⟨tape, p, len⟩ := c
  obtain ⟨n, rfl⟩ := Nat.exists_eq_succ_of_ne_zero hlen
  show (scanWhile test step (n + 1) tape p b).1.len < n + 1
  rw [scanWhile, if_pos ht]
  exact Nat.lt_succ_of_le (scanWhile_spec test step n _ _ _).1.len

end Scan

end DanubeBsp
