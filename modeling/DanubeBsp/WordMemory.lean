import Mathlib.Data.BitVec
import Mathlib.Logic.Function.Basic
import Mathlib.Data.List.Basic

namespace DanubeBsp

/-- A 32-bit machine word. -/
abbrev Word := BitVec 32

/-- The `n` cells of a memory from `pos` on. -/
def readBlock {α : Type*} (mem : Nat → α) (pos n : Nat) : List α :=
  (List.range n).map fun i => mem (pos + i)

/-- Copy a list cell by cell to ascending addresses. -/
def writeBlock {α : Type*} (mem : Nat → α) : Nat → List α → Nat → α
  | _, [] => mem
  | pos, w :: ws => writeBlock (Function.update mem pos w) (pos + 1) ws

/-- The memory holds the list at ascending addresses from `pos` on. -/
def BlockAt {α : Type*} (mem : Nat → α) : Nat → List α → Prop
  | _, [] => True
  | pos, w :: ws => mem pos = w ∧ BlockAt mem (pos + 1) ws

@[simp] theorem blockAt_nil {α : Type*} (mem : Nat → α) (pos : Nat) : BlockAt mem pos [] := trivial

theorem blockAt_append {α : Type*} {mem : Nat → α} {pos : Nat} {us vs : List α} :
    BlockAt mem pos (us ++ vs) ↔ BlockAt mem pos us ∧ BlockAt mem (pos + us.length) vs := by
  induction us generalizing pos with
  | nil => simp
  | cons u us ih =>
    have hp : pos + 1 + us.length = pos + (us.length + 1) := by omega
    simp only [List.cons_append, BlockAt, List.length_cons, ih, hp, and_assoc]

theorem blockAt_congr {α : Type*} {mem mem' : Nat → α} {pos : Nat} {ws : List α}
    (heq : ∀ i, pos ≤ i → i < pos + ws.length → mem' i = mem i) (h : BlockAt mem pos ws) :
    BlockAt mem' pos ws := by
  induction ws generalizing pos with
  | nil => trivial
  | cons w ws ih =>
    simp only [List.length_cons] at heq
    refine ⟨(heq pos (by omega) (by omega)).trans h.1, ih ?_ h.2⟩
    intro i hi hlt
    exact heq i (by omega) (by omega)

theorem readBlock_of_blockAt {α : Type*} {mem : Nat → α} {pos : Nat} {ws : List α}
    (h : BlockAt mem pos ws) : readBlock mem pos ws.length = ws := by
  induction ws generalizing pos with
  | nil => rfl
  | cons w ws ih =>
    have ht := ih h.2
    simp only [readBlock, List.length_cons, List.range_succ_eq_map, List.map_cons, List.map_map,
      Nat.add_zero, h.1, List.cons.injEq, true_and] at ht ⊢
    rw [← ht]
    simp [Function.comp_def, Nat.add_assoc, Nat.add_comm 1]

theorem writeBlock_outside {α : Type*} {mem : Nat → α} {pos i : Nat} {ws : List α}
    (h : i < pos ∨ pos + ws.length ≤ i) : writeBlock mem pos ws i = mem i := by
  induction ws generalizing mem pos with
  | nil => rfl
  | cons w ws ih =>
    simp only [List.length_cons] at h
    have hne : i ≠ pos := by omega
    rw [writeBlock, ih (by omega), Function.update_of_ne hne]

theorem blockAt_writeBlock {α : Type*} (mem : Nat → α) (pos : Nat) (ws : List α) :
    BlockAt (writeBlock mem pos ws) pos ws := by
  induction ws generalizing mem pos with
  | nil => trivial
  | cons w ws ih =>
    refine ⟨?_, ih _ _⟩
    rw [writeBlock, writeBlock_outside (.inl (by omega)), Function.update_self]

theorem writeBlock_append {α : Type*} (mem : Nat → α) (pos : Nat) (us vs : List α) :
    writeBlock (writeBlock mem pos us) (pos + us.length) vs = writeBlock mem pos (us ++ vs) := by
  induction us generalizing mem pos with
  | nil => rfl
  | cons u us ih =>
    have hp : pos + (us.length + 1) = pos + 1 + us.length := by omega
    rw [List.length_cons, hp]
    exact ih (Function.update mem pos u) (pos + 1)

theorem readBlock_length {α : Type*} (mem : Nat → α) (pos n : Nat) :
    (readBlock mem pos n).length = n := by
  simp [readBlock]

theorem readBlock_add {α : Type*} (mem : Nat → α) (pos m n : Nat) :
    readBlock mem pos (m + n) = readBlock mem pos m ++ readBlock mem (pos + m) n := by
  unfold readBlock
  rw [List.range_add, List.map_append, List.map_map]
  simp [Function.comp_def, Nat.add_assoc]

theorem readBlock_congr {α : Type*} {mem mem' : Nat → α} {pos n : Nat}
    (h : ∀ i, pos ≤ i → i < pos + n → mem' i = mem i) : readBlock mem' pos n = readBlock mem pos n := by
  unfold readBlock
  apply List.map_congr_left
  intro i hi
  have hlt := List.mem_range.mp hi
  exact h (pos + i) (by omega) (by omega)

/-- A copy behind what is kept from `pos` on. -/
theorem readBlock_writeBlock {α : Type*} (mem : Nat → α) (pos m : Nat) (ws : List α) :
    readBlock (writeBlock mem (pos + m) ws) pos (m + ws.length) = readBlock mem pos m ++ ws := by
  rw [readBlock_add, readBlock_of_blockAt (blockAt_writeBlock mem (pos + m) ws)]
  congr 1
  apply readBlock_congr
  intro i _ hi
  exact writeBlock_outside (.inl hi)

end DanubeBsp
