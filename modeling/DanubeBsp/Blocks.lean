import Mathlib.Data.List.Pairwise
import Mathlib.Data.List.Range
import Mathlib.Algebra.Order.Ring.Int
import Mathlib.Tactic.Ring

namespace DanubeBsp

/-- A block of memory. -/
structure Block where
  start : Int
  length : Int
  deriving DecidableEq

namespace Block

def Has (k : Block) (x : Int) : Prop := k.start ≤ x ∧ x < k.start + k.length

def Inside (k : Block) (a b : Int) : Prop := a ≤ k.start ∧ k.start + k.length ≤ b

def Before (k l : Block) : Prop := k.start + k.length ≤ l.start

end Block

/-- Each block starts where the one before it ends, the first at `a`, and the last ends at `b`. -/
def Consecutive (a b : Int) : List Block → Prop
  | [] => a = b
  | k :: ks => k.start = a ∧ Consecutive (a + k.length) b ks

section Consecutive

variable {a b m : Int} {ks : List Block}

/-- Blocks of one length end at a multiple of it. -/
theorem Consecutive.end_eq (h : Consecutive a b ks) (hm : ∀ k ∈ ks, k.length = m) :
    b = a + ks.length * m := by
  induction ks generalizing a with
  | nil =>
    have hab : a = b := h
    simp [hab]
  | cons k ks ih =>
    have hk : k.length = m := hm k List.mem_cons_self
    have hrest := ih h.2 fun l hl => hm l (List.mem_cons_of_mem k hl)
    rw [hrest, hk, List.length_cons]
    push_cast
    ring

theorem Consecutive.start_le (h : Consecutive a b ks) (hpos : ∀ k ∈ ks, 0 ≤ k.length) :
    a ≤ b ∧ ∀ k ∈ ks, k.Inside a b := by
  induction ks generalizing a with
  | nil => exact ⟨le_of_eq h, fun k hk => absurd hk List.not_mem_nil⟩
  | cons k ks ih =>
    have hk : 0 ≤ k.length := hpos k List.mem_cons_self
    have hstart := h.1
    obtain ⟨hle, hin⟩ := ih h.2 fun l hl => hpos l (List.mem_cons_of_mem k hl)
    refine ⟨by omega, ?_⟩
    intro l hl
    rcases List.mem_cons.mp hl with heq | hl
    · rw [heq]
      exact ⟨by omega, by omega⟩
    · have hinl := hin l hl
      exact ⟨by have := hinl.1; omega, hinl.2⟩

theorem Consecutive.pairwise (h : Consecutive a b ks) (hpos : ∀ k ∈ ks, 0 ≤ k.length) :
    ks.Pairwise Block.Before := by
  induction ks generalizing a with
  | nil => exact List.Pairwise.nil
  | cons k ks ih =>
    have hrest : ∀ l ∈ ks, 0 ≤ l.length := fun l hl => hpos l (List.mem_cons_of_mem k hl)
    refine List.pairwise_cons.mpr ⟨?_, ih h.2 hrest⟩
    intro l hl
    have hin := ((h.2.start_le hrest).2 l hl).1
    have hstart := h.1
    show k.start + k.length ≤ l.start
    omega

/-- Consecutive blocks cover just what lies between their ends. -/
theorem Consecutive.has_iff (h : Consecutive a b ks) (hpos : ∀ k ∈ ks, 0 ≤ k.length) (x : Int) :
    (∃ k ∈ ks, k.Has x) ↔ a ≤ x ∧ x < b := by
  constructor
  · intro hx
    obtain ⟨k, hk, hlo, hhi⟩ := hx
    obtain ⟨hin, hin'⟩ := (h.start_le hpos).2 k hk
    exact ⟨by omega, by omega⟩
  · intro hx
    induction ks generalizing a with
    | nil =>
      have hab : a = b := h
      omega
    | cons k ks ih =>
      have hstart := h.1
      by_cases hlt : x < a + k.length
      · exact ⟨k, List.mem_cons_self, by omega, by omega⟩
      · obtain ⟨l, hl, hlx⟩ := ih h.2 (fun l hl => hpos l (List.mem_cons_of_mem k hl))
          ⟨by omega, hx.2⟩
        exact ⟨l, List.mem_cons_of_mem k hl, hlx⟩

end Consecutive

/-- `n` blocks of length `m` from `a` on. -/
def equalBlocks (a m : Int) (n : Nat) : List Block :=
  (List.range n).map fun i : Nat => ⟨a + i * m, m⟩

section EqualBlocks

variable {a m : Int} {n : Nat}

theorem length_of_mem_equalBlocks {k : Block} (hk : k ∈ equalBlocks a m n) : k.length = m := by
  obtain ⟨i, -, rfl⟩ := List.mem_map.mp hk
  rfl

theorem equalBlocks_succ : equalBlocks a m (n + 1) = ⟨a, m⟩ :: equalBlocks (a + m) m n := by
  rw [equalBlocks, List.range_succ_eq_map, List.map_cons, List.map_map]
  refine congrArg₂ List.cons (by simp) ?_
  refine List.map_congr_left fun i _ => ?_
  simp only [Function.comp_apply, Nat.succ_eq_add_one, Block.mk.injEq, and_true]
  push_cast
  ring

theorem consecutive_equalBlocks : Consecutive a (a + n * m) (equalBlocks a m n) := by
  induction n generalizing a with
  | zero =>
    show a = _
    simp
  | succ n ih =>
    rw [equalBlocks_succ]
    refine ⟨rfl, ?_⟩
    have hend : a + ((n + 1 : Nat) : Int) * m = a + m + n * m := by
      push_cast
      ring
    rw [hend]
    exact ih

end EqualBlocks

end DanubeBsp
