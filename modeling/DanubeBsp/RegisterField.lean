import Mathlib.Data.BitVec
import Mathlib.Data.Nat.Bitwise
import Mathlib.Logic.Function.Basic

namespace DanubeBsp

/-- Some neighbouring bits of a register. -/
structure RegField where
  reg : Nat
  lo : Nat
  width : Nat

section Fields

variable {w : Nat} {f g : RegField} {r r' : Nat → BitVec w} {v : Nat}

/-- What a field holds, in a file of registers of `w` bits. -/
def RegField.get (f : RegField) (r : Nat → BitVec w) : Nat :=
  (r f.reg).toNat / 2 ^ f.lo % 2 ^ f.width

theorem RegField.testBit_get (f : RegField) (r : Nat → BitVec w) (i : Nat) :
    (f.get r).testBit i = (decide (i < f.width) && (r f.reg).getLsbD (f.lo + i)) := by
  unfold RegField.get
  rw [Nat.testBit_mod_two_pow, Nat.testBit_div_two_pow, BitVec.testBit_toNat, Nat.add_comm i]

theorem RegField.eq_get {n : Nat}
    (h : ∀ i, n.testBit i = (decide (i < f.width) && (r f.reg).getLsbD (f.lo + i))) :
    n = f.get r := by
  apply Nat.eq_of_testBit_eq
  intro i
  rw [h i, RegField.testBit_get]

theorem RegField.get_lt (f : RegField) (r : Nat → BitVec w) : f.get r < 2 ^ f.width :=
  Nat.mod_lt _ (Nat.two_pow_pos _)

def RegField.Covers (f : RegField) (reg i : Nat) : Prop :=
  reg = f.reg ∧ f.lo ≤ i ∧ i < f.lo + f.width

def RegField.Disjoint (f g : RegField) : Prop :=
  f.reg ≠ g.reg ∨ f.lo + f.width ≤ g.lo ∨ g.lo + g.width ≤ f.lo

def RegField.Inside (g f : RegField) : Prop :=
  g.reg = f.reg ∧ f.lo ≤ g.lo ∧ g.lo + g.width ≤ f.lo + f.width

/-- The field has got the value `v`, and no other bit of any register has changed. -/
structure RegField.Written (f : RegField) (v : Nat) (r r' : Nat → BitVec w) : Prop where
  value : f.get r' = v
  frame : ∀ reg i, ¬f.Covers reg i → (r' reg).getLsbD i = (r reg).getLsbD i

theorem RegField.Written.get_of_disjoint (h : f.Written v r r') (hd : f.Disjoint g) :
    g.get r' = g.get r := by
  apply Nat.eq_of_testBit_eq
  intro i
  rw [RegField.testBit_get, RegField.testBit_get]
  by_cases hi : i < g.width
  · have hout : ¬f.Covers g.reg (g.lo + i) := by
      rintro ⟨hreg, hlo, hhi⟩
      rcases hd with hne | hle | hle
      · exact hne hreg.symm
      · omega
      · omega
    rw [h.frame _ _ hout]
  · simp [hi]

/-- A field inside the one that is written gets its part of the value. -/
theorem RegField.Written.get_of_inside (h : f.Written v r r') (hin : g.Inside f) :
    g.get r' = v / 2 ^ (g.lo - f.lo) % 2 ^ g.width := by
  obtain ⟨hreg, hlo, hhi⟩ := hin
  apply Nat.eq_of_testBit_eq
  intro i
  rw [RegField.testBit_get, Nat.testBit_mod_two_pow, Nat.testBit_div_two_pow, ← h.value,
    RegField.testBit_get, hreg]
  by_cases hi : i < g.width
  · have hwide : i + (g.lo - f.lo) < f.width := by omega
    have hpos : f.lo + (i + (g.lo - f.lo)) = g.lo + i := by omega
    rw [hpos, decide_eq_true hwide, Bool.true_and]
  · simp [hi]

theorem RegField.Written.of_bits (hv : v < 2 ^ f.width) (hfits : f.lo + f.width ≤ w)
    {x : BitVec w} (hbits : ∀ i, i < w → x.getLsbD i =
      if f.lo ≤ i ∧ i < f.lo + f.width then v.testBit (i - f.lo) else (r f.reg).getLsbD i) :
    f.Written v r (Function.update r f.reg x) := by
  refine ⟨?_, ?_⟩
  · apply Nat.eq_of_testBit_eq
    intro i
    rw [RegField.testBit_get, Function.update_self]
    by_cases hi : i < f.width
    · rw [hbits _ (by omega), if_pos (by omega), decide_eq_true hi, Nat.add_sub_cancel_left]
      rfl
    · have hhigh : v.testBit i = false :=
        Nat.testBit_lt_two_pow (hv.trans_le (Nat.pow_le_pow_right Nat.two_pos (by omega)))
      simp [hi, hhigh]
  · intro reg i hout
    by_cases hreg : reg = f.reg
    · subst hreg
      rw [Function.update_self]
      by_cases hi : i < w
      · rw [hbits i hi, if_neg (fun hc => hout ⟨rfl, hc⟩)]
      · rw [BitVec.getLsbD_of_ge _ _ (by omega), BitVec.getLsbD_of_ge _ _ (by omega)]
    · rw [Function.update_of_ne hreg]

end Fields

end DanubeBsp
