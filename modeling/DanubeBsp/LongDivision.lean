import Mathlib.Algebra.Order.Floor.Ring
import Mathlib.Algebra.Order.Round
import Mathlib.Data.BitVec
import Mathlib.Data.Rat.Floor
import Mathlib.Tactic.Linarith
import Mathlib.Tactic.FieldSimp
import Mathlib.Tactic.Ring

namespace DanubeBsp

/-- A number read from the top: `t` has been read, and `m` bits with the value `rest` are left. -/
structure Scanned (n m t rest : Nat) : Prop where
  eq : n = t * 2 ^ m + rest
  lt : rest < 2 ^ m

section Division

variable {n m t rest den bit : Nat}

theorem Scanned.start (h : n < 2 ^ m) : Scanned n m 0 n := ⟨by rw [Nat.zero_mul, Nat.zero_add], h⟩

theorem Scanned.next (h : Scanned n (m + 1) t rest) :
    Scanned n m (2 * t + rest / 2 ^ m) (rest % 2 ^ m) := by
  refine ⟨?_, Nat.mod_lt _ (Nat.two_pow_pos m)⟩
  have hsplit := Nat.div_add_mod rest (2 ^ m)
  calc n = t * 2 ^ (m + 1) + rest := h.eq
    _ = 2 * t * 2 ^ m + rest := by rw [Nat.pow_succ]; ring
    _ = 2 * t * 2 ^ m + (2 ^ m * (rest / 2 ^ m) + rest % 2 ^ m) := by rw [hsplit]
    _ = (2 * t + rest / 2 ^ m) * 2 ^ m + rest % 2 ^ m := by ring

theorem Scanned.bit_le (h : Scanned n (m + 1) t rest) : rest / 2 ^ m ≤ 1 := by
  have hlt := h.lt
  rw [Nat.pow_succ] at hlt
  exact Nat.le_of_lt_succ (Nat.div_lt_of_lt_mul hlt)

theorem Scanned.done (h : Scanned n 0 t rest) : t = n := by
  have heq := h.eq
  have hlt := h.lt
  rw [Nat.pow_zero] at heq hlt
  omega

end Division

section Rounding

variable {a b : Nat}

/-- The nearest integer to `a / b`, halves up. -/
def nearest (a b : Nat) : Nat := (2 * a + b) / (2 * b)

theorem round_div (hb : 0 < b) : round ((a : ℚ) / b) = nearest a b := by
  have hb' : (0 : ℚ) < b := by exact_mod_cast hb
  have hsum : (a : ℚ) / b + 1 / 2 = ((2 * a + b : ℕ) : ℚ) / ((2 * b : ℕ) : ℚ) := by
    push_cast
    field_simp
  rw [round_eq, hsum, Rat.floor_natCast_div_natCast]
  rfl

theorem nearest_mono {a' : Nat} (h : a ≤ a') : nearest a b ≤ nearest a' b :=
  Nat.div_le_div_right (by omega)

theorem nearest_mul (hb : 0 < b) (q : Nat) : nearest (q * b) b = q := by
  have hsum : 2 * (q * b) + b = b + 2 * b * q := by ring
  rw [nearest, hsum, Nat.add_mul_div_left _ _ (by omega), Nat.div_eq_of_lt (by omega), Nat.zero_add]

theorem nearest_add (hb : 0 < b) : nearest (a + b) b = nearest a b + 1 := by
  have hsum : 2 * (a + b) + b = 2 * a + b + 2 * b := by ring
  rw [nearest, hsum, Nat.add_div_right _ (by omega)]
  rfl

/-- Rounding by the remainder. -/
theorem nearest_eq (hb : 0 < b) :
    nearest a b = a / b + if b ≤ 2 * (a % b) then 1 else 0 := by
  have hsplit := Nat.div_add_mod a b
  have hlt := Nat.mod_lt a hb
  have hsum : 2 * a + b = 2 * (a % b) + b + 2 * b * (a / b) := by
    calc 2 * a + b = 2 * (b * (a / b) + a % b) + b := by rw [hsplit]
      _ = 2 * (a % b) + b + 2 * b * (a / b) := by ring
  unfold nearest
  rw [hsum, Nat.add_mul_div_left _ _ (by omega), Nat.add_comm]
  congr 1
  split_ifs with hup
  · exact Nat.div_eq_of_lt_le (by omega) (by omega)
  · exact Nat.div_eq_of_lt (by omega)

theorem two_mul_abs_sub_nearest_le (hb : 0 < b) : 2 * |(a : ℤ) - nearest a b * b| ≤ b := by
  have hsplit := Nat.div_add_mod a b
  have hlt := Nat.mod_lt a hb
  rw [nearest_eq hb]
  generalize a / b = q at hsplit ⊢
  generalize a % b = r at hsplit hlt ⊢
  subst hsplit
  split_ifs with hup
  · have hdist : ((b * q + r : ℕ) : ℤ) - ((q + 1 : ℕ) : ℤ) * b = -((b : ℤ) - r) := by
      push_cast
      ring
    rw [hdist, abs_neg, abs_of_nonneg (by omega)]
    omega
  · have hdist : ((b * q + r : ℕ) : ℤ) - ((q + 0 : ℕ) : ℤ) * b = r := by
      push_cast
      ring
    rw [hdist, abs_of_nonneg (by omega)]
    omega

/-- Rounding by an addend. -/
theorem nearest_eq_add_half (hb : 0 < b) : nearest a b = (a + b / 2) / b := by
  have hsplit := Nat.div_add_mod a b
  have hlt := Nat.mod_lt a hb
  have hsum : a + b / 2 = a % b + b / 2 + b * (a / b) := by omega
  rw [nearest_eq hb, hsum, Nat.add_mul_div_left _ _ hb, Nat.add_comm]
  congr 1
  split_ifs with hup
  · exact (Nat.div_eq_of_lt_le (by omega) (by omega)).symm
  · exact (Nat.div_eq_of_lt (by omega)).symm

end Rounding

end DanubeBsp
