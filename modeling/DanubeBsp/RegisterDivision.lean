import DanubeBsp.LongDivision

namespace DanubeBsp

/-- A long division whose remainder register may be too narrow; `lost` is what has run out of it, in
units of the register. -/
structure Divided where
  quotient : Nat
  residue : Nat
  lost : Nat

/-- One bit is brought down into a register of `w` bits. -/
def Divided.bring (w den : Nat) (s : Divided) (bit : Nat) : Divided :=
  let kept := (2 * s.residue + bit) % 2 ^ w
  let lost := 2 * s.lost + (2 * s.residue + bit) / 2 ^ w
  if den ≤ kept then ⟨2 * s.quotient + 1, kept - den, lost⟩ else ⟨2 * s.quotient, kept, lost⟩

/-- The bits of `n` are brought down from the top. -/
def divided (w den n : Nat) : Divided :=
  if h : n = 0 then ⟨0, 0, 0⟩ else (divided w den (n / 2)).bring w den (n % 2)
termination_by n
decreasing_by exact Nat.div_lt_self (Nat.pos_of_ne_zero h) Nat.one_lt_two

section Bring

variable {w den bit : Nat} {s : Divided}

theorem Divided.bring_lost : (s.bring w den bit).lost = 2 * s.lost + (2 * s.residue + bit) / 2 ^ w := by
  unfold Divided.bring
  dsimp only
  split_ifs
  · rfl
  · rfl

theorem Divided.bring_sum :
    (s.bring w den bit).quotient * den + (s.bring w den bit).residue +
      2 ^ w * (s.bring w den bit).lost =
        2 * (s.quotient * den + s.residue + 2 ^ w * s.lost) + bit := by
  have hsplit := Nat.div_add_mod (2 * s.residue + bit) (2 ^ w)
  rw [Divided.bring_lost, Nat.mul_add]
  unfold Divided.bring
  dsimp only
  split_ifs with hfit
  · dsimp only
    have hquotient : (2 * s.quotient + 1) * den = 2 * (s.quotient * den) + den := by ring
    have hlost : 2 ^ w * (2 * s.lost) = 2 * (2 ^ w * s.lost) := by ring
    omega
  · dsimp only
    have hquotient : 2 * s.quotient * den = 2 * (s.quotient * den) := by ring
    have hlost : 2 ^ w * (2 * s.lost) = 2 * (2 ^ w * s.lost) := by ring
    omega

theorem Divided.bring_residue_lt (hlt : s.residue < den) (hbit : bit ≤ 1) :
    (s.bring w den bit).residue < den := by
  have hle := Nat.mod_le (2 * s.residue + bit) (2 ^ w)
  unfold Divided.bring
  dsimp only
  split_ifs with hfit
  · dsimp only
    omega
  · dsimp only
    omega

end Bring

section Divided

variable {w den n t bit : Nat}

theorem divided_zero : divided w den 0 = ⟨0, 0, 0⟩ := by
  rw [divided, dif_pos rfl]

theorem divided_two_mul_add (hden : 0 < den) (hbit : bit ≤ 1) :
    divided w den (2 * t + bit) = (divided w den t).bring w den bit := by
  by_cases hzero : 2 * t + bit = 0
  · have ht : t = 0 := by omega
    have hb : bit = 0 := by omega
    subst ht hb
    rw [Nat.mul_zero, Nat.add_zero, divided_zero]
    unfold Divided.bring
    dsimp only
    rw [Nat.mul_zero, Nat.add_zero, Nat.zero_mod, Nat.zero_div, if_neg (by omega)]
  · have hhalf : (2 * t + bit) / 2 = t := by omega
    have hodd : (2 * t + bit) % 2 = bit := by omega
    rw [divided, dif_neg hzero, hhalf, hodd]

/-- To prove something of every number, it is enough to prove it of 0 and to go on by one bit. -/
theorem bits_induction {P : Nat → Prop} (zero : P 0)
    (bring : ∀ t bit, bit ≤ 1 → P t → P (2 * t + bit)) (n : Nat) : P n := by
  induction n using Nat.strongRecOn with
  | ind n ih =>
    by_cases hzero : n = 0
    · rw [hzero]
      exact zero
    · have hsplit := Nat.div_add_mod n 2
      rw [← hsplit]
      exact bring _ _ (by omega) (ih _ (Nat.div_lt_self (by omega) Nat.one_lt_two))

theorem divided_sum (hden : 0 < den) (n : Nat) :
    (divided w den n).quotient * den + (divided w den n).residue +
      2 ^ w * (divided w den n).lost = n := by
  induction n using bits_induction with
  | zero =>
    rw [divided_zero]
    simp only [Nat.zero_mul, Nat.mul_zero, Nat.add_zero]
  | bring t bit hbit ih => rw [divided_two_mul_add hden hbit, Divided.bring_sum, ih]

theorem divided_residue_lt (hden : 0 < den) (n : Nat) : (divided w den n).residue < den := by
  induction n using bits_induction with
  | zero =>
    rw [divided_zero]
    exact hden
  | bring t bit hbit ih =>
    rw [divided_two_mul_add hden hbit]
    exact Divided.bring_residue_lt ih hbit

/-- A register that has lost nothing has divided. -/
theorem divided_exact (hden : 0 < den) (h : (divided w den n).lost = 0) :
    (divided w den n).quotient = n / den ∧ (divided w den n).residue = n % den := by
  have hsum := divided_sum (w := w) hden n
  have hlt := divided_residue_lt (w := w) hden n
  rw [h, Nat.mul_zero, Nat.add_zero] at hsum
  generalize (divided w den n).quotient = q at hsum ⊢
  generalize (divided w den n).residue = r at hsum hlt ⊢
  rw [← hsum, Nat.mul_comm, Nat.mul_add_div hden, Nat.mul_add_mod, Nat.div_eq_of_lt hlt,
    Nat.mod_eq_of_lt hlt]
  exact ⟨rfl, rfl⟩

theorem divided_lost_of_lt (hden : 0 < den) (h : n < 2 ^ w) : (divided w den n).lost = 0 := by
  have hsum := divided_sum (w := w) hden n
  by_contra hne
  have hle : 2 ^ w * 1 ≤ 2 ^ w * (divided w den n).lost :=
    Nat.mul_le_mul_left _ (Nat.one_le_iff_ne_zero.mpr hne)
  omega

/-- A quotient that is right to the last bit shows that nothing was lost. -/
theorem divided_lost_of_quotient (hden : 0 < den) (hle : den ≤ 2 ^ w)
    (h : (divided w den n).quotient % 2 ^ w = n / den) : (divided w den n).lost = 0 := by
  have hsum := divided_sum (w := w) hden n
  have hsplit := Nat.div_add_mod n den
  have hlt := Nat.mod_lt n hden
  have hup : (divided w den n).quotient ≤ n / den := by
    rw [Nat.le_div_iff_mul_le hden]
    omega
  have heq : (divided w den n).quotient = n / den := by
    refine Nat.le_antisymm hup ?_
    rw [← h]
    exact Nat.mod_le _ _
  by_contra hne
  have hone : 2 ^ w * 1 ≤ 2 ^ w * (divided w den n).lost :=
    Nat.mul_le_mul_left _ (Nat.one_le_iff_ne_zero.mpr hne)
  rw [heq, Nat.mul_comm] at hsum
  omega

end Divided

/-- No prefix of `n`, `n` itself apart, leaves a residue that has the top bit of a register of `w + 1`
bits. -/
def PrefixesFit (w den n : Nat) : Prop := ∀ m, n / 2 ^ (m + 1) % den < 2 ^ w

section Fit

variable {w den n t bit : Nat}

theorem prefixesFit_of_le (hden : 0 < den) (h : den ≤ 2 ^ w) : PrefixesFit w den n := by
  intro m
  exact (Nat.mod_lt _ hden).trans_le h

theorem prefixesFit_bring (hbit : bit ≤ 1) :
    PrefixesFit w den (2 * t + bit) ↔ t % den < 2 ^ w ∧ PrefixesFit w den t := by
  have hshorter (m : Nat) : (2 * t + bit) / 2 ^ (m + 1) = t / 2 ^ m := by
    rw [Nat.pow_succ', ← Nat.div_div_eq_div_mul, show (2 * t + bit) / 2 = t by omega]
  constructor
  · intro h
    refine ⟨?_, ?_⟩
    · have hfirst := h 0
      rw [hshorter, Nat.pow_zero, Nat.div_one] at hfirst
      exact hfirst
    · intro m
      have hnext := h (m + 1)
      rw [hshorter] at hnext
      exact hnext
  · intro ⟨hfirst, hrest⟩ m
    rw [hshorter]
    cases m with
    | zero =>
      rw [Nat.pow_zero, Nat.div_one]
      exact hfirst
    | succ m => exact hrest m

theorem bring_fits (hbit : bit ≤ 1) {r : Nat} : (2 * r + bit) / 2 ^ (w + 1) = 0 ↔ r < 2 ^ w := by
  rw [Nat.div_eq_zero_iff_lt (Nat.two_pow_pos _), Nat.pow_succ]
  omega

/-- The register loses something exactly if a prefix does not fit. -/
theorem divided_lost_eq_zero_iff (hden : 0 < den) (n : Nat) :
    (divided (w + 1) den n).lost = 0 ↔ PrefixesFit w den n := by
  induction n using bits_induction with
  | zero =>
    rw [divided_zero]
    refine iff_of_true rfl ?_
    intro m
    rw [Nat.zero_div, Nat.zero_mod]
    exact Nat.two_pow_pos w
  | bring t bit hbit ih =>
    rw [divided_two_mul_add hden hbit, Divided.bring_lost, prefixesFit_bring hbit, ← ih,
      Nat.add_eq_zero_iff, bring_fits hbit]
    constructor
    · intro ⟨hbefore, hfits⟩
      have hlost : (divided (w + 1) den t).lost = 0 := by omega
      rw [(divided_exact hden hlost).2] at hfits
      exact ⟨hfits, hlost⟩
    · intro ⟨hfits, hlost⟩
      rw [(divided_exact hden hlost).2]
      exact ⟨by omega, hfits⟩

/-- What is lost after a prefix has only the bits that are left. -/
theorem divided_lost_lt (hden : 0 < den) (hle : den ≤ 2 ^ (w + 1)) {k : Nat}
    (h : (divided (w + 1) den (n / 2 ^ k)).lost = 0) : (divided (w + 1) den n).lost < 2 ^ k := by
  induction k generalizing n with
  | zero =>
    rw [Nat.pow_zero, Nat.div_one] at h
    rw [h]
    exact Nat.one_pos
  | succ k ih =>
    have hsplit := Nat.div_add_mod n 2
    rw [Nat.pow_succ', ← Nat.div_div_eq_div_mul] at h
    have hhalf := ih h
    have hlt := divided_residue_lt (w := w + 1) hden (n / 2)
    have hout : (2 * (divided (w + 1) den (n / 2)).residue + n % 2) / 2 ^ (w + 1) ≤ 1 := by
      refine Nat.le_of_lt_succ (Nat.div_lt_of_lt_mul ?_)
      omega
    have hpow : 2 ^ (k + 1) = 2 * 2 ^ k := Nat.pow_succ'
    rw [← hsplit, divided_two_mul_add hden (by omega), Divided.bring_lost, hpow]
    omega

/-- What runs out of the register is never made up for. -/
theorem divided_exact_iff (hden : 0 < den) (hle : den ≤ 2 ^ (w + 1))
    (hn : n < 2 ^ (w + 1) * 2 ^ (w + 1)) :
    (divided (w + 1) den n).quotient % 2 ^ (w + 1) = n / den % 2 ^ (w + 1) ∧
      (divided (w + 1) den n).residue = n % den ↔ PrefixesFit w den n := by
  rw [← divided_lost_eq_zero_iff hden]
  constructor
  · intro ⟨hquotient, hresidue⟩
    have hsum := divided_sum (w := w + 1) hden n
    have hsplit := Nat.div_add_mod n den
    by_contra hlost
    -- the quotient is too small, and by a multiple of what the register counts in
    have hdiff : n / den * den = (divided (w + 1) den n).quotient * den +
        2 ^ (w + 1) * (divided (w + 1) den n).lost := by
      rw [Nat.mul_comm (n / den)]
      omega
    have hpos : 0 < 2 ^ (w + 1) * (divided (w + 1) den n).lost :=
      Nat.mul_pos (Nat.two_pow_pos _) (Nat.pos_of_ne_zero hlost)
    have hless : (divided (w + 1) den n).quotient < n / den := by
      refine Nat.lt_of_mul_lt_mul_right (a := den) ?_
      omega
    obtain ⟨k, hk⟩ := (Nat.modEq_iff_dvd' (Nat.le_of_lt hless)).mp hquotient
    have hk1 : k ≠ 0 := by
      intro hzero
      rw [hzero, Nat.mul_zero] at hk
      omega
    have hbig : 2 ^ (w + 1) ≤ n / den := by
      have hone : 2 ^ (w + 1) * 1 ≤ 2 ^ (w + 1) * k :=
        Nat.mul_le_mul_left _ (Nat.one_le_iff_ne_zero.mpr hk1)
      omega
    have hlosteq : (divided (w + 1) den n).lost = den * k := by
      refine Nat.eq_of_mul_eq_mul_left (Nat.two_pow_pos (w + 1)) ?_
      have hback : n / den = (divided (w + 1) den n).quotient + 2 ^ (w + 1) * k := by omega
      rw [hback, Nat.add_mul] at hdiff
      calc 2 ^ (w + 1) * (divided (w + 1) den n).lost = 2 ^ (w + 1) * k * den := by omega
        _ = 2 ^ (w + 1) * (den * k) := by ring
    by_cases hhalf : den ≤ 2 ^ w
    · exact hlost ((divided_lost_eq_zero_iff hden n).mpr (prefixesFit_of_le hden hhalf))
    · -- the upper half of `n` holds the divisor once, and the bit after it is brought down without loss
      have hhigh : den ≤ n / 2 ^ (w + 1) := by
        rw [Nat.le_div_iff_mul_le (Nat.two_pow_pos _)]
        rw [Nat.le_div_iff_mul_le hden] at hbig
        rw [Nat.mul_comm]
        exact hbig
      have hupper : n / 2 ^ (w + 1) < 2 ^ (w + 1) := Nat.div_lt_of_lt_mul hn
      have hnone := divided_lost_of_lt hden hupper
      have hbits : n / 2 ^ w = 2 * (n / 2 ^ (w + 1)) + n / 2 ^ w % 2 := by
        rw [Nat.pow_succ, ← Nat.div_div_eq_div_mul]
        omega
      have hnext : (divided (w + 1) den (n / 2 ^ w)).lost = 0 := by
        have hbit : n / 2 ^ w % 2 ≤ 1 := by omega
        rw [hbits, divided_two_mul_add hden hbit, Divided.bring_lost, hnone,
          (divided_exact hden hnone).2, Nat.mod_eq_sub_mod hhigh]
        have hsmall : (n / 2 ^ (w + 1) - den) % den < 2 ^ w := by
          refine (Nat.mod_le _ _).trans_lt ?_
          rw [Nat.pow_succ] at hupper ⊢
          omega
        rw [(bring_fits hbit).mpr hsmall]
      have hfew := divided_lost_lt hden hle hnext
      have hmany : den * 1 ≤ den * k := Nat.mul_le_mul_left _ (Nat.one_le_iff_ne_zero.mpr hk1)
      omega
  · intro hlost
    obtain ⟨hquotient, hresidue⟩ := divided_exact hden hlost
    exact ⟨by rw [hquotient], hresidue⟩

end Fit

end DanubeBsp
