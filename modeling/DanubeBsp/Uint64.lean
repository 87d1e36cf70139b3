import DanubeBsp.Gptu
import DanubeBsp.RegisterDivision
import Mathlib.Data.Nat.Bitwise

namespace DanubeBsp

/-- The value of two words, the high one first. -/
def value64 (x : Word × Word) : Nat := x.1.toNat * 2 ^ 32 + x.2.toNat

theorem value64_lt (x : Word × Word) : value64 x < 2 ^ 64 := by
  have h1 := x.1.isLt
  have h2 := x.2.isLt
  unfold value64
  omega

theorem toNat_shiftLeft_or {x y : Word} {k : Nat} (hk : k ≤ 32) (hy : y.toNat < 2 ^ k) :
    ((x <<< k) ||| y).toNat = x.toNat * 2 ^ k % 2 ^ 32 + y.toNat := by
  have hpow : 2 ^ 32 = 2 ^ k * 2 ^ (32 - k) := by
    rw [← Nat.pow_add, Nat.add_sub_cancel' hk]
  have hx : x.toNat * 2 ^ k % 2 ^ 32 = 2 ^ k * (x.toNat % 2 ^ (32 - k)) := by
    rw [Nat.mul_comm, hpow, Nat.mul_mod_mul_left]
  rw [BitVec.toNat_or, BitVec.toNat_shiftLeft, Nat.shiftLeft_eq, hx,
    Nat.two_pow_add_eq_or_of_lt hy]

theorem toNat_lowHalf (x : Word) : (x &&& 0xffff#32).toNat = x.toNat % 2 ^ 16 := by
  rw [BitVec.toNat_and]
  exact Nat.and_two_pow_sub_one_eq_mod x.toNat 16

theorem toNat_highHalf (x : Word) : (x >>> 16).toNat = x.toNat / 2 ^ 16 := by
  rw [BitVec.toNat_ushiftRight, Nat.shiftRight_eq_div_pow]

theorem toNat_mul_half {x y : Word} (hx : x.toNat < 2 ^ 16) (hy : y.toNat < 2 ^ 16) :
    (x * y).toNat = x.toNat * y.toNat ∧ x.toNat * y.toNat ≤ (2 ^ 16 - 1) * (2 ^ 16 - 1) := by
  have hle : x.toNat * y.toNat ≤ (2 ^ 16 - 1) * (2 ^ 16 - 1) :=
    Nat.mul_le_mul (Nat.le_sub_one_of_lt hx) (Nat.le_sub_one_of_lt hy)
  refine ⟨?_, hle⟩
  rw [BitVec.toNat_mul, Nat.mod_eq_of_lt (Nat.lt_of_le_of_lt hle (by norm_num))]

/-- The product by half words. -/
theorem mul_halves (a b : Nat) :
    a * b = a % 2 ^ 16 * (b % 2 ^ 16) + (a / 2 ^ 16 * (b % 2 ^ 16) + a % 2 ^ 16 * (b / 2 ^ 16)) *
      2 ^ 16 + a / 2 ^ 16 * (b / 2 ^ 16) * 2 ^ 32 := by
  calc a * b = (2 ^ 16 * (a / 2 ^ 16) + a % 2 ^ 16) * (2 ^ 16 * (b / 2 ^ 16) + b % 2 ^ 16) := by
        rw [Nat.div_add_mod, Nat.div_add_mod]
    _ = _ := by ring

/-- What the sum of the middle half words carries into the top one. -/
def topCarry (a b : Word) : Nat :=
  a.toNat * b.toNat / 2 ^ 48 - a.toNat / 2 ^ 16 * (b.toNat / 2 ^ 16) / 2 ^ 16

theorem two_pow_mul_or_add {x y z k : Nat} (hz : z < 2 ^ k) :
    2 ^ k * x ||| (2 ^ k * y + z) = 2 ^ k * (x ||| y) + z := by
  have hor : 2 ^ k * (x ||| y) = 2 ^ k * x ||| 2 ^ k * y := by
    rw [Nat.mul_comm, ← Nat.shiftLeft_eq, Nat.shiftLeft_or_distrib, Nat.shiftLeft_eq,
      Nat.shiftLeft_eq, Nat.mul_comm x, Nat.mul_comm y]
  rw [Nat.two_pow_add_eq_or_of_lt hz, Nat.two_pow_add_eq_or_of_lt hz, hor, Nat.or_assoc]

/-- The low word is exact. In the high one the carry of the third half word, which is added to the
fourth but not taken off, is put in once more. -/
theorem uint64Multiply_eq (a b : Word) :
    (uint64Multiply a b).2.toNat = a.toNat * b.toNat % 2 ^ 32 ∧
      (uint64Multiply a b).1.toNat =
        2 ^ 16 * (a.toNat * b.toNat / 2 ^ 48 ||| topCarry a b) +
          a.toNat * b.toNat / 2 ^ 32 % 2 ^ 16 ∧
      a.toNat * b.toNat / 2 ^ 48 =
        a.toNat / 2 ^ 16 * (b.toNat / 2 ^ 16) / 2 ^ 16 + topCarry a b ∧ topCarry a b ≤ 2 := by
  have hlow (x : Word) : (x &&& 0xffff#32).toNat < 2 ^ 16 := by
    rw [toNat_lowHalf]
    exact Nat.mod_lt _ (by norm_num)
  have hhigh (x : Word) : (x >>> 16).toNat < 2 ^ 16 := by
    rw [toNat_highHalf]
    have hx := x.isLt
    omega
  obtain ⟨h1, hle1⟩ := toNat_mul_half (hlow a) (hlow b)
  obtain ⟨h2, hle2⟩ := toNat_mul_half (hhigh a) (hlow b)
  obtain ⟨h3, hle3⟩ := toNat_mul_half (hlow a) (hhigh b)
  obtain ⟨h4, hle4⟩ := toNat_mul_half (hhigh a) (hhigh b)
  have hproduct := mul_halves a.toNat b.toNat
  unfold topCarry
  simp only [← toNat_lowHalf, ← toNat_highHalf] at hproduct ⊢
  rw [← h1, ← h2, ← h3, ← h4] at hproduct
  rw [← h1] at hle1
  rw [← h2] at hle2
  rw [← h3] at hle3
  rw [← h4] at hle4 ⊢
  have hfit : a.toNat * b.toNat < 2 ^ 32 * 2 ^ 32 := Nat.mul_lt_mul'' a.isLt b.isLt
  rw [hproduct] at hfit ⊢
  unfold uint64Multiply
  dsimp only
  generalize (a &&& 0xffff#32) * (b &&& 0xffff#32) = c1 at hfit hle1 ⊢
  generalize (a >>> 16) * (b &&& 0xffff#32) = c2 at hfit hle2 ⊢
  generalize (a &&& 0xffff#32) * (b >>> 16) = c3 at hfit hle3 ⊢
  generalize (a >>> 16) * (b >>> 16) = c4 at hfit hle4 ⊢
  have hword2 : ((c1 >>> 16) + (c2 &&& 0xffff#32) + (c3 &&& 0xffff#32)).toNat =
      c1.toNat / 2 ^ 16 + c2.toNat % 2 ^ 16 + c3.toNat % 2 ^ 16 := by
    rw [BitVec.toNat_add, BitVec.toNat_add, toNat_highHalf, toNat_lowHalf, toNat_lowHalf]
    omega
  generalize (c1 >>> 16) + (c2 &&& 0xffff#32) + (c3 &&& 0xffff#32) = w2 at hword2 ⊢
  have hword3 : ((c2 >>> 16) + (c3 >>> 16) + (c4 &&& 0xffff#32) + (w2 >>> 16)).toNat =
      c2.toNat / 2 ^ 16 + c3.toNat / 2 ^ 16 + c4.toNat % 2 ^ 16 + w2.toNat / 2 ^ 16 := by
    rw [BitVec.toNat_add, BitVec.toNat_add, BitVec.toNat_add, toNat_highHalf, toNat_highHalf,
      toNat_highHalf, toNat_lowHalf]
    omega
  generalize (c2 >>> 16) + (c3 >>> 16) + (c4 &&& 0xffff#32) + (w2 >>> 16) = w3 at hword3 ⊢
  have hword4 : ((c4 >>> 16) + (w3 >>> 16)).toNat = c4.toNat / 2 ^ 16 + w3.toNat / 2 ^ 16 := by
    rw [BitVec.toNat_add, toNat_highHalf, toNat_highHalf]
    omega
  generalize (c4 >>> 16) + (w3 >>> 16) = w4 at hword4 ⊢
  rw [← toNat_highHalf] at hword4
  have htop : (c1.toNat + (c2.toNat + c3.toNat) * 2 ^ 16 + c4.toNat * 2 ^ 32) / 2 ^ 48 =
      w4.toNat := by
    rw [hword4, toNat_highHalf]
    omega
  have hcarry : w4.toNat - c4.toNat / 2 ^ 16 = w3.toNat / 2 ^ 16 := by
    rw [hword4, toNat_highHalf]
    omega
  rw [htop, hcarry]
  refine ⟨?_, ?_, ?_, ?_⟩
  · rw [toNat_shiftLeft_or (by omega) (hlow c1), toNat_lowHalf]
    omega
  · have hw3 := Nat.div_add_mod w3.toNat (2 ^ 16)
    have hthird : (c1.toNat + (c2.toNat + c3.toNat) * 2 ^ 16 + c4.toNat * 2 ^ 32) / 2 ^ 32 %
        2 ^ 16 = w3.toNat % 2 ^ 16 := by omega
    rw [hthird, ← two_pow_mul_or_add (Nat.mod_lt _ (Nat.two_pow_pos 16)), hw3, BitVec.toNat_or,
      BitVec.toNat_shiftLeft, Nat.shiftLeft_eq, Nat.mul_comm, Nat.mod_eq_of_lt (by omega)]
  · rw [hword4, toNat_highHalf]
  · omega

/-- The product is exact as long as the third half word has no carry. -/
theorem uint64Multiply_exact {a b : Word} (h : a.toNat * b.toNat < 2 ^ 48) :
    value64 (uint64Multiply a b) = a.toNat * b.toNat := by
  obtain ⟨hlow, hhigh, -, -⟩ := uint64Multiply_eq a b
  have hzero : a.toNat * b.toNat / 2 ^ 48 = 0 := Nat.div_eq_of_lt h
  have hcarry : topCarry a b = 0 := by
    unfold topCarry
    rw [hzero, Nat.zero_sub]
  rw [hzero, hcarry, Nat.zero_or, Nat.mul_zero, Nat.zero_add] at hhigh
  rw [value64, hlow, hhigh]
  omega

theorem or_eq_left_iff_of_add_two_pow {h i : Nat} :
    h + 2 ^ i ||| 2 ^ i = h + 2 ^ i ↔ h &&& 2 ^ i = 0 := by
  have hflip : (h + 2 ^ i).testBit i = !h.testBit i := by
    rw [Nat.add_comm, Nat.testBit_two_pow_add_eq]
  rw [Nat.and_two_pow]
  constructor
  · intro heq
    have hset : (h + 2 ^ i).testBit i = true := by
      rw [← heq, Nat.testBit_or, Nat.testBit_two_pow_self, Bool.or_true]
    rw [hflip, Bool.not_eq_true'] at hset
    rw [hset, Bool.toNat_false, Nat.zero_mul]
  · intro hzero
    have hclear : h.testBit i = false := by
      cases hbit : h.testBit i with
      | false => rfl
      | true =>
        rw [hbit, Bool.toNat_true, Nat.one_mul] at hzero
        exact absurd hzero (Nat.pos_iff_ne_zero.mp (Nat.two_pow_pos i))
    apply Nat.eq_of_testBit_eq
    intro j
    rw [Nat.testBit_or, Nat.testBit_two_pow]
    by_cases hj : i = j
    · rw [← hj, hflip, hclear]
      rfl
    · rw [decide_eq_false hj, Bool.or_false]

/-- The product is exact as long as the carry into the top half word has no bit that the product of
the high halves has there already. -/
theorem uint64Multiply_exact_iff (a b : Word) :
    value64 (uint64Multiply a b) = a.toNat * b.toNat ↔
      a.toNat / 2 ^ 16 * (b.toNat / 2 ^ 16) / 2 ^ 16 &&& topCarry a b = 0 := by
  obtain ⟨hlow, hhigh, htop, hle⟩ := uint64Multiply_eq a b
  have hvalue : value64 (uint64Multiply a b) = a.toNat * b.toNat ↔
      a.toNat * b.toNat / 2 ^ 48 ||| topCarry a b = a.toNat * b.toNat / 2 ^ 48 := by
    rw [value64, hlow, hhigh]
    omega
  rw [hvalue, htop]
  generalize a.toNat / 2 ^ 16 * (b.toNat / 2 ^ 16) / 2 ^ 16 = h
  have hcases : topCarry a b = 0 ∨ topCarry a b = 2 ^ 0 ∨ topCarry a b = 2 ^ 1 := by omega
  rcases hcases with hc | hc | hc
  · rw [hc, Nat.or_zero, Nat.and_zero]
    exact iff_of_true rfl rfl
  · rw [hc]
    exact or_eq_left_iff_of_add_two_pow
  · rw [hc]
    exact or_eq_left_iff_of_add_two_pow

theorem uint64Multiply_carry_twice :
    ¬ value64 (uint64Multiply 0x2ffff 0xffffffff) = 0x2ffff * 0xffffffff := by
  decide

section Divide

variable {m t rest n : Nat} {denominator : Word} {s : DivideState}

theorem shift_pair {d1 d2 bit behind : Nat} (h1 : d1 < 2 ^ 32)
    (hbehind : behind < 2 ^ 63) (h : d2 * 2 ^ 32 + d1 = bit * 2 ^ 63 + behind) :
    (d2 * 2 ^ 1 % 2 ^ 32 + d1 / 2 ^ 31) * 2 ^ 32 + d1 * 2 ^ 1 % 2 ^ 32 = 2 * behind ∧
      d2 / 2 ^ 31 = bit := by
  omega

theorem toNat_pos {x : Word} (hne : x ≠ 0) : 0 < x.toNat := by
  rw [Nat.pos_iff_ne_zero]
  intro hzero
  exact hne (BitVec.eq_of_toNat_eq hzero)

theorem toNat_shiftLeft_one (x : Word) : (x <<< 1).toNat = x.toNat * 2 ^ 1 % 2 ^ 32 := by
  rw [BitVec.toNat_shiftLeft, Nat.shiftLeft_eq]

theorem toNat_shiftIn (x y : Word) :
    ((x <<< 1) ||| (y >>> 31)).toNat = x.toNat * 2 ^ 1 % 2 ^ 32 + y.toNat / 2 ^ 31 := by
  have hone : (y >>> 31).toNat = y.toNat / 2 ^ 31 := by
    rw [BitVec.toNat_ushiftRight, Nat.shiftRight_eq_div_pow]
  rw [toNat_shiftLeft_or (by decide), hone]
  have hy := y.isLt
  rw [hone]
  omega

/-- What is left is the bit that is read next, and the rest of it. -/
theorem DivideState.next_words (denominator : Word) (hm : m < 64)
    (hleft : s.dword2.toNat * 2 ^ 32 + s.dword1.toNat = rest * 2 ^ (64 - (m + 1))) :
    (s.next denominator).dword2.toNat * 2 ^ 32 + (s.next denominator).dword1.toNat =
        rest % 2 ^ m * 2 ^ (64 - m) ∧
      s.dword2.toNat / 2 ^ 31 = rest / 2 ^ m := by
  have hpow : 2 ^ (64 - m) = 2 * 2 ^ (64 - (m + 1)) := by
    rw [← Nat.pow_succ', show (64 - (m + 1)).succ = 64 - m by omega]
  have hwhole : 2 ^ m * 2 ^ (64 - (m + 1)) = 2 ^ 63 := by
    rw [← Nat.pow_add, show m + (64 - (m + 1)) = 63 by omega]
  have hsplit : rest * 2 ^ (64 - (m + 1)) =
      rest / 2 ^ m * 2 ^ 63 + rest % 2 ^ m * 2 ^ (64 - (m + 1)) := by
    rw [← hwhole]
    calc rest * 2 ^ (64 - (m + 1)) =
          (2 ^ m * (rest / 2 ^ m) + rest % 2 ^ m) * 2 ^ (64 - (m + 1)) := by rw [Nat.div_add_mod]
      _ = _ := by ring
  have hrest : rest % 2 ^ m * 2 ^ (64 - (m + 1)) < 2 ^ 63 := by
    rw [← hwhole]
    exact Nat.mul_lt_mul_of_pos_right (Nat.mod_lt _ (Nat.two_pow_pos m)) (Nat.two_pow_pos _)
  rw [hsplit] at hleft
  obtain ⟨hboth, hbit⟩ := shift_pair s.dword1.isLt hrest hleft
  refine ⟨?_, hbit⟩
  rw [hpow, Nat.mul_left_comm, ← hboth, ← toNat_shiftIn, ← toNat_shiftLeft_one]
  unfold DivideState.next
  dsimp only
  split_ifs
  · rfl
  · rfl

/-- The loop of `uint64_divide` with `m` turns to go, when `t` of the numerator has been read: its third
word is a remainder register of 32 bits. -/
structure RunsAt (denominator : Word) (m t rest : Nat) (s : DivideState) : Prop where
  left : s.dword2.toNat * 2 ^ 32 + s.dword1.toNat = rest * 2 ^ (64 - m)
  residue : s.dword3.toNat = (divided 32 denominator.toNat t).residue
  quotient : s.quotient.toNat = (divided 32 denominator.toNat t).quotient % 2 ^ 32

theorem RunsAt.next (hpos : 0 < denominator.toNat) (hm : m < 64)
    (hs : Scanned n (m + 1) t rest) (h : RunsAt denominator (m + 1) t rest s) :
    RunsAt denominator m (2 * t + rest / 2 ^ m) (rest % 2 ^ m) (s.next denominator) := by
  have hbit := hs.bit_le
  obtain ⟨hleft, hread⟩ := DivideState.next_words denominator hm h.left
  have hbring : ((s.dword3 <<< 1) ||| (s.dword2 >>> 31)).toNat =
      (2 * (divided 32 denominator.toNat t).residue + rest / 2 ^ m) % 2 ^ 32 := by
    rw [toNat_shiftIn, h.residue, hread]
    omega
  have hodd : ((s.quotient <<< 1) ||| 1#32).toNat = s.quotient.toNat * 2 ^ 1 % 2 ^ 32 + 1 :=
    toNat_shiftLeft_or (by decide) (by decide)
  have hquotient := h.quotient
  have hfit : denominator ≤ (s.dword3 <<< 1) ||| (s.dword2 >>> 31) ↔ denominator.toNat ≤
      (2 * (divided 32 denominator.toNat t).residue + rest / 2 ^ m) % 2 ^ 32 := by
    rw [BitVec.le_def, hbring]
  refine ⟨hleft, ?_, ?_⟩
  · rw [divided_two_mul_add hpos hbit]
    unfold DivideState.next Divided.bring
    dsimp only
    simp only [hfit]
    split_ifs with hge
    · rw [BitVec.toNat_sub_of_le (hfit.mpr hge), hbring]
    · exact hbring
  · rw [divided_two_mul_add hpos hbit]
    unfold DivideState.next Divided.bring
    dsimp only
    simp only [hfit]
    split_ifs
    · dsimp only
      rw [hodd, hquotient]
      omega
    · dsimp only
      rw [toNat_shiftLeft_one, hquotient]
      omega

/-- The loop as long as nothing has run out of the third word. -/
structure DividesAt (denominator : Word) (m t rest : Nat) (s : DivideState) : Prop where
  left : s.dword2.toNat * 2 ^ 32 + s.dword1.toNat = rest * 2 ^ (64 - m)
  residue : s.dword3.toNat = t % denominator.toNat
  quotient : s.quotient.toNat = t / denominator.toNat % 2 ^ 32

theorem RunsAt.divides (hpos : 0 < denominator.toNat) (hfit : PrefixesFit 31 denominator.toNat t)
    (h : RunsAt denominator m t rest s) : DividesAt denominator m t rest s := by
  have hlost := (divided_lost_eq_zero_iff (w := 31) hpos t).mpr hfit
  obtain ⟨hquotient, hresidue⟩ := divided_exact hpos hlost
  refine ⟨h.left, ?_, ?_⟩
  · rw [h.residue, hresidue]
  · rw [h.quotient, hquotient]

/-- `uint64_divide` is the division with a remainder register of 32 bits. -/
theorem uint64Divide_runs (numerator : Word × Word) (hpos : 0 < denominator.toNat) :
    ∃ rest s, uint64Divide numerator denominator = (s.quotient, s.dword3) ∧
      RunsAt denominator 0 (value64 numerator) rest s := by
  have hturns (k : Nat) (hk : k ≤ 64) : ∃ t rest, Scanned (value64 numerator) (64 - k) t rest ∧
      RunsAt denominator (64 - k) t rest
        ((List.range k).foldl (fun s _ => s.next denominator)
          (⟨numerator.2, numerator.1, 0, 0⟩ : DivideState)) := by
    induction k with
    | zero =>
      refine ⟨0, _, Scanned.start (value64_lt numerator), ⟨?_, ?_, ?_⟩⟩
      · show numerator.1.toNat * 2 ^ 32 + numerator.2.toNat = _
        rw [Nat.sub_zero, Nat.sub_self, Nat.pow_zero, Nat.mul_one, value64]
      · rw [divided_zero]
        rfl
      · rw [divided_zero]
        rfl
    | succ k ih =>
      obtain ⟨t, rest, hs, hd⟩ := ih (by omega)
      have hm : 64 - k = 64 - (k + 1) + 1 := by omega
      rw [hm] at hs hd
      refine ⟨_, _, hs.next, ?_⟩
      rw [List.range_succ, List.foldl_append]
      exact hd.next hpos (by omega) hs
  obtain ⟨t, rest, hs, hd⟩ := hturns 64 (Nat.le_refl _)
  have ht := Scanned.done hs
  subst ht
  exact ⟨rest, _, rfl, hd⟩

/-- The quotient is exact but for what is above 32 bits, the residue is exact. -/
theorem uint64Divide_eq (numerator : Word × Word) (hpos : 0 < denominator.toNat)
    (hhalf : denominator.toNat ≤ 2 ^ 31) :
    (uint64Divide numerator denominator).1.toNat =
        value64 numerator / denominator.toNat % 2 ^ 32 ∧
      (uint64Divide numerator denominator).2.toNat = value64 numerator % denominator.toNat := by
  obtain ⟨rest, s, heq, hruns⟩ := uint64Divide_runs numerator hpos
  have hdivides := hruns.divides hpos (prefixesFit_of_le hpos hhalf)
  rw [heq]
  exact ⟨hdivides.quotient, hdivides.residue⟩

/-- A prefix with a residue of 31 bits or less loses nothing when the next bit is shifted in; what is
lost spoils the quotient or the residue in the end. -/
theorem uint64Divide_exact_iff (numerator : Word × Word) (denominator : Word)
    (hpos : denominator ≠ 0) :
    (uint64Divide numerator denominator).2.toNat = value64 numerator % denominator.toNat ∧
        (uint64Divide numerator denominator).1.toNat =
          value64 numerator / denominator.toNat % 2 ^ 32 ↔
      PrefixesFit 31 denominator.toNat (value64 numerator) := by
  have hden := toNat_pos hpos
  obtain ⟨rest, s, heq, hruns⟩ := uint64Divide_runs numerator hden
  rw [heq]
  dsimp only
  rw [hruns.quotient, hruns.residue, and_comm]
  exact divided_exact_iff (w := 31) hden (Nat.le_of_lt denominator.isLt) (value64_lt numerator)

theorem uint64Divide_exact_iff_thousand :
    (uint64Divide (1, 0) 1000).2.toNat = value64 (1, 0) % (1000#32).toNat ∧
        (uint64Divide (1, 0) 1000).1.toNat = value64 (1, 0) / (1000#32).toNat % 2 ^ 32 ↔
      PrefixesFit 31 (1000#32).toNat (value64 (1, 0)) :=
  uint64Divide_exact_iff (1, 0) 1000 (by decide)

theorem uint64Divide_loses_bit :
    ¬((uint64Divide (1, 0xfffffffc) 0xffffffff).2.toNat =
          value64 (1, 0xfffffffc) % (0xffffffff#32).toNat ∧
        (uint64Divide (1, 0xfffffffc) 0xffffffff).1.toNat =
          value64 (1, 0xfffffffc) / (0xffffffff#32).toNat % 2 ^ 32) := by
  decide +kernel

end Divide

end DanubeBsp
