import DanubeBsp.Wdt

namespace DanubeBsp

theorem getLsbD_lowMask {width : Nat} (hw : width < 32) (j : Nat) :
    ((1#32 <<< width) - 1).getLsbD j = decide (j < width) := by
  have hpow : 2 ^ width < 2 ^ 32 := Nat.pow_lt_pow_right (by decide) hw
  have hpos : 0 < 2 ^ width := Nat.two_pow_pos width
  have hval : ((1#32 <<< width) - 1).toNat = 2 ^ width - 1 := by
    rw [BitVec.toNat_sub, BitVec.toNat_shiftLeft, Nat.shiftLeft_eq]
    simp only [BitVec.reduceToNat, Nat.one_mul, Nat.mod_eq_of_lt hpow]
    omega
  rw [← BitVec.testBit_toNat, hval, Nat.testBit_two_pow_sub_one]

theorem getLsbD_fieldSet {width lo i : Nat} (hw : width < 32) (hi : i < 32) (v : Word) :
    (fieldSet width lo v).getLsbD i = (decide (lo ≤ i ∧ i < lo + width) && v.getLsbD (i - lo)) := by
  rw [fieldSet, BitVec.getLsbD_shiftLeft, BitVec.getLsbD_and, getLsbD_lowMask hw]
  by_cases hlo : i < lo
  · simp [hlo]
  · have hiff : (i - lo < width) ↔ (lo ≤ i ∧ i < lo + width) := by omega
    simp [hi, hlo, hiff]

theorem getLsbD_fieldGet {width lo : Nat} (hw : width < 32) (v : Word) (j : Nat) :
    (fieldGet width lo v).getLsbD j = (decide (j < width) && v.getLsbD (lo + j)) := by
  rw [fieldGet, BitVec.getLsbD_and, getLsbD_lowMask hw, BitVec.getLsbD_ushiftRight, Bool.and_comm]

theorem fieldGet_eq_pw2 {w : Word}
    (h : ∀ i, 16 ≤ i → i < 24 → w.getLsbD i = (wdtCrPwSet wdtPw2).getLsbD i) :
    fieldGet 8 16 w = wdtPw2 := by
  have hget : fieldGet 8 16 (wdtCrPwSet wdtPw2) = wdtPw2 := by decide
  rw [← hget]
  apply BitVec.eq_of_getLsbD_eq
  intro j _
  rw [getLsbD_fieldGet (by decide), getLsbD_fieldGet (by decide)]
  by_cases hj : j < 8
  · rw [h (16 + j) (by omega) (by omega)]
  · simp [hj]

/-- A store with the second password after one with the first takes effect. -/
theorem WdtReg.store_pair (r : WdtReg) {w : Word} (hw : fieldGet 8 16 w = wdtPw2) :
    (r.store (wdtCrPwSet wdtPw1)).store w =
      ⟨w &&& wdtCrKept, false, r.writes ++ [wdtCrPwSet wdtPw1, w]⟩ := by
  have hone : fieldGet 8 16 (wdtCrPwSet wdtPw1) = wdtPw1 := by decide
  have hne : wdtPw2 ≠ wdtPw1 := by decide
  simp [WdtReg.store, hone, hw, hne]

theorem PasswordPair.stored {r r' : WdtReg} {w : Word} (hw : fieldGet 8 16 w = wdtPw2)
    (h : r'.writes = r.writes ++ [wdtCrPwSet wdtPw1, w]) : PasswordPair r r' :=
  .inr ⟨_, _, h, by decide, hw⟩

theorem kept_bit : ∀ i, i < 32 →
    (wdtCrKept.getLsbD i = true ↔ i < 16 ∨ 24 ≤ i ∧ i ≠ 28) := by decide

theorem pw2_bit : ∀ i, i < 32 → (wdtCrPwSet wdtPw2).getLsbD i = true → 16 ≤ i ∧ i < 24 := by decide

/-- The register keeps nothing but its fields, and is locked between calls. -/
structure WdtInv (s : Wdt) : Prop where
  kept : s.reg.cr &&& wdtCrKept = s.reg.cr
  locked : s.reg.unlocked = false

theorem kept_of_getLsbD {cr : Word} (h : cr &&& wdtCrKept = cr) {i : Nat}
    (hi : cr.getLsbD i = true) : wdtCrKept.getLsbD i = true := by
  rw [← h, BitVec.getLsbD_and, Bool.and_eq_true] at hi
  exact hi.2

theorem crFile_zero (cr : Word) : crFile cr 0 = cr := by simp [crFile]

theorem crFile_get {f : RegField} (hreg : f.reg = 0) {cr : Word} {v : Nat} (hv : v < 2 ^ f.width)
    (h : ∀ j, j < f.width → cr.getLsbD (f.lo + j) = v.testBit j) : f.get (crFile cr) = v := by
  symm
  apply RegField.eq_get
  intro j
  rw [hreg, crFile_zero]
  by_cases hj : j < f.width
  · simp [hj, h j hj]
  · have hhigh : v.testBit j = false :=
      Nat.testBit_lt_two_pow (hv.trans_le (Nat.pow_le_pow_right Nat.two_pos (by omega)))
    simp [hj, hhigh]

theorem crFile_get_congr {f : RegField} (hreg : f.reg = 0) {cr cr' : Word}
    (h : ∀ i, f.lo ≤ i → i < f.lo + f.width → cr'.getLsbD i = cr.getLsbD i) :
    f.get (crFile cr') = f.get (crFile cr) := by
  apply RegField.eq_get
  intro j
  rw [RegField.testBit_get, hreg, crFile_zero, crFile_zero]
  by_cases hj : j < f.width
  · rw [h (f.lo + j) (by omega) (by omega)]
  · simp [hj]

/-- A field that no listed one overlaps is as before. -/
theorem FieldsWritten.get_eq {fvs : List (RegField × Nat)} {cr cr' : Word} {g : RegField}
    (h : FieldsWritten fvs cr cr') (hreg : g.reg = 0)
    (hd : ∀ f v, (f, v) ∈ fvs → f.Disjoint g) (hzero : ∀ f v, (f, v) ∈ fvs → f.reg = 0) :
    g.get (crFile cr') = g.get (crFile cr) := by
  refine crFile_get_congr hreg ?_
  intro i hlo hhi
  refine h.frame i ?_
  rintro f v hm ⟨-, hflo, hfhi⟩
  rcases hd f v hm with hne | hle | hle
  · exact hne ((hzero f v hm).trans hreg.symm)
  · omega
  · omega

/-- Writing one field changes nothing exactly if the field has the value already. -/
theorem FieldsWritten.eq_iff {f : RegField} {v : Nat} {cr cr' : Word}
    (h : FieldsWritten [(f, v)] cr cr') (hreg : f.reg = 0) :
    cr' = cr ↔ f.get (crFile cr) = v := by
  have hval := h.values f v (by simp)
  constructor
  · rintro rfl
    exact hval
  · intro hget
    apply BitVec.eq_of_getLsbD_eq
    intro i _
    by_cases hc : f.lo ≤ i ∧ i < f.lo + f.width
    · have hbits := congrArg (fun n => n.testBit (i - f.lo)) (hval.trans hget.symm)
      have hin : i - f.lo < f.width := by omega
      have hpos : f.lo + (i - f.lo) = i := by omega
      simpa [RegField.testBit_get, hreg, crFile_zero, hin, hpos] using hbits
    · refine h.frame i ?_
      intro f' v' hm hcov
      cases List.mem_singleton.mp hm
      exact hc hcov.2

section SetField

variable {mask : Word} {lo : Nat}
  (hmask : ∀ i, i < 32 → (mask.getLsbD i = true ↔ ¬ (lo ≤ i ∧ i < lo + 2)))

/-- The word that the setter of a two-bit field stores with the second password. -/
def setFieldWord (mask : Word) (lo : Nat) (cr v : Word) : Word :=
  ((cr &&& 0xff00ffff) &&& mask) ||| (wdtCrPwSet wdtPw2 ||| fieldSet 2 lo v)

include hmask in
theorem setFieldWord_bit {i : Nat} (hi : i < 32) (cr v : Word) :
    (setFieldWord mask lo cr v).getLsbD i = true ↔
      (cr.getLsbD i = true ∧ ¬ (16 ≤ i ∧ i < 24) ∧ ¬ (lo ≤ i ∧ i < lo + 2)) ∨
        (wdtCrPwSet wdtPw2).getLsbD i = true ∨
        (lo ≤ i ∧ i < lo + 2) ∧ v.getLsbD (i - lo) = true := by
  have hpwMask : ∀ i, i < 32 →
      ((0xff00ffff : Word).getLsbD i = true ↔ ¬ (16 ≤ i ∧ i < 24)) := by decide
  rw [setFieldWord, BitVec.getLsbD_or, BitVec.getLsbD_and, BitVec.getLsbD_and, BitVec.getLsbD_or,
    getLsbD_fieldSet (by decide) hi]
  simp only [Bool.or_eq_true, Bool.and_eq_true, decide_eq_true_eq, hmask i hi, hpwMask i hi, and_assoc]

include hmask in
theorem setFieldWord_pw (hlo : 24 ≤ lo) (cr v : Word) :
    fieldGet 8 16 (setFieldWord mask lo cr v) = wdtPw2 := by
  refine fieldGet_eq_pw2 ?_
  intro i h16 h24
  rw [Bool.eq_iff_iff, setFieldWord_bit hmask (by omega)]
  constructor
  · rintro (⟨-, hout, -⟩ | hpw | ⟨hin, -⟩)
    · omega
    · exact hpw
    · omega
  · exact fun hpw => .inr (.inl hpw)

include hmask in
theorem wdtSetField_eq (hlo : 24 ≤ lo) (r : WdtReg) (v : Word) :
    wdtSetField mask (fieldSet 2 lo) r v = ⟨setFieldWord mask lo r.cr v &&& wdtCrKept, false,
      r.writes ++ [wdtCrPwSet wdtPw1, setFieldWord mask lo r.cr v]⟩ :=
  r.store_pair (setFieldWord_pw hmask hlo r.cr v)

include hmask in
/-- The field gets the value and every other bit stays. -/
theorem wdtSetField_bit (hlo : 24 ≤ lo) (hhi : lo + 2 ≤ 28) {r : WdtReg}
    (hk : r.cr &&& wdtCrKept = r.cr) (v : Word) {i : Nat} (hi : i < 32) :
    (wdtSetField mask (fieldSet 2 lo) r v).cr.getLsbD i =
      if lo ≤ i ∧ i < lo + 2 then v.getLsbD (i - lo) else r.cr.getLsbD i := by
  have hpw := pw2_bit i hi
  have hkept : r.cr.getLsbD i = true → i < 16 ∨ 24 ≤ i ∧ i ≠ 28 := fun hb =>
    (kept_bit i hi).mp (kept_of_getLsbD hk hb)
  rw [wdtSetField_eq hmask hlo, Bool.eq_iff_iff]
  simp only [BitVec.getLsbD_and, Bool.and_eq_true, setFieldWord_bit hmask hi, kept_bit i hi]
  by_cases hin : lo ≤ i ∧ i < lo + 2
  · rw [if_pos hin]
    constructor
    · rintro ⟨⟨-, -, hout⟩ | hb | ⟨-, hv⟩, -⟩
      · exact absurd hin hout
      · have := hpw hb
        omega
      · exact hv
    · exact fun hv => ⟨.inr (.inr ⟨hin, hv⟩), .inr (by omega)⟩
  · rw [if_neg hin]
    constructor
    · rintro ⟨⟨hb, -, -⟩ | hb | ⟨hout, -⟩, hk'⟩
      · exact hb
      · have := hpw hb
        omega
      · exact absurd hout hin
    · intro hb
      have hk' := hkept hb
      exact ⟨.inl ⟨hb, by omega, hin⟩, hk'⟩

include hmask in
theorem wdtSetField_written (hlo : 24 ≤ lo) (hhi : lo + 2 ≤ 28) {r : WdtReg}
    (hk : r.cr &&& wdtCrKept = r.cr) (v : Word) :
    FieldsWritten [(⟨0, lo, 2⟩, v.toNat % 4)] r.cr (wdtSetField mask (fieldSet 2 lo) r v).cr := by
  refine ⟨?_, ?_⟩
  · intro f w hm
    cases List.mem_singleton.mp hm
    refine crFile_get rfl (Nat.mod_lt _ (by decide)) ?_
    intro j hj
    have hj : j < 2 := hj
    have hmod : (v.toNat % 2 ^ 2).testBit j = v.getLsbD j := by
      rw [Nat.testBit_mod_two_pow, decide_eq_true hj, Bool.true_and, BitVec.testBit_toNat]
    dsimp only
    rw [wdtSetField_bit hmask hlo hhi hk v (by omega), if_pos (by omega), Nat.add_sub_cancel_left]
    exact hmod.symm
  · intro i hout
    by_cases hi : i < 32
    · have hcov := hout ⟨0, lo, 2⟩ (v.toNat % 4) (by simp)
      rw [wdtSetField_bit hmask hlo hhi hk v hi, if_neg (fun hin => hcov ⟨rfl, hin⟩)]
    · rw [BitVec.getLsbD_of_ge _ _ (by omega), BitVec.getLsbD_of_ge _ _ (by omega)]

end SetField

theorem pwlMask_bit : ∀ i, i < 32 →
    ((0xf3ffffff : Word).getLsbD i = true ↔ ¬ (26 ≤ i ∧ i < 26 + 2)) := by decide

theorem clkdivMask_bit : ∀ i, i < 32 →
    ((0xfcffffff : Word).getLsbD i = true ↔ ¬ (24 ≤ i ∧ i < 24 + 2)) := by decide

/-- Switching a bit stores that bit alone: the negated masks are zero. -/
theorem wdtSwitch_eq {bit : Word} (hbit : bit = wdtCrLpen ∨ bit = wdtCrDsen) (r : WdtReg) (en : Word) :
    ∃ w, fieldGet 8 16 w = wdtPw2 ∧ wdtSwitch bit r en =
      ⟨if en ≠ 0 then bit else 0, false, r.writes ++ [wdtCrPwSet wdtPw1, w]⟩ := by
  have hzero : lnot (wdtCrPwSet 0xff) = 0 := by decide
  have hand : ∀ x : Word, x &&& 0 = 0 := fun _ => BitVec.and_zero
  have hand' : ∀ x : Word, 0 &&& x = 0 := fun _ => BitVec.zero_and
  have hor : ∀ x : Word, 0 ||| x = x := fun _ => BitVec.zero_or
  by_cases hen : en ≠ 0
  · have hpw : fieldGet 8 16 (wdtCrPwSet wdtPw2 ||| bit) = wdtPw2 ∧
        (wdtCrPwSet wdtPw2 ||| bit) &&& wdtCrKept = bit := by
      rcases hbit with rfl | rfl
      · decide
      · decide
    refine ⟨_, hpw.1, ?_⟩
    simp only [wdtSwitch, if_pos hen, hzero, hand, hor]
    rw [r.store_pair hpw.1, hpw.2]
  · have hpw : fieldGet 8 16 (wdtCrPwSet wdtPw2) = wdtPw2 ∧
        wdtCrPwSet wdtPw2 &&& wdtCrKept = 0 := by decide
    refine ⟨_, hpw.1, ?_⟩
    simp only [wdtSwitch, if_neg hen, hzero, hand, hand', hor]
    rw [r.store_pair hpw.1, hpw.2]

theorem bitWord_bit {k : Nat} (hk : k < 32) (b : Bool) (i : Nat) :
    (if b then 1#32 <<< k else 0 : Word).getLsbD i = (b && decide (i = k)) := by
  cases b with
  | true => simpa using getLsbD_bit hk
  | false => simp

/-- Setting bit `k` to `b` and all others to zero is right exactly if the others are zero. -/
theorem switch_written_iff {k : Nat} (hk : k < 32) (cr : Word) (b : Bool) :
    FieldsWritten [(⟨0, k, 1⟩, b.toNat)] cr (if b then 1#32 <<< k else 0) ↔
      cr &&& ~~~(1#32 <<< k) = 0 := by
  have hcover : ∀ i, RegField.Covers ⟨0, k, 1⟩ 0 i ↔ i = k := by
    intro i
    simp only [RegField.Covers, true_and]
    omega
  rw [eq_zero_iff_getLsbD]
  constructor
  · intro h i
    rw [getLsbD_and_not, getLsbD_bit hk]
    by_cases hi : i = k
    · simp [hi]
    · have hframe := h.frame i (by
        intro f v hm
        cases List.mem_singleton.mp hm
        rw [hcover]
        exact hi)
      rw [bitWord_bit hk, decide_eq_false hi, Bool.and_false] at hframe
      rw [← hframe, Bool.false_and]
  · intro h
    refine ⟨?_, ?_⟩
    · intro f v hm
      cases List.mem_singleton.mp hm
      refine crFile_get rfl (Bool.toNat_lt b) ?_
      intro j hj
      have hj : j = 0 := Nat.lt_one_iff.mp hj
      subst hj
      rw [bitWord_bit hk]
      cases b <;> simp
    · intro i hout
      have hi : i ≠ k := fun heq => hout ⟨0, k, 1⟩ b.toNat (by simp) ((hcover i).mpr heq)
      have hclear := h i
      rw [getLsbD_and_not, getLsbD_bit hk, decide_eq_false hi, Bool.not_false, Bool.and_true] at hclear
      rw [bitWord_bit hk, decide_eq_false hi, Bool.and_false, hclear]

/-- The word that `wdt_enable` stores with the second password; the negated masks leave nothing of the
register. -/
def enableWord (cr reload : Word) : Word :=
  wdtCrPwSet wdtPw2 ||| wdtCrPwlSet (fieldGet 2 26 cr) ||| wdtCrClkdivSet (fieldGet 2 24 cr) |||
    wdtCrReloadSet reload ||| wdtCrGen

theorem enableWord_bit {i : Nat} (hi : i < 32) (cr reload : Word) :
    (enableWord cr reload).getLsbD i = true ↔
      (wdtCrPwSet wdtPw2).getLsbD i = true ∨ (24 ≤ i ∧ i < 28) ∧ cr.getLsbD i = true ∨
        i < 16 ∧ reload.getLsbD i = true ∨ i = 31 := by
  have hgen : wdtCrGen.getLsbD i = decide (i = 31) := getLsbD_bit (by decide)
  simp only [enableWord, wdtCrPwlSet, wdtCrClkdivSet, wdtCrReloadSet, BitVec.getLsbD_or, hgen,
    getLsbD_fieldSet (show 2 < 32 by decide) hi, getLsbD_fieldSet (show 16 < 32 by decide) hi,
    getLsbD_fieldGet (show 2 < 32 by decide), Bool.or_eq_true, Bool.and_eq_true, decide_eq_true_eq,
    Nat.sub_zero, Nat.zero_le, true_and, Nat.zero_add, or_assoc]
  constructor
  · rintro (h | ⟨hin, -, hb⟩ | ⟨hin, -, hb⟩ | h | h)
    · exact .inl h
    · rw [show 26 + (i - 26) = i by omega] at hb
      exact .inr (.inl ⟨by omega, hb⟩)
    · rw [show 24 + (i - 24) = i by omega] at hb
      exact .inr (.inl ⟨by omega, hb⟩)
    · exact .inr (.inr (.inl h))
    · exact .inr (.inr (.inr h))
  · rintro (h | ⟨hin, hb⟩ | h | h)
    · exact .inl h
    · by_cases h26 : 26 ≤ i
      · refine .inr (.inl ⟨by omega, by omega, ?_⟩)
        rwa [show 26 + (i - 26) = i by omega]
      · refine .inr (.inr (.inl ⟨by omega, by omega, ?_⟩))
        rwa [show 24 + (i - 24) = i by omega]
    · exact .inr (.inr (.inr (.inl h)))
    · exact .inr (.inr (.inr (.inr h)))

theorem enableWord_pw (cr reload : Word) : fieldGet 8 16 (enableWord cr reload) = wdtPw2 := by
  refine fieldGet_eq_pw2 ?_
  intro i h16 h24
  rw [Bool.eq_iff_iff, enableWord_bit (by omega)]
  constructor
  · rintro (h | ⟨hin, -⟩ | ⟨hin, -⟩ | h)
    · exact h
    · omega
    · omega
    · omega
  · exact .inl

theorem wdtEnable_eq {ffpi timeout : Word} {r : WdtReg}
    (hfit : ¬ wdtReload ffpi r.cr timeout > 0xffff) :
    (wdtEnable ffpi r timeout).2 =
      ⟨enableWord r.cr (wdtReload ffpi r.cr timeout) &&& wdtCrKept, false,
        r.writes ++ [wdtCrPwSet wdtPw1, enableWord r.cr (wdtReload ffpi r.cr timeout)]⟩ := by
  have hzero : lnot (wdtCrPwSet 0xff) &&& lnot (wdtCrPwlSet 0x3) &&& lnot (wdtCrClkdivSet 0x3) &&&
      lnot (wdtCrReloadSet 0xffff) = 0 := by decide
  have hand : ∀ x : Word, x &&& 0 = 0 := fun _ => BitVec.and_zero
  have hor : ∀ x : Word, 0 ||| x = x := fun _ => BitVec.zero_or
  simp only [wdtEnable, if_neg hfit, hzero, hand, hor]
  exact r.store_pair (enableWord_pw r.cr _)

theorem enabled_bit {i : Nat} (hi : i < 32) (cr reload : Word) :
    (enableWord cr reload &&& wdtCrKept).getLsbD i = true ↔
      (24 ≤ i ∧ i < 28) ∧ cr.getLsbD i = true ∨ i < 16 ∧ reload.getLsbD i = true ∨ i = 31 := by
  have hpw := pw2_bit i hi
  rw [BitVec.getLsbD_and, Bool.and_eq_true, enableWord_bit hi, kept_bit i hi]
  constructor
  · rintro ⟨h | h, hk⟩
    · have := hpw h
      omega
    · exact h
  · intro h
    exact ⟨.inr h, by omega⟩

theorem switches_bit (i : Nat) : (wdtCrLpen ||| wdtCrDsen).getLsbD i = true ↔ i = 29 ∨ i = 30 := by
  have hl : wdtCrLpen.getLsbD i = decide (i = 29) := getLsbD_bit (by decide)
  have hd : wdtCrDsen.getLsbD i = decide (i = 30) := getLsbD_bit (by decide)
  rw [BitVec.getLsbD_or, hl, hd]
  simp

theorem enable_uncovered_iff (reload : Word) (i : Nat) :
    (∀ f v, (f, v) ∈ [(wdtReloadField, reload.toNat), (wdtGenField, 1)] → ¬f.Covers 0 i) ↔
      16 ≤ i ∧ i ≠ 31 := by
  simp only [List.mem_cons, Prod.mk.injEq, List.not_mem_nil, or_false]
  constructor
  · intro h
    have h1 := h _ _ (.inl ⟨rfl, rfl⟩)
    have h2 := h _ _ (.inr ⟨rfl, rfl⟩)
    simp only [RegField.Covers, wdtReloadField, wdtGenField, true_and] at h1 h2
    omega
  · rintro h f v (⟨rfl, -⟩ | ⟨rfl, -⟩)
    · simp only [RegField.Covers, wdtReloadField, true_and]
      omega
    · simp only [RegField.Covers, wdtGenField, true_and]
      omega

theorem enabled_reload {cr reload : Word} (hlt : reload.toNat < 2 ^ 16) :
    wdtReloadField.get (crFile (enableWord cr reload &&& wdtCrKept)) = reload.toNat := by
  refine crFile_get rfl hlt ?_
  intro j hj
  have hj : j < 16 := hj
  rw [BitVec.testBit_toNat, Bool.eq_iff_iff]
  simp only [wdtReloadField, Nat.zero_add]
  rw [enabled_bit (by omega)]
  constructor
  · rintro (⟨hin, -⟩ | ⟨-, hb⟩ | h31)
    · omega
    · exact hb
    · omega
  · exact fun hb => .inr (.inl ⟨hj, hb⟩)

theorem enabled_gen (cr reload : Word) :
    wdtGenField.get (crFile (enableWord cr reload &&& wdtCrKept)) = 1 := by
  refine crFile_get rfl (by decide) ?_
  intro j hj
  have hj : j = 0 := Nat.lt_one_iff.mp hj
  subst hj
  simp only [wdtGenField, Nat.add_zero]
  exact (enabled_bit (by decide) cr reload).mpr (.inr (.inr rfl))

/-- Enabling keeps the other fields exactly if the low-power and the debug-suspend bits are zero. -/
theorem enable_written_iff {cr reload : Word} (hk : cr &&& wdtCrKept = cr)
    (hfit : ¬ reload > 0xffff) :
    FieldsWritten [(wdtReloadField, reload.toNat), (wdtGenField, 1)] cr
      (enableWord cr reload &&& wdtCrKept) ↔ cr &&& (wdtCrLpen ||| wdtCrDsen) = 0 := by
  have hlt : reload.toNat < 2 ^ 16 := by
    have hle : reload.toNat ≤ (0xffff : Word).toNat := BitVec.not_lt.mp hfit
    exact Nat.lt_of_le_of_lt hle (by decide)
  rw [and_eq_zero_iff]
  constructor
  · intro h j hj
    by_contra hb
    have hpos := (switches_bit j).mp (Bool.eq_true_of_not_eq_false hb)
    have hframe := h.frame j ((enable_uncovered_iff reload j).mpr (by omega))
    rw [hj, enabled_bit (by omega)] at hframe
    omega
  · intro h
    refine ⟨?_, ?_⟩
    · intro f v hm
      simp only [List.mem_cons, Prod.mk.injEq, List.not_mem_nil, or_false] at hm
      rcases hm with ⟨rfl, rfl⟩ | ⟨rfl, rfl⟩
      · exact enabled_reload hlt
      · exact enabled_gen cr reload
    · intro i hout
      have hpos := (enable_uncovered_iff reload i).mp hout
      by_cases hi : i < 32
      · rw [Bool.eq_iff_iff, enabled_bit hi]
        constructor
        · rintro (⟨-, hb⟩ | ⟨hlow, -⟩ | h31)
          · exact hb
          · omega
          · exact absurd h31 hpos.2
        · intro hb
          have hkept := (kept_bit i hi).mp (kept_of_getLsbD hk hb)
          have hsw : ¬ (i = 29 ∨ i = 30) := by
            rw [← switches_bit, h i hb]
            decide
          exact .inl ⟨by omega, hb⟩
      · rw [BitVec.getLsbD_of_ge _ _ (by omega), BitVec.getLsbD_of_ge _ _ (by omega)]

end DanubeBsp
