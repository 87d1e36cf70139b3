import Mathlib.Tactic.IntervalCases
import DanubeBsp.Adm6996
import DanubeBsp.RegisterField

namespace DanubeBsp

/-! The access words. -/

theorem mdioReg_eq {acc : Word} {addr : Nat} (haddr : addr < 1024)
    (h : ∀ i, i < 10 → acc.getLsbD (16 + i) = addr.testBit i) : mdioReg acc = addr := by
  have hacc : (acc >>> 16) &&& 0x3ff#32 = BitVec.ofNat 32 addr := by
    apply BitVec.eq_of_getLsbD_eq
    intro i hi
    have hmask : (0x3ff#32).getLsbD i = decide (i < 10) := by
      rw [BitVec.getLsbD_ofNat, decide_eq_true hi, Bool.true_and]
      exact Nat.testBit_two_pow_sub_one 10 i
    rw [BitVec.getLsbD_and, BitVec.getLsbD_ushiftRight, hmask, BitVec.getLsbD_ofNat,
      decide_eq_true hi, Bool.true_and]
    by_cases hlow : i < 10
    · rw [h i hlow, decide_eq_true hlow, Bool.and_true]
    · have hpow : 2 ^ 10 ≤ 2 ^ i := Nat.pow_le_pow_right Nat.two_pos (by omega)
      have hhigh : addr.testBit i = false := Nat.testBit_lt_two_pow (haddr.trans_le hpow)
      rw [hhigh, decide_eq_false hlow, Bool.and_false]
  unfold mdioReg
  rw [hacc, BitVec.toNat_ofNat]
  omega

theorem getLsbD_addr {addr : Nat} (i : Nat) (hi : i < 10) :
    ((BitVec.ofNat 32 addr <<< 16) &&& 0x3ff0000#32).getLsbD (16 + i) = addr.testBit i := by
  have hmask : (0x3ff0000#32).getLsbD (16 + i) = true := by
    interval_cases i <;> rfl
  rw [BitVec.getLsbD_and, hmask, Bool.and_true, BitVec.getLsbD_shiftLeft,
    decide_eq_true (by omega : 16 + i < 32), Nat.add_sub_cancel_left, BitVec.getLsbD_ofNat,
    decide_eq_true (by omega : i < 32)]
  simp

theorem getLsbD_addr_low {addr i : Nat} (hi : i < 16) :
    ((BitVec.ofNat 32 addr <<< 16) &&& 0x3ff0000#32).getLsbD i = false := by
  rw [BitVec.getLsbD_and, BitVec.getLsbD_shiftLeft]
  simp [hi]

theorem getLsbD_ifxSwRead {r : SwRegs} {addr : Nat} (haddr : addr < 1024) (i : Nat) :
    (ifxSwRead r addr).getLsbD i = (r addr).getLsbD i := by
  have hreg : mdioReg (0xc0000000#32 ||| ((BitVec.ofNat 32 addr <<< 16) &&& 0x3ff0000#32)) =
      addr := by
    apply mdioReg_eq haddr
    intro j hj
    have hop : (0xc0000000#32).getLsbD (16 + j) = false := by
      interval_cases j <;> rfl
    rw [BitVec.getLsbD_or, hop, Bool.false_or, getLsbD_addr j hj]
  unfold ifxSwRead
  dsimp only
  rw [hreg, BitVec.getLsbD_and, BitVec.getLsbD_setWidth]
  by_cases hi : i < 16
  · have hmask : (0xffff#32).getLsbD i = true := by
      interval_cases i <;> rfl
    rw [hmask, decide_eq_true (by omega : i < 32)]
    simp
  · rw [BitVec.getLsbD_of_ge (r addr) i (by omega)]
    simp

/-- Data without bits in the address and in the opcode get to the register. -/
theorem ifxSwWrite_eq {r : SwRegs} {addr : Nat} {dat : Word} (haddr : addr < 1024)
    (hdat : ∀ i, 16 ≤ i → i < 26 → dat.getLsbD i = false) (hop : dat.getLsbD 30 = false) :
    ifxSwWrite r addr dat = Function.update r addr (dat.setWidth 16) := by
  have hreg : mdioReg (((BitVec.ofNat 32 addr <<< 16) &&& 0x3ff0000#32) ||| dat |||
      0x80000000#32) = addr := by
    apply mdioReg_eq haddr
    intro i hi
    have hbusy : (0x80000000#32).getLsbD (16 + i) = false := by
      interval_cases i <;> rfl
    rw [BitVec.getLsbD_or, BitVec.getLsbD_or, hbusy, hdat _ (by omega) (by omega), Bool.or_false,
      Bool.or_false, getLsbD_addr i hi]
  have hbit : (((BitVec.ofNat 32 addr <<< 16) &&& 0x3ff0000#32) ||| dat |||
      0x80000000#32).getLsbD 30 = false := by
    rw [BitVec.getLsbD_or, BitVec.getLsbD_or, hop, BitVec.getLsbD_and]
    simp
  have hlow : (((BitVec.ofNat 32 addr <<< 16) &&& 0x3ff0000#32) ||| dat |||
      0x80000000#32).setWidth 16 = dat.setWidth 16 := by
    apply BitVec.eq_of_getLsbD_eq
    intro i hi
    have hbusy : (0x80000000#32).getLsbD i = false := by
      interval_cases i <;> rfl
    rw [BitVec.getLsbD_setWidth, BitVec.getLsbD_setWidth, BitVec.getLsbD_or, BitVec.getLsbD_or,
      getLsbD_addr_low hi, hbusy, Bool.false_or, Bool.or_false]
  unfold ifxSwWrite
  dsimp only
  rw [hreg, hlow, if_neg (by rw [hbit]; simp)]

theorem ifxSwWrite_written {f : RegField} {r : SwRegs} {v : Nat} {dat : Word}
    (hreg : f.reg < 1024) (hv : v < 2 ^ f.width) (hfits : f.lo + f.width ≤ 16)
    (hbits : ∀ i, dat.getLsbD i =
      if f.lo ≤ i ∧ i < f.lo + f.width then v.testBit (i - f.lo) else (r f.reg).getLsbD i) :
    f.Written v r (ifxSwWrite r f.reg dat) := by
  have hhigh : ∀ i, 16 ≤ i → dat.getLsbD i = false := by
    intro i hi
    rw [hbits, if_neg (by omega), BitVec.getLsbD_of_ge _ _ hi]
  rw [ifxSwWrite_eq hreg (fun i hi _ => hhigh i hi) (hhigh 30 (by omega))]
  apply RegField.Written.of_bits hv hfits
  intro i hi
  rw [BitVec.getLsbD_setWidth, decide_eq_true hi, Bool.true_and]
  exact hbits i

/-! The read-modify-write expressions of the driver. -/

theorem getLsbD_value_shift {v width k : Nat} (hv : v < 2 ^ width) (hfits : k + width ≤ 32)
    (i : Nat) : (BitVec.ofNat 32 v <<< k).getLsbD i =
      (decide (k ≤ i ∧ i < k + width) && v.testBit (i - k)) := by
  rw [BitVec.getLsbD_shiftLeft, BitVec.getLsbD_ofNat]
  by_cases hlow : k ≤ i
  · by_cases hhigh : i < k + width
    · have h32 : i < 32 := by omega
      have h32' : i - k < 32 := by omega
      simp [hlow, hhigh, h32, h32']
    · have hpow : 2 ^ width ≤ 2 ^ (i - k) := Nat.pow_le_pow_right Nat.two_pos (by omega)
      rw [Nat.testBit_lt_two_pow (hv.trans_le hpow)]
      simp
  · have hlt : i < k := by omega
    simp [hlow, hlt]

theorem getLsbD_mask_shift {width k : Nat} (hfits : k + width ≤ 32) (i : Nat) :
    (BitVec.ofNat 32 (2 ^ width - 1) <<< k).getLsbD i = decide (k ≤ i ∧ i < k + width) := by
  have hpos : 0 < 2 ^ width := Nat.two_pow_pos width
  rw [getLsbD_value_shift (Nat.sub_lt hpos Nat.one_pos) hfits, Nat.testBit_two_pow_sub_one]
  by_cases h : k ≤ i ∧ i < k + width
  · have hlt : i - k < width := by omega
    simp [h, hlt]
  · simp [h]

/-- `~BIT_n` leaves the bits above `n` only. -/
theorem getLsbD_notBitN (n i : Nat) : (notBitN n).getLsbD i = decide (n < i ∧ i < 32) := by
  unfold notBitN
  rw [BitVec.getLsbD_shiftLeft, BitVec.getLsbD_not, BitVec.getLsbD_one]
  by_cases hi : i < 32
  · by_cases hn : n < i
    · have h1 : ¬i < n := by omega
      have h2 : i - n < 32 := by omega
      have h3 : ¬i - n = 0 := by omega
      simp [hi, hn, h1, h2, h3]
    · by_cases heq : i = n
      · subst heq
        simp [hi]
      · have h1 : i < n := by omega
        simp [hn, h1]
  · simp [hi]

section Forms

variable (r : SwRegs) {reg k width v : Nat} (hreg : reg < 1024)

include hreg

theorem written_or (hk : k < 16) : RegField.Written ⟨reg, k, 1⟩ 1 r
    (ifxSwWrite r reg (ifxSwRead r reg ||| 1#32 <<< k)) := by
  apply ifxSwWrite_written (f := ⟨reg, k, 1⟩) hreg (show 1 < 2 ^ 1 by decide) hk
  intro i
  rw [BitVec.getLsbD_or, getLsbD_ifxSwRead hreg, getLsbD_bit (by omega)]
  by_cases hi : i = k
  · subst hi
    simp
  · rw [if_neg (by dsimp only; omega), decide_eq_false hi, Bool.or_false]

theorem written_clear (hk : k < 16) : RegField.Written ⟨reg, k, 1⟩ 0 r
    (ifxSwWrite r reg (ifxSwRead r reg &&& ~~~(1#32 <<< k))) := by
  apply ifxSwWrite_written (f := ⟨reg, k, 1⟩) hreg (show 0 < 2 ^ 1 by decide) hk
  intro i
  rw [getLsbD_and_not, getLsbD_ifxSwRead hreg, getLsbD_bit (by omega)]
  by_cases hi : i = k
  · subst hi
    simp
  · rw [if_neg (by dsimp only; omega), decide_eq_false hi, Bool.not_false, Bool.and_true]

theorem written_replace (hfits : k + width ≤ 16) (hv : v < 2 ^ width) :
    RegField.Written ⟨reg, k, width⟩ v r (ifxSwWrite r reg
      ((ifxSwRead r reg &&& ~~~(BitVec.ofNat 32 (2 ^ width - 1) <<< k)) |||
        (BitVec.ofNat 32 v <<< k))) := by
  apply ifxSwWrite_written (f := ⟨reg, k, width⟩) hreg hv hfits
  intro i
  rw [BitVec.getLsbD_or, getLsbD_and_not, getLsbD_ifxSwRead hreg, getLsbD_mask_shift (by omega),
    getLsbD_value_shift hv (by omega)]
  by_cases hi : k ≤ i ∧ i < k + width
  · simp [hi]
  · simp [hi]

/-- With `~BIT_n` the bits below go as well. -/
theorem written_below (hk : k < 16) (hv : v ≤ 1) : RegField.Written ⟨reg, 0, k + 1⟩ (v * 2 ^ k) r
    (ifxSwWrite r reg ((ifxSwRead r reg &&& notBitN k) ||| (BitVec.ofNat 32 v <<< k))) := by
  have hlt : v * 2 ^ k < 2 ^ (k + 1) := by
    have hpos : 0 < 2 ^ k := Nat.two_pow_pos k
    have hle : v * 2 ^ k ≤ 1 * 2 ^ k := Nat.mul_le_mul_right _ hv
    rw [Nat.pow_succ]
    omega
  have hv1 : v < 2 ^ 1 := by omega
  apply ifxSwWrite_written (f := ⟨reg, 0, k + 1⟩) hreg hlt (by dsimp only; omega)
  intro i
  rw [BitVec.getLsbD_or, BitVec.getLsbD_and, getLsbD_ifxSwRead hreg, getLsbD_notBitN,
    getLsbD_value_shift hv1 (by omega), Nat.testBit_mul_two_pow]
  dsimp only
  by_cases hi : i < k + 1
  · have hnot : ¬(k < i ∧ i < 32) := by omega
    rw [if_pos (by omega), decide_eq_false hnot, Bool.and_false, Bool.false_or]
    by_cases hki : k ≤ i
    · simp [hki, hi]
    · simp [hki]
  · have hnot : ¬(k ≤ i ∧ i < k + 1) := by omega
    rw [if_neg (by omega), decide_eq_false hnot, Bool.false_and, Bool.or_false]
    by_cases h16 : i < 16
    · have hin : k < i ∧ i < 32 := by omega
      rw [decide_eq_true hin, Bool.and_true]
    · rw [BitVec.getLsbD_of_ge _ _ (by omega), Bool.false_and]

theorem written_whole (hv : v < 2 ^ 16) :
    RegField.Written ⟨reg, 0, 16⟩ v r (ifxSwWrite r reg (BitVec.ofNat 32 v)) := by
  apply ifxSwWrite_written (f := ⟨reg, 0, 16⟩) hreg hv (show 0 + 16 ≤ 16 by decide)
  intro i
  have hbits := getLsbD_value_shift hv (by decide : 0 + 16 ≤ 32) i
  rw [BitVec.shiftLeft_zero] at hbits
  rw [hbits]
  dsimp only
  by_cases hi : i < 16
  · simp [hi]
  · rw [if_neg (by omega), BitVec.getLsbD_of_ge _ _ (by omega)]
    simp [hi]

end Forms

/-! The fields of the settings. -/

def SwSetting.field : SwSetting → RegField
  | .igmp => ⟨0xc, 1, 1⟩
  | .igmpProxy => ⟨0xc, 0, 1⟩
  | .snoop => ⟨0xb, 12, 2⟩
  | .vlanMode => ⟨0x11, 5, 1⟩
  | .cpuPort => ⟨0x11, 13, 3⟩
  | .member filterId port => ⟨0x40 + filterId * 2, port, 1⟩
  | .qos => ⟨0x33, 12, 1⟩
  | .bndctl port tx => ⟨0x33, bndctlBit port tx, 1⟩
  | .queue port => ⟨ifxSwConf port, 8, 2⟩
  | .flowControl port => ⟨ifxSwConf port, 0, 1⟩
  | .weight qno => ⟨0x25 + qno - 1, 12, 4⟩
  | .filterPort filterno => ⟨0x8c + filterno, 0, 16⟩
  | .filterQueue filterno => ⟨0x96 + filterno / 4, filterno % 4 * 4, 2⟩
  | .filterOn filterno => ⟨0x98, filterno, 1⟩
  | .protocolIp num => ⟨num / 2 + 0x68, num % 2 * 8, 8⟩
  | .protocolAction num => ⟨0x95, num * 2, 2⟩

theorem ifxSwConf_bounds (port : Nat) : ifxSwConf port ≤ 9 := by
  unfold ifxSwConf
  match port with
  | 0 | 1 | 2 | 3 | 4 | 5 => decide
  | n + 6 => exact Nat.zero_le _

theorem ifxSwConf_inj {p q : Nat} (hp : p ≤ 5) (hq : q ≤ 5) (h : ifxSwConf p = ifxSwConf q) :
    p = q := by
  interval_cases p <;> interval_cases q <;> first | rfl | exact absurd h (by decide)

theorem bndctlBit_inj {p q : Nat} {tx tx' : Bool} (hp : p ≤ 5) (hq : q ≤ 5)
    (h : bndctlBit p tx = bndctlBit q tx') : p = q ∧ tx = tx' := by
  unfold bndctlBit at h
  cases tx <;> cases tx' <;> simp only [Bool.toNat_false, Bool.toNat_true, Bool.false_eq_true,
    if_false, if_true] at h <;> split_ifs at h <;> simp <;> omega

theorem bndctlBit_le {p : Nat} (tx : Bool) (hp : p ≤ 5) : bndctlBit p tx ≤ 11 := by
  unfold bndctlBit
  cases tx <;> simp only [Bool.toNat_false, Bool.toNat_true, Bool.false_eq_true, if_false,
    if_true] <;> split_ifs <;> omega

/-- The first and the last register of the settings of a kind. -/
def SwSetting.bank : SwSetting → Nat × Nat
  | .igmp => (0xc, 0xc)
  | .igmpProxy => (0xc, 0xc)
  | .snoop => (0xb, 0xb)
  | .vlanMode => (0x11, 0x11)
  | .cpuPort => (0x11, 0x11)
  | .member _ _ => (0x40, 0x5e)
  | .qos => (0x33, 0x33)
  | .bndctl _ _ => (0x33, 0x33)
  | .queue _ => (0, 9)
  | .flowControl _ => (0, 9)
  | .weight _ => (0x25, 0x27)
  | .filterPort _ => (0x8c, 0x93)
  | .filterQueue _ => (0x96, 0x97)
  | .filterOn _ => (0x98, 0x98)
  | .protocolIp _ => (0x68, 0x6b)
  | .protocolAction _ => (0x95, 0x95)

theorem SwSetting.reg_bank {a : SwSetting} (ha : a.Valid) :
    a.bank.1 ≤ a.field.reg ∧ a.field.reg ≤ a.bank.2 := by
  have hconf := ifxSwConf_bounds
  cases a
  case queue port => exact ⟨Nat.zero_le _, hconf port⟩
  case flowControl port => exact ⟨Nat.zero_le _, hconf port⟩
  all_goals
    simp only [SwSetting.Valid, SwSetting.field, SwSetting.bank] at ha ⊢
    omega

theorem SwSetting.disjoint {a b : SwSetting} (ha : a.Valid) (hb : b.Valid) (hne : b ≠ a) :
    a.field.Disjoint b.field := by
  by_cases hbank : a.bank.2 < b.bank.1 ∨ b.bank.2 < a.bank.1
  · have hra := SwSetting.reg_bank ha
    have hrb := SwSetting.reg_bank hb
    exact .inl (by omega)
  · cases a <;> cases b <;> simp only [SwSetting.bank, Nat.reduceLT, or_self, or_true, true_or,
      not_true_eq_false, not_false_eq_true] at hbank <;>
      simp only [SwSetting.Valid, SwSetting.field, RegField.Disjoint, ne_eq] at ha hb hne ⊢
    case neg.qos.bndctl port tx =>
      have hle := bndctlBit_le tx hb
      omega
    case neg.bndctl.qos port tx =>
      have hle := bndctlBit_le tx ha
      omega
    case neg.bndctl.bndctl p tx q tx' =>
      have hbit : bndctlBit p tx ≠ bndctlBit q tx' := by
        intro heq
        obtain ⟨rfl, rfl⟩ := bndctlBit_inj ha hb heq
        exact hne rfl
      omega
    case neg.queue.queue p q =>
      refine .inl fun heq => hne ?_
      rw [ifxSwConf_inj ha hb heq]
    case neg.flowControl.flowControl p q =>
      refine .inl fun heq => hne ?_
      rw [ifxSwConf_inj ha hb heq]
    all_goals
      simp only [SwSetting.member.injEq, SwSetting.weight.injEq, SwSetting.filterPort.injEq,
        SwSetting.filterQueue.injEq, SwSetting.filterOn.injEq, SwSetting.protocolIp.injEq,
        SwSetting.protocolAction.injEq, reduceCtorEq, not_true_eq_false] at hne <;> omega

/-! The getters. -/

section Getters

variable (r : SwRegs) {reg k width : Nat} (hreg : reg < 1024)

theorem get_bit : ((r reg).getLsbD k).toNat = RegField.get ⟨reg, k, 1⟩ r := by
  apply RegField.eq_get
  intro i
  rw [Nat.testBit_bool_toNat]
  by_cases hi : i = 0
  · subst hi
    simp
  · simp [hi]

include hreg

theorem get_flag (hk : k < 32) : (if ifxSwRead r reg &&& bitN k ≠ 0 then 1 else 0) =
    RegField.get ⟨reg, k, 1⟩ r := by
  rw [← get_bit, ← getLsbD_ifxSwRead hreg]
  cases hbit : (ifxSwRead r reg).getLsbD k with
  | false =>
    have hzero : ifxSwRead r reg &&& bitN k = 0 := by
      apply (and_eq_zero_iff _ _).mpr
      intro j hj
      have hne : j ≠ k := by
        rintro rfl
        simp [hbit] at hj
      unfold bitN
      rw [getLsbD_bit hk, decide_eq_false hne]
    rw [if_neg (not_not.mpr hzero)]
    rfl
  | true =>
    have hset : ifxSwRead r reg &&& bitN k ≠ 0 := by
      intro hzero
      have hoff := (and_eq_zero_iff _ _).mp hzero k hbit
      unfold bitN at hoff
      simp [getLsbD_bit hk] at hoff
    rw [if_pos hset]
    rfl

theorem get_shift (hfits : width ≤ 16) :
    ((ifxSwRead r reg >>> k) &&& BitVec.ofNat 32 (2 ^ width - 1)).toNat =
      RegField.get ⟨reg, k, width⟩ r := by
  apply RegField.eq_get
  intro i
  have hmask := @getLsbD_mask_shift width 0 (by omega) i
  rw [BitVec.shiftLeft_zero] at hmask
  rw [BitVec.testBit_toNat, BitVec.getLsbD_and, BitVec.getLsbD_ushiftRight, getLsbD_ifxSwRead hreg,
    hmask, Bool.and_comm]
  simp

theorem get_mask (hfits : k + width ≤ 32) :
    ((ifxSwRead r reg &&& BitVec.ofNat 32 (2 ^ width - 1) <<< k) >>> k).toNat =
      RegField.get ⟨reg, k, width⟩ r := by
  apply RegField.eq_get
  intro i
  rw [BitVec.testBit_toNat, BitVec.getLsbD_ushiftRight, BitVec.getLsbD_and,
    getLsbD_ifxSwRead hreg, getLsbD_mask_shift hfits, Bool.and_comm]
  simp

theorem get_top (hfits : k + width = 16) :
    (ifxSwRead r reg >>> k).toNat = RegField.get ⟨reg, k, width⟩ r := by
  apply RegField.eq_get
  intro i
  rw [BitVec.testBit_toNat, BitVec.getLsbD_ushiftRight, getLsbD_ifxSwRead hreg]
  by_cases hi : i < width
  · simp [hi]
  · rw [BitVec.getLsbD_of_ge _ _ (by omega)]
    simp [hi]

end Getters

/-- Every getter reads the field of its setting. -/
theorem SwSetting.read_eq (r : SwRegs) {a : SwSetting} (ha : a.Valid) :
    a.read r = a.field.get r := by
  cases a with
  | igmp => exact get_flag r (by decide) (by decide)
  | igmpProxy => exact get_flag r (by decide) (by decide)
  | snoop => exact @get_mask r _ 12 2 (by decide) (by decide)
  | vlanMode => exact get_flag r (by decide) (by decide)
  | cpuPort => exact @get_mask r _ 13 3 (by decide) (by decide)
  | member filterId port => exact get_bit r
  | qos => exact get_flag r (by decide) (by decide)
  | bndctl port tx => exact get_bit r
  | queue port =>
    have hconf := ifxSwConf_bounds port
    exact @get_shift r _ 8 2 (by omega) (by decide)
  | flowControl port => exact get_bit r
  | weight qno =>
    obtain ⟨hpos, hle⟩ := ha
    have hread := @get_shift r (admSwQueueConf1 + qno - 1) 12 4
      (by simp only [admSwQueueConf1]; omega) (by decide)
    show ifxSwGetQueueWeight r qno = _
    unfold ifxSwGetQueueWeight
    rw [if_neg (by omega)]
    exact hread
  | filterPort filterno =>
    have hle : filterno ≤ 7 := ha
    have hread := @get_top r (admSwTcpudpFilter0 + filterno) 0 16
      (by simp only [admSwTcpudpFilter0]; omega) rfl
    rw [BitVec.ushiftRight_zero] at hread
    exact hread
  | filterQueue filterno =>
    have hle : filterno ≤ 7 := ha
    show (if filterno < 4 then _ else _) = RegField.get ⟨_, filterno % 4 * 4, 2⟩ r
    by_cases hlow : filterno < 4
    · have hreg : 0x96 + filterno / 4 = admSwTcpudpAct0 := by simp only [admSwTcpudpAct0]; omega
      have hpos : filterno % 4 = filterno := by omega
      rw [if_pos hlow, hreg, hpos]
      exact @get_shift r _ (filterno * 4) 2 (by decide) (by decide)
    · have hreg : 0x96 + filterno / 4 = admSwTcpudpAct1 := by simp only [admSwTcpudpAct1]; omega
      have hpos : filterno % 4 = filterno - 4 := by omega
      rw [if_neg hlow, hreg, hpos]
      exact @get_shift r _ ((filterno - 4) * 4) 2 (by decide) (by decide)
  | filterOn filterno => exact @get_shift r _ filterno 1 (by decide) (by decide)
  | protocolIp num =>
    have hle : num ≤ 7 := ha
    show (if num % 2 = 0 then _ else _) = RegField.get ⟨_, num % 2 * 8, 8⟩ r
    by_cases heven : num % 2 = 0
    · have hread := @get_shift r (num / 2 + 0x68) 0 8 (by omega) (by decide)
      rw [BitVec.ushiftRight_zero] at hread
      rw [if_pos heven, heven]
      exact hread
    · have hodd : num % 2 = 1 := by omega
      rw [if_neg heven, hodd]
      exact @get_top r (num / 2 + 0x68) 8 8 (by omega) rfl
  | protocolAction num =>
    have hread := @get_shift r 0x95 (num * 2) 2 (by decide) (by decide)
    have hlt := RegField.get_lt ⟨0x95, num * 2, 2⟩ r
    show (((ifxSwRead r 0x95 >>> (num * 2)) &&& 0x3#32).setWidth 2).toNat = _
    rw [BitVec.toNat_setWidth]
    exact (congrArg (· % 2 ^ 2) hread).trans (Nat.mod_eq_of_lt hlt)

/-- `a` has got the value `v` and no other setting has changed. -/
def SwSets (a : SwSetting) (v : Nat) (r r' : SwRegs) : Prop :=
  ∀ s : SwSetting, s.Valid → s.read r' = Function.update (fun s => s.read r) a v s

theorem SwSets.of_written {a : SwSetting} {v : Nat} {r r' : SwRegs} (ha : a.Valid)
    (h : a.field.Written v r r') : SwSets a v r r' := by
  intro s hs
  by_cases heq : s = a
  · subst heq
    rw [Function.update_self, SwSetting.read_eq r' hs]
    exact h.value
  · rw [Function.update_of_ne heq, SwSetting.read_eq r' hs, SwSetting.read_eq r hs]
    exact h.get_of_disjoint (SwSetting.disjoint ha hs heq)

end DanubeBsp