import DanubeBsp.LedConfig
import DanubeBsp.MaskedWrite

namespace DanubeBsp

inductive LedReg where
  | con0
  | con1
  | cpu0
  | ar
  deriving DecidableEq

/-- The operations, in the order of `danube_led_config`. -/
inductive LedOp where
  | updateSource
  | blink
  | dataClockEdge
  | updateClock
  | storeMode
  | shiftClock
  | dataOffset
  | numberOfLed
  | data
  | mips0Access
  deriving DecidableEq

def LedDev.reg (d : LedDev) : LedReg → Word
  | .con0 => d.con0
  | .con1 => d.con1
  | .cpu0 => d.cpu0
  | .ar => d.ar

def LedDev.newReg (d : LedDev) (param : LedConfigParam) : LedReg → Word
  | .con0 => d.newCon0 param
  | .con1 => d.newCon1 param
  | .cpu0 => d.newCpu0 param
  | .ar => d.newAr param

namespace LedOp

def all : List LedOp :=
  [updateSource, blink, dataClockEdge, updateClock, storeMode, shiftClock, dataOffset, numberOfLed,
    data, mips0Access]

theorem mem_all (op : LedOp) : op ∈ all := by
  cases op <;> decide

/-- The bit of `operation_mask`. -/
def bit : LedOp → Word
  | updateSource => configOperationUpdateSource
  | blink => configOperationBlink
  | dataClockEdge => configDataClockEdge
  | updateClock => configOperationUpdateClock
  | storeMode => configOperationStoreMode
  | shiftClock => configOperationShiftClock
  | dataOffset => configOperationDataOffset
  | numberOfLed => configOperationNumberOfLed
  | data => configOperationData
  | mips0Access => configOperationMips0Access

/-- The register that the operation is about. -/
def reg : LedOp → LedReg
  | updateSource | blink | dataClockEdge => .con0
  | updateClock | storeMode | shiftClock | dataOffset | numberOfLed => .con1
  | data => .cpu0
  | mips0Access => .ar

/-- The bits of its register that the operation is about, `AD`, `LB`, `US` with `FPID` and so on. -/
def mask (param : LedConfigParam) : LedOp → Word
  | updateSource => param.led <<< 24
  | blink => param.blinkMask
  | dataClockEdge => 1#32 <<< 26
  | updateClock => if param.updateClock = 2 then 0xcf800000#32 else 0xc0000000#32
  | storeMode => 1#32 <<< 28
  | shiftClock => 3#32 <<< 20
  | dataOffset => 3#32 <<< 18
  | numberOfLed => 7
  | data => param.dataMask
  | mips0Access => param.mips0AccessMask

/-- What they are to hold. A group of eight LEDs has a bit each, and a bit that is clear in `AR` stands
for MIPS0. -/
def value (param : LedConfigParam) : LedOp → Word
  | updateSource => param.source <<< 24
  | blink => param.blink
  | dataClockEdge => if param.fDataClockOnRising ≠ 0 then 0 else 1#32 <<< 26
  | updateClock =>
    if param.updateClock = 2 then (param.updateClock <<< 30) ||| (param.fpid <<< 23)
    else param.updateClock <<< 30
  | storeMode => if param.storeMode ≠ 0 then 1#32 <<< 28 else 0
  | shiftClock => param.fpis <<< 20
  | dataOffset => param.dataOffset <<< 18
  | numberOfLed => BitVec.ofNat 32 (2 ^ ((param.numberOfEnabledLed.toNat + 7) / 8) - 1)
  | data => param.data
  | mips0Access => ~~~param.mips0Access

def edgeWrite (param : LedConfigParam) : MaskedWrite 32 :=
  if param.fDataClockOnRising ≠ 0 then ⟨1#32 <<< 26, 0⟩ else ⟨0, 1#32 <<< 26⟩

def updateClockWrite (param : LedConfigParam) : MaskedWrite 32 :=
  if param.updateClock = 0 then ⟨0xc0000000#32, 0⟩
  else if param.updateClock = 1 then ⟨0xc0000000#32, 0x40000000#32⟩
  else if param.updateClock = 2 then
    ⟨0xcf800000#32, 0x80000000#32 ||| ((param.fpid &&& 0x1f#32) <<< 23)⟩
  else .keep

def storeModeWrite (param : LedConfigParam) : MaskedWrite 32 :=
  if param.storeMode ≠ 0 then ⟨0, 1#32 <<< 28⟩ else ⟨1#32 <<< 28, 0⟩

def numberWrite (param : LedConfigParam) : MaskedWrite 32 :=
  ⟨0x07#32,
    if 16#32 < param.numberOfEnabledLed then 0x07#32
    else if 8#32 < param.numberOfEnabledLed then 0x03#32
    else if param.numberOfEnabledLed ≠ 0 then 0x01#32 else 0x00#32⟩

def updateWrite (update : Bool) : MaskedWrite 32 := if update then ⟨0, 0x80000000#32⟩ else .keep

/-- What the operation does to a register, with or without a software update. -/
def write (update : Bool) (param : LedConfigParam) : LedOp → LedReg → MaskedWrite 32
  | updateSource, .con0 => ⟨(param.led &&& 0x03#32) <<< 24, (param.source &&& 0x03#32) <<< 24⟩
  | blink, .con0 =>
    ⟨(param.blinkMask &&& 0x00ffffff#32) ||| 0x87000000#32, param.blink &&& 0x00ffffff#32⟩
  | dataClockEdge, .con0 => edgeWrite param
  | updateClock, .con1 => updateClockWrite param
  | storeMode, .con1 => storeModeWrite param
  | shiftClock, .con1 => ⟨3#32 <<< 20, (param.fpis &&& 3#32) <<< 20⟩
  | dataOffset, .con1 => ⟨3#32 <<< 18, (param.dataOffset &&& 3#32) <<< 18⟩
  | numberOfLed, .con1 => numberWrite param
  | data, .con0 => updateWrite update
  | data, .cpu0 => ⟨param.dataMask &&& 0x00ffffff#32, param.data &&& 0x00ffffff#32⟩
  | mips0Access, .ar =>
    ⟨param.mips0AccessMask &&& 0x00ffffff#32, ~~~param.mips0Access &&& param.mips0AccessMask⟩
  | _, _ => .keep

/-- All bits that the operation can change, for any parameters. -/
def region : LedOp → LedReg → Word
  | updateSource, .con0 => 0x03000000
  | blink, .con0 => 0x87ffffff
  | dataClockEdge, .con0 => 0x04000000
  | updateClock, .con1 => 0xcf800000
  | storeMode, .con1 => 0x10000000
  | shiftClock, .con1 => 0x00300000
  | dataOffset, .con1 => 0x000c0000
  | numberOfLed, .con1 => 0x00000007
  | data, .con0 => 0x80000000
  | data, .cpu0 => 0x00ffffff
  | mips0Access, .ar => 0xffffffff
  | _, _ => 0

/-- Only `BLINK` meets another operation. -/
theorem region_apart : ∀ op ∈ all, ∀ op' ∈ all, op ≠ op' → op ≠ blink → op' ≠ blink →
    ∀ r ∈ [LedReg.con0, .con1, .cpu0, .ar], op.region r &&& op'.region r = 0 := by
  decide +kernel

end LedOp

namespace LedConfigParam

/-- The operations that the call asks for. -/
def ops (param : LedConfigParam) : List LedOp := LedOp.all.filter (fun op => param.has op.bit)

theorem mem_ops {param : LedConfigParam} {op : LedOp} :
    op ∈ param.ops ↔ param.has op.bit = true := by
  rw [ops, List.mem_filter]
  exact and_iff_right op.mem_all

/-- The parameter block with one operation. -/
def only (param : LedConfigParam) (op : LedOp) : LedConfigParam :=
  { param with operationMask := op.bit }

theorem has_only (param : LedConfigParam) (op op' : LedOp) :
    (param.only op).has op'.bit = decide (op' = op) := by
  unfold has only
  dsimp only
  cases op <;> cases op' <;> rfl

theorem ops_only (param : LedConfigParam) (op : LedOp) : (param.only op).ops = [op] := by
  unfold ops
  simp only [has_only]
  cases op <;> rfl

end LedConfigParam

/-- What `danube_led_config` checks of the operation's own parameters. -/
def LedOp.Accepts (param : LedConfigParam) : LedOp → Prop
  | updateSource => param.led ≤ 0x03#32 ∧ param.source ≤ 0x03#32
  | blink => param.blinkMask &&& 0xff000000#32 = 0 ∧ param.blink &&& 0xff000000#32 = 0
  | updateClock => param.updateClock ≤ 0x02#32 ∧ (param.updateClock = 0x02#32 → param.fpid ≤ 0x03#32)
  | shiftClock => param.fpis ≤ 0x03#32
  | dataOffset => param.dataOffset ≤ 0x03#32
  | numberOfLed => param.numberOfEnabledLed ≤ 0x24#32
  | data => param.dataMask &&& 0xff000000#32 = 0 ∧ param.data &&& 0xff000000#32 = 0
  | mips0Access =>
    param.mips0AccessMask &&& 0xff000000#32 = 0 ∧ param.mips0Access &&& 0xff000000#32 = 0
  | dataClockEdge | storeMode => True

theorem LedConfigParam.valid_iff (param : LedConfigParam) :
    param.valid = true ↔ ∀ op : LedOp, param.has op.bit = true → op.Accepts param := by
  have hall (p : LedOp → Prop) : (∀ op, p op) ↔ p .updateSource ∧ p .blink ∧ p .updateClock ∧
      p .shiftClock ∧ p .dataOffset ∧ p .numberOfLed ∧ p .data ∧ p .mips0Access ∧
      p .dataClockEdge ∧ p .storeMode := by
    constructor
    · intro h
      exact ⟨h _, h _, h _, h _, h _, h _, h _, h _, h _, h _⟩
    · rintro ⟨h1, h2, h3, h4, h5, h6, h7, h8, h9, h10⟩ op
      cases op <;> assumption
  rw [hall]
  unfold LedConfigParam.valid
  simp only [LedOp.bit, LedOp.Accepts, Bool.and_eq_true, Bool.not_eq_true', Bool.and_eq_false_iff,
    Bool.or_eq_false_iff, decide_eq_false_iff_not, bne_eq_false_iff_eq, BitVec.not_lt,
    beq_eq_false_iff_ne, or_true, and_true, and_assoc, imp_iff_not_or, Bool.not_eq_true, ne_eq]

section Writes

variable {w : Nat} {param : LedConfigParam} {op : LedOp} {r : LedReg}

theorem MaskedWrite.applyAll_filter {α : Type*} (as : List α) (p : α → Bool)
    (f : α → MaskedWrite w) (x : BitVec w) :
    applyAll ((as.filter p).map f) x =
      as.foldl (fun x a => if p a = true then (f a).apply x else x) x := by
  unfold applyAll
  rw [List.foldl_map, List.foldl_filter]

theorem setDataClockEdge_eq (param : LedConfigParam) (x : Word) :
    setDataClockEdge x param.fDataClockOnRising = (LedOp.edgeWrite param).apply x := by
  unfold setDataClockEdge LedOp.edgeWrite
  split_ifs
  · exact (MaskedWrite.apply_clear _ _).symm
  · exact (MaskedWrite.apply_set _ _).symm

theorem setUpdateClock_eq (param : LedConfigParam) (x : Word) :
    setUpdateClock x param.updateClock param.fpid = (LedOp.updateClockWrite param).apply x := by
  unfold setUpdateClock LedOp.updateClockWrite
  split_ifs
  · exact (MaskedWrite.apply_clear _ _).symm
  · rfl
  · exact BitVec.or_assoc _ _ _
  · exact (MaskedWrite.apply_keep _).symm

theorem setStoreMode_eq (param : LedConfigParam) (x : Word) :
    setStoreMode x param.storeMode = (LedOp.storeModeWrite param).apply x := by
  unfold setStoreMode LedOp.storeModeWrite
  split_ifs
  · exact (MaskedWrite.apply_set _ _).symm
  · exact (MaskedWrite.apply_clear _ _).symm

theorem or_swu_eq (update : Bool) (x : Word) :
    (if update = true then x ||| 0x80000000#32 else x) = (LedOp.updateWrite update).apply x := by
  unfold LedOp.updateWrite
  cases update with
  | false => exact (MaskedWrite.apply_keep x).symm
  | true => exact (MaskedWrite.apply_set _ _).symm

/-- The new value of a register is made by the writes of the operations, one after another. -/
theorem LedDev.newReg_eq (d : LedDev) (param : LedConfigParam) (r : LedReg) :
    d.newReg param r =
      MaskedWrite.applyAll
        (param.ops.map fun op => op.write (d.softwareUpdate param) param r) (d.reg r) := by
  rw [LedConfigParam.ops, MaskedWrite.applyAll_filter]
  unfold LedOp.all
  cases r with
  | con0 =>
    simp only [List.foldl_cons, List.foldl_nil, LedOp.write, MaskedWrite.apply_keep, ite_self]
    unfold LedDev.newReg LedDev.newCon0
    simp only [setDataClockEdge_eq, Bool.and_eq_true, ← or_swu_eq, ite_and]
    rfl
  | con1 =>
    simp only [List.foldl_cons, List.foldl_nil, LedOp.write, MaskedWrite.apply_keep, ite_self]
    unfold LedDev.newReg LedDev.newCon1
    simp only [setUpdateClock_eq, setStoreMode_eq]
    rfl
  | cpu0 =>
    simp only [List.foldl_cons, List.foldl_nil, LedOp.write, MaskedWrite.apply_keep, ite_self]
    rfl
  | ar =>
    simp only [List.foldl_cons, List.foldl_nil, LedOp.write, MaskedWrite.apply_keep, ite_self]
    rfl

theorem LedOp.write_within (update : Bool) (param : LedConfigParam) (op : LedOp) (r : LedReg) :
    (op.write update param r).Within (op.region r) := by
  have hkeep (mask : Word) : (MaskedWrite.keep : MaskedWrite 32).Within mask :=
    ⟨BitVec.zero_and, BitVec.zero_and⟩
  have hconst {c n : Nat} (x : Word) {mask : Word} (h : BitVec.ofNat 32 c <<< n &&& ~~~mask = 0) :
      (x &&& BitVec.ofNat 32 c) <<< n &&& ~~~mask = 0 := by
    rw [BitVec.shiftLeft_and_distrib]
    exact MaskedWrite.and_within h _
  cases r with
  | con0 =>
    cases op with
    | updateSource => exact ⟨hconst _ (by decide), hconst _ (by decide)⟩
    | blink =>
      exact ⟨MaskedWrite.or_within (MaskedWrite.and_within (by decide) _) (by decide),
        MaskedWrite.and_within (by decide) _⟩
    | dataClockEdge =>
      show (edgeWrite param).Within _
      unfold edgeWrite
      split_ifs
      · exact ⟨by decide, by decide⟩
      · exact ⟨by decide, by decide⟩
    | data =>
      cases update with
      | false => exact hkeep _
      | true =>
        exact ⟨show 0#32 &&& ~~~0x80000000#32 = 0 by decide,
          show 0x80000000#32 &&& ~~~0x80000000#32 = 0 by decide⟩
    | updateClock | storeMode | shiftClock | dataOffset | numberOfLed | mips0Access => exact hkeep _
  | con1 =>
    cases op with
    | updateClock =>
      show (updateClockWrite param).Within _
      unfold updateClockWrite
      split_ifs
      · exact ⟨by decide, by decide⟩
      · exact ⟨by decide, by decide⟩
      · exact ⟨show 0xcf800000#32 &&& ~~~0xcf800000#32 = 0 by decide,
          MaskedWrite.or_within (by decide) (hconst _ (by decide))⟩
      · exact hkeep _
    | storeMode =>
      show (storeModeWrite param).Within _
      unfold storeModeWrite
      split_ifs
      · exact ⟨by decide, by decide⟩
      · exact ⟨by decide, by decide⟩
    | shiftClock =>
      exact ⟨show 3#32 <<< 20 &&& ~~~0x00300000#32 = 0 by decide, hconst _ (by decide)⟩
    | dataOffset =>
      exact ⟨show 3#32 <<< 18 &&& ~~~0x000c0000#32 = 0 by decide, hconst _ (by decide)⟩
    | numberOfLed =>
      refine ⟨show 0x07#32 &&& ~~~0x07#32 = 0 by decide, ?_⟩
      show (numberWrite param).set &&& _ = _
      unfold numberWrite
      dsimp only
      split_ifs
      · decide
      · decide
      · decide
      · decide
    | updateSource | blink | dataClockEdge | data | mips0Access => exact hkeep _
  | cpu0 =>
    cases op with
    | data => exact ⟨MaskedWrite.and_within (by decide) _, MaskedWrite.and_within (by decide) _⟩
    | updateSource | blink | dataClockEdge | updateClock | storeMode | shiftClock | dataOffset
      | numberOfLed | mips0Access => exact hkeep _
  | ar =>
    cases op with
    | mips0Access => exact ⟨BitVec.and_zero, BitVec.and_zero⟩
    | updateSource | blink | dataClockEdge | updateClock | storeMode | shiftClock | dataOffset
      | numberOfLed | data => exact hkeep _

theorem and_three {x : Word} (h : x ≤ 0x03#32) : x &&& 0x03#32 = x := by
  have hx : x.toNat ≤ 3 := h
  apply BitVec.eq_of_toNat_eq
  rw [BitVec.toNat_and]
  exact (Nat.and_two_pow_sub_one_eq_mod x.toNat 2).trans (Nat.mod_eq_of_lt (by omega))

theorem and_low {x : Word} (h : x &&& 0xff000000#32 = 0) : x &&& 0x00ffffff#32 = x := by
  calc x &&& 0x00ffffff#32 = (x &&& 0xff000000#32) ||| (x &&& 0x00ffffff#32) := by
        rw [h]
        exact BitVec.zero_or.symm
    _ = x := by
        rw [← BitVec.and_or_distrib_left]
        exact BitVec.and_allOnes

theorem number_value {n : Word} (h : n ≤ 0x24#32) :
    (if 16#32 < n then 0x07#32 else if 8#32 < n then 0x03#32 else if n ≠ 0 then 0x01#32 else 0x00#32)
        &&& 7#32 =
      BitVec.ofNat 32 (2 ^ ((n.toNat + 7) / 8) - 1) &&& 7#32 := by
  have hn : n.toNat < 37 := Nat.lt_succ_of_le h
  have hall : ∀ k < 37,
      (if 16#32 < BitVec.ofNat 32 k then 0x07#32 else if 8#32 < BitVec.ofNat 32 k then 0x03#32
        else if BitVec.ofNat 32 k ≠ 0 then 0x01#32 else 0x00#32) &&& 7#32 =
      BitVec.ofNat 32 (2 ^ ((k + 7) / 8) - 1) &&& 7#32 := by decide
  have hk := hall n.toNat hn
  rwa [BitVec.ofNat_toNat, BitVec.setWidth_eq] at hk

theorem and_not_or_self (x y : Word) : x &&& ~~~(x ||| y) = 0 := by
  rw [BitVec.not_or, ← BitVec.and_assoc, BitVec.and_not_self]
  exact BitVec.zero_and

theorem LedOp.clock_cases (h : LedOp.updateClock.Accepts param) :
    param.updateClock = 0 ∨ param.updateClock = 1 ∨ param.updateClock = 2 := by
  have h2 : param.updateClock.toNat ≤ 2 := h.1
  bv_omega

/-- A write does at the bits of the mask what is requested. -/
theorem LedOp.write_mask {update : Bool} {op : LedOp} (h : op.Accepts param) {i : Nat}
    (hi : (op.mask param).getLsbD i = true) :
    (op.write update param op.reg).act i = some ((op.value param).getLsbD i) := by
  cases op with
  | updateSource =>
    refine MaskedWrite.act_of_mask ?_ ?_ hi
    · show (param.source &&& 0x03#32) <<< 24 &&& _ = _
      rw [and_three h.2]
      rfl
    · show param.led <<< 24 &&& ~~~((param.led &&& 0x03#32) <<< 24 ||| _) = 0
      rw [and_three h.1]
      exact and_not_or_self _ _
  | blink =>
    refine MaskedWrite.act_of_mask ?_ ?_ hi
    · show param.blink &&& 0x00ffffff#32 &&& _ = _
      rw [and_low h.2]
      rfl
    · show param.blinkMask &&& ~~~((param.blinkMask &&& 0x00ffffff#32) ||| 0x87000000#32 ||| _) = 0
      rw [and_low h.1, BitVec.or_assoc]
      exact and_not_or_self _ _
  | dataClockEdge =>
    refine MaskedWrite.act_of_mask ?_ ?_ hi
    · show (edgeWrite param).set &&& 1#32 <<< 26 = (if _ then _ else _) &&& 1#32 <<< 26
      unfold edgeWrite
      split_ifs
      · rfl
      · rfl
    · show 1#32 <<< 26 &&& ~~~((edgeWrite param).clear ||| (edgeWrite param).set) = 0
      unfold edgeWrite
      split_ifs
      · decide
      · decide
  | updateClock =>
    refine MaskedWrite.act_of_mask ?_ ?_ hi
    · show (updateClockWrite param).set &&& (if _ then _ else _) =
        (if _ then _ else _) &&& (if _ then _ else _)
      unfold updateClockWrite
      obtain h0 | h1 | h2 := clock_cases h
      · rw [h0]
        rfl
      · rw [h1]
        rfl
      · have hfpid : param.fpid &&& 0x1f#32 = param.fpid := by
          have hthree := and_three (h.2 h2)
          calc param.fpid &&& 0x1f#32 = param.fpid &&& 0x03#32 &&& 0x1f#32 := by rw [hthree]
            _ = param.fpid := by
              rw [BitVec.and_assoc]
              exact hthree
        rw [h2, hfpid]
        rfl
    · show (if _ then _ else _) &&&
        ~~~((updateClockWrite param).clear ||| (updateClockWrite param).set) = 0
      unfold updateClockWrite
      obtain h0 | h1 | h2 := clock_cases h
      · rw [h0]
        exact and_not_or_self _ _
      · rw [h1]
        exact and_not_or_self _ _
      · rw [h2]
        exact and_not_or_self _ _
  | storeMode =>
    refine MaskedWrite.act_of_mask ?_ ?_ hi
    · show (storeModeWrite param).set &&& 1#32 <<< 28 = (if _ then _ else _) &&& 1#32 <<< 28
      unfold storeModeWrite
      split_ifs
      · rfl
      · rfl
    · show 1#32 <<< 28 &&& ~~~((storeModeWrite param).clear ||| (storeModeWrite param).set) = 0
      unfold storeModeWrite
      split_ifs
      · decide
      · decide
  | shiftClock =>
    refine MaskedWrite.act_of_mask ?_ (and_not_or_self _ _) hi
    show (param.fpis &&& 3#32) <<< 20 &&& _ = _
    rw [and_three h]
    rfl
  | dataOffset =>
    refine MaskedWrite.act_of_mask ?_ (and_not_or_self _ _) hi
    show (param.dataOffset &&& 3#32) <<< 18 &&& _ = _
    rw [and_three h]
    rfl
  | numberOfLed => exact MaskedWrite.act_of_mask (number_value h) (and_not_or_self _ _) hi
  | data =>
    refine MaskedWrite.act_of_mask ?_ ?_ hi
    · show param.data &&& 0x00ffffff#32 &&& _ = _
      rw [and_low h.2]
      rfl
    · show param.dataMask &&& ~~~((param.dataMask &&& 0x00ffffff#32) ||| _) = 0
      rw [and_low h.1]
      exact and_not_or_self _ _
  | mips0Access =>
    refine MaskedWrite.act_of_mask ?_ ?_ hi
    · show ~~~param.mips0Access &&& param.mips0AccessMask &&& param.mips0AccessMask = _
      rw [BitVec.and_assoc, BitVec.and_self]
      rfl
    · show param.mips0AccessMask &&& ~~~((param.mips0AccessMask &&& 0x00ffffff#32) ||| _) = 0
      rw [and_low h.1]
      exact and_not_or_self _ _

end Writes

end DanubeBsp
