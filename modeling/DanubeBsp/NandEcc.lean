import DanubeBsp.ByteOrder
import Mathlib.Tactic.IntervalCases

namespace DanubeBsp

/-- The column parities of a byte: bit 6 is the parity of all of its bits. -/
def nandEccPrecalcTable : List Byte := 
  [0x00, 0x55, 0x56, 0x03, 0x59, 0x0c, 0x0f, 0x5a, 0x5a, 0x0f, 0x0c, 0x59, 0x03, 0x56, 0x55, 0x00,
   0x65, 0x30, 0x33, 0x66, 0x3c, 0x69, 0x6a, 0x3f, 0x3f, 0x6a, 0x69, 0x3c, 0x66, 0x33, 0x30, 0x65,
   0x66, 0x33, 0x30, 0x65, 0x3f, 0x6a, 0x69, 0x3c, 0x3c, 0x69, 0x6a, 0x3f, 0x65, 0x30, 0x33, 0x66,
   0x03, 0x56, 0x55, 0x00, 0x5a, 0x0f, 0x0c, 0x59, 0x59, 0x0c, 0x0f, 0x5a, 0x00, 0x55, 0x56, 0x03,
   0x69, 0x3c, 0x3f, 0x6a, 0x30, 0x65, 0x66, 0x33, 0x33, 0x66, 0x65, 0x30, 0x6a, 0x3f, 0x3c, 0x69,
   0x0c, 0x59, 0x5a, 0x0f, 0x55, 0x00, 0x03, 0x56, 0x56, 0x03, 0x00, 0x55, 0x0f, 0x5a, 0x59, 0x0c,
   0x0f, 0x5a, 0x59, 0x0c, 0x56, 0x03, 0x00, 0x55, 0x55, 0x00, 0x03, 0x56, 0x0c, 0x59, 0x5a, 0x0f,
   0x6a, 0x3f, 0x3c, 0x69, 0x33, 0x66, 0x65, 0x30, 0x30, 0x65, 0x66, 0x33, 0x69, 0x3c, 0x3f, 0x6a,
   0x6a, 0x3f, 0x3c, 0x69, 0x33, 0x66, 0x65, 0x30, 0x30, 0x65, 0x66, 0x33, 0x69, 0x3c, 0x3f, 0x6a,
   0x0f, 0x5a, 0x59, 0x0c, 0x56, 0x03, 0x00, 0x55, 0x55, 0x00, 0x03, 0x56, 0x0c, 0x59, 0x5a, 0x0f,
   0x0c, 0x59, 0x5a, 0x0f, 0x55, 0x00, 0x03, 0x56, 0x56, 0x03, 0x00, 0x55, 0x0f, 0x5a, 0x59, 0x0c,
   0x69, 0x3c, 0x3f, 0x6a, 0x30, 0x65, 0x66, 0x33, 0x33, 0x66, 0x65, 0x30, 0x6a, 0x3f, 0x3c, 0x69,
   0x03, 0x56, 0x55, 0x00, 0x5a, 0x0f, 0x0c, 0x59, 0x59, 0x0c, 0x0f, 0x5a, 0x00, 0x55, 0x56, 0x03,
   0x66, 0x33, 0x30, 0x65, 0x3f, 0x6a, 0x69, 0x3c, 0x3c, 0x69, 0x6a, 0x3f, 0x65, 0x30, 0x33, 0x66,
   0x65, 0x30, 0x33, 0x66, 0x3c, 0x69, 0x6a, 0x3f, 0x3f, 0x6a, 0x69, 0x3c, 0x66, 0x33, 0x30, 0x65,
   0x00, 0x55, 0x56, 0x03, 0x59, 0x0c, 0x0f, 0x5a, 0x5a, 0x0f, 0x0c, 0x59, 0x03, 0x56, 0x55, 0x00]

def eccPrecalc (x : Byte) : Byte := nandEccPrecalcTable.getD x.toNat 0

structure EccRegs where
  reg1 : Byte
  reg2 : Byte
  reg3 : Byte

/-- The three bytes that stand beside a block in the spare area. -/
structure EccCode where
  b0 : Byte
  b1 : Byte
  b2 : Byte
  deriving DecidableEq

/-- The body of the column parity loop for byte `j`. -/
def eccStep (r : EccRegs) (j : Nat) (x : Byte) : EccRegs :=
  let idx := eccPrecalc x
  let reg1 := r.reg1 ^^^ (idx &&& 0x3f#8)
  if idx &&& 0x40#8 ≠ 0 then ⟨reg1, r.reg2 ^^^ ~~~(BitVec.ofNat 8 j), r.reg3 ^^^ BitVec.ofNat 8 j⟩
  else ⟨reg1, r.reg2, r.reg3⟩

def eccLoop (dat : Nat → Byte) : Nat → EccRegs
  | 0 => ⟨0, 0, 0⟩
  | n + 1 => eccStep (eccLoop dat n) n (dat n)

/-- A loop of `nand_trans_result`; it also returns where the mask `a` has come to. -/
def transLoop (reg2 reg3 : Byte) : Nat → Byte → Byte → Byte → Byte × Byte
  | 0, a, _, tmp => (tmp, a)
  | n + 1, a, b, tmp =>
    let tmp := if reg3 &&& a ≠ 0 then tmp ||| b else tmp
    let tmp := if reg2 &&& a ≠ 0 then tmp ||| (b >>> 1) else tmp
    transLoop reg2 reg3 n (a >>> 1) (b >>> 1 >>> 1) tmp

def nandTransResult (reg2 reg3 : Byte) : Byte × Byte :=
  let (tmp1, a) := transLoop reg2 reg3 4 0x80 0x80 0
  let (tmp2, _) := transLoop reg2 reg3 4 a 0x80 0
  (tmp1, tmp2)

/-- The code of the 256 bytes of a block. -/
def nandCalculateEcc (dat : Nat → Byte) : EccCode :=
  let r := eccLoop dat 256
  let (b0, b1) := nandTransResult r.reg2 r.reg3
  ⟨~~~b0, ~~~b1, (~~~r.reg1 <<< 2) ||| 0x03#8⟩

/-- The loops that collect every other bit of `d`, from `c` downwards, into the bits from `a` on. -/
def gatherLoop (d : Byte) : Nat → Byte → Byte → Byte → Byte × Byte
  | 0, _, a, acc => (acc, a)
  | n + 1, c, a, acc =>
    gatherLoop d n (c >>> 2) (a >>> 1) (if d &&& c ≠ 0 then acc ||| a else acc)

/-- `while (d)` with the count of its ones; eight shifts empty a byte. -/
def onesLoop : Nat → Byte → Byte → Byte
  | 0, _, i => i
  | n + 1, d, i => if d = 0 then i else onesLoop n (d >>> 1) (if d &&& 1 ≠ 0 then i + 1 else i)

/-- The return value, the block and the code read, both as they are afterwards. -/
def nandCorrectData (dat : Nat → Byte) (readEcc calcEcc : EccCode) :
    Int × (Nat → Byte) × EccCode :=
  let d1 := calcEcc.b0 ^^^ readEcc.b0
  let d2 := calcEcc.b1 ^^^ readEcc.b1
  let d3 := calcEcc.b2 ^^^ readEcc.b2
  if d1 ||| d2 ||| d3 = 0 then (0, dat, readEcc)
  else
    let a := (d1 ^^^ (d1 >>> 1)) &&& 0x55#8
    let b := (d2 ^^^ (d2 >>> 1)) &&& 0x55#8
    let c := (d3 ^^^ (d3 >>> 1)) &&& 0x54#8
    if a = 0x55#8 ∧ b = 0x55#8 ∧ c = 0x54#8 then
      let (add, a) := gatherLoop d1 4 0x80 0x80 0
      let (add, _) := gatherLoop d2 4 0x80 a add
      let (bit, _) := gatherLoop d3 3 0x80 0x04 0
      (1, Function.update dat add.toNat (dat add.toNat ^^^ (1#8 <<< bit.toNat)), readEcc)
    else if onesLoop 8 d3 (onesLoop 8 d2 (onesLoop 8 d1 0)) = 1 then (2, dat, calcEcc)
    else (-1, dat, readEcc)

/-- A block of data and its code as the flash holds them. -/
structure EccBlock where
  dat : Nat → Byte
  code : EccCode

/-- A bit of a block, or of its code, that has changed. -/
inductive EccError
  | data (j : Fin 256) (k : Fin 8)
  | code (i : Fin 3) (k : Fin 8)
  deriving DecidableEq

def EccCode.zero : EccCode := ⟨0, 0, 0⟩

def EccCode.xor (c d : EccCode) : EccCode := ⟨c.b0 ^^^ d.b0, c.b1 ^^^ d.b1, c.b2 ^^^ d.b2⟩

/-- The code with one bit set. -/
def EccCode.bit (i : Fin 3) (k : Fin 8) : EccCode :=
  match i with
  | 0 => ⟨1#8 <<< k.val, 0, 0⟩
  | 1 => ⟨0, 1#8 <<< k.val, 0⟩
  | 2 => ⟨0, 0, 1#8 <<< k.val⟩

def EccBlock.flip (b : EccBlock) : EccError → EccBlock
  | .data j k => { b with dat := Function.update b.dat j (b.dat j ^^^ (1#8 <<< k.val)) }
  | .code i k => { b with code := b.code.xor (.bit i k) }

/-- The block as `nand_write_page` lays it out. -/
def EccBlock.written (dat : Nat → Byte) : EccBlock := ⟨dat, nandCalculateEcc dat⟩

/-- What the read path makes of a block. -/
def EccBlock.corrected (b : EccBlock) : Int × (Nat → Byte) × EccCode :=
  nandCorrectData b.dat b.code (nandCalculateEcc b.dat)

/-! The table and the loops are linear in exclusive or. -/

theorem xor_and_distrib (x y z : Byte) : (x ^^^ y) &&& z = (x &&& z) ^^^ (y &&& z) := by
  apply BitVec.eq_of_getElem_eq
  intro i hi
  simp [Bool.and_xor_distrib_right]

theorem and_column (x : Fin 256) :
    (BitVec.ofFin x : Byte) &&& 0x40#8 = 0 ∨ (BitVec.ofFin x : Byte) &&& 0x40#8 = 0x40#8 := by
  revert x
  decide +kernel

theorem precalc_flip : ∀ (x : Fin 256) (k : Fin 8),
    eccPrecalc ((BitVec.ofFin x : Byte) ^^^ (1#8 <<< k.val)) =
      eccPrecalc (BitVec.ofFin x) ^^^ eccPrecalc (1#8 <<< k.val) := by
  decide +kernel

theorem precalc_bit_odd : ∀ k : Fin 8, eccPrecalc (1#8 <<< k.val) &&& 0x40#8 = 0x40#8 := by
  decide +kernel

def EccRegs.xor (r s : EccRegs) : EccRegs :=
  ⟨r.reg1 ^^^ s.reg1, r.reg2 ^^^ s.reg2, r.reg3 ^^^ s.reg3⟩

/-- What a flip of bit `k` of byte `j` does to the registers. -/
def eccFlip (j : Fin 256) (k : Fin 8) : EccRegs :=
  ⟨eccPrecalc (1#8 <<< k.val) &&& 0x3f#8, ~~~(BitVec.ofNat 8 j), BitVec.ofNat 8 j⟩

theorem eccStep_xor (r s : EccRegs) (j : Nat) (x : Byte) :
    eccStep (r.xor s) j x = (eccStep r j x).xor s := by
  simp only [eccStep, EccRegs.xor]
  split
  next =>
    simp only [EccRegs.mk.injEq]
    exact ⟨by ac_rfl, by ac_rfl, by ac_rfl⟩
  next =>
    simp only [EccRegs.mk.injEq]
    exact ⟨by ac_rfl, trivial, trivial⟩

theorem eccStep_flip (r : EccRegs) (j : Fin 256) (k : Fin 8) (x : Byte) :
    eccStep r j (x ^^^ (1#8 <<< k.val)) = (eccStep r j x).xor (eccFlip j k) := by
  have hx : eccPrecalc (x ^^^ (1#8 <<< k.val)) =
      eccPrecalc x ^^^ eccPrecalc (1#8 <<< k.val) := precalc_flip x.toFin k
  have htest := xor_and_distrib (eccPrecalc x) (eccPrecalc (1#8 <<< k.val)) 0x40#8
  have hcolumn := xor_and_distrib (eccPrecalc x) (eccPrecalc (1#8 <<< k.val)) 0x3f#8
  rw [precalc_bit_odd k] at htest
  simp only [eccStep, EccRegs.xor, eccFlip, hx, htest, hcolumn]
  rcases and_column (eccPrecalc x).toFin with hbit | hbit
  · have hbit : eccPrecalc x &&& 0x40#8 = 0 := hbit
    have hset : (0 : Byte) ^^^ 0x40#8 ≠ 0 := by decide
    simp only [hbit, hset, ne_eq, not_true_eq_false, not_false_eq_true, if_true, if_false]
    rw [BitVec.xor_assoc]
  · have hbit : eccPrecalc x &&& 0x40#8 = 0x40#8 := hbit
    have hset : (0x40#8 : Byte) ≠ 0 := by decide
    simp only [hbit, BitVec.xor_self, hset, ne_eq, not_false_eq_true, if_true]
    simp only [BitVec.xor_assoc, BitVec.xor_self, BitVec.xor_zero]
    rfl

theorem eccLoop_flip (dat : Nat → Byte) (j : Fin 256) (k : Fin 8) (n : Nat) :
    eccLoop (Function.update dat j (dat j ^^^ (1#8 <<< k.val))) n =
      if j.val < n then (eccLoop dat n).xor (eccFlip j k) else eccLoop dat n := by
  induction n with
  | zero => rfl
  | succ n ih =>
    rw [eccLoop, ih]
    by_cases heq : n = j
    · rw [if_neg (by omega), if_pos (by omega), heq, Function.update_self, eccStep_flip]
      rfl
    · rw [Function.update_of_ne heq]
      by_cases hlt : j.val < n
      · rw [if_pos hlt, if_pos (by omega), eccStep_xor]
        rfl
      · rw [if_neg hlt, if_neg (by omega)]
        rfl

theorem getLsbD_byteBit {p : Nat} (hp : p < 8) (i : Nat) :
    (1#8 <<< p).getLsbD i = decide (i = p) := by
  rw [BitVec.getLsbD_shiftLeft, BitVec.getLsbD_one]
  by_cases hi : i = p
  · simp [hi, hp]
  · have hne : i < p ∨ i - p ≠ 0 := by omega
    rcases hne with hlt | hne
    · simp [hi, hlt]
    · simp [hi, hne]

theorem and_bit_ne_zero (x : Byte) {p : Nat} (hp : p < 8) :
    x &&& (1#8 <<< p) ≠ 0 ↔ x.getLsbD p = true := by
  constructor
  · intro hne
    by_contra hoff
    apply hne
    apply BitVec.eq_of_getLsbD_eq
    intro i _
    rw [BitVec.getLsbD_and, getLsbD_byteBit hp]
    by_cases hi : i = p
    · simpa [hi] using hoff
    · simp [hi]
  · intro hon hzero
    have hat := congrArg (fun y : Byte => y.getLsbD p) hzero
    simp [hon, getLsbD_byteBit hp] at hat

theorem bit_shift_down {p : Nat} (hp : p < 7) : (1#8 <<< (p + 1)) >>> 1 = 1#8 <<< p := by
  interval_cases p <;> decide

/-- A mark that is set on a condition. -/
theorem getLsbD_mark (c : Prop) [Decidable c] (tmp : Byte) {q : Nat} (hq : q < 8) (i : Nat) :
    (if c then tmp ||| (1#8 <<< q) else tmp).getLsbD i =
      (tmp.getLsbD i || (decide (i = q) && decide c)) := by
  by_cases hc : c
  · rw [if_pos hc, BitVec.getLsbD_or, getLsbD_byteBit hq]
    simp [hc]
  · simp [hc]

/-- The loop puts the bits of the two registers from `p` down alternately into the bits from `q`
down. -/
theorem transLoop_spec (reg2 reg3 : Byte) {n p q : Nat} (tmp : Byte) (hp : p < 8) (hq : q < 8)
    (hn : n ≤ p + 1) (hn' : 2 * n ≤ q + 1) (i : Nat) :
    (transLoop reg2 reg3 n (1#8 <<< p) (1#8 <<< q) tmp).1.getLsbD i =
      (tmp.getLsbD i || (decide (i ≤ q ∧ q < i + 2 * n) &&
        if (q - i) % 2 = 0 then reg3.getLsbD (p - (q - i) / 2)
        else reg2.getLsbD (p - (q - i) / 2))) := by
  induction n generalizing p q tmp with
  | zero =>
    have hno : ¬ (i ≤ q ∧ q < i + 2 * 0) := by omega
    rw [decide_eq_false hno]
    simp [transLoop]
  | succ n ih =>
    obtain ⟨r, rfl⟩ : ∃ r, q = r + 1 := ⟨q - 1, by omega⟩
    have hmarks : ∀ t : Byte, t = (if reg2 &&& (1#8 <<< p) ≠ 0 then
        (if reg3 &&& (1#8 <<< p) ≠ 0 then tmp ||| (1#8 <<< (r + 1)) else tmp) ||| (1#8 <<< r)
        else if reg3 &&& (1#8 <<< p) ≠ 0 then tmp ||| (1#8 <<< (r + 1)) else tmp) →
        t.getLsbD i = (tmp.getLsbD i || (decide (i = r + 1) && reg3.getLsbD p) ||
          (decide (i = r) && reg2.getLsbD p)) := by
      intro t ht
      rw [ht, getLsbD_mark _ _ (by omega), getLsbD_mark _ _ (by omega)]
      simp only [and_bit_ne_zero _ hp, Bool.decide_eq_true]
    rw [transLoop, bit_shift_down (by omega)]
    cases n with
    | zero =>
      rw [transLoop, hmarks _ rfl]
      by_cases hfirst : i = r + 1
      · simp [hfirst]
      · by_cases hsecond : i = r
        · simp [hsecond]
        · have hno : ¬ (i ≤ r + 1 ∧ r + 1 < i + 2 * (0 + 1)) := by omega
          rw [decide_eq_false hno]
          simp [hfirst, hsecond]
    | succ n =>
      obtain ⟨s, rfl⟩ : ∃ s, p = s + 1 := ⟨p - 1, by omega⟩
      obtain ⟨u, rfl⟩ : ∃ u, r = u + 1 := ⟨r - 1, by omega⟩
      rw [bit_shift_down (by omega), bit_shift_down (by omega),
        ih _ (by omega) (by omega) (by omega) (by omega), hmarks _ rfl]
      by_cases hfirst : i = u + 1 + 1
      · have hno : ¬ (i ≤ u ∧ u < i + 2 * (n + 1)) := by omega
        rw [decide_eq_false hno]
        simp [hfirst]
      · by_cases hsecond : i = u + 1
        · have hno : ¬ (i ≤ u ∧ u < i + 2 * (n + 1)) := by omega
          have hyes : i ≤ u + 1 + 1 ∧ u + 1 + 1 < i + 2 * (n + 1 + 1) := by omega
          rw [decide_eq_false hno, decide_eq_true hyes]
          simp [hsecond]
        · have hiff : (i ≤ u + 1 + 1 ∧ u + 1 + 1 < i + 2 * (n + 1 + 1)) ↔
              (i ≤ u ∧ u < i + 2 * (n + 1)) := by omega
          simp only [hiff, decide_eq_false hfirst, decide_eq_false hsecond, Bool.false_and,
            Bool.or_false]
          by_cases hin : i ≤ u ∧ u < i + 2 * (n + 1)
          · have hmod : (u + 1 + 1 - i) % 2 = (u - i) % 2 := by omega
            have hdiv : s + 1 - (u + 1 + 1 - i) / 2 = s - (u - i) / 2 := by omega
            rw [hmod, hdiv]
          · rw [decide_eq_false hin, Bool.false_and, Bool.false_and]

/-- The line parities of the two bytes, bit by bit. -/
theorem nandTransResult_bits (reg2 reg3 : Byte) {i : Nat} (hi : i < 8) :
    (nandTransResult reg2 reg3).1.getLsbD i =
      (if (7 - i) % 2 = 0 then reg3.getLsbD (7 - (7 - i) / 2)
        else reg2.getLsbD (7 - (7 - i) / 2)) ∧
    (nandTransResult reg2 reg3).2.getLsbD i =
      (if (7 - i) % 2 = 0 then reg3.getLsbD (3 - (7 - i) / 2)
        else reg2.getLsbD (3 - (7 - i) / 2)) := by
  have hmask : (transLoop reg2 reg3 4 0x80 0x80 0).2 = 1#8 <<< 3 := by
    simp only [transLoop]
    decide
  have hin : i ≤ 7 ∧ 7 < i + 2 * 4 := by omega
  have hfirst := transLoop_spec (n := 4) (p := 7) (q := 7) reg2 reg3 0 (by decide) (by decide)
    (by decide) (by decide) i
  have hsecond := transLoop_spec (n := 4) (p := 3) (q := 7) reg2 reg3 0 (by decide) (by decide)
    (by decide) (by decide) i
  have hzero : (0 : Byte).getLsbD i = false := BitVec.getLsbD_zero
  rw [decide_eq_true hin, hzero, Bool.false_or, Bool.true_and] at hfirst hsecond
  refine ⟨hfirst, ?_⟩
  have htmp : (nandTransResult reg2 reg3).2 =
      (transLoop reg2 reg3 4 (transLoop reg2 reg3 4 0x80 0x80 0).2 0x80 0).1 := rfl
  rw [htmp, hmask]
  exact hsecond

theorem nandTransResult_xor (x2 x3 y2 y3 : Byte) :
    nandTransResult (x2 ^^^ y2) (x3 ^^^ y3) =
      ((nandTransResult x2 x3).1 ^^^ (nandTransResult y2 y3).1,
        (nandTransResult x2 x3).2 ^^^ (nandTransResult y2 y3).2) := by
  refine Prod.ext ?_ ?_
  · apply BitVec.eq_of_getLsbD_eq
    intro i hi
    rw [BitVec.getLsbD_xor, (nandTransResult_bits _ _ hi).1, (nandTransResult_bits _ _ hi).1,
      (nandTransResult_bits _ _ hi).1]
    split
    next => rw [BitVec.getLsbD_xor]
    next => rw [BitVec.getLsbD_xor]
  · apply BitVec.eq_of_getLsbD_eq
    intro i hi
    rw [BitVec.getLsbD_xor, (nandTransResult_bits _ _ hi).2, (nandTransResult_bits _ _ hi).2,
      (nandTransResult_bits _ _ hi).2]
    split
    next => rw [BitVec.getLsbD_xor]
    next => rw [BitVec.getLsbD_xor]

/-- What an error does to the difference of the code calculated and the code read. -/
def EccError.syndrome : EccError → EccCode
  | .data j k =>
    let (b0, b1) := nandTransResult (eccFlip j k).reg2 (eccFlip j k).reg3
    ⟨b0, b1, (eccFlip j k).reg1 <<< 2⟩
  | .code i k => .bit i k

/-- The difference that `nand_correct_data` looks at. -/
def EccBlock.syndrome (b : EccBlock) : EccCode := (nandCalculateEcc b.dat).xor b.code

theorem nandCalculateEcc_flip (dat : Nat → Byte) (j : Fin 256) (k : Fin 8) :
    nandCalculateEcc (Function.update dat j (dat j ^^^ (1#8 <<< k.val))) =
      (nandCalculateEcc dat).xor (EccError.data j k).syndrome := by
  have hnot : ∀ x y : Byte, ~~~(x ^^^ y) = ~~~x ^^^ y := by
    intro x y
    apply BitVec.eq_of_getElem_eq
    intro i hi
    simp
  have hlow : ∀ x y : Byte, (x ^^^ y) <<< 2 ||| 0x03#8 = (x <<< 2 ||| 0x03#8) ^^^ y <<< 2 := by
    intro x y
    apply BitVec.eq_of_getLsbD_eq
    intro i hi
    simp only [BitVec.getLsbD_or, BitVec.getLsbD_xor, BitVec.getLsbD_shiftLeft]
    interval_cases i <;> simp
  rw [nandCalculateEcc, eccLoop_flip, if_pos j.isLt]
  simp only [EccRegs.xor, nandTransResult_xor, hnot, hlow]
  rfl

theorem EccCode.xor_assoc (c d e : EccCode) : (c.xor d).xor e = c.xor (d.xor e) := by
  simp only [EccCode.xor, BitVec.xor_assoc]

theorem EccCode.xor_comm (c d : EccCode) : c.xor d = d.xor c := by
  simp only [EccCode.xor, BitVec.xor_comm]

theorem EccBlock.syndrome_flip (b : EccBlock) (e : EccError) :
    (b.flip e).syndrome = b.syndrome.xor e.syndrome := by
  cases e with
  | data j k =>
    change (nandCalculateEcc (Function.update b.dat j (b.dat j ^^^ (1#8 <<< k.val)))).xor b.code = _
    rw [nandCalculateEcc_flip, EccBlock.syndrome, EccCode.xor_assoc, EccCode.xor_assoc,
      EccCode.xor_comm b.code]
  | code i k => exact (EccCode.xor_assoc _ _ _).symm

theorem EccBlock.syndrome_written (dat : Nat → Byte) : (written dat).syndrome = .zero := by
  simp [EccBlock.syndrome, EccBlock.written, EccCode.xor, EccCode.zero]

/-! What the decoder reads off a difference. -/

/-- In each pair of bits of the line and column parities, whether the two differ. -/
def EccCode.pairs (d : EccCode) : EccCode :=
  ⟨(d.b0 ^^^ (d.b0 >>> 1)) &&& 0x55#8, (d.b1 ^^^ (d.b1 >>> 1)) &&& 0x55#8,
    (d.b2 ^^^ (d.b2 >>> 1)) &&& 0x54#8⟩

def EccCode.full : EccCode := ⟨0x55, 0x55, 0x54⟩

/-- The byte that the difference points at. -/
def EccCode.address (d : EccCode) : Byte :=
  (gatherLoop d.b1 4 0x80 (gatherLoop d.b0 4 0x80 0x80 0).2 (gatherLoop d.b0 4 0x80 0x80 0).1).1

def EccCode.bitNo (d : EccCode) : Byte := (gatherLoop d.b2 3 0x80 0x04 0).1

def EccCode.ones (d : EccCode) : Byte := onesLoop 8 d.b2 (onesLoop 8 d.b1 (onesLoop 8 d.b0 0))

theorem or_eq_zero_iff (d : EccCode) : d.b0 ||| d.b1 ||| d.b2 = 0 ↔ d = .zero := by
  constructor
  · intro h
    have hbits : ∀ i, d.b0.getLsbD i = false ∧ d.b1.getLsbD i = false ∧ d.b2.getLsbD i = false := by
      intro i
      have hi := congrArg (fun y : Byte => y.getLsbD i) h
      simpa [and_assoc] using hi
    have hzero : ∀ x : Byte, (∀ i, x.getLsbD i = false) → x = 0 := by
      intro x hx
      apply BitVec.eq_of_getLsbD_eq
      intro i _
      simpa using hx i
    cases d with
    | mk b0 b1 b2 =>
      simp only [EccCode.zero, EccCode.mk.injEq]
      exact ⟨hzero _ fun i => (hbits i).1, hzero _ fun i => (hbits i).2.1,
        hzero _ fun i => (hbits i).2.2⟩
  · intro h
    rw [h]
    rfl

/-- `nand_correct_data` by the difference of the two codes. -/
theorem EccBlock.corrected_eq (b : EccBlock) : b.corrected =
    if b.syndrome = .zero then (0, b.dat, b.code)
    else if b.syndrome.pairs = .full then
      (1, Function.update b.dat b.syndrome.address.toNat
        (b.dat b.syndrome.address.toNat ^^^ (1#8 <<< b.syndrome.bitNo.toNat)), b.code)
    else if b.syndrome.ones = 1 then (2, b.dat, nandCalculateEcc b.dat)
    else (-1, b.dat, b.code) := by
  simp only [← or_eq_zero_iff, EccCode.full, EccCode.pairs, EccCode.mk.injEq]
  rfl

theorem EccCode.pairs_xor (c d : EccCode) : (c.xor d).pairs = c.pairs.xor d.pairs := by
  have hpair : ∀ x y m : Byte, ((x ^^^ y) ^^^ ((x ^^^ y) >>> 1)) &&& m =
      ((x ^^^ (x >>> 1)) &&& m) ^^^ ((y ^^^ (y >>> 1)) &&& m) := by
    intro x y m
    rw [← xor_and_distrib, BitVec.ushiftRight_xor_distrib]
    congr 1
    ac_rfl
  simp only [EccCode.pairs, EccCode.xor, hpair]

/-- Whether `d` has an odd number of ones among its last `n` bits. -/
def oddOnes : Nat → Byte → Bool
  | 0, _ => false
  | n + 1, d => d.getLsbD 0 ^^ oddOnes n (d >>> 1)

/-- The line parities of a data bit are complementary in each pair and spell its byte. -/
theorem line_syndrome : ∀ j : Fin 256,
    let t := nandTransResult (~~~(BitVec.ofNat 8 j)) (BitVec.ofNat 8 j)
    (t.1 ^^^ (t.1 >>> 1)) &&& 0x55#8 = 0x55#8 ∧ (t.2 ^^^ (t.2 >>> 1)) &&& 0x55#8 = 0x55#8 ∧
      (gatherLoop t.2 4 0x80 (gatherLoop t.1 4 0x80 0x80 0).2 (gatherLoop t.1 4 0x80 0x80 0).1).1 =
        BitVec.ofNat 8 j ∧
      (oddOnes 8 t.1 ^^ oddOnes 8 t.2) = false := by
  decide +kernel

/-- The column parities of a bit, also with the padding bits of the third byte changed. -/
theorem column_syndrome : ∀ (k : Fin 8) (p : Fin 4),
    let b2 := ((eccPrecalc (1#8 <<< k.val) &&& 0x3f#8) <<< 2) ^^^ BitVec.ofNat 8 p
    (b2 ^^^ (b2 >>> 1)) &&& 0x54#8 = 0x54#8 ∧ (gatherLoop b2 3 0x80 0x04 0).1.toNat = k.val ∧
      (p = 0 → oddOnes 8 b2 = true) := by
  decide +kernel

theorem oddOnes_zero (n : Nat) : oddOnes n 0 = false := by
  induction n with
  | zero => rfl
  | succ n ih => simpa [oddOnes] using ih

theorem oddOnes_xor (n : Nat) (x y : Byte) :
    oddOnes n (x ^^^ y) = (oddOnes n x ^^ oddOnes n y) := by
  induction n generalizing x y with
  | zero => rfl
  | succ n ih =>
    rw [oddOnes, oddOnes, oddOnes, BitVec.ushiftRight_xor_distrib, ih, BitVec.getLsbD_xor]
    simp only [Bool.xor_assoc, Bool.xor_left_comm]

theorem getLsbD_succ_zero : ∀ i : Fin 256,
    ((BitVec.ofFin i : Byte) + 1).getLsbD 0 = !(BitVec.ofFin i : Byte).getLsbD 0 := by
  decide +kernel

theorem onesLoop_odd (n : Nat) (d i : Byte) :
    (onesLoop n d i).getLsbD 0 = (i.getLsbD 0 ^^ oddOnes n d) := by
  induction n generalizing d i with
  | zero => simp [onesLoop, oddOnes]
  | succ n ih =>
    rw [onesLoop]
    split
    next hd => rw [hd, oddOnes_zero, Bool.xor_false]
    next =>
      have hsucc : (i + 1).getLsbD 0 = !i.getLsbD 0 := getLsbD_succ_zero i.toFin
      have htest : d &&& 1 ≠ 0 ↔ d.getLsbD 0 = true := and_bit_ne_zero d (by decide : 0 < 8)
      rw [ih, oddOnes]
      cases hbit : d.getLsbD 0 with
      | false =>
        rw [if_neg (by rw [htest, hbit]; exact Bool.false_ne_true), Bool.false_xor]
      | true =>
        rw [if_pos (htest.mpr hbit), hsucc]
        cases i.getLsbD 0 <;> cases oddOnes n (d >>> 1) <;> rfl

def EccCode.odd (d : EccCode) : Bool := (oddOnes 8 d.b0 ^^ oddOnes 8 d.b1) ^^ oddOnes 8 d.b2

theorem EccCode.ones_odd (d : EccCode) : d.ones.getLsbD 0 = d.odd := by
  have hzero : (0 : Byte).getLsbD 0 = false := rfl
  rw [ones, onesLoop_odd, onesLoop_odd, onesLoop_odd, hzero, Bool.false_xor, odd]

theorem EccCode.odd_xor (c d : EccCode) : (c.xor d).odd = (c.odd ^^ d.odd) := by
  simp only [odd, EccCode.xor, oddOnes_xor, Bool.xor_assoc, Bool.xor_left_comm]

/-- A padding bit of the third code byte, which no parity uses. -/
def EccError.padding : EccError → Bool
  | .data _ _ => false
  | .code i k => decide (i.val = 2 ∧ k.val < 2)

def EccError.isData : EccError → Bool
  | .data _ _ => true
  | .code _ _ => false

theorem EccError.data_syndrome (j : Fin 256) (k : Fin 8) :
    (data j k).syndrome.pairs = .full ∧ (data j k).syndrome.address = BitVec.ofNat 8 j ∧
      (data j k).syndrome.bitNo.toNat = k.val ∧ (data j k).syndrome.odd = true := by
  obtain ⟨hfirst, hsecond, haddress, heven⟩ := line_syndrome j
  obtain ⟨hthird, hbit, hodd⟩ := column_syndrome k 0
  have hb2 : (data j k).syndrome.b2 =
      ((eccPrecalc (1#8 <<< k.val) &&& 0x3f#8) <<< 2) ^^^ BitVec.ofNat 8 (0 : Fin 4) :=
    (BitVec.xor_zero).symm
  refine ⟨?_, haddress, ?_, ?_⟩
  · rw [EccCode.pairs, hb2, hthird]
    exact congrArg₂ (fun x y => EccCode.mk x y 0x54) hfirst hsecond
  · rw [EccCode.bitNo, hb2]
    exact hbit
  · have hline : (oddOnes 8 (data j k).syndrome.b0 ^^ oddOnes 8 (data j k).syndrome.b1) = false :=
      heven
    rw [EccCode.odd, hline, hb2, hodd rfl]
    rfl

theorem EccError.code_syndrome : ∀ (i : Fin 3) (k : Fin 8),
    (code i k).syndrome ≠ .zero ∧ (code i k).syndrome.pairs ≠ .full ∧
      (code i k).syndrome.ones = 1 ∧ (code i k).syndrome.odd = true ∧
      ((code i k).syndrome.pairs = .zero ↔ (code i k).padding = true) := by
  decide +kernel

theorem EccError.code_pair_syndrome : ∀ (i : Fin 3) (k : Fin 8) (i' : Fin 3) (k' : Fin 8),
    ((code i k).syndrome.xor (code i' k').syndrome).pairs ≠ .full ∧
      ((code i k).syndrome = (code i' k').syndrome → i = i' ∧ k = k') := by
  decide +kernel

theorem EccError.odd_syndrome (e : EccError) : e.syndrome.odd = true := by
  cases e with
  | data j k => exact (data_syndrome j k).2.2.2
  | code i k => exact (code_syndrome i k).2.2.2.1

/-- The decoder finds no code with one bit different where two bits have changed. -/
theorem EccError.pair_ones (e f : EccError) : (e.syndrome.xor f.syndrome).ones ≠ 1 := by
  intro hone
  have hodd := EccCode.ones_odd (e.syndrome.xor f.syndrome)
  rw [hone, EccCode.odd_xor, e.odd_syndrome, f.odd_syndrome] at hodd
  exact absurd hodd (by decide)

theorem EccCode.xor_eq_zero {c d : EccCode} (h : c.xor d = .zero) : c = d := by
  cases c with
  | mk c0 c1 c2 =>
    cases d with
    | mk d0 d1 d2 =>
      simp only [EccCode.xor, EccCode.zero, EccCode.mk.injEq] at h ⊢
      exact ⟨BitVec.xor_eq_zero_iff.mp h.1, BitVec.xor_eq_zero_iff.mp h.2.1,
        BitVec.xor_eq_zero_iff.mp h.2.2⟩

@[simp] theorem EccCode.xor_self (c : EccCode) : c.xor c = .zero := by
  simp [EccCode.xor, EccCode.zero]

@[simp] theorem EccCode.zero_xor (c : EccCode) : EccCode.zero.xor c = c := by
  simp [EccCode.xor, EccCode.zero]

theorem EccError.syndrome_inj {e f : EccError} (h : e.syndrome = f.syndrome) : e = f := by
  cases e with
  | data j k =>
    obtain ⟨hpairs, haddress, hbit, -⟩ := data_syndrome j k
    cases f with
    | data j' k' =>
      obtain ⟨-, haddress', hbit', -⟩ := data_syndrome j' k'
      rw [h, haddress'] at haddress
      rw [h, hbit'] at hbit
      have hj := congrArg BitVec.toNat haddress
      simp only [BitVec.toNat_ofNat] at hj
      have hj' : j = j' := Fin.ext (by omega)
      rw [hj', Fin.ext hbit.symm]
    | code i k' =>
      rw [h] at hpairs
      exact absurd hpairs (code_syndrome i k').2.1
  | code i k =>
    cases f with
    | data j' k' =>
      obtain ⟨hpairs, -, -, -⟩ := data_syndrome j' k'
      rw [← h] at hpairs
      exact absurd hpairs (code_syndrome i k).2.1
    | code i' k' =>
      obtain ⟨hi, hk⟩ := (code_pair_syndrome i k i' k').2 h
      rw [hi, hk]

/-- Two changed bits look like one data bit exactly when one of them is a data bit and the other is
padding. -/
theorem EccError.pair_full (e f : EccError) :
    (e.syndrome.xor f.syndrome).pairs = .full ↔
      (e.isData = true ∧ f.padding = true ∨ e.padding = true ∧ f.isData = true) := by
  have hfull : ∀ c : EccCode, EccCode.full.xor c = .full ↔ c = .zero := by
    intro c
    refine ⟨fun h => ?_, fun h => by rw [h]; rfl⟩
    have hc : c = EccCode.full.xor (EccCode.full.xor c) := by
      rw [← EccCode.xor_assoc, EccCode.xor_self, EccCode.zero_xor]
    rw [hc, h, EccCode.xor_self]
  rw [EccCode.pairs_xor]
  cases e with
  | data j k =>
    rw [(data_syndrome j k).1, hfull]
    cases f with
    | data j' k' =>
      rw [(data_syndrome j' k').1]
      exact iff_of_false (by decide) (by simp [padding])
    | code i' k' =>
      rw [(code_syndrome i' k').2.2.2.2]
      simp [isData, padding]
  | code i k =>
    cases f with
    | data j' k' =>
      rw [(data_syndrome j' k').1, EccCode.xor_comm, hfull, (code_syndrome i k).2.2.2.2]
      simp [isData]
    | code i' k' =>
      have hno := (code_pair_syndrome i k i' k').1
      rw [EccCode.pairs_xor] at hno
      exact iff_of_false hno (by simp [isData])

/-- The position that the decoder reads off is that of the data bit, also where a padding bit has
changed with it. -/
theorem EccError.decoded (j : Fin 256) (k : Fin 8) {f : EccError} (hf : f.padding = true) :
    ((data j k).syndrome.xor f.syndrome).address = BitVec.ofNat 8 j ∧
      ((data j k).syndrome.xor f.syndrome).bitNo.toNat = k.val := by
  cases f with
  | data j' k' => exact absurd hf Bool.false_ne_true
  | code i k' =>
    obtain ⟨hi, hk'⟩ := of_decide_eq_true hf
    obtain rfl : i = 2 := Fin.ext hi
    have hb0 : ((data j k).syndrome.xor (code 2 k').syndrome).b0 = (data j k).syndrome.b0 :=
      BitVec.xor_zero
    have hb1 : ((data j k).syndrome.xor (code 2 k').syndrome).b1 = (data j k).syndrome.b1 :=
      BitVec.xor_zero
    obtain ⟨-, hbit, -⟩ := column_syndrome k ⟨2 ^ k'.val, by interval_cases k'.val <;> decide⟩
    have hb2 : ((data j k).syndrome.xor (code 2 k').syndrome).b2 =
        ((eccPrecalc (1#8 <<< k.val) &&& 0x3f#8) <<< 2) ^^^ BitVec.ofNat 8 (2 ^ k'.val) := by
      have hone : 1#8 <<< k'.val = BitVec.ofNat 8 (2 ^ k'.val) := by
        interval_cases k'.val <;> rfl
      rw [← hone]
      rfl
    refine ⟨?_, ?_⟩
    · rw [EccCode.address, hb0, hb1]
      exact (data_syndrome j k).2.1
    · rw [EccCode.bitNo, hb2]
      exact hbit

theorem flip_back (dat : Nat → Byte) (j : Fin 256) (k : Fin 8) :
    Function.update (Function.update dat j (dat j ^^^ (1#8 <<< k.val))) j
      (Function.update dat j (dat j ^^^ (1#8 <<< k.val)) j ^^^ (1#8 <<< k.val)) = dat := by
  rw [Function.update_self, Function.update_idem, BitVec.xor_assoc, BitVec.xor_self,
    BitVec.xor_zero, Function.update_eq_self]

/-- What the read path makes of a block that was written as `dat`. One changed bit is corrected
wherever it is; of two, a data bit beside a padding bit is corrected, and every other pair is
reported, with nothing changed. -/
structure EccCorrects (dat : Nat → Byte) : Prop where
  intact : (EccBlock.written dat).corrected = (0, dat, nandCalculateEcc dat)
  data : ∀ j k, ((EccBlock.written dat).flip (.data j k)).corrected =
    (1, dat, nandCalculateEcc dat)
  code : ∀ i k, ((EccBlock.written dat).flip (.code i k)).corrected =
    (2, dat, nandCalculateEcc dat)
  padded : ∀ j k f, f.padding = true →
    (((EccBlock.written dat).flip (.data j k)).flip f).corrected =
      (1, dat, ((EccBlock.written dat).flip f).code) ∧
    (((EccBlock.written dat).flip f).flip (.data j k)).corrected =
      (1, dat, ((EccBlock.written dat).flip f).code)
  detected : ∀ e f, e ≠ f → ¬ (e.isData = true ∧ f.padding = true) →
    ¬ (e.padding = true ∧ f.isData = true) →
    (((EccBlock.written dat).flip e).flip f).corrected =
      (-1, (((EccBlock.written dat).flip e).flip f).dat,
        (((EccBlock.written dat).flip e).flip f).code)

/-- The code of every block of 256 bytes corrects a single bit and detects two. -/
theorem nandEcc_corrects_one_detects_two (dat : Nat → Byte) : EccCorrects dat := by
  have hwritten := EccBlock.syndrome_written dat
  have hone : ∀ e, ((EccBlock.written dat).flip e).syndrome = e.syndrome := by
    intro e
    rw [EccBlock.syndrome_flip, hwritten]
    exact EccCode.zero_xor _
  have htwo : ∀ e f, (((EccBlock.written dat).flip e).flip f).syndrome =
      e.syndrome.xor f.syndrome := by
    intro e f
    rw [EccBlock.syndrome_flip, hone]
  have hfull : EccCode.full ≠ EccCode.zero.pairs := by decide
  refine ⟨?_, ?_, ?_, ?_, ?_⟩
  · rw [EccBlock.corrected_eq, if_pos hwritten]
    rfl
  · intro j k
    obtain ⟨hpairs, haddress, hbit, -⟩ := EccError.data_syndrome j k
    have hne : (EccError.data j k).syndrome ≠ .zero := by
      intro h
      rw [h] at hpairs
      exact hfull hpairs.symm
    rw [EccBlock.corrected_eq, hone, if_neg hne, if_pos hpairs, haddress, hbit]
    have hj : (BitVec.ofNat 8 j.val).toNat = j.val := by
      rw [BitVec.toNat_ofNat, Nat.mod_eq_of_lt j.isLt]
    rw [hj]
    exact congrArg (fun d => ((1 : Int), d, nandCalculateEcc dat)) (flip_back dat j k)
  · intro i k
    obtain ⟨hne, hpairs, hones, -⟩ := EccError.code_syndrome i k
    rw [EccBlock.corrected_eq, hone, if_neg hne, if_neg hpairs, if_pos hones]
    rfl
  · intro j k f hf
    obtain ⟨haddress, hbit⟩ := EccError.decoded j k hf
    have hpairs := (EccError.pair_full (.data j k) f).mpr (.inl ⟨rfl, hf⟩)
    have hswap : ((EccBlock.written dat).flip f).flip (.data j k) =
        ((EccBlock.written dat).flip (.data j k)).flip f := by
      cases f with
      | data j' k' => exact absurd hf Bool.false_ne_true
      | code i k' => rfl
    rw [hswap, and_self]
    have hne : (EccError.data j k).syndrome.xor f.syndrome ≠ .zero := by
      intro h
      rw [h] at hpairs
      exact hfull hpairs.symm
    rw [EccBlock.corrected_eq, htwo, if_neg hne, if_pos hpairs, haddress, hbit]
    have hj : (BitVec.ofNat 8 j.val).toNat = j.val := by
      rw [BitVec.toNat_ofNat, Nat.mod_eq_of_lt j.isLt]
    rw [hj]
    cases f with
    | data j' k' => exact absurd hf Bool.false_ne_true
    | code i k' =>
      exact congrArg (fun d => ((1 : Int), d, _)) (flip_back dat j k)
  · intro e f hef hleft hright
    have hne : e.syndrome.xor f.syndrome ≠ .zero :=
      fun h => hef (EccError.syndrome_inj (EccCode.xor_eq_zero h))
    have hpairs : (e.syndrome.xor f.syndrome).pairs ≠ .full := by
      rw [ne_eq, EccError.pair_full]
      exact not_or.mpr ⟨hleft, hright⟩
    rw [EccBlock.corrected_eq, htwo, if_neg hne, if_neg hpairs, if_neg (EccError.pair_ones e f)]

end DanubeBsp
