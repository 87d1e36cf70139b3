import Mathlib.Data.BitVec
import DanubeBsp.WordMemory

namespace DanubeBsp

abbrev Byte := BitVec 8

/-- A 16-bit field of a message. -/
abbrev Half := BitVec 16

def beHalf (b₀ b₁ : Byte) : Half := b₀ ++ b₁

def halfBytes (h : Half) : List Byte := [h.extractLsb' 8 8, h.extractLsb' 0 8]

/-- The word with the given bytes, the most significant first. -/
def beWord (b₀ b₁ b₂ b₃ : Byte) : Word := b₀ ++ b₁ ++ b₂ ++ b₃

def leWord (b₀ b₁ b₂ b₃ : Byte) : Word := beWord b₃ b₂ b₁ b₀

/-- Byte `i` of a word, counted from the most significant. -/
def beByte (w : Word) (i : Nat) : Byte := w.extractLsb' (24 - 8 * i) 8

/-- The byte swap that `le32_to_cpu` and `cpu_to_le32` are on a big-endian machine. -/
def swab32 (w : Word) : Word := leWord (beByte w 0) (beByte w 1) (beByte w 2) (beByte w 3)

/-- A 32-bit load and store of a big-endian machine. -/
def loadBe (mem : Nat → Byte) (a : Nat) : Word :=
  beWord (mem a) (mem (a + 1)) (mem (a + 2)) (mem (a + 3))

def storeBe (mem : Nat → Byte) (a : Nat) (w : Word) : Nat → Byte := fun x =>
  if a ≤ x ∧ x < a + 4 then beByte w (x - a) else mem x

theorem getElem_beByte_beWord (b₀ b₁ b₂ b₃ : Byte) (k i : Nat) (hi : i < 8) :
    (beByte (beWord b₀ b₁ b₂ b₃) k)[i] =
      if 24 - 8 * k + i < 8 then b₃.getLsbD (24 - 8 * k + i)
      else if 24 - 8 * k + i - 8 < 8 then b₂.getLsbD (24 - 8 * k + i - 8)
      else if 24 - 8 * k + i - 8 - 8 < 8 then b₁.getLsbD (24 - 8 * k + i - 8 - 8)
      else b₀.getLsbD (24 - 8 * k + i - 8 - 8 - 8) := by
  simp only [beByte, beWord, BitVec.getElem_extractLsb', BitVec.getLsbD_append]

@[simp] theorem beByte_beWord_zero (b₀ b₁ b₂ b₃ : Byte) :
    beByte (beWord b₀ b₁ b₂ b₃) 0 = b₀ := by
  ext i hi
  have hpos : 24 - 8 * 0 + i - 8 - 8 - 8 = i := by omega
  rw [getElem_beByte_beWord, if_neg (by omega), if_neg (by omega), if_neg (by omega), hpos,
    BitVec.getLsbD_eq_getElem hi]

@[simp] theorem beByte_beWord_one (b₀ b₁ b₂ b₃ : Byte) :
    beByte (beWord b₀ b₁ b₂ b₃) 1 = b₁ := by
  ext i hi
  have hpos : 24 - 8 * 1 + i - 8 - 8 = i := by omega
  rw [getElem_beByte_beWord, if_neg (by omega), if_neg (by omega), if_pos (by omega), hpos,
    BitVec.getLsbD_eq_getElem hi]

@[simp] theorem beByte_beWord_two (b₀ b₁ b₂ b₃ : Byte) :
    beByte (beWord b₀ b₁ b₂ b₃) 2 = b₂ := by
  ext i hi
  have hpos : 24 - 8 * 2 + i - 8 = i := by omega
  rw [getElem_beByte_beWord, if_neg (by omega), if_pos (by omega), hpos,
    BitVec.getLsbD_eq_getElem hi]

@[simp] theorem beByte_beWord_three (b₀ b₁ b₂ b₃ : Byte) :
    beByte (beWord b₀ b₁ b₂ b₃) 3 = b₃ := by
  ext i hi
  have hpos : 24 - 8 * 3 + i = i := by omega
  rw [getElem_beByte_beWord, if_pos (by omega), hpos, BitVec.getLsbD_eq_getElem hi]

@[simp] theorem swab32_beWord (b₀ b₁ b₂ b₃ : Byte) :
    swab32 (beWord b₀ b₁ b₂ b₃) = leWord b₀ b₁ b₂ b₃ := by
  simp [swab32]

/-- Stored bytes are loaded again: the bytes of a word determine it. -/
theorem beWord_beByte (w : Word) :
    beWord (beByte w 0) (beByte w 1) (beByte w 2) (beByte w 3) = w := by
  apply BitVec.eq_of_getLsbD_eq
  intro i hi
  have hbyte : ∀ k j, j < 8 → (beByte w k).getLsbD j = w.getLsbD (24 - 8 * k + j) := by
    intro k j hj
    simp [beByte, hj]
  simp only [beWord, BitVec.getLsbD_append]
  split
  next h =>
    rw [hbyte 3 i h]
    congr 1
    omega
  next =>
    split
    next h =>
      rw [hbyte 2 _ h]
      congr 1
      omega
    next =>
      split
      next h =>
        rw [hbyte 1 _ h]
        congr 1
        omega
      next =>
        rw [hbyte 0 _ (by omega)]
        congr 1
        omega

theorem loadBe_storeBe (mem : Nat → Byte) (a : Nat) (w : Word) :
    loadBe (storeBe mem a w) a = w := by
  have hin : ∀ i, i < 4 → storeBe mem a w (a + i) = beByte w i := by
    intro i hi
    unfold storeBe
    rw [if_pos (by omega), Nat.add_sub_cancel_left]
  have h₀ : storeBe mem a w a = beByte w 0 := hin 0 (by omega)
  unfold loadBe
  rw [h₀, hin 1 (by omega), hin 2 (by omega), hin 3 (by omega), beWord_beByte]

theorem storeBe_of_outside {mem : Nat → Byte} {a x : Nat} {w : Word} (h : x < a ∨ a + 4 ≤ x) :
    storeBe mem a w x = mem x := by
  unfold storeBe
  rw [if_neg (by omega)]

theorem loadBe_congr {mem mem' : Nat → Byte} {a : Nat}
    (h : ∀ x, a ≤ x → x < a + 4 → mem' x = mem x) : loadBe mem' a = loadBe mem a := by
  unfold loadBe
  rw [h a (by omega) (by omega), h (a + 1) (by omega) (by omega), h (a + 2) (by omega) (by omega),
    h (a + 3) (by omega) (by omega)]

/-- The bytes of a word, the least significant first. -/
def leBytes (w : Word) : List Byte := [beByte w 3, beByte w 2, beByte w 1, beByte w 0]

/-- The words of a byte string, each with its least significant byte first. -/
def leWords : List Byte → List Word
  | b₀ :: b₁ :: b₂ :: b₃ :: bs => leWord b₀ b₁ b₂ b₃ :: leWords bs
  | _ => []

/-- Words loaded by a big-endian machine and swapped are the little-endian words of the bytes. -/
theorem map_swab32_loadBe (mem : Nat → Byte) (pos k : Nat) :
    ((List.range k).map fun i => swab32 (loadBe mem (pos + 4 * i))) =
      leWords (readBlock mem pos (4 * k)) := by
  induction k generalizing pos with
  | zero => rfl
  | succ k ih =>
    have hpos : ∀ i, pos + 4 * (i + 1) = pos + 4 + 4 * i := by
      intro i
      omega
    have hfour : 4 * (k + 1) = 4 + 4 * k := by omega
    have hread : readBlock mem pos 4 = [mem pos, mem (pos + 1), mem (pos + 2), mem (pos + 3)] := rfl
    have hrest := ih (pos + 4)
    rw [List.range_succ_eq_map, List.map_cons, List.map_map, hfour, readBlock_add, hread]
    simp only [Function.comp_def, Nat.succ_eq_add_one, hpos, hrest, List.cons_append,
      List.nil_append, leWords]
    simp only [loadBe, swab32_beWord, Nat.mul_zero, Nat.add_zero]

/-- A store is a copy of the four bytes. -/
theorem storeBe_eq_writeBlock (mem : Nat → Byte) (a : Nat) (w : Word) :
    storeBe mem a w = writeBlock mem a [beByte w 0, beByte w 1, beByte w 2, beByte w 3] := by
  funext x
  by_cases hin : a ≤ x ∧ x < a + 4
  · obtain ⟨i, hi, rfl⟩ : ∃ i, i < 4 ∧ x = a + i := ⟨x - a, by omega, by omega⟩
    have hblock := blockAt_writeBlock mem a [beByte w 0, beByte w 1, beByte w 2, beByte w 3]
    rw [storeBe, if_pos hin, Nat.add_sub_cancel_left]
    obtain ⟨h₀, h₁, h₂, h₃, -⟩ := hblock
    have hcases : i = 0 ∨ i = 1 ∨ i = 2 ∨ i = 3 := by omega
    rcases hcases with rfl | rfl | rfl | rfl
    · exact h₀.symm
    · exact h₁.symm
    · exact h₂.symm
    · exact h₃.symm
  · rw [storeBe_of_outside (by omega), writeBlock_outside]
    simp only [List.length_cons, List.length_nil]
    omega

/-- The bytes that a big-endian machine stores for a swapped word. -/
theorem beBytes_swab32 (w : Word) :
    [beByte (swab32 w) 0, beByte (swab32 w) 1, beByte (swab32 w) 2, beByte (swab32 w) 3] =
      leBytes w := by
  unfold swab32 leWord
  simp only [beByte_beWord_zero, beByte_beWord_one, beByte_beWord_two, beByte_beWord_three, leBytes]

end DanubeBsp
