import DanubeBsp.PromCmdline

namespace DanubeBsp

variable {prev : Nat → Byte} {s t : PromState} {args : List (List Byte)} {memsz : Word}
  {src g : List Byte} {a : Nat}

theorem strcat_eq_some_iff : s.strcat a src = some t ↔
    ∃ g, StringAt 0 s.mem a g ∧ g.length < addressSpace ∧
      t = s.put (a + g.length) (src ++ [0]) := by
  unfold PromState.strcat
  cases hend : strend 0 s.mem addressSpace a with
  | none =>
    refine iff_of_false (fun h => by cases h) ?_
    rintro ⟨g, hg, hlt, _⟩
    rw [strend_eq_some_iff.mpr ⟨g, hg, hlt, rfl⟩] at hend
    cases hend
  | some z =>
    obtain ⟨g, hg, hlt, rfl⟩ := strend_eq_some_iff.mp hend
    constructor
    · intro h
      exact ⟨g, hg, hlt, (Option.some.inj h).symm⟩
    · rintro ⟨g', hg', _, rfl⟩
      rw [hg.unique hg']

theorem spread_noNul (hargs : ∀ w ∈ args, ∀ b ∈ w, b ≠ 0) : ∀ b ∈ spread blankByte args, b ≠ 0 := by
  intro b hb
  obtain ⟨l, hl, hb⟩ := List.mem_flatten.mp hb
  obtain ⟨w, hw, rfl⟩ := List.mem_map.mp hl
  rcases List.mem_append.mp hb with hb | hb
  · exact hargs w hw b hb
  · rw [List.mem_singleton.mp hb]
    decide

theorem digit_visible {c : Char} (h : c.isDigit = true) :
    BitVec.ofNat 8 c.toNat ≠ 0 ∧ BitVec.ofNat 8 c.toNat ≠ blankByte := by
  obtain ⟨hlow, hhigh⟩ := Char.isDigit_iff_toNat.mp h
  have hlow' : 48 ≤ c.toNat := hlow
  have hhigh' : c.toNat ≤ 57 := hhigh
  have hval : (BitVec.ofNat 8 c.toNat).toNat = c.toNat := by
    rw [BitVec.toNat_ofNat]
    omega
  constructor
  · intro heq
    rw [heq] at hval
    have hzero : (0 : Byte).toNat = 0 := rfl
    omega
  · intro heq
    rw [heq] at hval
    have hblank : blankByte.toNat = 32 := rfl
    omega

theorem digits_visible (n : Nat) :
    ∀ b ∈ asciiBytes (Nat.toDigits 10 n), b ≠ 0 ∧ b ≠ blankByte := by
  intro b hb
  obtain ⟨c, hc, rfl⟩ := List.mem_map.mp hb
  exact digit_visible (Nat.isDigit_of_mem_toDigits (by decide) (by decide) hc)

/-- A digit or a sign is not a blank, and does not end a string. -/
theorem decimalBytes_visible (n : Int) : ∀ b ∈ decimalBytes n, b ≠ 0 ∧ b ≠ blankByte := by
  cases n with
  | ofNat n => exact digits_visible n
  | negSucc n =>
    intro b hb
    rcases List.mem_cons.mp hb with rfl | hb
    · decide
    · exact digits_visible (n + 1) b hb

/-- The line of the arguments, with a zero where the loop leaves it. -/
structure Ended (prev : Nat → Byte) (args : List (List Byte)) (s : PromState) : Prop where
  dest : s.dest = (spread blankByte args).length
  left : s.left = 255 - s.dest
  room : s.dest < 255
  got : s.gotMem = decide (∃ w ∈ args, memEquals <+: w)
  line : BlockAt s.mem 0 (spread blankByte args)
  behind : ∀ i, s.dest ≤ i → s.mem i = leftBehind prev args i
  inside : (∀ i ∈ s.stored, i < clSize) ↔ s.dest + lastLen args < clSize

theorem Copied.ended (h : Copied prev args s) : Ended prev args (s.put (s.dest + s.len) [0]) := by
  have hdest := h.dest
  have hlen := h.len
  refine ⟨hdest, h.left, h.room, h.got, ?_, ?_, ?_⟩
  · refine blockAt_congr ?_ h.line
    intro i _ hi
    exact writeBlock_outside (.inl (by omega))
  · intro i hi
    show writeBlock s.mem (s.dest + s.len) [0] i = leftBehind prev args i
    unfold leftBehind
    rw [← hdest, ← hlen]
    by_cases heq : i = s.dest + s.len
    · rw [heq, Function.update_self]
      exact (blockAt_writeBlock s.mem (s.dest + s.len) [0]).1
    · rw [Function.update_of_ne heq, writeBlock_outside (by rw [List.length_singleton]; omega)]
      exact h.behind i hi
  · rw [← hlen]
    constructor
    · intro hall
      exact hall _ (mem_stored_put (Nat.le_refl _) (Nat.lt_succ_self _))
    · intro hlt
      exact stored_put_lt h.inside hlt

theorem Ended.appended_iff (h : Ended prev args s) :
    memsz ≠ 0 ∧ s.gotMem = false ∧ 8 < s.left ↔ MemAppended args memsz := by
  have hdest := h.dest
  have hleft := h.left
  unfold MemAppended clSize
  rw [h.got, decide_eq_false_iff_not]
  push Not
  refine and_congr_right fun _ => and_congr_right fun _ => ?_
  omega

/-- The number and the `M` behind it, if there is room for them. -/
theorem appendNumber_room (hroom : (decimalBytes memsz.toInt).length < s.left.toNat) :
    ∃ t, s.appendNumber memsz = some t ∧
      StringAt 0 t.mem s.dest (decimalBytes memsz.toInt ++ asciiBytes ['M']) ∧
      (∀ i, i < s.dest → t.mem i = s.mem i) ∧
      ((∀ i ∈ s.stored, i < clSize) → s.dest + (decimalBytes memsz.toInt).length + 1 < clSize →
        ∀ i ∈ t.stored, i < clSize) := by
  have hnumber := decimalBytes_visible memsz.toInt
  unfold PromState.appendNumber
  dsimp only
  generalize decimalBytes memsz.toInt = number at hroom hnumber
  rw [List.take_of_length_le (show number.length ≤ s.left.toNat - 1 by omega)]
  have hlength : (number ++ [(0 : Byte)]).length = number.length + 1 := List.length_append
  have hblock := blockAt_writeBlock s.mem s.dest (number ++ [0])
  have hend : StringAt 0 (writeBlock s.mem s.dest (number ++ [0])) (s.dest + number.length) [] :=
    stringAt_nil.mpr (blockAt_append.mp hblock).2.1
  refine ⟨_, strcat_eq_some_iff.mpr ⟨[], hend, by decide, rfl⟩, ?_, ?_, ?_⟩
  · refine stringAt_append.mpr
      ⟨?_, fun b hb => (hnumber b hb).1, blockAt_writeBlock _ _ _, by decide⟩
    refine blockAt_congr ?_ (blockAt_append.mp hblock).1
    intro i _ hi
    exact writeBlock_outside (.inl hi)
  · intro i hi
    show writeBlock (writeBlock s.mem s.dest (number ++ [0])) (s.dest + number.length) _ i = s.mem i
    rw [writeBlock_outside (.inl (by omega)), writeBlock_outside (.inl hi)]
  · intro hinside hlt
    refine stored_put_lt (stored_put_lt hinside ?_) ?_
    · omega
    · show s.dest + number.length + 2 ≤ clSize
      omega

theorem appendNumber_inside (h : s.appendNumber memsz = some t)
    (hinside : ∀ i ∈ t.stored, i < clSize) :
    (∀ i ∈ s.stored, i < clSize) ∧ s.dest + (decimalBytes memsz.toInt).length + 1 < clSize := by
  obtain ⟨g, _, _, rfl⟩ := strcat_eq_some_iff.mp h
  constructor
  · intro i hi
    exact hinside i (List.mem_append_left _ (List.mem_append_left _ hi))
  · have hlast := hinside (s.dest + (decimalBytes memsz.toInt).length + g.length + 1)
      (mem_stored_put (Nat.le_add_right _ 1) (Nat.lt_succ_self _))
    omega

/-- The word as it comes out behind what has been left in the memory. -/
def appendedWord (g : List Byte) (memsz : Word) : List Byte :=
  (g ++ memEquals).take 4 ++ (decimalBytes memsz.toInt ++ asciiBytes ['M'])

theorem Ended.blanked_line (h : Ended prev args s) :
    BlockAt (writeBlock s.mem s.dest [blankByte]) 0 (spread blankByte args ++ [blankByte]) := by
  have hdest := h.dest
  rw [blockAt_append, Nat.zero_add, ← hdest]
  refine ⟨blockAt_congr ?_ h.line, blockAt_writeBlock _ _ _⟩
  intro i _ hi
  exact writeBlock_outside (.inl (by omega))

theorem Ended.blanked_string_iff (h : Ended prev args s) :
    StringAt 0 (writeBlock s.mem s.dest [blankByte]) (s.dest + 1) g ↔
      StringAt 0 (leftBehind prev args) (s.dest + 1) g := by
  have hsame : ∀ i, s.dest + 1 ≤ i →
      writeBlock s.mem s.dest [blankByte] i = leftBehind prev args i := by
    intro i hi
    rw [writeBlock_outside (.inr hi)]
    exact h.behind i (by omega)
  constructor
  · exact StringAt.congr fun i hi _ => (hsame i hi).symm
  · exact StringAt.congr fun i hi _ => hsame i hi

end DanubeBsp
