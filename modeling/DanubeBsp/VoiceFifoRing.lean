import DanubeBsp.RingSlice
import DanubeBsp.VoiceFifo

namespace DanubeBsp

/-- The byte offset of the `k`-th word ever written to a FIFO of `n` words. -/
def voiceOffset (n k : Nat) : Nat := 4 * (n - 1 - k % n)

/-- The memory as a ring of words, indexed in writing order. -/
def voiceCell (fifo : VoiceFifo) (n slot : Nat) : Word := fifo.mem (voiceOffset n slot)

theorem voiceOffset_lt {n : Nat} (hn : 0 < n) (k : Nat) : voiceOffset n k < 4 * n := by
  unfold voiceOffset
  omega

theorem voiceOffset_mod (n k : Nat) : voiceOffset n (k % n) = voiceOffset n k := by
  simp [voiceOffset]

theorem voiceOffset_ne {n i j : Nat} (hn : 0 < n) (h : i % n ≠ j % n) :
    voiceOffset n i ≠ voiceOffset n j := by
  have hi := Nat.mod_lt i hn
  have hj := Nat.mod_lt j hn
  unfold voiceOffset
  omega

/-- The slot `j` words further on, by one subtraction of a lap. -/
theorem add_mod_cases {n : Nat} (hn : 0 < n) (k j : Nat) (hj : j ≤ n) :
    (k + j) % n = if k % n + j < n then k % n + j else k % n + j - n := by
  have hk := Nat.mod_lt k hn
  rw [← Nat.mod_add_mod]
  split
  next h => exact Nat.mod_eq_of_lt h
  next h => rw [Nat.mod_eq_sub_mod (by omega), Nat.mod_eq_of_lt (by omega)]

theorem toS32_of_lt {x : Nat} (h : x < 2 ^ 31) : toS32 x = x := if_pos h

theorem downIndex_eq {off size i : Nat} (ho : off < size) (hs : size ≤ 2 ^ 31) (hi : i ≤ size) :
    downIndex off size i = if i ≤ off then off - i else off + size - i := by
  have hoff : toS32 off = off := toS32_of_lt (by omega)
  have hsize : toS32 size = size ∨ toS32 size = (size : Int) - 2 ^ 32 := by
    unfold toS32
    split
    next => exact .inl rfl
    next => exact .inr rfl
  simp only [downIndex, hoff, toU32]
  by_cases h : i ≤ off
  · rw [if_pos (by omega), if_pos h]
    omega
  · rw [if_neg (by omega), if_neg h]
    omega

theorem downAddress_eq {off size i : Nat} (ho : off < size) (hs : size ≤ 2 ^ 31) (hi : i ≤ size) :
    downAddress off size i = if i ≤ off then off - i else off + size - i := by
  have hoff : toS32 off = off := toS32_of_lt (by omega)
  simp only [downAddress, hoff, toU32]
  by_cases h : i ≤ off
  · rw [if_neg (by omega), if_pos h]
    omega
  · rw [if_pos (by omega), if_neg h]
    omega

/-- Going down by `j` words leads to the offset of the `j`-th next word. -/
theorem voiceOffset_down {n k j : Nat} (hn : 0 < n) (hj : j ≤ n) :
    (if 4 * j ≤ voiceOffset n k then voiceOffset n k - 4 * j else voiceOffset n k + 4 * n - 4 * j) =
      voiceOffset n (k + j) := by
  have hk := Nat.mod_lt k hn
  have hadd := add_mod_cases hn k j hj
  have ho : voiceOffset n k = 4 * (n - 1 - k % n) := rfl
  have ho' : voiceOffset n (k + j) = 4 * (n - 1 - (k + j) % n) := rfl
  by_cases h : k % n + j < n
  · rw [if_pos h] at hadd
    rw [if_pos (by omega), ho', hadd]
    omega
  · rw [if_neg h] at hadd
    rw [if_neg (by omega), ho', hadd]
    omega

theorem downIndex_offset {n k j : Nat} (hn : 0 < n) (hs : n ≤ 2 ^ 29) (hj : j ≤ n) :
    downIndex (voiceOffset n k) (4 * n) (4 * j) = voiceOffset n (k + j) := by
  rw [downIndex_eq (voiceOffset_lt hn k) (by omega) (by omega), voiceOffset_down hn hj]

theorem downAddress_offset {n k j : Nat} (hn : 0 < n) (hs : n ≤ 2 ^ 29) (hj : j ≤ n) :
    downAddress (voiceOffset n k) (4 * n) (4 * j) = voiceOffset n (k + j) := by
  rw [downAddress_eq (voiceOffset_lt hn k) (by omega) (by omega), voiceOffset_down hn hj]

theorem memAvailable_offset {fifo : VoiceFifo} {e a m : Nat} (he : e ≤ 29)
    (hsize : fifo.size = 4 * 2 ^ e) (hr : fifo.preadOff = voiceOffset (2 ^ e) a)
    (hw : fifo.pwriteOff = voiceOffset (2 ^ e) (a + m)) (hm : m < 2 ^ e) :
    ifxMpsFifoMemAvailable fifo = 4 * 2 ^ e - 1 - 4 * m := by
  have hn : 0 < 2 ^ e := Nat.two_pow_pos e
  have hle : 2 ^ e ≤ 2 ^ 29 := Nat.pow_le_pow_right (by decide) he
  have hpow : 4 * 2 ^ e = 2 ^ (e + 2) := by rw [Nat.pow_add, Nat.mul_comm]
  have hdown := voiceOffset_down (k := a) hn (by omega : m ≤ 2 ^ e)
  have hlt := voiceOffset_lt hn a
  rw [← hr, ← hw] at hdown
  rw [← hr] at hlt
  have hmask : toU32 ((fifo.size : Int) - 1) = 2 ^ (e + 2) - 1 := by
    rw [hsize, ← hpow]
    unfold toU32
    omega
  rw [ifxMpsFifoMemAvailable, hmask, Nat.and_two_pow_sub_one_eq_mod, ← hpow, hsize]
  by_cases h : 4 * m ≤ fifo.preadOff
  · rw [if_pos h] at hdown
    have hval : toU32 (((4 * 2 ^ e : Nat) : Int) - 1 - (fifo.preadOff - fifo.pwriteOff)) =
        4 * 2 ^ e - 1 - 4 * m := by
      unfold toU32
      omega
    rw [hval, Nat.mod_eq_of_lt (by omega)]
  · rw [if_neg h] at hdown
    have hval : toU32 (((4 * 2 ^ e : Nat) : Int) - 1 - (fifo.preadOff - fifo.pwriteOff)) =
        4 * 2 ^ e - 1 - 4 * m + 4 * 2 ^ e := by
      unfold toU32
      omega
    rw [hval, Nat.add_mod_right, Nat.mod_eq_of_lt (by omega)]

def pendWords (pend : List VoiceMessage) : List Word := pend.flatMap fun m => m.head :: m.payload

/-- The FIFO of `n` words holds the messages `pend` from the `a`-th word ever written on. -/
structure VoiceHolds (n a : Nat) (pend : List VoiceMessage) (fifo : VoiceFifo) : Prop where
  size : fifo.size = 4 * n
  read : fifo.preadOff = voiceOffset n a
  write : fifo.pwriteOff = voiceOffset n (a + (pendWords pend).length)
  room : (pendWords pend).length < n
  stored : ringSlice n (voiceCell fifo n) a (pendWords pend).length = pendWords pend

/-- The copy loop appends its words behind the stored ones. -/
theorem writeWords_spec (ws : List Word) {n a : Nat} {us : List Word} {fifo : VoiceFifo}
    {j b : Nat} (hn : 0 < n) (hs : n ≤ 2 ^ 29) (hsize : fifo.size = 4 * n)
    (hw : fifo.pwriteOff = voiceOffset n b) (hus : a + us.length = b + j)
    (hroom : us.length + ws.length ≤ n) (hjn : j + ws.length ≤ n) (hj : j + ws.length ≤ 64)
    (hst : ringSlice n (voiceCell fifo n) a us.length = us) :
    ringSlice n (voiceCell (writeWords fifo (4 * j) ws) n) a (us.length + ws.length) = us ++ ws ∧
      (writeWords fifo (4 * j) ws).size = fifo.size ∧
      (writeWords fifo (4 * j) ws).preadOff = fifo.preadOff ∧
      (writeWords fifo (4 * j) ws).pwriteOff = fifo.pwriteOff := by
  induction ws generalizing us fifo j with
  | nil => exact ⟨by simpa [writeWords] using hst, rfl, rfl, rfl⟩
  | cons w ws ih =>
    simp only [List.length_cons] at hroom hjn hj
    have hwrite : (ifxMpsFifoWrite fifo w (4 * j)).1 =
        { fifo with mem := Function.update fifo.mem (voiceOffset n (b + j)) w } := by
      have hcut : 4 * j % 2 ^ 8 = 4 * j := Nat.mod_eq_of_lt (by omega)
      have haddr := downAddress_offset (k := b) hn hs (by omega : j ≤ n)
      simp only [ifxMpsFifoWrite, hcut, hsize, hw, haddr]
      rw [if_neg (by omega)]
    have hst' : ringSlice n (voiceCell (ifxMpsFifoWrite fifo w (4 * j)).1 n) a (us ++ [w]).length =
        us ++ [w] := by
      rw [List.length_append, List.length_singleton, ringSlice_snoc, hwrite]
      refine congrArg₂ (· ++ ·) ?_ ?_
      · refine Eq.trans (ringSlice_congr ?_) hst
        intro k hk hk'
        have hne := ringPos_ne (p := a) hk (by omega : k < a + n) (by omega : a ≤ b + j) (by omega)
          (by omega)
        simp only [voiceCell, voiceOffset_mod]
        exact Function.update_of_ne (voiceOffset_ne hn hne) _ _
      · simp only [voiceCell, voiceOffset_mod, hus, Function.update_self]
    have h := @ih (us ++ [w]) (ifxMpsFifoWrite fifo w (4 * j)).1 (j + 1)
      (by rw [hwrite]; exact hsize) (by rw [hwrite]; exact hw)
      (by simp only [List.length_append, List.length_singleton]; omega)
      (by simp only [List.length_append, List.length_singleton]; omega) (by omega) (by omega) hst'
    have hfold : writeWords fifo (4 * j) (w :: ws) =
        writeWords (ifxMpsFifoWrite fifo w (4 * j)).1 (4 * (j + 1)) ws := rfl
    rw [hfold]
    obtain ⟨h1, h2, h3, h4⟩ := h
    refine ⟨?_, h2.trans (by rw [hwrite]), h3.trans (by rw [hwrite]), h4.trans (by rw [hwrite])⟩
    rw [List.length_append, List.length_singleton, Nat.add_assoc, Nat.add_comm 1,
      List.append_assoc] at h1
    exact h1

end DanubeBsp
