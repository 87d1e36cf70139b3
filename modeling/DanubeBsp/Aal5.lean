import Mathlib.Data.List.GetD
import DanubeBsp.ByteOrder

namespace DanubeBsp

section Groups

variable {α : Type*}

/-- The groups of a sequence that are complete, each up to an item that is the `last` of its group;
`begun` are the items of the group before the sequence. -/
def closedGroups (last : α → Bool) : (begun : List α) → List α → List (List α)
  | _, [] => []
  | begun, x :: xs =>
    if last x then (begun ++ [x]) :: closedGroups last [] xs
    else closedGroups last (begun ++ [x]) xs

/-- A complete group. -/
def IsGroup (last : α → Bool) (g : List α) : Prop :=
  ∃ body x, g = body ++ [x] ∧ (∀ y ∈ body, last y = false) ∧ last x = true

variable {last : α → Bool} {begun xs rest g : List α} {gs : List (List α)}

theorem IsGroup.snoc {x : α} (hxs : ∀ y ∈ xs, last y = false) (hx : last x = true) :
    IsGroup last (xs ++ [x]) := ⟨xs, x, rfl, hxs, hx⟩

theorem closedGroups_append (hxs : ∀ x ∈ xs, last x = false) (rest : List α) :
    closedGroups last begun (xs ++ rest) = closedGroups last (begun ++ xs) rest := by
  induction xs generalizing begun with
  | nil => rw [List.nil_append, List.append_nil]
  | cons x xs ih =>
    have hx : last x = false := hxs x List.mem_cons_self
    rw [List.cons_append, closedGroups, hx, if_neg Bool.false_ne_true,
      ih (fun y hy => hxs y (List.mem_cons_of_mem x hy)), List.append_assoc]
    rfl

theorem closedGroups_open (hxs : ∀ x ∈ xs, last x = false) :
    closedGroups last begun xs = [] := by
  have happend := @closedGroups_append α last begun xs hxs []
  rwa [List.append_nil] at happend

theorem closedGroups_group (hg : IsGroup last g) (rest : List α) :
    closedGroups last [] (g ++ rest) = g :: closedGroups last [] rest := by
  obtain ⟨body, x, rfl, hbody, hx⟩ := hg
  rw [List.append_assoc, closedGroups_append hbody, List.nil_append, List.singleton_append,
    closedGroups, if_pos hx]

/-- Complete groups are found again, whatever follows. -/
theorem closedGroups_flatten (hgs : ∀ g ∈ gs, IsGroup last g) (rest : List α) :
    closedGroups last [] (gs.flatten ++ rest) = gs ++ closedGroups last [] rest := by
  induction gs with
  | nil => rfl
  | cons g gs ih =>
    rw [List.flatten_cons, List.append_assoc, closedGroups_group (hgs g List.mem_cons_self),
      ih fun g' hg' => hgs g' (List.mem_cons_of_mem g hg')]
    rfl

end Groups

/-- The length of the SDU that a trailer tells; 0 is the greatest. -/
def aal5Len (hi lo : Byte) : Nat :=
  let len := (beHalf hi lo).toNat
  if len = 0 then 0x10000 else len

/-- The SDU in a PDU: the last eight octets are the trailer, and before it are at most 47 of
padding. -/
def aal5Sdu (pdu : List Byte) : Option (List Byte) :=
  let len := aal5Len (pdu.getD (pdu.length - 6) 0) (pdu.getD (pdu.length - 5) 0)
  if len + 8 ≤ pdu.length ∧ pdu.length ≤ len + 55 then some (pdu.take len) else none

/-- The number of octets of padding. -/
def aal5Pad (len : Nat) : Nat := (48 - (len + 8) % 48) % 48

def aal5Pdu (sdu : List Byte) (uu cpi : Byte) (crc : Word) : List Byte :=
  sdu ++ List.replicate (aal5Pad sdu.length) 0 ++ [uu, cpi] ++
    halfBytes (BitVec.ofNat 16 sdu.length) ++
    [beByte crc 0, beByte crc 1, beByte crc 2, beByte crc 3]

section Pdu

variable {sdu pdu : List Byte} {uu cpi : Byte} {crc : Word}

theorem aal5Len_le (hi lo : Byte) : 0 < aal5Len hi lo ∧ aal5Len hi lo ≤ 65536 := by
  have hlt := (beHalf hi lo).isLt
  unfold aal5Len
  dsimp only
  split
  · omega
  · omega

/-- A PDU that is too long has no SDU. -/
theorem aal5Sdu_long (h : 65591 < pdu.length) : aal5Sdu pdu = none := by
  have hle := aal5Len_le (pdu.getD (pdu.length - 6) 0) (pdu.getD (pdu.length - 5) 0)
  exact if_neg fun hfit => by omega

theorem aal5Pad_spec (len : Nat) : (len + aal5Pad len + 8) % 48 = 0 ∧ aal5Pad len < 48 := by
  unfold aal5Pad
  omega

theorem aal5Pdu_length (sdu : List Byte) (uu cpi : Byte) (crc : Word) :
    (aal5Pdu sdu uu cpi crc).length = sdu.length + aal5Pad sdu.length + 8 := by
  simp only [aal5Pdu, halfBytes, List.length_append, List.length_replicate, List.length_cons,
    List.length_nil]

theorem aal5Pdu_trailer (sdu : List Byte) (uu cpi : Byte) (crc : Word) :
    ∀ i < 2, (aal5Pdu sdu uu cpi crc).getD ((aal5Pdu sdu uu cpi crc).length - 6 + i) 0 =
      (halfBytes (BitVec.ofNat 16 sdu.length)).getD i 0 := by
  intro i hi
  have hhalf : (halfBytes (BitVec.ofNat 16 sdu.length)).length = 2 := rfl
  have hat : (aal5Pdu sdu uu cpi crc).length - 6 + i =
      (sdu ++ List.replicate (aal5Pad sdu.length) 0 ++ [uu, cpi]).length + i := by
    rw [aal5Pdu_length]
    simp only [List.length_append, List.length_replicate, List.length_cons, List.length_nil]
    omega
  rw [hat]
  unfold aal5Pdu
  rw [List.append_assoc _ (halfBytes _), List.getD_append_right _ _ _ _ (Nat.le_add_right _ _),
    Nat.add_sub_cancel_left, List.getD_append _ _ _ _ (by omega)]

theorem aal5Len_halfBytes (hpos : 0 < sdu.length) (hlen : sdu.length ≤ 65536) :
    aal5Len ((halfBytes (BitVec.ofNat 16 sdu.length)).getD 0 0)
      ((halfBytes (BitVec.ofNat 16 sdu.length)).getD 1 0) = sdu.length := by
  have hhalf : beHalf ((halfBytes (BitVec.ofNat 16 sdu.length)).getD 0 0)
      ((halfBytes (BitVec.ofNat 16 sdu.length)).getD 1 0) = BitVec.ofNat 16 sdu.length := by
    show beHalf (BitVec.extractLsb' 8 8 _) (BitVec.extractLsb' 0 8 _) = _
    unfold beHalf
    exact BitVec.extractLsb'_append_extractLsb'_eq_extractLsb' rfl |>.trans
      BitVec.extractLsb'_eq_self
  unfold aal5Len
  dsimp only
  rw [hhalf, BitVec.toNat_ofNat]
  split
  · omega
  · omega

/-- The SDU of the PDU that carries it. -/
theorem aal5Sdu_pdu (hpos : 0 < sdu.length) (hlen : sdu.length ≤ 65536) :
    aal5Sdu (aal5Pdu sdu uu cpi crc) = some sdu := by
  have hhi := aal5Pdu_trailer sdu uu cpi crc 0 (by omega)
  have hlo := aal5Pdu_trailer sdu uu cpi crc 1 (by omega)
  have hpad := aal5Pad_spec sdu.length
  have htotal := aal5Pdu_length sdu uu cpi crc
  rw [Nat.add_zero] at hhi
  have hfive : (aal5Pdu sdu uu cpi crc).length - 5 = (aal5Pdu sdu uu cpi crc).length - 6 + 1 := by
    omega
  unfold aal5Sdu
  dsimp only
  rw [hfive, hhi, hlo, aal5Len_halfBytes hpos hlen, if_pos (by omega)]
  unfold aal5Pdu
  rw [List.append_assoc, List.append_assoc, List.append_assoc, List.take_left]

end Pdu

end DanubeBsp
