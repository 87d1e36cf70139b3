import DanubeBsp.PciConfigCalls

namespace DanubeBsp

theorem accessResult_ne_zero_iff (data : Word) : accessResult data ≠ 0 ↔ data = 0xffffffff := by
  unfold accessResult
  split_ifs with h
  · exact iff_of_true (by decide) h
  · exact iff_of_false (fun hne => hne rfl) h

theorem minusOne_ne_successful : (-1 : Int) ≠ pcibiosSuccessful := by decide

theorem bad_ne_successful : pcibiosBadRegisterNumber ≠ pcibiosSuccessful := by decide

section Existing

variable {hwSwap : Bool} {s : PciBus} {dev : PciDev} {w : PciWidth} {reg val : Word}
  {bytes : Byte → Byte} {off : Byte}

theorem leByte_readValue {i : Nat} (hi : i < 4) (w : PciWidth) (bytes : Byte → Byte) (off : Byte) :
    leByte (readValue w bytes off) i = if i < w.size then bytes (off + BitVec.ofNat 8 i) else 0 := by
  have hfirst : bytes (off + BitVec.ofNat 8 0) = bytes off := congrArg bytes (BitVec.add_zero off)
  cases w with
  | byte =>
    obtain ⟨h0, h1, h2, h3⟩ := @leByte_leWord (bytes off) 0 0 0
    match i with
    | 0 => exact h0.trans hfirst.symm
    | 1 => exact h1
    | 2 => exact h2
    | 3 => exact h3
  | word =>
    obtain ⟨h0, h1, h2, h3⟩ := @leByte_leWord (bytes off) (bytes (off + 1)) 0 0
    match i with
    | 0 => exact h0.trans hfirst.symm
    | 1 => exact h1
    | 2 => exact h2
    | 3 => exact h3
  | dword =>
    show leByte (cfgDword bytes off) i = if i < 4 then bytes (off + BitVec.ofNat 8 i) else 0
    rw [if_pos hi]
    exact leByte_cfgDword hi bytes off

/-- The bytes from an offset on, in the word that holds them. -/
theorem extract_eq_readValue (hfit : off.toNat % 4 + w.size ≤ 4) :
    (cfgDword bytes (off &&& ~~~3) >>> (8 * (off.toNat % 4))) &&& w.mask = readValue w bytes off := by
  apply eq_of_leByte
  intro i hi
  rw [leByte_extract hi hfit (mask_bit w), leByte_readValue hi]
  by_cases hin : i < w.size
  · have hadd : BitVec.ofNat 8 (off.toNat % 4 + i) =
        BitVec.ofNat 8 (off.toNat % 4) + BitVec.ofNat 8 i := BitVec.ofNat_add _ _
    have hsplit : (off &&& ~~~3) + BitVec.ofNat 8 (off.toNat % 4 + i) = off + BitVec.ofNat 8 i := by
      rw [hadd, ← BitVec.add_assoc, ← eq_alignedOff_add]
    rw [if_pos hin, if_pos hin, leByte_cfgDword (by omega), hsplit]
  · rw [if_neg hin, if_neg hin]

/-- A read of a device that looks present. -/
theorem pciRead_present (h : s.bytesOf dev = some bytes) (hal : w.Aligned reg)
    (hlooks : LooksPresent bytes (reg.setWidth 8)) :
    pciRead hwSwap w s dev reg =
      (pcibiosSuccessful, some (readValue w bytes (reg.setWidth 8)), s.cleared hwSwap) := by
  rw [pciRead_aligned hal (access_read h 0)]
  dsimp only
  rw [if_neg (fun hne => hlooks ((accessResult_ne_zero_iff _).mp hne)), regShift_eq,
    extract_eq_readValue (aligned_fits hal)]

theorem pciRead_ones (h : s.bytesOf dev = some bytes) (hal : w.Aligned reg)
    (hones : ¬LooksPresent bytes (reg.setWidth 8)) : (pciRead hwSwap w s dev reg).1 = -1 := by
  rw [pciRead_aligned hal (access_read h 0)]
  dsimp only
  rw [if_pos ((accessResult_ne_zero_iff _).mpr (not_not.mp hones))]

/-- The word that a narrow write puts back. -/
def mergedDword (w : PciWidth) (bytes : Byte → Byte) (reg val : Word) : Word :=
  (cfgDword bytes (reg.setWidth 8 &&& ~~~3) &&& ~~~(w.mask <<< regShift reg)) |||
    (w.cut val <<< regShift reg)

theorem leByte_cut {i : Nat} (hi : i < 4) (hin : i < w.size) (val : Word) :
    leByte (w.cut val) i = leByte val i := by
  apply BitVec.eq_of_getLsbD_eq
  intro t ht
  rw [getLsbD_leByte hi, getLsbD_leByte hi, cut_bit,
    decide_eq_true (show 8 * i + t < 8 * w.size by omega), Bool.true_and]

theorem putDword_merged (bytes : Byte → Byte) (val : Word) (hal : w.Aligned reg) :
    putDword bytes (reg.setWidth 8 &&& ~~~3) (mergedDword w bytes reg val) =
      writtenBytes w bytes (reg.setWidth 8) val := by
  have hfit := aligned_fits hal
  refine putDword_eq_written hfit ?_
  intro j hj
  unfold mergedDword
  rw [regShift_eq, leByte_merge hj (mask_bit w), leByte_cfgDword hj]
  · by_cases hin : (reg.setWidth 8).toNat % 4 ≤ j ∧ j < (reg.setWidth 8).toNat % 4 + w.size
    · rw [if_pos hin, if_pos hin, leByte_cut (by omega) (by omega)]
    · rw [if_neg hin, if_neg hin]
  · intro t ht
    rw [cut_bit, decide_eq_false (by omega), Bool.false_and]

theorem putDword_whole (bytes : Byte → Byte) (val : Word) (hal : PciWidth.dword.Aligned reg) :
    putDword bytes (reg.setWidth 8 &&& ~~~3) val = writtenBytes .dword bytes (reg.setWidth 8) val := by
  have hfit := aligned_fits hal
  have hsize : PciWidth.dword.size = 4 := rfl
  refine putDword_eq_written hfit ?_
  intro j hj
  rw [if_pos (by omega), show j - (reg.setWidth 8).toNat % 4 = j by omega]

/-- The end of a write, whose result says whether the word is now all ones. -/
theorem written_result {data : Word} {t : PciBus} {after : Byte → Byte}
    (hput : putDword bytes (off &&& ~~~3) data = after) (ht : t.bytesOf dev = some after) :
    ((if accessResult data ≠ 0 then ((-1 : Int), t) else (pcibiosSuccessful, t)).1 =
        pcibiosSuccessful ↔ LooksPresent after off) ∧
      (if accessResult data ≠ 0 then ((-1 : Int), t) else (pcibiosSuccessful, t)).2.bytesOf dev =
        some after := by
  have hdata : cfgDword after (off &&& ~~~3) = data := by
    rw [← hput]
    exact cfgDword_putDword bytes _ data
  unfold LooksPresent
  rw [hdata]
  by_cases hones : data = 0xffffffff
  · rw [if_pos ((accessResult_ne_zero_iff data).mpr hones)]
    exact ⟨iff_of_false minusOne_ne_successful (not_not.mpr hones), ht⟩
  · rw [if_neg (fun hne => hones ((accessResult_ne_zero_iff data).mp hne))]
    exact ⟨iff_of_true rfl hones, ht⟩

/-- Unless a narrow write finds all ones, the bytes are written. -/
theorem pciWrite_existing (hwSwap : Bool) (val : Word) (h : s.bytesOf dev = some bytes)
    (hal : w.Aligned reg)
    (hlooks : w ≠ .dword → LooksPresent bytes (reg.setWidth 8)) :
    ((pciWrite hwSwap w s dev reg val).1 = pcibiosSuccessful ↔
        LooksPresent (writtenBytes w bytes (reg.setWidth 8) val) (reg.setWidth 8)) ∧
      (pciWrite hwSwap w s dev reg val).2.bytesOf dev =
        some (writtenBytes w bytes (reg.setWidth 8) val) := by
  obtain ⟨hrefused, -⟩ := bytesOf_some h
  by_cases hw : w = .dword
  · subst hw
    have hput := putDword_whole bytes val hal
    rw [pciWrite_dword hal (access_write h val)]
    refine written_result hput ?_
    rw [bytesOf_cleared, bytesOf_withBytes hrefused, hput]
  · have hput := putDword_merged bytes val hal
    have hcleared : (s.cleared hwSwap).bytesOf dev = some bytes := h
    rw [pciWrite_narrow hw hal (access_read h 0) (access_write hcleared _)]
    dsimp only
    rw [if_neg (fun hne => hlooks hw ((accessResult_ne_zero_iff _).mp hne))]
    refine written_result hput ?_
    rw [bytesOf_cleared, bytesOf_withBytes hrefused]
    exact congrArg some hput

/-- A narrow write that finds all ones gives up. -/
theorem pciWrite_ones (h : s.bytesOf dev = some bytes) (hal : w.Aligned reg) (hw : w ≠ .dword)
    (hones : ¬LooksPresent bytes (reg.setWidth 8)) :
    (pciWrite hwSwap w s dev reg val).1 = -1 := by
  rw [pciWrite_narrow hw hal (access_read h 0) rfl]
  dsimp only
  rw [if_pos ((accessResult_ne_zero_iff _).mpr (not_not.mp hones))]

theorem alignedOff_twice (off : Byte) : off &&& ~~~3 &&& ~~~3 = off &&& ~~~3 := by
  rw [BitVec.and_assoc, BitVec.and_self]

/-- A register number whose word is at a given offset. -/
theorem exists_dword_reg (off : Byte) : ∃ reg : Word, PciWidth.dword.Aligned reg ∧
    reg.setWidth 8 = off &&& ~~~3 := by
  refine ⟨(off &&& ~~~3).setWidth 32, ?_, ?_⟩
  · have hval : ((off &&& ~~~3).setWidth 32 : Word).toNat = off.toNat / 4 * 4 := by
      rw [BitVec.toNat_setWidth, toNat_alignedOff]
      have hoff := off.isLt
      omega
    unfold PciWidth.Aligned
    rw [hval]
    exact Nat.dvd_mul_left 4 _
  · apply BitVec.eq_of_toNat_eq
    rw [BitVec.toNat_setWidth, BitVec.toNat_setWidth]
    have hlt := (off &&& ~~~3).isLt
    omega

theorem existingRight_iff (h : s.bytesOf dev = some bytes) :
    ExistingRight hwSwap s dev bytes w reg val ↔ (w.Aligned reg →
      (w ≠ .dword → LooksPresent bytes (reg.setWidth 8)) ∧
        ∀ off, LooksPresent (writtenBytes w bytes (reg.setWidth 8) val) off) := by
  constructor
  · intro hright hal
    obtain ⟨hok, hreads⟩ := hright.1 hal
    have hlooks : w ≠ .dword → LooksPresent bytes (reg.setWidth 8) := by
      intro hw
      by_contra hones
      rw [pciWrite_ones h hal hw hones] at hok
      exact minusOne_ne_successful hok
    refine ⟨hlooks, ?_⟩
    intro off
    by_contra hones
    obtain ⟨reg', hal', hreg'⟩ := exists_dword_reg off
    have hafter := (pciWrite_existing hwSwap val h hal hlooks).2
    have hread := (hreads .dword reg' hal').1
    have hones' : ¬LooksPresent (writtenBytes w bytes (reg.setWidth 8) val) (reg'.setWidth 8) := by
      unfold LooksPresent
      rw [hreg', alignedOff_twice]
      exact hones
    rw [pciRead_ones hafter hal' hones'] at hread
    exact minusOne_ne_successful hread
  · intro hfits
    refine ⟨?_, ?_, ?_⟩
    · intro hal
      obtain ⟨hlooks, hall⟩ := hfits hal
      obtain ⟨hresult, hafter⟩ := pciWrite_existing hwSwap val h hal hlooks
      refine ⟨hresult.mpr (hall _), ?_⟩
      intro v reg' hal'
      rw [pciRead_present hafter hal' (hall _)]
      exact ⟨rfl, rfl⟩
    · exact pciWrite_misaligned
    · intro v reg' hal'
      exact pciRead_misaligned hal'

end Existing

section Absent

variable {hwSwap : Bool} {s : PciBus} {dev : PciDev} {w : PciWidth} {reg val : Word}

theorem absent_cases (h : s.bytesOf dev = none) :
    dev.Refused ∨ ¬dev.Refused ∧ s.space dev.devfn = none := by
  unfold PciBus.bytesOf at h
  split_ifs at h with hrefused
  · exact .inl hrefused
  · exact .inr ⟨hrefused, h⟩

theorem absent_access_read (hwSwap : Bool) (h : s.bytesOf dev = none) (off : Byte) :
    ∃ data t, t.space = s.space ∧ danubePciConfigAccess hwSwap s .read dev off 0 = (1, data, t) := by
  rcases absent_cases h with hrefused | ⟨hrefused, hnone⟩
  · exact ⟨0, s, rfl, access_refused hrefused .read 0⟩
  · exact ⟨0xffffffff, s.cleared hwSwap, rfl, access_read_absent hrefused hnone 0⟩

theorem absent_read (h : s.bytesOf dev = none) (w : PciWidth) (reg : Word) :
    (pciRead hwSwap w s dev reg).1 ≠ pcibiosSuccessful ∧
      (pciRead hwSwap w s dev reg).2.2.space = s.space := by
  by_cases hal : w.Aligned reg
  · obtain ⟨data, t, hspace, hread⟩ := absent_access_read hwSwap h (reg.setWidth 8)
    rw [pciRead_aligned hal hread]
    dsimp only
    rw [if_pos Int.one_ne_zero]
    exact ⟨minusOne_ne_successful, hspace⟩
  · rw [pciRead_misaligned hal]
    exact ⟨bad_ne_successful, rfl⟩

theorem absent_narrow (h : s.bytesOf dev = none) (hw : w ≠ .dword) (hal : w.Aligned reg) :
    (pciWrite hwSwap w s dev reg val).1 ≠ pcibiosSuccessful ∧
      (pciWrite hwSwap w s dev reg val).2.space = s.space := by
  obtain ⟨data, t, hspace, hread⟩ := absent_access_read hwSwap h (reg.setWidth 8)
  rw [pciWrite_narrow hw hal hread rfl]
  dsimp only
  rw [if_pos Int.one_ne_zero]
  exact ⟨minusOne_ne_successful, hspace⟩

/-- A word that is written to no device is reported as written. -/
theorem absent_dword (hwSwap : Bool) (val : Word) (h : s.bytesOf dev = none)
    (hal : PciWidth.dword.Aligned reg) :
    ((pciWrite hwSwap .dword s dev reg val).1 ≠ pcibiosSuccessful ↔
        dev.Refused ∨ val = 0xffffffff) ∧
      (pciWrite hwSwap .dword s dev reg val).2.space = s.space := by
  rcases absent_cases h with hrefused | ⟨hrefused, hnone⟩
  · rw [pciWrite_dword hal (access_refused hrefused .write val)]
    dsimp only
    rw [if_pos Int.one_ne_zero]
    exact ⟨iff_of_true minusOne_ne_successful (.inl hrefused), rfl⟩
  · rw [pciWrite_dword hal (access_write_absent hrefused hnone val)]
    dsimp only
    by_cases hones : val = 0xffffffff
    · rw [if_pos ((accessResult_ne_zero_iff val).mpr hones)]
      exact ⟨iff_of_true minusOne_ne_successful (.inr hones), rfl⟩
    · rw [if_neg (fun hne => hones ((accessResult_ne_zero_iff val).mp hne))]
      refine ⟨iff_of_false (fun hne => hne rfl) ?_, rfl⟩
      intro hor
      exact hor.elim hrefused hones

theorem absentRight_iff (h : s.bytesOf dev = none) : AbsentRight hwSwap s dev w reg val ↔
    (w = .dword → w.Aligned reg → dev.Refused ∨ val = 0xffffffff) := by
  constructor
  · intro hright hw hal
    subst hw
    exact (absent_dword hwSwap val h hal).1.mp hright.1
  · intro hfits
    have hwrite : (pciWrite hwSwap w s dev reg val).1 ≠ pcibiosSuccessful ∧
        (pciWrite hwSwap w s dev reg val).2.space = s.space := by
      by_cases hal : w.Aligned reg
      · by_cases hw : w = .dword
        · subst hw
          obtain ⟨hresult, hspace⟩ := absent_dword hwSwap val h hal
          exact ⟨hresult.mpr (hfits rfl hal), hspace⟩
        · exact absent_narrow h hw hal
      · rw [pciWrite_misaligned hal]
        exact ⟨bad_ne_successful, rfl⟩
    exact ⟨hwrite.1, hwrite.2, absent_read h⟩

end Absent

/-- Configuration accesses are those of plain bytes exactly as long as no word looks like an absent
device, and no absent device is written a word. -/
theorem pciConfig_right_iff (hwSwap : Bool) (s : PciBus) (dev : PciDev) (w : PciWidth)
    (reg val : Word) :
    PciConfigRight hwSwap s dev w reg val ↔ PciConfigFits s dev w reg val := by
  unfold PciConfigRight PciConfigFits
  cases h : s.bytesOf dev with
  | some bytes => exact existingRight_iff h
  | none => exact absentRight_iff h

/-- The slot 1 holds a device with the given configuration bytes. -/
def oneDevice (bytes : Byte → Byte) : PciBus :=
  ⟨fun devfn => if devfn = 8 then some bytes else none, 0, []⟩

/-- All ones, as they are written to find the size of a base address register. -/
theorem pciConfig_all_ones :
    ¬ PciConfigRight false (oneDevice fun _ => 0) ⟨0, 8⟩ .dword 0x10 0xffffffff := by
  intro h
  have hright : ExistingRight false (oneDevice fun _ => 0) ⟨0, 8⟩ (fun _ => 0) .dword 0x10
    0xffffffff := h
  have hok := (hright.1 ⟨4, rfl⟩).1
  revert hok
  decide +kernel

end DanubeBsp
