import DanubeBsp.PciConfigBytes

namespace DanubeBsp

section Address

theorem pciCfgBase_bit : ∀ i, i < 24 → pciCfgBase.getLsbD i = false := by decide

theorem notThree_bit : ∀ i, i < 32 → (~~~3#32).getLsbD i = decide (2 ≤ i) := by decide

theorem pciAddr_bit (dev : PciDev) (reg : Byte) {i : Nat} (hi : i < 16) :
    (pciAddr dev reg).getLsbD i =
      if i < 8 then reg.getLsbD i && decide (2 ≤ i) else dev.devfn.getLsbD (i - 8) := by
  unfold pciAddr
  rw [BitVec.getLsbD_or, BitVec.getLsbD_or, BitVec.getLsbD_or, BitVec.getLsbD_and,
    pciCfgBase_bit i (by omega), notThree_bit i (by omega), BitVec.getLsbD_shiftLeft,
    BitVec.getLsbD_shiftLeft, BitVec.getLsbD_setWidth, BitVec.getLsbD_setWidth,
    BitVec.getLsbD_setWidth, decide_eq_true (show i < 16 by omega),
    decide_eq_true (show i < 32 by omega)]
  by_cases hlow : i < 8
  · rw [if_pos hlow, decide_eq_true hlow]
    simp only [Bool.not_true, Bool.and_false, Bool.false_and, Bool.or_false, Bool.false_or,
      Bool.true_and]
  · have hout : reg.getLsbD i = false := BitVec.getLsbD_of_ge _ _ (by omega)
    rw [if_neg hlow, decide_eq_false hlow, hout, decide_eq_true (show i - 8 < 32 by omega)]
    simp only [Bool.not_true, Bool.and_false, Bool.false_and, Bool.or_false, Bool.false_or,
      Bool.not_false, Bool.true_and]

theorem pciAddr_devfn (dev : PciDev) (reg : Byte) :
    (pciAddr dev reg).extractLsb' 8 8 = dev.devfn := by
  apply BitVec.eq_of_getLsbD_eq
  intro i hi
  rw [BitVec.getLsbD_extractLsb', decide_eq_true hi, Bool.true_and, pciAddr_bit dev reg (by omega),
    if_neg (by omega), Nat.add_sub_cancel_left]

theorem pciAddr_off (dev : PciDev) (reg : Byte) :
    (pciAddr dev reg).extractLsb' 0 8 = reg &&& ~~~3 := by
  have hmask : ∀ i, i < 8 → (~~~3 : Byte).getLsbD i = decide (2 ≤ i) := by decide
  apply BitVec.eq_of_getLsbD_eq
  intro i hi
  rw [BitVec.getLsbD_extractLsb', decide_eq_true hi, Bool.true_and, Nat.zero_add,
    pciAddr_bit dev reg (by omega), if_pos hi, BitVec.getLsbD_and, hmask i hi]

theorem swab32_swab32 (w : Word) : swab32 (swab32 w) = w := by
  have h : swab32 w = beWord (beByte w 3) (beByte w 2) (beByte w 1) (beByte w 0) := rfl
  rw [h, swab32_beWord]
  exact beWord_beByte w

theorem bridgeSwap_twice (hwSwap : Bool) (w : Word) :
    bridgeSwap hwSwap (bridgeSwap hwSwap w) = w := by
  cases hwSwap with
  | false => rfl
  | true => exact swab32_swab32 w

end Address

/-- The bus after the register of Danube itself has been cleared. -/
def PciBus.cleared (hwSwap : Bool) (s : PciBus) : PciBus :=
  { s with hostWrites := s.hostWrites ++ [bridgeSwap hwSwap s.hostSts] }

def PciBus.withBytes (s : PciBus) (dev : PciDev) (bytes : Byte → Byte) : PciBus :=
  { s with space := Function.update s.space dev.devfn (some bytes) }

section Access

variable {hwSwap : Bool} {s : PciBus} {dev : PciDev} {bytes : Byte → Byte} {reg : Byte}

theorem bytesOf_some (h : s.bytesOf dev = some bytes) :
    ¬dev.Refused ∧ s.space dev.devfn = some bytes := by
  unfold PciBus.bytesOf at h
  split_ifs at h with hrefused
  exact ⟨hrefused, h⟩

theorem bytesOf_cleared (hwSwap : Bool) (s : PciBus) (dev : PciDev) :
    (s.cleared hwSwap).bytesOf dev = s.bytesOf dev := rfl

theorem bytesOf_withBytes (h : ¬dev.Refused) (s : PciBus) (bytes : Byte → Byte) :
    (s.withBytes dev bytes).bytesOf dev = some bytes := by
  unfold PciBus.bytesOf
  rw [if_neg h]
  exact Function.update_self dev.devfn (some bytes) s.space

theorem access_refused (h : dev.Refused) (t : PciAccess) (data : Word) :
    danubePciConfigAccess hwSwap s t dev reg data = (1, data, s) := by
  unfold danubePciConfigAccess
  rw [if_pos h]

/-- What an access returns for a word. -/
def accessResult (data : Word) : Int := if data = 0xffffffff then 1 else 0

theorem access_read (h : s.bytesOf dev = some bytes) (data : Word) :
    danubePciConfigAccess hwSwap s .read dev reg data =
      (accessResult (cfgDword bytes (reg &&& ~~~3)), cfgDword bytes (reg &&& ~~~3),
        s.cleared hwSwap) := by
  obtain ⟨hrefused, hspace⟩ := bytesOf_some h
  have hload : bridgeSwap hwSwap (s.load hwSwap (pciAddr dev reg)) =
      cfgDword bytes (reg &&& ~~~3) := by
    unfold PciBus.load
    rw [pciAddr_devfn, pciAddr_off, hspace]
    exact bridgeSwap_twice hwSwap _
  unfold danubePciConfigAccess accessResult
  rw [if_neg hrefused]
  dsimp only
  rw [hload]
  split_ifs
  · rfl
  · rfl

theorem access_write (h : s.bytesOf dev = some bytes) (data : Word) :
    danubePciConfigAccess hwSwap s .write dev reg data =
      (accessResult data, data,
        (s.withBytes dev (putDword bytes (reg &&& ~~~3) data)).cleared hwSwap) := by
  obtain ⟨hrefused, hspace⟩ := bytesOf_some h
  have hstore : s.store hwSwap (pciAddr dev reg) (bridgeSwap hwSwap data) =
      s.withBytes dev (putDword bytes (reg &&& ~~~3) data) := by
    unfold PciBus.store
    dsimp only
    rw [pciAddr_devfn, pciAddr_off, hspace, bridgeSwap_twice]
    rfl
  unfold danubePciConfigAccess accessResult
  rw [if_neg hrefused]
  dsimp only
  rw [hstore]
  split_ifs
  · rfl
  · rfl

theorem access_read_absent (hrefused : ¬dev.Refused) (h : s.space dev.devfn = none) (data : Word) :
    danubePciConfigAccess hwSwap s .read dev reg data = (1, 0xffffffff, s.cleared hwSwap) := by
  have hones : bridgeSwap hwSwap 0xffffffff = 0xffffffff := by
    cases hwSwap with
    | false => rfl
    | true => decide
  have hload : bridgeSwap hwSwap (s.load hwSwap (pciAddr dev reg)) = 0xffffffff := by
    unfold PciBus.load
    rw [pciAddr_devfn, h]
    exact hones
  unfold danubePciConfigAccess
  rw [if_neg hrefused]
  dsimp only
  rw [hload, if_pos rfl]
  rfl

theorem access_write_absent (hrefused : ¬dev.Refused) (h : s.space dev.devfn = none) (data : Word) :
    danubePciConfigAccess hwSwap s .write dev reg data =
      (accessResult data, data, s.cleared hwSwap) := by
  have hstore : s.store hwSwap (pciAddr dev reg) (bridgeSwap hwSwap data) = s := by
    unfold PciBus.store
    dsimp only
    rw [pciAddr_devfn, h]
  unfold danubePciConfigAccess accessResult
  rw [if_neg hrefused]
  dsimp only
  rw [hstore]
  split_ifs
  · rfl
  · rfl

end Access

/-- The bits that an access of a width keeps. -/
def PciWidth.mask : PciWidth → Word
  | .byte => 0xff
  | .word => 0xffff
  | .dword => 0xffffffff

def PciWidth.cut (w : PciWidth) (val : Word) : Word :=
  match w with
  | .byte => (val.setWidth 8).setWidth 32
  | .word => (val.setWidth 16).setWidth 32
  | .dword => val

/-- What is in the caller's variable after a read that failed. -/
def PciWidth.failed : PciWidth → Option Word
  | .word => some 0xffff
  | _ => none

section Calls

variable {hwSwap : Bool} {s : PciBus} {dev : PciDev} {w : PciWidth} {reg val : Word}

theorem toNat_and_three (reg : Word) : (reg &&& 3).toNat = reg.toNat % 4 := by
  rw [BitVec.toNat_and]
  exact Nat.and_two_pow_sub_one_eq_mod reg.toNat 2

theorem toNat_and_one (reg : Word) : (reg &&& 1).toNat = reg.toNat % 2 := by
  rw [BitVec.toNat_and]
  exact Nat.and_two_pow_sub_one_eq_mod reg.toNat 1

theorem toNat_off (reg : Word) : (reg.setWidth 8).toNat % 4 = reg.toNat % 4 := by
  rw [BitVec.toNat_setWidth]
  omega

theorem regShift_eq (reg : Word) : regShift reg = 8 * ((reg.setWidth 8).toNat % 4) := by
  unfold regShift
  rw [BitVec.toNat_shiftLeft, toNat_and_three, Nat.shiftLeft_eq, toNat_off]
  omega

theorem word_aligned_iff : PciWidth.word.Aligned reg ↔ reg &&& 1 = 0 := by
  unfold PciWidth.Aligned PciWidth.size
  rw [Nat.dvd_iff_mod_eq_zero, ← toNat_and_one]
  exact ⟨fun h => BitVec.eq_of_toNat_eq h, fun h => congrArg BitVec.toNat h⟩

theorem dword_aligned_iff : PciWidth.dword.Aligned reg ↔ reg &&& 3 = 0 := by
  unfold PciWidth.Aligned PciWidth.size
  rw [Nat.dvd_iff_mod_eq_zero, ← toNat_and_three]
  exact ⟨fun h => BitVec.eq_of_toNat_eq h, fun h => congrArg BitVec.toNat h⟩

/-- An aligned access stays inside its word. -/
theorem aligned_fits (h : w.Aligned reg) : (reg.setWidth 8).toNat % 4 + w.size ≤ 4 := by
  rw [toNat_off]
  cases w with
  | byte =>
    show reg.toNat % 4 + 1 ≤ 4
    omega
  | word =>
    have hdvd : 2 ∣ reg.toNat := h
    show reg.toNat % 4 + 2 ≤ 4
    omega
  | dword =>
    have hdvd : 4 ∣ reg.toNat := h
    show reg.toNat % 4 + 4 ≤ 4
    omega

theorem pciWrite_misaligned (h : ¬w.Aligned reg) :
    pciWrite hwSwap w s dev reg val = (pcibiosBadRegisterNumber, s) := by
  cases w with
  | byte => exact absurd (Nat.one_dvd _) h
  | word =>
    rw [word_aligned_iff] at h
    show danubePciWriteConfigWord hwSwap s dev reg _ = _
    unfold danubePciWriteConfigWord
    rw [if_pos h]
  | dword =>
    rw [dword_aligned_iff] at h
    show danubePciWriteConfigDword hwSwap s dev reg _ = _
    unfold danubePciWriteConfigDword
    rw [if_pos h]

theorem pciRead_misaligned (h : ¬w.Aligned reg) :
    pciRead hwSwap w s dev reg = (pcibiosBadRegisterNumber, none, s) := by
  cases w with
  | byte => exact absurd (Nat.one_dvd _) h
  | word =>
    rw [word_aligned_iff] at h
    unfold pciRead danubePciReadConfigWord
    dsimp only
    rw [if_pos h]
    rfl
  | dword =>
    rw [dword_aligned_iff] at h
    unfold pciRead danubePciReadConfigDword
    dsimp only
    rw [if_pos h]

/-- An aligned narrow write: the word is read, changed, and written. -/
theorem pciWrite_narrow (hw : w ≠ .dword) (h : w.Aligned reg) {r : Int × Word × PciBus}
    (hread : danubePciConfigAccess hwSwap s .read dev (reg.setWidth 8) 0 = r)
    {r' : Int × Word × PciBus}
    (hwrite : danubePciConfigAccess hwSwap r.2.2 .write dev (reg.setWidth 8)
      ((r.2.1 &&& ~~~(w.mask <<< regShift reg)) ||| (w.cut val <<< regShift reg)) = r') :
    pciWrite hwSwap w s dev reg val =
      if r.1 ≠ 0 then (-1, r.2.2)
      else if r'.1 ≠ 0 then (-1, r'.2.2) else (pcibiosSuccessful, r'.2.2) := by
  cases w with
  | byte =>
    show danubePciWriteConfigByte hwSwap s dev reg _ = _
    unfold danubePciWriteConfigByte
    rw [hread]
    dsimp only
    rw [← hwrite]
    rfl
  | word =>
    show danubePciWriteConfigWord hwSwap s dev reg _ = _
    unfold danubePciWriteConfigWord
    rw [if_neg (fun hne => hne (word_aligned_iff.mp h)), hread]
    dsimp only
    rw [← hwrite]
    rfl
  | dword => exact absurd rfl hw

theorem pciWrite_dword (h : PciWidth.dword.Aligned reg) {r : Int × Word × PciBus}
    (hwrite : danubePciConfigAccess hwSwap s .write dev (reg.setWidth 8) val = r) :
    pciWrite hwSwap .dword s dev reg val =
      if r.1 ≠ 0 then (-1, r.2.2) else (pcibiosSuccessful, r.2.2) := by
  show danubePciWriteConfigDword hwSwap s dev reg _ = _
  unfold danubePciWriteConfigDword
  rw [if_neg (fun hne => hne (dword_aligned_iff.mp h)), hwrite]

theorem mask_bit (w : PciWidth) (t : Nat) : w.mask.getLsbD t = decide (t < 8 * w.size) := by
  by_cases ht : t < 32
  · have hbits : ∀ i, i < 32 → (0xff#32).getLsbD i = decide (i < 8) ∧
        (0xffff#32).getLsbD i = decide (i < 16) ∧ (0xffffffff#32).getLsbD i = decide (i < 32) := by
      decide
    obtain ⟨hbyte, hword, hdword⟩ := hbits t ht
    cases w with
    | byte => exact hbyte
    | word => exact hword
    | dword => exact hdword
  · rw [BitVec.getLsbD_of_ge _ _ (by omega)]
    cases w with
    | byte => exact (decide_eq_false (show ¬t < 8 by omega)).symm
    | word => exact (decide_eq_false (show ¬t < 16 by omega)).symm
    | dword => exact (decide_eq_false ht).symm

theorem cut_bit (w : PciWidth) (val : Word) (t : Nat) :
    (w.cut val).getLsbD t = (decide (t < 8 * w.size) && val.getLsbD t) := by
  have hnarrow {n : Nat} (hn : n ≤ 32) : ((val.setWidth n).setWidth 32 : Word).getLsbD t =
      (decide (t < n) && val.getLsbD t) := by
    rw [BitVec.getLsbD_setWidth, BitVec.getLsbD_setWidth]
    by_cases ht : t < n
    · rw [decide_eq_true (show t < 32 by omega), Bool.true_and]
    · rw [decide_eq_false ht, Bool.false_and, Bool.and_false]
  cases w with
  | byte => exact hnarrow (by decide)
  | word => exact hnarrow (by decide)
  | dword =>
    show val.getLsbD t = (decide (t < 32) && val.getLsbD t)
    by_cases ht : t < 32
    · rw [decide_eq_true ht, Bool.true_and]
    · rw [decide_eq_false ht, Bool.false_and, BitVec.getLsbD_of_ge _ _ (by omega)]

theorem setWidth_mask (w : PciWidth) (x : Word) :
    ((x &&& w.mask).setWidth (8 * w.size)).setWidth 32 = x &&& w.mask := by
  apply setWidth_setWidth_masked
  intro t ht
  rw [BitVec.getLsbD_and, mask_bit, decide_eq_false (by omega), Bool.and_false]

/-- An aligned read takes its bytes out of the word. -/
theorem pciRead_aligned (h : w.Aligned reg) {r : Int × Word × PciBus}
    (hread : danubePciConfigAccess hwSwap s .read dev (reg.setWidth 8) 0 = r) :
    pciRead hwSwap w s dev reg =
      if r.1 ≠ 0 then (-1, w.failed, r.2.2)
      else (pcibiosSuccessful, some ((r.2.1 >>> regShift reg) &&& w.mask), r.2.2) := by
  cases w with
  | byte =>
    unfold pciRead danubePciReadConfigByte
    dsimp only
    rw [hread]
    by_cases hfail : r.1 ≠ 0
    · rw [if_pos hfail, if_pos hfail]
      rfl
    · rw [if_neg hfail, if_neg hfail]
      exact congrArg (fun v => (pcibiosSuccessful, some v, r.2.2)) (setWidth_mask .byte _)
  | word =>
    unfold pciRead danubePciReadConfigWord
    dsimp only
    rw [if_neg (fun hne => hne (word_aligned_iff.mp h)), hread]
    by_cases hfail : r.1 ≠ 0
    · rw [if_pos hfail, if_pos hfail]
      rfl
    · rw [if_neg hfail, if_neg hfail]
      exact congrArg (fun v => (pcibiosSuccessful, some v, r.2.2)) (setWidth_mask .word _)
  | dword =>
    have hshift : regShift reg = 0 := by
      rw [regShift_eq, toNat_off]
      have hdvd : 4 ∣ reg.toNat := h
      omega
    have hall : (r.2.1 >>> 0) &&& PciWidth.dword.mask = r.2.1 := by
      rw [BitVec.ushiftRight_zero]
      exact BitVec.and_allOnes
    unfold pciRead danubePciReadConfigDword
    dsimp only
    rw [if_neg (fun hne => hne (dword_aligned_iff.mp h)), hread, hshift, hall]
    rfl

end Calls

end DanubeBsp
