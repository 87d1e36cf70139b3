import DanubeBsp.Errno
import DanubeBsp.PackedWord
import DanubeBsp.WordMemory

namespace DanubeBsp

/-- `struct ifx_ssc_frm_opts`. A `bool` of the driver is an unsigned byte. -/
structure SscFrmOpts where
  frameEnable : BitVec 8
  dataLength : Word
  pauseLength : Word
  idleData : Word
  idleClock : Word
  stopAfterPause : BitVec 8
  deriving DecidableEq

/-- `IFX_SSC_SFCON_readmask` and `IFX_SSC_SFCON_writemask`: bits 1 and 21 do not exist. -/
def sfconMask : Word := 0xffdffffd#32

/-- The register `SFCON` with `frm_opts` of the port. -/
structure SscFrame where
  sfcon : Word
  frmOpts : SscFrmOpts
  exist : sfcon &&& sfconMask = sfcon

def sfconFirEnable : Word := 0x00000004#32 ||| 0x00000008#32

/-- `WRITE_PERIPHERAL_REGISTER` of `SFCON`. -/
def SscFrame.writeSfcon (s : SscFrame) (tmp : Word) : SscFrame where
  sfcon := tmp &&& sfconMask
  frmOpts := s.frmOpts
  exist := by rw [BitVec.and_assoc, BitVec.and_self]

def byteOfBool (b : Bool) : BitVec 8 := if b then 1 else 0

/-- The options that `ifx_ssc_frm_control_get` reads off the register. -/
def frmOptsOf (tmp : Word) : SscFrmOpts where
  frameEnable := byteOfBool (0 < tmp &&& 0x00000001#32)
  dataLength := (tmp &&& 0x0000fff0#32) >>> 4
  pauseLength := (tmp &&& 0xffc00000#32) >>> 22
  idleData := (tmp &&& 0x00030000#32) >>> 16
  idleClock := (tmp &&& 0x000c0000#32) >>> 18
  stopAfterPause := byteOfBool (0 < tmp &&& 0x00100000#32)

/-- `ifx_ssc_frm_control_get`. -/
def SscFrame.controlGet (s : SscFrame) : SscFrame := { s with frmOpts := frmOptsOf s.sfcon }

/-- The check of `ifx_ssc_frm_control_set`. -/
def SscFrmOpts.Rejected (o : SscFrmOpts) : Prop :=
  4096#32 < o.dataLength ∨ o.dataLength < 1#32 ∨ 1024#32 < o.pauseLength ∨ o.pauseLength < 1#32 ∨
    o.idleData &&& ~~~(0x00030000#32 >>> 16) ≠ 0 ∨ o.idleClock &&& ~~~(0x000c0000#32 >>> 18) ≠ 0

instance (o : SscFrmOpts) : Decidable o.Rejected := inferInstanceAs (Decidable (_ ∨ _))

/-- What the assignments to `tmp` make of the options. -/
def SscFrmOpts.sfconBits (o : SscFrmOpts) : Word :=
  ((o.dataLength - 1) <<< 4) ||| ((o.pauseLength - 1) <<< 22) ||| (o.idleData <<< 16) |||
    (o.idleClock <<< 18) ||| (o.frameEnable.setWidth 32 * 0x00000001#32) |||
    (o.stopAfterPause.setWidth 32 * 0x00100000#32)

/-- `ifx_ssc_frm_control_set`. The interrupt bits are read into `tmp` first, but the next assignment
is `=`, not `|=`. -/
def SscFrame.controlSet (s : SscFrame) : SscFrame × Int :=
  if s.frmOpts.Rejected then (s, eInval) else (s.writeSfcon s.frmOpts.sfconBits, 0)

/-- Both flags are 0 or 1. -/
def SscFrmOpts.FlagsOk (o : SscFrmOpts) : Prop := o.frameEnable ≤ 1 ∧ o.stopAfterPause ≤ 1

/-- A set of the given options. -/
def SscFrame.setOpts (s : SscFrame) (o : SscFrmOpts) : SscFrame × Int :=
  SscFrame.controlSet { s with frmOpts := o }

/-- Options that are accepted are read back as they were set, with the interrupt bits as before; the
options just read change nothing; and options that are rejected do not either. -/
def FrmRoundTrips (s : SscFrame) (o : SscFrmOpts) : Prop :=
  (¬o.Rejected → o.FlagsOk →
    (s.setOpts o).1.controlGet.frmOpts = o ∧
      (s.setOpts o).1.sfcon &&& sfconFirEnable = s.sfcon &&& sfconFirEnable) ∧
    s.controlGet.controlSet.1.sfcon = s.sfcon ∧
    (o.Rejected → (s.setOpts o).2 = eInval ∧ (s.setOpts o).1.sfcon = s.sfcon)

/-- The fields of `SFCON` that the options fill. -/
def SscFrmOpts.fields (o : SscFrmOpts) : List (PackedField 32) :=
  [⟨4, 12, o.dataLength - 1⟩, ⟨22, 10, o.pauseLength - 1⟩, ⟨16, 2, o.idleData⟩,
    ⟨18, 2, o.idleClock⟩, ⟨0, 1, o.frameEnable.setWidth 32⟩, ⟨20, 1, o.stopAfterPause.setWidth 32⟩]

theorem sfconBits_eq (o : SscFrmOpts) : o.sfconBits = packFields o.fields := by
  have hbit (v : Word) : v * 0x00100000#32 = v <<< 20 := by
    rw [BitVec.shiftLeft_eq_mul_twoPow]
    rfl
  simp only [SscFrmOpts.sfconBits, SscFrmOpts.fields, packFields, hbit, BitVec.mul_one,
    BitVec.shiftLeft_zero, BitVec.ofNat_eq_ofNat, BitVec.or_zero, BitVec.or_assoc]

theorem fields_apart (o : SscFrmOpts) : o.fields.Pairwise PackedField.Apart := by
  simp [SscFrmOpts.fields, PackedField.Apart]

theorem fits_of_lt {w : Nat} {v : BitVec w} {lo width : Nat} (h : v.toNat < 2 ^ width) :
    PackedField.Fits ⟨lo, width, v⟩ := by
  intro j hj
  rw [← BitVec.testBit_toNat]
  exact Nat.testBit_lt_two_pow (h.trans_le (Nat.pow_le_pow_right Nat.two_pos hj))

theorem fits_of_and {w : Nat} {v mask : BitVec w} {lo width : Nat} (h : v &&& ~~~mask = 0)
    (hmask : mask.toNat < 2 ^ width) : PackedField.Fits ⟨lo, width, v⟩ := by
  intro j hj
  have hfits : PackedField.Fits ⟨lo, width, mask⟩ := fits_of_lt hmask
  have hzero : mask.getLsbD j = false := hfits j hj
  have hbit := congrArg (fun x : BitVec w => x.getLsbD j) h
  simp only [BitVec.getLsbD_and, BitVec.getLsbD_not, hzero] at hbit
  by_cases hw : j < w
  · simpa [hw] using hbit
  · exact BitVec.getLsbD_of_ge _ _ (by omega)

theorem fields_fit {o : SscFrmOpts} (hok : ¬o.Rejected) (hflags : o.FlagsOk) :
    ∀ f ∈ o.fields, f.Fits := by
  simp only [SscFrmOpts.Rejected, not_or, BitVec.not_lt, not_not] at hok
  obtain ⟨hd, hd', hp, hp', hdata, hclock⟩ := hok
  obtain ⟨henable, hstop⟩ := hflags
  simp only [SscFrmOpts.fields, List.mem_cons, List.not_mem_nil, or_false, forall_eq_or_imp,
    forall_eq]
  refine ⟨fits_of_lt ?_, fits_of_lt ?_, fits_of_and hdata ?_, fits_of_and hclock ?_,
    fits_of_lt ?_, fits_of_lt ?_⟩
  · bv_omega
  · bv_omega
  · decide
  · decide
  · bv_omega
  · bv_omega

theorem field_stored {o : SscFrmOpts} (hok : ¬o.Rejected) (hflags : o.FlagsOk) (lo width : Nat)
    {v mask : Word} (hf : (⟨lo, width, v⟩ : PackedField 32) ∈ o.fields) (hroom : lo + width ≤ 32)
    (hmask : MasksBits lo width mask) (hexist : sfconMask &&& mask = mask) :
    ((o.sfconBits &&& sfconMask) &&& mask) >>> lo = v := by
  rw [BitVec.and_assoc, hexist, sfconBits_eq]
  exact field_packFields (fields_fit hok hflags) (fields_apart o) hf hroom hmask

theorem byteOfBool_of_field {x : Word} {b : BitVec 8} {lo : Nat} (hb : b ≤ 1)
    (h : x >>> lo = b.setWidth 32) (hzero : x >>> lo = 0 → x = 0) :
    byteOfBool (decide (0 < x)) = b := by
  have hcases : b = 0 ∨ b = 1 := by bv_omega
  rcases hcases with rfl | rfl
  · rw [hzero h]
    rfl
  · have hpos : 0 < x := by
      by_contra hle
      have hx : x = 0 := by bv_omega
      rw [hx, BitVec.ofNat_eq_ofNat, BitVec.zero_ushiftRight] at h
      exact absurd h (by decide)
    rw [decide_eq_true hpos]
    rfl

/-- What is read back: all options but the lengths, which come back one less. -/
theorem frmOptsOf_stored {o : SscFrmOpts} (hok : ¬o.Rejected) (hflags : o.FlagsOk) :
    frmOptsOf (o.sfconBits &&& sfconMask) =
      { o with dataLength := o.dataLength - 1, pauseLength := o.pauseLength - 1 } := by
  have henable : ((o.sfconBits &&& sfconMask) &&& 0x00000001#32) >>> 0 = o.frameEnable.setWidth 32 :=
    field_stored hok hflags 0 1 (by simp [SscFrmOpts.fields]) (by decide) (by decide)
      (by decide)
  have hstop : ((o.sfconBits &&& sfconMask) &&& 0x00100000#32) >>> 20 =
      o.stopAfterPause.setWidth 32 :=
    field_stored hok hflags 20 1 (by simp [SscFrmOpts.fields]) (by decide) (by decide)
      (by decide)
  have hdata : ((o.sfconBits &&& sfconMask) &&& 0x0000fff0#32) >>> 4 = o.dataLength - 1 :=
    field_stored hok hflags 4 12 (by simp [SscFrmOpts.fields]) (by decide) (by decide)
      (by decide)
  have hpause : ((o.sfconBits &&& sfconMask) &&& 0xffc00000#32) >>> 22 = o.pauseLength - 1 :=
    field_stored hok hflags 22 10 (by simp [SscFrmOpts.fields]) (by decide) (by decide)
      (by decide)
  have hidle : ((o.sfconBits &&& sfconMask) &&& 0x00030000#32) >>> 16 = o.idleData :=
    field_stored hok hflags 16 2 (by simp [SscFrmOpts.fields]) (by decide) (by decide)
      (by decide)
  have hclock : ((o.sfconBits &&& sfconMask) &&& 0x000c0000#32) >>> 18 = o.idleClock :=
    field_stored hok hflags 18 2 (by simp [SscFrmOpts.fields]) (by decide) (by decide)
      (by decide)
  rw [frmOptsOf, SscFrmOpts.mk.injEq]
  refine ⟨?_, hdata, hpause, hidle, hclock, ?_⟩
  · exact byteOfBool_of_field hflags.1 henable
      (and_eq_zero_of_shift (show MasksBits 0 1 0x00000001#32 by decide))
  · exact byteOfBool_of_field hflags.2 hstop
      (and_eq_zero_of_shift (show MasksBits 20 1 0x00100000#32 by decide))

/-- An accepted set clears both interrupt bits. -/
theorem fir_cleared {o : SscFrmOpts} (hok : ¬o.Rejected) (hflags : o.FlagsOk) :
    (o.sfconBits &&& sfconMask) &&& sfconFirEnable = 0 := by
  apply BitVec.eq_of_getLsbD_eq
  intro i hi
  rw [BitVec.getLsbD_and, BitVec.getLsbD_and, sfconBits_eq]
  by_cases hbit : sfconFirEnable.getLsbD i = true
  · have hpos : i = 2 ∨ i = 3 := by
      have hall : ∀ i, i < 32 → sfconFirEnable.getLsbD i = true → i = 2 ∨ i = 3 := by decide
      exact hall i hi hbit
    have hout : (packFields o.fields).getLsbD i = false := by
      refine packFields_outside (fields_fit hok hflags) ?_
      simp only [SscFrmOpts.fields, List.mem_cons, List.not_mem_nil, or_false, forall_eq_or_imp,
        forall_eq]
      omega
    rw [hout, Bool.false_and, Bool.false_and]
    exact BitVec.getLsbD_zero.symm
  · have hfalse : sfconFirEnable.getLsbD i = false := Bool.not_eq_true _ ▸ hbit
    rw [hfalse, Bool.and_false]
    exact BitVec.getLsbD_zero.symm

theorem masked_shift_le (tmp mask : Word) (lo : Nat) : (tmp &&& mask) >>> lo ≤ mask >>> lo := by
  rw [BitVec.ushiftRight_and_distrib, BitVec.le_def, BitVec.toNat_and]
  exact Nat.and_le_right

theorem masked_shift_and_not (tmp mask : Word) (lo : Nat) :
    (tmp &&& mask) >>> lo &&& ~~~(mask >>> lo) = 0 := by
  rw [BitVec.ushiftRight_and_distrib, BitVec.and_assoc, BitVec.and_not_self,
    BitVec.ofNat_eq_ofNat, BitVec.and_zero]

theorem byteOfBool_le (b : Bool) : byteOfBool b ≤ 1 := by
  cases b with
  | true => decide
  | false => decide

theorem frmOptsOf_flagsOk (tmp : Word) : (frmOptsOf tmp).FlagsOk :=
  ⟨byteOfBool_le _, byteOfBool_le _⟩

theorem eq_zero_of_lt_one {v : Word} (h : v < 1#32) : v = 0 := by bv_omega

/-- The options that are read off a register are rejected only for a length of 0. -/
theorem frmOptsOf_rejected (tmp : Word) :
    (frmOptsOf tmp).Rejected ↔ tmp &&& 0x0000fff0#32 = 0 ∨ tmp &&& 0xffc00000#32 = 0 := by
  have hdata : (tmp &&& 0x0000fff0#32) >>> 4 ≤ 0xfff#32 := masked_shift_le _ _ 4
  have hpause : (tmp &&& 0xffc00000#32) >>> 22 ≤ 0x3ff#32 := masked_shift_le _ _ 22
  have hidle := masked_shift_and_not tmp 0x00030000#32 16
  have hclock := masked_shift_and_not tmp 0x000c0000#32 18
  rw [SscFrmOpts.Rejected]
  constructor
  · rintro (h | h | h | h | h | h)
    · exact absurd hdata (BitVec.not_le.mpr (BitVec.lt_trans (by decide) h))
    · exact Or.inl (and_eq_zero_of_shift (show MasksBits 4 12 _ by decide)
        (eq_zero_of_lt_one h))
    · exact absurd hpause (BitVec.not_le.mpr (BitVec.lt_trans (by decide) h))
    · exact Or.inr (and_eq_zero_of_shift (show MasksBits 22 10 _ by decide)
        (eq_zero_of_lt_one h))
    · exact absurd hidle h
    · exact absurd hclock h
  · rintro (h | h)
    · refine Or.inr (Or.inl ?_)
      show (tmp &&& 0x0000fff0#32) >>> 4 < 1#32
      rw [h]
      decide
    · refine Or.inr (Or.inr (Or.inr (Or.inl ?_)))
      show (tmp &&& 0xffc00000#32) >>> 22 < 1#32
      rw [h]
      decide

theorem sub_one_ne (v : Word) : v - 1 ≠ v := by bv_omega

/-- A set of the options just read changes the register unless it rejects them. -/
theorem set_of_get_iff (s : SscFrame) :
    s.controlGet.controlSet.1.sfcon = s.sfcon ↔ (frmOptsOf s.sfcon).Rejected := by
  rw [SscFrame.controlSet]
  by_cases h : s.controlGet.frmOpts.Rejected
  · rw [if_pos h]
    exact iff_of_true rfl h
  · rw [if_neg h]
    refine iff_of_false (fun heq => ?_) h
    have hback := frmOptsOf_stored h (frmOptsOf_flagsOk s.sfcon)
    change (frmOptsOf s.sfcon).sfconBits &&& sfconMask = s.sfcon at heq
    have hlen := congrArg SscFrmOpts.dataLength hback
    change (frmOptsOf ((frmOptsOf s.sfcon).sfconBits &&& sfconMask)).dataLength =
      (frmOptsOf s.sfcon).dataLength - 1 at hlen
    rw [heq] at hlen
    exact sub_one_ne _ hlen.symm

/-- The lengths never come back as they were set, so that nothing round-trips but what is rejected. -/
theorem sscFrame_roundTrips_iff (s : SscFrame) (o : SscFrmOpts) :
    FrmRoundTrips s o ↔ (o.Rejected ∨ ¬o.FlagsOk) ∧
      (s.sfcon &&& 0x0000fff0#32 = 0 ∨ s.sfcon &&& 0xffc00000#32 = 0) := by
  rw [FrmRoundTrips, set_of_get_iff, frmOptsOf_rejected]
  constructor
  · intro ⟨hset, hget, _⟩
    refine ⟨?_, hget⟩
    by_contra hno
    rw [not_or, not_not] at hno
    obtain ⟨hok, hflags⟩ := hno
    have hback := (hset hok hflags).1
    rw [SscFrame.setOpts, SscFrame.controlSet, if_neg hok] at hback
    have hlen := congrArg SscFrmOpts.dataLength ((frmOptsOf_stored hok hflags).symm.trans hback)
    exact sub_one_ne _ hlen
  · intro ⟨hno, hget⟩
    refine ⟨fun hok hflags => ?_, hget, fun hrej => ?_⟩
    · rcases hno with hrej | hbad
      · exact absurd hrej hok
      · exact absurd hflags hbad
    · rw [SscFrame.setOpts, SscFrame.controlSet, if_pos hrej]
      exact ⟨rfl, rfl⟩

/-- Eight bits of data and a pause of one, set while both frame interrupts are on. -/
theorem sscFrame_lengths_come_back_short : ¬∀ (s : SscFrame) (o : SscFrmOpts), FrmRoundTrips s o := by
  intro h
  have hset := (h ⟨0x0000000c#32, ⟨0, 0, 0, 0, 0, 0⟩, by decide⟩ ⟨1, 8, 1, 0, 0, 0⟩).1
    (by decide) ⟨by decide, by decide⟩
  exact absurd hset.1 (by decide)

end DanubeBsp
