import DanubeBsp.LedSingles
namespace DanubeBsp
open MaskedWrite

section Exact

variable {board : LedBoard} {s t : LedSys} {param : LedConfigParam} {op op' : LedOp} {o : LedServices}
  {i : Nat}

/-- The bits of its register that an operation may name. -/
def LedOp.span (op : LedOp) : Word := if op = .blink then 0x00ffffff#32 else op.region op.reg

theorem LedOp.span_apart : ∀ op ∈ all, ∀ op' ∈ all, op ≠ op' → op.reg = op'.reg →
    op.span &&& op'.span = 0 := by
  decide +kernel

theorem low_of_and_low {x : Word} (h : x &&& 0xff000000#32 = 0) (hx : x.getLsbD i = true) :
    (0x00ffffff#32).getLsbD i = true := by
  rw [← and_low h, BitVec.getLsbD_and, Bool.and_eq_true] at hx
  exact hx.2

/-- A value that is written without regard to its mask is written. -/
theorem LedOp.Stray.act (h : op.Stray) (hacc : op.Accepts param)
    (hvalue : (op.value param).getLsbD i = true) :
    (op.write true param op.reg).act i = some true ∧ op.span.getLsbD i = true := by
  obtain rfl | rfl | rfl := h
  · have hset : (write true param updateSource updateSource.reg).set.getLsbD i = true := by
      show ((param.source &&& 0x03#32) <<< 24).getLsbD i = true
      rwa [and_three hacc.2]
    exact ⟨act_set hset, (write_within true param .updateSource .con0).getLsbD (act_set hset)⟩
  · have hset : (write true param blink blink.reg).set.getLsbD i = true := by
      show (param.blink &&& 0x00ffffff#32).getLsbD i = true
      rwa [and_low hacc.2]
    exact ⟨act_set hset, low_of_and_low hacc.2 hvalue⟩
  · have hset : (write true param data data.reg).set.getLsbD i = true := by
      show (param.data &&& 0x00ffffff#32).getLsbD i = true
      rwa [and_low hacc.2]
    exact ⟨act_set hset, (write_within true param .data .cpu0).getLsbD (act_set hset)⟩

theorem LedOp.span_of_mask (hacc : op.Accepts param) (hmask : (op.mask param).getLsbD i = true) :
    op.span.getLsbD i = true := by
  unfold span
  split_ifs with hblink
  · subst hblink
    exact low_of_and_low hacc.1 hmask
  · exact (op.write_within true param op.reg).getLsbD (write_mask hacc hmask)

theorem LedOp.span_swu : ∀ op ∈ all, op.reg = .con0 → op.span.getLsbD 31 = false := by
  decide +kernel

/-- Only its own mask names a bit of the span of an operation. -/
theorem LedConfigParam.Names.of_span (hvalid : param.valid = true) (h : param.Names op.reg i)
    (hspan : op.span.getLsbD i = true) : (op.mask param).getLsbD i = true := by
  obtain ⟨op', hop', hreg, hmask⟩ := h
  by_cases hsame : op' = op
  · rwa [← hsame]
  have hspan' := LedOp.span_of_mask (param.valid_iff.mp hvalid op' (LedConfigParam.mem_ops.mp hop'))
    hmask
  refine (getLsbD_zero_false (x := op'.span &&& op.span) (i := i) ?_
    (LedOp.span_apart op' op'.mem_all op op.mem_all hsame hreg)).elim
  rw [BitVec.getLsbD_and, hspan', hspan]
  rfl

/-- `BLINK` clears what is above its values. -/
theorem LedOp.blink_clears (hi : i ∈ [24, 25, 26, 31]) :
    (LedOp.blink.write true param .con0).act i = some false := by
  have hbits : ∀ j ∈ [24, 25, 26, 31], (0x00ffffff#32).getLsbD j = false ∧
      (0x87000000#32).getLsbD j = true := by decide
  obtain ⟨hlow, hhigh⟩ := hbits i hi
  refine act_clear ?_ ?_
  · show (param.blink &&& 0x00ffffff#32).getLsbD i = false
    rw [BitVec.getLsbD_and, hlow, Bool.and_false]
  · show ((param.blinkMask &&& 0x00ffffff#32) ||| 0x87000000#32).getLsbD i = true
    rw [BitVec.getLsbD_or, hhigh, Bool.or_true]

theorem LedOp.data_sets : (LedOp.data.write true param .con0).act 31 = some true :=
  act_set (show (0x80000000#32).getLsbD 31 = true by decide)

theorem LedOp.falling_sets (h : ¬param.fDataClockOnRising ≠ 0) :
    (LedOp.dataClockEdge.write true param .con0).act 26 = some true := by
  show (edgeWrite param).act 26 = some true
  unfold edgeWrite
  rw [if_neg h]
  exact act_set (by decide)

/-- Without a software update no write but that of `BLINK` is about `SWU`. -/
theorem LedOp.swu_free (hne : op ≠ .blink) : (op.write false param .con0).act 31 = none := by
  cases hact : (op.write false param .con0).act 31 with
  | none => rfl
  | some b =>
    have hregion := (op.write_within false param .con0).getLsbD hact
    have hbits : ∀ op ∈ all, op ≠ .blink → op ≠ .data → (op.region .con0).getLsbD 31 = false := by
      decide +kernel
    by_cases hdata : op = .data
    · subst hdata
      exact hact.symm.trans (act_keep 31)
    · cases (hbits op op.mem_all hne hdata).symm.trans hregion

/-- Where the call is exact the condition holds. -/
theorem LedFieldsExact.free (h : LedFieldsExact board param s t) (hvalid : param.valid = true)
    (hregs : t.led.reg = s.led.newReg param) : LedFieldsFree s.led param := by
  have hacc (op : LedOp) (hop : op ∈ param.ops) : op.Accepts param :=
    param.valid_iff.mp hvalid op (LedConfigParam.mem_ops.mp hop)
  -- `BLINK` leaves 0 where it is not about values
  have hwiped (hblink : LedOp.blink ∈ param.ops) (j : Nat) (hj : j ∈ [24, 25, 26, 31]) :
      (t.led.reg .con0).getLsbD j = false :=
    h.fixed board hvalid hblink (by decide) (LedOp.blink_clears hj)
  have hstray (op : LedOp) (hop : op ∈ param.ops) (hs : op.Stray) (j : Nat)
      (hj : (op.value param).getLsbD j = true) : (t.led.reg op.reg).getLsbD j = true := by
    have hne : op ≠ .updateClock := by
      rintro rfl
      rcases hs with hs | hs | hs <;> cases hs
    exact h.fixed board hvalid hop hne (hs.act (hacc op hop) hj).1
  refine ⟨?_, ?_, ?_, ?_, ?_, ?_⟩
  · intro op hop hs i hi
    by_cases hnames : param.Names op.reg i
    · exact .inl (hnames.of_span hvalid (hs.act (hacc op hop) hi).2)
    · right
      have hspan := (hs.act (hacc op hop) hi).2
      have hswu : ¬(op.reg = .con0 ∧ i = 31) := by
        rintro ⟨hreg, rfl⟩
        cases (LedOp.span_swu op op.mem_all hreg).symm.trans hspan
      rw [← h.frame op.reg i hnames hswu, hstray op hop hs i hi]
  · intro hblink i hi hnames
    have hswu : ¬(LedReg.con0 = .con0 ∧ i = 31) := by
      rintro ⟨-, rfl⟩
      exact absurd hi (by decide)
    rw [← hwiped hblink i (List.mem_append_left [31] hi)]
    exact (h.frame .con0 i hnames hswu).symm
  · intro hblink hsource
    have hzero : param.source <<< 24 = 0 := by
      refine (eq_zero_iff_getLsbD _).mpr fun i => Bool.eq_false_of_not_eq_true fun hi => ?_
      have hspan : (0x03000000#32).getLsbD i = true :=
        (LedOp.Stray.act (.inl rfl) (hacc _ hsource) hi).2
      have hbits : ∀ j < 32, (0x03000000#32).getLsbD j = true → j ∈ [24, 25, 26, 31] := by decide
      have hone := hstray .updateSource hsource (.inl rfl) i hi
      cases (hwiped hblink i (hbits i (BitVec.lt_of_getLsbD hspan) hspan)).symm.trans hone
    have hle : param.source.toNat ≤ 3 := (hacc _ hsource).2
    have hcases : param.source = 0 ∨ param.source = 1 ∨ param.source = 2 ∨ param.source = 3 := by
      bv_omega
    obtain h0 | h1 | h2 | h3 := hcases
    · exact h0
    · rw [h1] at hzero
      exact absurd hzero (by decide)
    · rw [h2] at hzero
      exact absurd hzero (by decide)
    · rw [h3] at hzero
      exact absurd hzero (by decide)
  · intro hblink hedge hrising
    have hone := h.fixed board hvalid hedge (by decide) (LedOp.falling_sets (not_not.mpr hrising))
    cases (hwiped hblink 26 (by decide)).symm.trans hone
  · intro hdata
    have hone := h.fixed board hvalid hdata (by decide) LedOp.data_sets
    have hnoblink : LedOp.blink ∉ param.ops := fun hblink => by
      cases (hwiped hblink 31 (by decide)).symm.trans hone
    refine ⟨hnoblink, fun hclock => ?_⟩
    rw [hregs, LedDev.newReg_eq] at hone
    obtain ⟨hsame, -⟩ | ⟨m, hm, hact⟩ := applyAll_bit
      (param.ops.map fun op => op.write (s.led.softwareUpdate param) param .con0) (s.led.reg .con0) 31
    · exact .inr (hsame.symm.trans hone)
    · obtain ⟨op, hop, rfl⟩ := List.mem_map.mp hm
      cases hupdate : s.led.softwareUpdate param with
      | true =>
        unfold LedDev.softwareUpdate at hupdate
        rw [show param.has configOperationUpdateClock = true from LedConfigParam.mem_ops.mp hclock,
          if_pos rfl] at hupdate
        exact .inl (eq_of_beq hupdate)
      | false =>
        rw [hupdate, LedOp.swu_free (fun heq => hnoblink (heq ▸ hop))] at hact
        cases hact
  · intro hnumber
    have hle := (h.enough hnumber).trans (enabledLeds_le _)
    exact hle

end Exact

/-- A call that succeeds is exact just under the condition. -/
theorem led_config_fields_iff {board : LedBoard} {s : LedSys} {param : LedConfigParam}
    {o : LedServices} (h : (danubeLedConfig board s (some param) o).2 = 0) :
    LedFieldsExact board param s (danubeLedConfig board s (some param) o).1 ↔
      LedFieldsFree s.led param := by
  obtain ⟨hvalid, hregs⟩ := danubeLedConfig_regs board h
  exact ⟨fun hexact => hexact.free hvalid hregs, fun hf => hf.exact hvalid hregs⟩
/-- LED 0 goes to the ADSL core. -/
def ledAdslParam : LedConfigParam where
  operationMask := 0x0001
  led := 1
  source := 1

def ledBlinkParam (operationMask : Word) : LedConfigParam where
  operationMask := operationMask
  blinkMask := 0x000001
  blink := 0x000001
  dataMask := 0x000001
  data := 0x000003

/-- All values are below their masks. -/
def ledMaskedParam : LedConfigParam where
  operationMask := 0x0281
  led := 1
  source := 1
  dataMask := 0x000003
  data := 0x000003

theorem led_config_fields_masked :
    LedFieldsExact ledSampleBoard ledMaskedParam (ledStart 3 0 fun _ => 0)
      (danubeLedConfig ledSampleBoard (ledStart 3 0 fun _ => 0) (some ledMaskedParam) {}).1 := by
  have hcall : (danubeLedConfig ledSampleBoard (ledStart 3 0 fun _ => 0) (some ledMaskedParam)
      {}).2 = 0 := by decide +kernel
  have hblink : LedOp.blink ∉ ledMaskedParam.ops := by decide +kernel
  have hclock : LedOp.updateClock ∉ ledMaskedParam.ops := by decide +kernel
  have hnumber : LedOp.numberOfLed ∉ ledMaskedParam.ops := by decide +kernel
  refine (led_config_fields_iff hcall).mpr ⟨?_, fun h => absurd h hblink, fun h => absurd h hblink,
    fun h => absurd h hblink, fun _ => ⟨hblink, fun h => absurd h hclock⟩,
    fun h => absurd h hnumber⟩
  intro op hop hs i hi
  obtain rfl | rfl | rfl := hs
  · exact .inl hi
  · exact absurd hop hblink
  · exact .inl hi

/-- LED 0 is to blink, and is not with the ADSL core any more. The data of LED 0 turn on LED 1 too. -/
theorem led_config_fields_stray :
    (∃ s, run (ledStep ledSampleBoard) (ledStart 3 0 fun _ => 0)
        [.config (some ledAdslParam) {}] = some s ∧
      (danubeLedConfig ledSampleBoard s (some (ledBlinkParam 0x0002)) {}).2 = 0 ∧
      ¬LedFieldsExact ledSampleBoard (ledBlinkParam 0x0002) s
        (danubeLedConfig ledSampleBoard s (some (ledBlinkParam 0x0002)) {}).1) ∧
    (danubeLedConfig ledSampleBoard (ledStart 3 0 fun _ => 0) (some (ledBlinkParam 0x0080)) {}).2 =
        0 ∧
      ¬LedFieldsExact ledSampleBoard (ledBlinkParam 0x0080) (ledStart 3 0 fun _ => 0)
        (danubeLedConfig ledSampleBoard (ledStart 3 0 fun _ => 0)
          (some (ledBlinkParam 0x0080)) {}).1 := by
  refine ⟨⟨_, rfl, by decide +kernel, fun hexact => ?_⟩, by decide +kernel, fun hexact => ?_⟩
  · have hnames : ¬(ledBlinkParam 0x0002).Names .con0 24 := by
      unfold LedConfigParam.Names
      decide +kernel
    exact absurd (hexact.frame .con0 24 hnames (by decide)) (by decide +kernel)
  · have hnames : ¬(ledBlinkParam 0x0080).Names .cpu0 1 := by
      unfold LedConfigParam.Names
      decide +kernel
    exact absurd (hexact.frame .cpu0 1 hnames (by decide)) (by decide +kernel)

end DanubeBsp
