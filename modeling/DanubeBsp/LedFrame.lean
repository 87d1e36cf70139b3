import DanubeBsp.LedFields
import DanubeBsp.LedRuns

namespace DanubeBsp

/-- The bit of the register is selected by the mask of an operation of the call. -/
def LedConfigParam.Names (param : LedConfigParam) (r : LedReg) (i : Nat) : Prop :=
  ∃ op ∈ param.ops, op.reg = r ∧ (op.mask param).getLsbD i = true

/-- The value of the operation is written without regard to its mask. -/
def LedOp.Stray (op : LedOp) : Prop := op = .updateSource ∨ op = .blink ∨ op = .data

/-- How many LEDs `G0`, `G1` and `G2` of `CON1` turn on. -/
def enabledLeds (con1 : Word) : Nat :=
  8 * ((con1.getLsbD 0).toNat + (con1.getLsbD 1).toNat + (con1.getLsbD 2).toNat)

/-- The operations are called for one by one, and all calls succeed. -/
def ledSingles (board : LedBoard) (param : LedConfigParam) :
    LedSys → List (LedOp × LedServices) → Option LedSys
  | s, [] => some s
  | s, (op, o) :: calls =>
    let r := danubeLedConfig board s (some (param.only op)) o
    if r.2 = 0 then ledSingles board param r.1 calls else none

/-- The call from `s` to `t` has changed the named bits as requested, no others, and has done what the
single calls do in any order, from any state with these registers. -/
structure LedFieldsExact (board : LedBoard) (param : LedConfigParam) (s t : LedSys) : Prop where
  fields : ∀ op ∈ param.ops,
    t.led.reg op.reg &&& op.mask param = op.value param &&& op.mask param
  enough : LedOp.numberOfLed ∈ param.ops →
    param.numberOfEnabledLed.toNat ≤ enabledLeds t.led.con1
  frame : ∀ r i, ¬param.Names r i → ¬(r = .con0 ∧ i = 31) →
    (t.led.reg r).getLsbD i = (s.led.reg r).getLsbD i
  singles : ∀ calls : List (LedOp × LedServices), (calls.map Prod.fst).Nodup →
    (∀ op, op ∈ calls.map Prod.fst ↔ op ∈ param.ops) →
    ∀ u v, u.led.reg = s.led.reg → ledSingles board param u calls = some v → v.led.reg = t.led.reg

/-- No value goes beyond its mask, but for bits that are set anyway; `BLINK`, which clears bits 24 to
26 and `SWU` too, finds nothing there; `SWU` does not depend on the order. -/
structure LedFieldsFree (d : LedDev) (param : LedConfigParam) : Prop where
  stray : ∀ op ∈ param.ops, op.Stray → ∀ i, (op.value param).getLsbD i = true →
    (op.mask param).getLsbD i = true ∨ (d.reg op.reg).getLsbD i = true
  wiped : LedOp.blink ∈ param.ops → ∀ i ∈ [24, 25, 26], ¬param.Names .con0 i →
    d.con0.getLsbD i = false
  source : LedOp.blink ∈ param.ops → LedOp.updateSource ∈ param.ops → param.source = 0
  edge : LedOp.blink ∈ param.ops → LedOp.dataClockEdge ∈ param.ops → param.fDataClockOnRising ≠ 0
  update : LedOp.data ∈ param.ops → LedOp.blink ∉ param.ops ∧
    (LedOp.updateClock ∈ param.ops → param.updateClock = 0 ∨ d.con0.getLsbD 31 = true)
  number : LedOp.numberOfLed ∈ param.ops → param.numberOfEnabledLed ≤ 24#32

section Acts

variable {param : LedConfigParam} {op : LedOp} {r : LedReg}

theorem LedOp.updateClockWrite_within (h : LedOp.updateClock.Accepts param) :
    (updateClockWrite param).Within (mask param .updateClock) := by
  obtain h0 | h1 | h2 := clock_cases h
  · unfold updateClockWrite
    rw [show mask param .updateClock = 0xc0000000#32 from if_neg (by rw [h0]; decide), if_pos h0]
    exact ⟨by decide, by decide⟩
  · unfold updateClockWrite
    rw [show mask param .updateClock = 0xc0000000#32 from if_neg (by rw [h1]; decide),
      if_neg (by rw [h1]; decide), if_pos h1]
    exact ⟨by decide, by decide⟩
  · rw [show mask param .updateClock = 0xcf800000#32 from if_pos h2]
    exact write_within true param .updateClock .con1

/-- What a bit that a write wants is to it: one of the mask, a value beyond the mask, one of the bits
that `BLINK` clears, or `SWU`. -/
theorem LedOp.act_cases {i : Nat} {b : Bool} (h : op.Accepts param)
    (hact : (op.write true param r).act i = some b) :
    (op.reg = r ∧ (op.mask param).getLsbD i = true) ∨
      (op.Stray ∧ op.reg = r ∧ b = true ∧ (op.value param).getLsbD i = true) ∨
      (op = .blink ∧ r = .con0 ∧ b = false ∧ i ∈ [24, 25, 26]) ∨
      (r = .con0 ∧ i = 31) := by
  have hregion := (op.write_within true param r).getLsbD hact
  have hnone (hzero : op.region r = 0) : False := by
    rw [hzero] at hregion
    exact Bool.false_ne_true (BitVec.getLsbD_zero.symm.trans hregion)
  have hmasked {clear set : Word} (heq : op.write true param r = ⟨clear, set⟩)
      (hc : clear.getLsbD i = true → (op.mask param).getLsbD i = true)
      (hs : set.getLsbD i = true → (op.value param).getLsbD i = true)  :
      (op.mask param).getLsbD i = true ∨ b = true ∧ (op.value param).getLsbD i = true := by
    rw [heq] at hact
    obtain ⟨hb, hset | hclear⟩ := MaskedWrite.act_eq_some_iff.mp hact
    · exact .inr ⟨hb.symm.trans hset, hs hset⟩
    · exact .inl (hc hclear)
  cases r with
  | con0 =>
    cases op with
    | updateSource =>
      obtain hm | hv := hmasked rfl (fun hc => by rwa [and_three h.1] at hc)
        (fun hs => by rwa [and_three h.2] at hs)
      · exact .inl ⟨rfl, hm⟩
      · exact .inr (.inl ⟨.inl rfl, rfl, hv⟩)
    | blink =>
      cases hset : (param.blink &&& 0x00ffffff#32).getLsbD i with
      | true =>
        rw [and_low h.2] at hset
        have hb := (MaskedWrite.act_eq_some_iff.mp hact).1
        rw [show (write true param blink .con0).set = param.blink from and_low h.2, hset] at hb
        exact .inr (.inl ⟨.inr (.inl rfl), rfl, hb.symm, hset⟩)
      | false =>
        obtain ⟨hb, hset' | hclear⟩ := MaskedWrite.act_eq_some_iff.mp hact
        · cases hset.symm.trans hset'
        · have hclear' : ((param.blinkMask &&& 0x00ffffff#32) ||| 0x87000000#32).getLsbD i = true :=
            hclear
          rw [and_low h.1, BitVec.getLsbD_or, Bool.or_eq_true] at hclear'
          obtain hm | hhigh := hclear'
          · exact .inl ⟨rfl, hm⟩
          · have hbits : ∀ i < 32, (0x87000000#32).getLsbD i = true → i ∈ [24, 25, 26] ∨ i = 31 := by
              decide
            obtain hi | hi := hbits i (MaskedWrite.lt_of_act hact) hhigh
            · exact .inr (.inr (.inl ⟨rfl, rfl, hb.symm.trans hset, hi⟩))
            · exact .inr (.inr (.inr ⟨rfl, hi⟩))
    | dataClockEdge => exact .inl ⟨rfl, hregion⟩
    | data =>
      have hbit : (0x80000000#32).getLsbD i = decide (i = 31) := getLsbD_bit (i := 31) (by decide)
      exact .inr (.inr (.inr ⟨rfl, of_decide_eq_true (hbit.symm.trans hregion)⟩))
    | updateClock | storeMode | shiftClock | dataOffset | numberOfLed | mips0Access =>
      exact (hnone rfl).elim
  | con1 =>
    cases op with
    | updateClock => exact .inl ⟨rfl, (updateClockWrite_within h).getLsbD hact⟩
    | storeMode | shiftClock | dataOffset | numberOfLed => exact .inl ⟨rfl, hregion⟩
    | updateSource | blink | dataClockEdge | data | mips0Access => exact (hnone rfl).elim
  | cpu0 =>
    cases op with
    | data =>
      obtain hm | hv := hmasked rfl (fun hc => by rwa [and_low h.1] at hc)
        (fun hs => by rwa [and_low h.2] at hs)
      · exact .inl ⟨rfl, hm⟩
      · exact .inr (.inl ⟨.inr (.inr rfl), rfl, hv⟩)
    | updateSource | blink | dataClockEdge | updateClock | storeMode | shiftClock | dataOffset
      | numberOfLed | mips0Access => exact (hnone rfl).elim
  | ar =>
    cases op with
    | mips0Access =>
      obtain ⟨-, hset | hclear⟩ := MaskedWrite.act_eq_some_iff.mp hact
      · have hset' : (~~~param.mips0Access &&& param.mips0AccessMask).getLsbD i = true := hset
        rw [BitVec.getLsbD_and, Bool.and_eq_true] at hset'
        exact .inl ⟨rfl, hset'.2⟩
      · have hclear' : (param.mips0AccessMask &&& 0x00ffffff#32).getLsbD i = true := hclear
        rw [and_low h.1] at hclear'
        exact .inl ⟨rfl, hclear'⟩
    | updateSource | blink | dataClockEdge | updateClock | storeMode | shiftClock | dataOffset
      | numberOfLed | data => exact (hnone rfl).elim
end Acts

section Calls

variable (board : LedBoard) {s : LedSys} {param : LedConfigParam} {o : LedServices}

/-- What a call that succeeds has checked and written. -/
theorem danubeLedConfig_regs (h : (danubeLedConfig board s (some param) o).2 = 0) :
    param.valid = true ∧
      (danubeLedConfig board s (some param) o).1.led.reg = s.led.newReg param := by
  unfold danubeLedConfig at h ⊢
  cases hvalid : param.valid with
  | false =>
    simp only [hvalid, Bool.not_false, if_true] at h
    cases h
  | true =>
    refine ⟨rfl, ?_⟩
    simp only [hvalid, Bool.not_true, Bool.false_eq_true, if_false] at h ⊢
    split_ifs at h ⊢ with hgpt hpins
    · exact absurd h hgpt
    · exact absurd h hpins
    · funext r
      cases r with
      | con0 => rfl
      | con1 => rfl
      | cpu0 => rfl
      | ar => rfl

theorem getLsbD_swu (i : Nat) : (0x80000000#32).getLsbD i = decide (i = 31) :=
  getLsbD_bit (i := 31) (by decide)

/-- The call makes no software update for the data, since one is under way. -/
theorem LedDev.swu_of_softwareUpdate {d : LedDev} (h : d.softwareUpdate param = false)
    (hclock : param.has configOperationUpdateClock = false) : d.con0.getLsbD 31 = true := by
  unfold LedDev.softwareUpdate at h
  rw [hclock, if_neg Bool.false_ne_true, beq_eq_false_iff_ne] at h
  by_contra hbit
  refine h ((and_eq_zero_iff _ _).mpr fun j hj => ?_)
  rw [getLsbD_bit (by decide), decide_eq_false_iff_not]
  rintro rfl
  exact hbit hj

/-- Only what `DATA` does to `CON0` depends on the update. -/
theorem LedOp.write_update {op : LedOp} {r : LedReg} (h : ¬(op = .data ∧ r = .con0))
    (update update' : Bool) : op.write update param r = op.write update' param r := by
  cases r with
  | con0 =>
    cases op with
    | data => exact absurd ⟨rfl, rfl⟩ h
    | updateSource | blink | dataClockEdge | updateClock | storeMode | shiftClock | dataOffset
      | numberOfLed | mips0Access => rfl
  | con1 | cpu0 | ar => cases op <;> rfl

/-- A single call that selects `DATA` sets `SWU` unless it is set. -/
theorem LedDev.newReg_only (d : LedDev) (param : LedConfigParam) (op : LedOp) (r : LedReg) :
    d.newReg (param.only op) r = (op.write true param r).apply (d.reg r) := by
  rw [LedDev.newReg_eq, LedConfigParam.ops_only]
  show (op.write (d.softwareUpdate (param.only op)) param r).apply (d.reg r) = _
  cases hupdate : d.softwareUpdate (param.only op) with
  | true => rfl
  | false =>
    by_cases hdata : op = .data ∧ r = .con0
    · obtain ⟨rfl, rfl⟩ := hdata
      have hset : d.con0.getLsbD 31 = true := 
        LedDev.swu_of_softwareUpdate hupdate ((param.has_only .data .updateClock).trans rfl)
      apply BitVec.eq_of_getLsbD_eq
      intro i _
      show (MaskedWrite.keep.apply d.con0).getLsbD i =
        ((⟨0, 0x80000000#32⟩ : MaskedWrite 32).apply d.con0).getLsbD i
      rw [MaskedWrite.apply_keep, MaskedWrite.apply_set, BitVec.getLsbD_or, getLsbD_swu]
      by_cases hi : i = 31
      · rw [hi, hset]
        rfl
      · rw [decide_eq_false hi, Bool.or_false]
    · rw [LedOp.write_update hdata false true]

/-- A run of single calls makes their writes, whatever the services answer. -/
theorem ledSingles_regs {calls : List (LedOp × LedServices)} {u v : LedSys}
    (h : ledSingles board param u calls = some v) (r : LedReg) :
    v.led.reg r =
      MaskedWrite.applyAll ((calls.map Prod.fst).map fun op => op.write true param r)
        (u.led.reg r) := by
  induction calls generalizing u with
  | nil =>
    cases Option.some.inj h
    rfl
  | cons call calls ih =>
    obtain ⟨op, o⟩ := call
    simp only [ledSingles] at h
    split_ifs at h with hret
    obtain ⟨-, hregs⟩ := danubeLedConfig_regs board hret
    rw [ih h, hregs, LedDev.newReg_only]
    rfl

end Calls

open MaskedWrite

section Free

variable {d : LedDev} {param : LedConfigParam} {op op' : LedOp} {r : LedReg} {i : Nat} {b b' : Bool}

/-- The writes of the call to a register. -/
def LedConfigParam.writes (param : LedConfigParam) (update : Bool) (r : LedReg) :
    List (MaskedWrite 32) :=
  param.ops.map fun op => op.write update param r

theorem LedConfigParam.mem_writes {update : Bool} {m : MaskedWrite 32} :
    m ∈ param.writes update r ↔ ∃ op ∈ param.ops, op.write update param r = m :=
  List.mem_map

theorem getLsbD_zero_false {x : Word} (h : x.getLsbD i = true) (h0 : x = 0) : False := by
  rw [h0] at h
  exact Bool.false_ne_true (BitVec.getLsbD_zero.symm.trans h)

theorem set_of_act {m : MaskedWrite 32} (hact : m.act i = some b) (hset : m.set = 0) : b = false := by
  obtain ⟨hb, -⟩ := act_eq_some_iff.mp hact
  cases b with
  | false => rfl
  | true => exact (getLsbD_zero_false hb hset).elim

/-- Where `BLINK` meets another operation both clear the bit. -/
theorem LedFieldsFree.meets_blink (hf : LedFieldsFree d param) (hblink : LedOp.blink ∈ param.ops)
    (hop : op ∈ param.ops) (hne : op ≠ .blink)
    (hact : (LedOp.blink.write true param r).act i = some b)
    (hact' : (op.write true param r).act i = some b') : b = false ∧ b' = false := by
  have hregion := (LedOp.write_within true param .blink r).getLsbD hact
  have hregion' := (LedOp.write_within true param op r).getLsbD hact'
  cases r with
  | con1 | cpu0 | ar => exact (getLsbD_zero_false hregion rfl).elim
  | con0 =>
    have hlow (happart : op.region .con0 &&& 0x00ffffff#32 = 0) : b = false := by
      obtain ⟨hb, -⟩ := act_eq_some_iff.mp hact
      cases b with
      | false => rfl
      | true =>
        have hset : (param.blink &&& 0x00ffffff#32).getLsbD i = true := hb
        rw [BitVec.getLsbD_and, Bool.and_eq_true] at hset
        refine (getLsbD_zero_false (x := op.region .con0 &&& 0x00ffffff#32) (i := i) ?_ happart).elim
        rw [BitVec.getLsbD_and, hregion', hset.2]
        rfl
    cases op with
    | updateSource =>
      refine ⟨hlow (by decide), set_of_act hact' ?_⟩
      show (param.source &&& 0x03#32) <<< 24 = 0
      rw [hf.source hblink hop]
      decide
    | blink => exact absurd rfl hne
    | dataClockEdge =>
      refine ⟨hlow (by decide), set_of_act hact' ?_⟩
      show (LedOp.edgeWrite param).set = 0
      unfold LedOp.edgeWrite
      rw [if_pos (hf.edge hblink hop)]
    | data => exact absurd hblink (hf.update hop).1
    | updateClock | storeMode | shiftClock | dataOffset | numberOfLed | mips0Access =>
      exact (getLsbD_zero_false hregion' rfl).elim

theorem LedFieldsFree.agree (hf : LedFieldsFree d param) (r : LedReg) :
    Agree (param.writes true r) := by
  intro m hm m' hm' i b b' hact hact'
  obtain ⟨op, hop, rfl⟩ := LedConfigParam.mem_writes.mp hm
  obtain ⟨op', hop', rfl⟩ := LedConfigParam.mem_writes.mp hm'
  by_cases hsame : op = op'
  · subst hsame
    exact Option.some.inj (hact.symm.trans hact')
  by_cases hblink : op = .blink
  · subst hblink
    obtain ⟨hb, hb'⟩ := hf.meets_blink hop hop' (Ne.symm hsame) hact hact'
    rw [hb, hb']
  by_cases hblink' : op' = .blink
  · subst hblink'
    obtain ⟨hb', hb⟩ := hf.meets_blink hop' hop hsame hact' hact
    rw [hb, hb']
  have happart := LedOp.region_apart op op.mem_all op' op'.mem_all hsame hblink hblink' r
    (by cases r <;> decide)
  have hboth : (op.region r &&& op'.region r).getLsbD i = true := by
    rw [BitVec.getLsbD_and, (LedOp.write_within true param op r).getLsbD hact,
      (LedOp.write_within true param op' r).getLsbD hact']
    rfl
  exact (getLsbD_zero_false hboth happart).elim

theorem LedOp.swu_of_act (h : (LedOp.data.write true param .con0).act i = some b) :
    i = 31 ∧ b = true := by
  have hregion := (LedOp.write_within true param .data .con0).getLsbD h
  obtain ⟨hb, -⟩ := act_eq_some_iff.mp h
  exact ⟨of_decide_eq_true ((getLsbD_swu i).symm.trans hregion), hb.symm.trans hregion⟩

/-- With no update for the data `SWU` is set already. -/
theorem LedFieldsFree.swu (hf : LedFieldsFree d param) (hdata : LedOp.data ∈ param.ops)
    (hupdate : d.softwareUpdate param = false) : d.con0.getLsbD 31 = true := by
  cases hclock : param.has configOperationUpdateClock with
  | false => exact LedDev.swu_of_softwareUpdate hupdate hclock
  | true =>
    obtain hzero | hset := (hf.update hdata).2 (LedConfigParam.mem_ops.mpr hclock)
    · unfold LedDev.softwareUpdate at hupdate
      rw [hclock, if_pos rfl, hzero] at hupdate
      cases hupdate
    · exact hset

/-- The call writes what the single operations write. -/
theorem LedFieldsFree.newReg_eq (hf : LedFieldsFree d param) (r : LedReg) :
    d.newReg param r = applyAll (param.writes true r) (d.reg r) := by
  rw [LedDev.newReg_eq]
  refine (hf.agree r).applyAll_eq ?_ ?_
  · intro m hm i b hact
    obtain ⟨op, hop, rfl⟩ := List.mem_map.mp hm
    refine ⟨_, LedConfigParam.mem_writes.mpr ⟨op, hop, rfl⟩, ?_⟩
    cases hupdate : d.softwareUpdate param with
    | true => rwa [hupdate] at hact
    | false =>
      rw [hupdate] at hact
      by_cases hdata : op = .data ∧ r = .con0
      · obtain ⟨rfl, rfl⟩ := hdata
        cases (act_keep i).symm.trans hact
      · rwa [LedOp.write_update hdata true false]
  · intro m hm i b hact
    obtain ⟨op, hop, rfl⟩ := LedConfigParam.mem_writes.mp hm
    cases hupdate : d.softwareUpdate param with
    | true => exact .inl ⟨_, List.mem_map.mpr ⟨op, hop, rfl⟩, hact⟩
    | false =>
      by_cases hdata : op = .data ∧ r = .con0
      · obtain ⟨rfl, rfl⟩ := hdata
        obtain ⟨hi, hb⟩ := LedOp.swu_of_act hact
        rw [hi, hb]
        exact .inr (hf.swu hop hupdate)
      · rw [LedOp.write_update hdata true false] at hact
        exact .inl ⟨_, List.mem_map.mpr ⟨op, hop, rfl⟩, hact⟩

theorem enabledLeds_and (x : Word) : enabledLeds x = enabledLeds (x &&& 7#32) := by
  unfold enabledLeds
  simp only [BitVec.getLsbD_and]
  have hseven : (7#32).getLsbD 0 = true ∧ (7#32).getLsbD 1 = true ∧ (7#32).getLsbD 2 = true := by
    decide
  rw [hseven.1, hseven.2.1, hseven.2.2, Bool.and_true, Bool.and_true, Bool.and_true]

theorem enabledLeds_le (x : Word) : enabledLeds x ≤ 24 := by
  have h0 := Bool.toNat_le (x.getLsbD 0)
  have h1 := Bool.toNat_le (x.getLsbD 1)
  have h2 := Bool.toNat_le (x.getLsbD 2)
  unfold enabledLeds
  omega

theorem enabledLeds_value (h : param.numberOfEnabledLed ≤ 24#32) :
    param.numberOfEnabledLed.toNat ≤ enabledLeds (LedOp.numberOfLed.value param &&& 7#32) := by
  have hall : ∀ k < 25, k ≤ enabledLeds (BitVec.ofNat 32 (2 ^ ((k + 7) / 8) - 1) &&& 7#32) := by
    decide
  exact hall _ (Nat.lt_succ_of_le h)

/-- What a write of a call may do under the condition: bits that are named, `SWU`, or what is there. -/
theorem LedFieldsFree.old_of_act (hf : LedFieldsFree d param) (hacc : op.Accepts param)
    (hop : op ∈ param.ops) (hact : (op.write true param r).act i = some b)
    (hnames : ¬param.Names r i) (hswu : ¬(r = .con0 ∧ i = 31)) : (d.reg r).getLsbD i = b := by
  obtain ⟨hr, hmask⟩ | ⟨hstray, rfl, hb, hvalue⟩ | ⟨rfl, rfl, hb, hi⟩ | hswu' :=
    LedOp.act_cases hacc hact
  · exact absurd ⟨op, hop, hr, hmask⟩ hnames
  · obtain hmask | hold := hf.stray op hop hstray i hvalue
    · exact absurd ⟨op, hop, rfl, hmask⟩ hnames
    · rw [hold, hb]
  · rw [hb]
    exact hf.wiped hop i hi hnames
  · exact absurd hswu' hswu

/-- Under the condition the call is exact. -/
theorem LedFieldsFree.exact {board : LedBoard} {s t : LedSys} (hf : LedFieldsFree s.led param)
    (hvalid : param.valid = true) (hregs : t.led.reg = s.led.newReg param) :
    LedFieldsExact board param s t := by
  have hacc (op : LedOp) (hop : op ∈ param.ops) : op.Accepts param :=
    param.valid_iff.mp hvalid op (LedConfigParam.mem_ops.mp hop)
  have hreg (r : LedReg) : t.led.reg r = applyAll (param.writes true r) (s.led.reg r) := by
    rw [hregs]
    exact hf.newReg_eq r
  have hfields : ∀ op ∈ param.ops,
      t.led.reg op.reg &&& op.mask param = op.value param &&& op.mask param := by
    intro op hop
    apply BitVec.eq_of_getLsbD_eq
    intro i _
    rw [BitVec.getLsbD_and, BitVec.getLsbD_and]
    cases hmask : (op.mask param).getLsbD i with
    | false => rw [Bool.and_false, Bool.and_false]
    | true =>
      rw [hreg, (hf.agree op.reg).getLsbD_applyAll (LedConfigParam.mem_writes.mpr ⟨op, hop, rfl⟩)
        (LedOp.write_mask (hacc op hop) hmask)]
  refine ⟨hfields, ?_, ?_, ?_⟩
  · intro hnumber
    rw [enabledLeds_and, show t.led.con1 &&& 7#32 = _ from hfields _ hnumber]
    exact enabledLeds_value (hf.number hnumber)
  · intro r i hnames hswu
    rw [hreg]
    obtain ⟨heq, -⟩ | ⟨m, hm, hact⟩ := applyAll_bit (param.writes true r) (s.led.reg r) i
    · exact heq
    · obtain ⟨op, hop, rfl⟩ := LedConfigParam.mem_writes.mp hm
      exact (hf.old_of_act (hacc op hop) hop hact hnames hswu).symm
  · intro calls _ hcalls u v hu hv
    funext r
    rw [ledSingles_regs board hv, hreg, hu]
    refine (hf.agree r).applyAll_congr ?_ _
    intro m
    rw [LedConfigParam.mem_writes, List.mem_map]
    constructor
    · rintro ⟨op, hop, rfl⟩
      exact ⟨op, (hcalls op).mp hop, rfl⟩
    · rintro ⟨op, hop, rfl⟩
      exact ⟨op, (hcalls op).mpr hop, rfl⟩

end Free
end DanubeBsp
