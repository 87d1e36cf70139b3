import DanubeBsp.LedFrame
namespace DanubeBsp
open MaskedWrite

/-- The driver that neither has to set up the timer nor pins for the operations that are left. -/
structure LedReady (param : LedConfigParam) (source : Word) (ops : List LedOp) (s : LedSys) : Prop where
  adsl : s.led.adslOn = source
  gpt : LedOp.updateClock ∈ ops → s.led.gptOn = true ∧ s.led.gptFreq = param.fpid
  lit : s.led.fLedOn = true ∨ source = 0 ∧ LedOp.numberOfLed ∉ ops

section Ready

variable (board : LedBoard) {s : LedSys} {param : LedConfigParam} {source : Word} {op : LedOp}
  {ops : List LedOp} {o : LedServices}

/-- The timer is running at the frequency that is asked for, or is not asked for. -/
theorem LedSys.configGpt_ready (h : s.WantsGpt param → s.led.gptOn = true ∧ s.led.gptFreq = param.fpid)
    (o : LedServices) :
    (s.configGpt board param o).2 = 0 ∧
      ∃ on, (s.configGpt board param o).1.led = { s.led with gptOn := on } := by
  by_cases hwant : s.WantsGpt param
  · rw [LedSys.configGpt_wanted board hwant, if_pos (h hwant)]
    exact ⟨rfl, true, rfl⟩
  · rw [LedSys.configGpt_unwanted board hwant]
    cases hon : s.led.gptOn with
    | false => exact ⟨rfl, s.led.gptOn, rfl⟩
    | true => exact ⟨rfl, false, (LedSys.dropGpt_led board s o).1⟩

/-- The LEDs are on already, or need not go on. -/
theorem LedSys.configPins_ready (on : Bool) (h : on = true → s.led.fLedOn = true)
    (o : LedServices) :
    (s.configPins board on s.led.adslOn o).2 = 0 ∧
      (s.configPins board on s.led.adslOn o).1.led.adslOn = (if on then s.led.adslOn else 0) ∧
      (s.configPins board on s.led.adslOn o).1.led.fLedOn = on := by
  unfold LedSys.configPins
  cases on with
  | false =>
    simp only [Bool.not_false, Bool.true_or, if_true, Bool.and_false, Bool.false_eq_true, if_false,
      and_self]
  | true =>
    simp only [Bool.not_true, bne_self_eq_false, Bool.or_self, Bool.false_eq_true, if_false,
      h rfl, Bool.and_true, if_true, and_self]

theorem LedOp.accepts_only (h : op.Accepts param) : (param.only op).valid = true := by
  rw [LedConfigParam.valid_iff]
  intro op' hop'
  rw [LedConfigParam.has_only, decide_eq_true_iff] at hop'
  subst hop'
  cases op' <;> exact h

/-- A single call succeeds, and the driver stays ready for the others. -/
theorem LedReady.single (h : LedReady param source (op :: ops) s) (hacc : op.Accepts param)
    (hsource : op = .updateSource → param.source = source) (hnodup : op ∉ ops)
    (hclock : LedOp.updateClock ∉ ops) (o : LedServices) :
    (danubeLedConfig board s (some (param.only op)) o).2 = 0 ∧
      LedReady param source ops (danubeLedConfig board s (some (param.only op)) o).1 := by
  have hadsl : s.led.newAdslOn (param.only op) = s.led.adslOn := by
    unfold LedDev.newAdslOn
    rw [show configOperationUpdateSource = LedOp.updateSource.bit from rfl,
      LedConfigParam.has_only]
    split_ifs with hop
    · rw [h.adsl]
      exact hsource (of_decide_eq_true hop).symm
    · rfl
  have hnumber (hne : op ≠ .numberOfLed) (hzero : source = 0) :
      s.led.newLedOn (param.only op) = s.led.fLedOn := by
    unfold LedDev.newLedOn
    rw [hadsl, h.adsl, hzero, show configOperationNumberOfLed = LedOp.numberOfLed.bit from rfl,
      LedConfigParam.has_only, decide_eq_false (Ne.symm hne), if_neg Bool.false_ne_true]
    rfl
  have hdark (hoff : s.led.newLedOn (param.only op) = false) : source = 0 := by
    by_contra hne
    have hon : s.led.newLedOn (param.only op) = true :=
      LedDev.newLedOn_of_adsl (by rwa [hadsl, h.adsl])
    cases hoff.symm.trans hon
  have hon : s.led.newLedOn (param.only op) = true → s.led.fLedOn = true := by
    intro hon
    obtain hlit | ⟨hzero, hno⟩ := h.lit
    · exact hlit
    · rwa [hnumber (fun heq => hno (heq ▸ List.mem_cons_self)) hzero] at hon
  have hwant : s.WantsGpt (param.only op) →
      s.led.gptOn = true ∧ s.led.gptFreq = (param.only op).fpid := by
    intro hwant
    have hhas := hwant.1
    unfold LedConfigParam.setupGpt2 at hhas
    rw [Bool.and_eq_true, show configOperationUpdateClock = LedOp.updateClock.bit from rfl,
      LedConfigParam.has_only, decide_eq_true_iff] at hhas
    exact h.gpt (hhas.1 ▸ List.mem_cons_self)
  obtain ⟨hgpt, on, hled⟩ := LedSys.configGpt_ready board hwant o
  obtain ⟨hpins, hadslOn, hfLedOn⟩ := LedSys.configPins_ready
    (s := (s.configGpt board (param.only op) o).1) board (s.led.newLedOn (param.only op))
    (by rw [hled]; exact hon) o
  have hsame : (s.configGpt board (param.only op) o).1.led.adslOn = s.led.newAdslOn (param.only op) := by
    rw [hled, hadsl]
  rw [hsame] at hpins hadslOn hfLedOn
  have hcall : danubeLedConfig board s (some (param.only op)) o =
      (((s.configGpt board (param.only op) o).1.configPins board (s.led.newLedOn (param.only op))
        (s.led.newAdslOn (param.only op)) o).1.writeRegisters s.led (param.only op), 0) := by
    simp only [danubeLedConfig, LedOp.accepts_only hacc, Bool.not_true, Bool.false_eq_true, if_false,
      hgpt, hpins, ne_eq, not_true_eq_false]
  rw [hcall]
  refine ⟨rfl, hadslOn.trans ?_, fun hmem => absurd hmem hclock, ?_⟩
  · rw [hadsl, h.adsl]
    split_ifs with hlit
    · rfl
    · exact (hdark (Bool.eq_false_of_not_eq_true hlit)).symm
  · cases hlit : s.led.newLedOn (param.only op) with
    | true =>
      rw [hlit] at hfLedOn
      exact .inl hfLedOn
    | false =>
      refine .inr ⟨hdark hlit, fun hmem => ?_⟩
      have hoff := (hnumber (fun heq => hnodup (heq ▸ hmem)) (hdark hlit)).symm.trans hlit
      obtain hon' | ⟨-, hno⟩ := h.lit
      · cases hoff.symm.trans hon'
      · exact hno (List.mem_cons_of_mem _ hmem)

/-- The operations with that for the timer, if any, at the head are called for without an error. -/
theorem LedReady.all (hacc : ∀ op ∈ ops, op.Accepts param)
    (hsource : LedOp.updateSource ∈ ops → param.source = source) (hnodup : ops.Nodup)
    (hclock : LedOp.updateClock ∉ ops.tail) (h : LedReady param source ops s) (o : LedServices) :
    ∃ v, ledSingles board param s (ops.map fun op => (op, o)) = some v := by
  induction ops generalizing s with
  | nil => exact ⟨s, rfl⟩
  | cons op ops ih =>
    obtain ⟨hop, hnodup⟩ := List.nodup_cons.mp hnodup
    obtain ⟨hret, hready⟩ := h.single board (hacc op List.mem_cons_self)
      (fun heq => hsource (heq ▸ List.mem_cons_self)) hop hclock o
    obtain ⟨v, hv⟩ := ih (fun op hop => hacc op (List.mem_cons_of_mem _ hop))
      (fun hmem => hsource (List.mem_cons_of_mem _ hmem)) hnodup
      (fun hmem => hclock (List.mem_of_mem_tail hmem)) hready
    refine ⟨v, ?_⟩
    rw [List.map_cons, ledSingles, if_pos hret]
    exact hv

/-- The driver with these registers that is ready for all single calls. -/
def LedSys.readied (s : LedSys) (param : LedConfigParam) (source : Word) : LedSys :=
  { s with led := { s.led with
      gptOn := true
      gptFreq := param.fpid
      adslOn := source
      fLedOn := true } }

theorem LedConfigParam.nodup_ops (param : LedConfigParam) : param.ops.Nodup :=
  List.Nodup.filter _ (by decide)

/-- An order with the timer first and the operation last. -/
theorem LedConfigParam.order_last (hop : op ∈ param.ops) (hne : op ≠ .updateClock) :
    ∃ front, (front ++ [op]).Nodup ∧ (∀ op', op' ∈ front ++ [op] ↔ op' ∈ param.ops) ∧
      LedOp.updateClock ∉ (front ++ [op]).tail := by
  have hrest : ((param.ops.erase .updateClock).erase op).Nodup :=
    (param.nodup_ops.erase _).erase _
  have hmem (op' : LedOp) : op' ∈ (param.ops.erase .updateClock).erase op ↔
      op' ≠ op ∧ op' ≠ .updateClock ∧ op' ∈ param.ops := by
    rw [(param.nodup_ops.erase _).mem_erase_iff, param.nodup_ops.mem_erase_iff]
  have hlast : ((param.ops.erase .updateClock).erase op ++ [op]).Nodup := by
    refine List.nodup_append.mpr ⟨hrest, List.nodup_singleton op, ?_⟩
    intro a ha b hb heq
    rw [List.mem_singleton.mp hb] at heq
    exact ((hmem a).mp ha).1 heq
  have hlast_mem (op' : LedOp) : op' ∈ (param.ops.erase .updateClock).erase op ++ [op] ↔
      op' ≠ .updateClock ∧ op' ∈ param.ops := by
    rw [List.mem_append, List.mem_singleton, hmem]
    constructor
    · rintro (⟨-, h⟩ | rfl)
      · exact h
      · exact ⟨hne, hop⟩
    · intro h
      by_cases heq : op' = op
      · exact .inr heq
      · exact .inl ⟨heq, h⟩
  by_cases hclock : LedOp.updateClock ∈ param.ops
  · refine ⟨.updateClock :: (param.ops.erase .updateClock).erase op, ?_, ?_, ?_⟩
    · exact List.nodup_cons.mpr ⟨fun h => ((hlast_mem _).mp h).1 rfl, hlast⟩
    · intro op'
      rw [List.cons_append, List.mem_cons, hlast_mem]
      constructor
      · rintro (rfl | h)
        · exact hclock
        · exact h.2
      · intro h
        by_cases heq : op' = .updateClock
        · exact .inl heq
        · exact .inr ⟨heq, h⟩
    · exact fun h => ((hlast_mem _).mp h).1 rfl
  · refine ⟨(param.ops.erase .updateClock).erase op, hlast, ?_, ?_⟩
    · intro op'
      rw [hlast_mem]
      exact and_iff_right_of_imp fun h heq => hclock (heq ▸ h)
    · exact fun h => ((hlast_mem _).mp (List.mem_of_mem_tail h)).1 rfl

/-- Where the call does what single calls do, no operation would do anything more. -/
theorem LedFieldsExact.fixed {t : LedSys} (h : LedFieldsExact board param s t)
    (hvalid : param.valid = true) (hop : op ∈ param.ops) (hne : op ≠ .updateClock) {r : LedReg}
    {i : Nat} {b : Bool} (hact : (op.write true param r).act i = some b) :
    (t.led.reg r).getLsbD i = b := by
  obtain ⟨front, hnodup, hmem, hclock⟩ := LedConfigParam.order_last hop hne
  have hacc (op' : LedOp) (hop' : op' ∈ front ++ [op]) : op'.Accepts param :=
    param.valid_iff.mp hvalid op' (LedConfigParam.mem_ops.mp ((hmem op').mp hop'))
  have hready : LedReady param param.source (front ++ [op]) (s.readied param param.source) :=
    ⟨rfl, fun _ => ⟨rfl, rfl⟩, .inl rfl⟩
  obtain ⟨v, hv⟩ := hready.all board hacc (fun _ => rfl) hnodup hclock {}
  have hnames : ((front ++ [op]).map fun op' => (op', ({} : LedServices))).map Prod.fst =
      front ++ [op] := by
    rw [List.map_map]
    exact List.map_id _
  have hregs := h.singles _ (by rwa [hnames]) (by rwa [hnames]) (s.readied param param.source) v rfl hv
  rw [← hregs, ledSingles_regs board hv, hnames, List.map_append, List.map_singleton,
    applyAll_concat, getLsbD_apply, hact]
  rfl

end Ready
end DanubeBsp
