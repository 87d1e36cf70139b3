import DanubeBsp.WdtFields

namespace DanubeBsp

/-- The call changes the fields that it names, and it stops or shortens the watchdog only if it may. -/
def CallGood (ffpi cr cr' : Word) (c : WdtCall) : Prop :=
  KeepsRunning cr cr' c ∧ ∀ fvs, c.names ffpi cr = some fvs → FieldsWritten fvs cr cr'

/-- What is true of the register after a call. -/
structure CallSpec (ffpi : Word) (r r' : WdtReg) (c : WdtCall) : Prop where
  kept : r'.cr &&& wdtCrKept = r'.cr
  locked : r'.unlocked = false
  pair : PasswordPair r r'
  good : CallAlone ffpi r.cr c ↔ CallGood ffpi r.cr r'.cr c

/-- For a call that names one other field, writing that field is all. -/
theorem callGood_iff_written {ffpi cr cr' : Word} {c : WdtCall} {f : RegField} {v : Nat}
    (hnames : c.names ffpi cr = some [(f, v)]) (hreg : f.reg = 0)
    (hlo : 16 ≤ f.lo) (hhi : f.lo + f.width ≤ 31) :
    CallGood ffpi cr cr' c ↔ FieldsWritten [(f, v)] cr cr' := by
  constructor
  · exact fun h => h.2 _ hnames
  · intro h
    have hkeep : ∀ g : RegField, g.reg = 0 → f.Disjoint g →
        g.get (crFile cr') = g.get (crFile cr) := by
      intro g hg hd
      refine h.get_eq hg ?_ ?_
      · intro f' v' hm
        cases List.mem_singleton.mp hm
        exact hd
      · intro f' v' hm
        cases List.mem_singleton.mp hm
        exact hreg
    refine ⟨?_, ?_⟩
    · have hgen := hkeep wdtGenField rfl (.inr (.inl hhi))
      have hreload := hkeep wdtReloadField rfl (.inr (.inr hlo))
      cases c with
      | enable timeout => trivial
      | disable => trivial
      | lowPower en => exact ⟨hgen, hreload⟩
      | debugSuspend en => exact ⟨hgen, hreload⟩
      | prewarningLimit pwl => exact ⟨hgen, hreload⟩
      | setClkdiv clkdiv => exact ⟨hgen, hreload⟩
    · intro fvs heq
      cases Option.some.inj (hnames.symm.trans heq)
      exact h

theorem wdtEnable_spec {ffpi timeout : Word} {r : WdtReg} (hk : r.cr &&& wdtCrKept = r.cr)
    (hl : r.unlocked = false) : CallSpec ffpi r (wdtEnable ffpi r timeout).2 (.enable timeout) := by
  by_cases hfit : wdtReload ffpi r.cr timeout > 0xffff
  · have hsame : (wdtEnable ffpi r timeout).2 = r := by
      simp only [wdtEnable, if_pos hfit]
    rw [hsame]
    refine ⟨hk, hl, .inl rfl, iff_of_true (.inl hfit) ⟨trivial, ?_⟩⟩
    intro fvs hn
    simp only [WdtCall.names, if_pos hfit, Option.some.injEq] at hn
    subst hn
    exact ⟨by simp, fun _ _ => rfl⟩
  · have heq := wdtEnable_eq (r := r) hfit
    rw [heq]
    refine ⟨by rw [BitVec.and_assoc, BitVec.and_self], rfl,
      PasswordPair.stored (enableWord_pw _ _) rfl, ?_⟩
    have hnames : (WdtCall.enable timeout).names ffpi r.cr = some
        [(wdtReloadField, (wdtReload ffpi r.cr timeout).toNat), (wdtGenField, 1)] := by
      simp only [WdtCall.names, if_neg hfit]
    have hwritten := enable_written_iff hk hfit
    constructor
    · rintro (hbig | hzero)
      · exact absurd hbig hfit
      · refine ⟨trivial, ?_⟩
        intro fvs h
        cases Option.some.inj (hnames.symm.trans h)
        exact hwritten.mpr hzero
    · exact fun h => .inr (hwritten.mp (h.2 _ hnames))

theorem wdtSwitch_spec {ffpi en : Word} {r : WdtReg} {k : Nat} {c : WdtCall} (hk : k = 29 ∨ k = 30)
    (hnames : c.names ffpi r.cr = some [(⟨0, k, 1⟩, (enBit en).toNat)])
    (halone : CallAlone ffpi r.cr c ↔ r.cr &&& ~~~(1#32 <<< k) = 0) :
    CallSpec ffpi r (wdtSwitch (1#32 <<< k) r en) c := by
  have hbit : (1#32 <<< k) = wdtCrLpen ∨ (1#32 <<< k) = wdtCrDsen := by
    rcases hk with rfl | rfl
    · exact .inl rfl
    · exact .inr rfl
  have hkept : (if en ≠ 0 then 1#32 <<< k else 0 : Word) &&& wdtCrKept =
      if en ≠ 0 then 1#32 <<< k else 0 := by
    rcases hk with rfl | rfl
    · split <;> decide
    · split <;> decide
  have hword : (if en ≠ 0 then 1#32 <<< k else 0 : Word) = if enBit en then 1#32 <<< k else 0 := by
    simp only [enBit, decide_eq_true_eq]
  obtain ⟨w, hw, heq⟩ := wdtSwitch_eq hbit r en
  rw [heq]
  refine ⟨hkept, rfl, PasswordPair.stored hw rfl, ?_⟩
  rw [halone, callGood_iff_written hnames rfl (by dsimp only; omega) (by dsimp only; omega)]
  dsimp only
  rw [hword, switch_written_iff (by omega)]

theorem wdtSetField_spec {ffpi v mask : Word} {r : WdtReg} {lo : Nat} {c : WdtCall}
    (hmask : ∀ i, i < 32 → (mask.getLsbD i = true ↔ ¬ (lo ≤ i ∧ i < lo + 2))) (hlo : 24 ≤ lo)
    (hhi : lo + 2 ≤ 28) (hk : r.cr &&& wdtCrKept = r.cr)
    (hnames : c.names ffpi r.cr = some [(⟨0, lo, 2⟩, v.toNat % 4)])
    (halone : CallAlone ffpi r.cr c) :
    CallSpec ffpi r (wdtSetField mask (fieldSet 2 lo) r v) c := by
  have hwritten := wdtSetField_written hmask hlo hhi hk v
  have heq := wdtSetField_eq hmask hlo r v
  refine ⟨?_, by rw [heq], PasswordPair.stored (setFieldWord_pw hmask hlo r.cr v) (by rw [heq]), ?_⟩
  · rw [heq, BitVec.and_assoc, BitVec.and_self]
  · refine iff_of_true halone ?_
    exact (callGood_iff_written hnames rfl (by dsimp only; omega) (by dsimp only; omega)).mpr hwritten

theorem wdtDisable_spec (ffpi : Word) (r : WdtReg) : CallSpec ffpi r (wdtDisable r) .disable := by
  have hpw : fieldGet 8 16 (wdtCrPwSet wdtPw2) = wdtPw2 := by decide
  have heq : wdtDisable r = _ := r.store_pair hpw
  rw [heq]
  refine ⟨by rw [BitVec.and_assoc, BitVec.and_self], rfl, PasswordPair.stored hpw rfl,
    iff_of_true trivial ⟨trivial, ?_⟩⟩
  intro fvs h
  cases h

theorem wdtCall_spec {ffpi : Word} {r : WdtReg} (hk : r.cr &&& wdtCrKept = r.cr)
    (hl : r.unlocked = false) (c : WdtCall) : CallSpec ffpi r (wdtCall ffpi r c) c := by
  cases c with
  | enable timeout => exact wdtEnable_spec hk hl
  | disable => exact wdtDisable_spec ffpi r
  | lowPower en => exact wdtSwitch_spec (.inl rfl) rfl Iff.rfl
  | debugSuspend en => exact wdtSwitch_spec (.inr rfl) rfl Iff.rfl
  | prewarningLimit pwl =>
    exact wdtSetField_spec pwlMask_bit (by decide) (by decide) hk rfl trivial
  | setClkdiv clkdiv =>
    exact wdtSetField_spec clkdivMask_bit (by decide) (by decide) hk rfl trivial

section Step

variable {ffpi : Word} {s t : Wdt} {e : WdtEvent} {c : WdtCall}

theorem wdtStep_reg (h : wdtStep ffpi s e = some t) :
    t.reg = s.reg ∨ ∃ c, t.reg = wdtCall ffpi s.reg c := by
  cases e with
  | call c =>
    cases Option.some.inj h
    exact .inr ⟨c, rfl⟩
  | ioctl cmd =>
    cases Option.some.inj h
    cases cmd with
    | start arg =>
      cases arg with
      | copied v => exact .inr ⟨.enable v, rfl⟩
      | bad left => exact .inl rfl
    | stop => exact .inr ⟨.disable, rfl⟩
    | ping =>
      by_cases hneg : s.timeout.toInt < 0
      · simp [wdtIoctl, hneg]
      · exact .inr ⟨.enable s.timeout, by simp [wdtIoctl, hneg, wdtCall]⟩
    | setPwl arg => exact .inr ⟨.prewarningLimit arg.value, rfl⟩
    | setDsen arg => exact .inr ⟨.debugSuspend arg.value, rfl⟩
    | setLpen arg => exact .inr ⟨.lowPower arg.value, rfl⟩
    | setClkdiv arg => exact .inr ⟨.setClkdiv arg.value, rfl⟩
    | getStatus => exact .inl rfl

theorem WdtInv.spec (hs : WdtInv s) (c : WdtCall) : CallSpec ffpi s.reg (wdtCall ffpi s.reg c) c :=
  wdtCall_spec hs.kept hs.locked c

theorem WdtInv.step (hs : WdtInv s) (h : wdtStep ffpi s e = some t) : WdtInv t := by
  rcases wdtStep_reg h with heq | ⟨c, heq⟩
  · exact ⟨heq ▸ hs.kept, heq ▸ hs.locked⟩
  · have hspec : CallSpec ffpi s.reg (wdtCall ffpi s.reg c) c := hs.spec c
    exact ⟨heq ▸ hspec.kept, heq ▸ hspec.locked⟩

theorem WdtInv.init (cr : Word) : WdtInv (wdtInit cr) := by
  refine ⟨?_, rfl⟩
  simp only [wdtInit]
  rw [BitVec.and_assoc, BitVec.and_self]

theorem stepGood_iff_call (hs : WdtInv s) (h : wdtStep ffpi s e = some t)
    (hmeant : e.meant s.timeout = some c) (hreg : t.reg = wdtCall ffpi s.reg c) :
    (∀ c', e.meant s.timeout = some c' → CallAlone ffpi s.reg.cr c') ↔ WdtStepGood ffpi s e := by
  have hspec : CallSpec ffpi s.reg (wdtCall ffpi s.reg c) c := hs.spec c
  rw [← hreg] at hspec
  constructor
  · intro halone t' h'
    cases Option.some.inj (h.symm.trans h')
    have hgood := hspec.good.mp (halone c hmeant)
    rw [hmeant]
    exact ⟨hspec.pair, hgood⟩
  · intro hgood c' hc'
    cases Option.some.inj (hmeant.symm.trans hc')
    have hafter := (hgood t h).2
    rw [hmeant] at hafter
    exact hspec.good.mpr hafter

theorem stepGood_iff_kept (h : wdtStep ffpi s e = some t) (hmeant : e.meant s.timeout = none)
    (hpair : PasswordPair s.reg t.reg) :
    WdtStepGood ffpi s e ↔ t.reg.cr = s.reg.cr ∧ t.timeout = s.timeout := by
  constructor
  · intro hgood
    have hafter := (hgood t h).2
    rw [hmeant] at hafter
    exact hafter
  · intro hkept t' h'
    cases Option.some.inj (h.symm.trans h')
    rw [hmeant]
    exact ⟨hpair, hkept⟩

/-- After a failed copy the setter runs all the same: nothing changes exactly if its word is the one
that the register has. -/
theorem stepGood_bad_iff (hs : WdtInv s) (h : wdtStep ffpi s e = some t)
    (hmeant : e.meant s.timeout = none) (hreg : t.reg = wdtCall ffpi s.reg c)
    (htime : t.timeout = s.timeout) :
    WdtStepGood ffpi s e ↔ (wdtCall ffpi s.reg c).cr = s.reg.cr := by
  have hspec : CallSpec ffpi s.reg (wdtCall ffpi s.reg c) c := hs.spec c
  rw [← hreg] at hspec
  rw [stepGood_iff_kept h hmeant hspec.pair, hreg]
  exact and_iff_left htime

theorem wdtSwitch_cr {bit : Word} (hbit : bit = wdtCrLpen ∨ bit = wdtCrDsen) (r : WdtReg)
    (en : Word) : (wdtSwitch bit r en).cr = if en ≠ 0 then bit else 0 := by
  obtain ⟨w, -, heq⟩ := wdtSwitch_eq hbit r en
  rw [heq]

theorem wdtAlone_ioctl_iff (hs : WdtInv s) (cmd : WdtIoctl) :
    WdtAlone ffpi s (.ioctl cmd) ↔ WdtStepGood ffpi s (.ioctl cmd) := by
  have hstep : wdtStep ffpi s (.ioctl cmd) = some (wdtIoctl ffpi s cmd).2 := rfl
  cases cmd with
  | start arg =>
    cases arg with
    | copied v => exact stepGood_iff_call hs hstep rfl rfl
    | bad left =>
      rw [stepGood_iff_kept hstep rfl (.inl rfl)]
      exact (and_iff_right rfl).symm
  | stop => exact stepGood_iff_call hs hstep rfl rfl
  | ping =>
    by_cases hneg : s.timeout.toInt < 0
    · have hsame : (wdtIoctl ffpi s .ping).2 = s := by simp [wdtIoctl, hneg]
      have hmeant : (WdtEvent.ioctl .ping).meant s.timeout = none := by
        simp [WdtEvent.meant, hneg]
      rw [hsame] at hstep
      rw [stepGood_iff_kept hstep hmeant (.inl rfl)]
      refine iff_of_true ?_ ⟨rfl, rfl⟩
      intro c hc
      exact nomatch hmeant.symm.trans hc
    · have hmeant : (WdtEvent.ioctl .ping).meant s.timeout = some (.enable s.timeout) := by
        simp [WdtEvent.meant, hneg]
      refine stepGood_iff_call hs hstep hmeant ?_
      simp [wdtIoctl, hneg, wdtCall]
  | setPwl arg =>
    cases arg with
    | copied v => exact stepGood_iff_call hs hstep rfl rfl
    | bad left =>
      rw [stepGood_bad_iff (c := .prewarningLimit left) hs hstep rfl rfl rfl]
      exact ((wdtSetField_written pwlMask_bit (by decide) (by decide) hs.kept left).eq_iff rfl).symm
  | setDsen arg =>
    cases arg with
    | copied v => exact stepGood_iff_call hs hstep rfl rfl
    | bad left =>
      rw [stepGood_bad_iff (c := .debugSuspend left) hs hstep rfl rfl rfl, eq_comm]
      exact Iff.of_eq (congrArg (s.reg.cr = ·) (wdtSwitch_cr (.inr rfl) s.reg left).symm)
  | setLpen arg =>
    cases arg with
    | copied v => exact stepGood_iff_call hs hstep rfl rfl
    | bad left =>
      rw [stepGood_bad_iff (c := .lowPower left) hs hstep rfl rfl rfl, eq_comm]
      exact Iff.of_eq (congrArg (s.reg.cr = ·) (wdtSwitch_cr (.inl rfl) s.reg left).symm)
  | setClkdiv arg =>
    cases arg with
    | copied v => exact stepGood_iff_call hs hstep rfl rfl
    | bad left =>
      rw [stepGood_bad_iff (c := .setClkdiv left) hs hstep rfl rfl rfl]
      exact ((wdtSetField_written clkdivMask_bit (by decide) (by decide) hs.kept left).eq_iff rfl).symm
  | getStatus =>
    rw [stepGood_iff_kept hstep rfl (.inl rfl)]
    exact iff_of_true nofun ⟨rfl, rfl⟩

theorem wdtAlone_iff (hs : WdtInv s) : WdtAlone ffpi s e ↔ WdtStepGood ffpi s e := by
  cases e with
  | call c => exact stepGood_iff_call hs rfl rfl rfl
  | ioctl cmd => exact wdtAlone_ioctl_iff hs cmd

end Step

theorem wdt_settings_iff (ffpi cr : Word) (es : List WdtEvent) :
    RunMeets (wdtStep ffpi) (WdtAlone ffpi) (wdtInit cr) es ↔
      RunMeets (wdtStep ffpi) (WdtStepGood ffpi) (wdtInit cr) es :=
  runMeets_congr wdtAlone_iff (fun hs _ h => hs.step h) (WdtInv.init cr) es

/-- At 125 MHz a watchdog that runs for 32 s with the divider 262144 is stopped by the low-power bit. -/
theorem wdt_lowPower_stops :
    ¬ RunMeets (wdtStep 125000000) (WdtStepGood 125000000) (wdtInit 0)
      [.call (.setClkdiv 3), .call (.enable 32), .call (.lowPower 1)] := by
  intro h
  have hrun := ((h.2 _ rfl).2 _ rfl).1
  have hkeep := (hrun _ rfl).2.1.1
  revert hkeep
  decide +kernel

end DanubeBsp
