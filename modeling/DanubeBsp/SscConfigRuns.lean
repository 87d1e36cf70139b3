import DanubeBsp.SscConfig

namespace DanubeBsp

theorem not_zero_neg : ¬(0 : Int) < 0 := by decide

theorem SscConf.setBaud_fits {s : SscConf} {baud : Word} (hb : baud ≠ 0) (h : s.BaudFits baud) :
    s.setBaud baud = some ({ s with br := baudDivider s.getKernelClk baud }, 0) := by
  obtain ⟨hclk, hmax, hmaster⟩ := h
  rw [setBaud]
  simp only
  rw [if_neg hclk, if_neg hb, if_neg]
  rintro (hgt | ⟨hzero, hslave⟩)
  · exact absurd hgt (BitVec.not_lt.mpr hmax)
  · exact Bool.false_ne_true (hslave.symm.trans (hmaster hzero))

/-- A baud rate that does not fit leaves the controller disabled, unless it has no clock at all. -/
theorem SscConf.setBaud_unfit {s : SscConf} {baud : Word} (hb : baud ≠ 0) (h : ¬s.BaudFits baud) :
    s.setBaud baud =
      some ({ s with enabled := s.enabled && decide (s.getKernelClk = 0) }, eInval) := by
  rw [setBaud]
  simp only
  by_cases hclk : s.getKernelClk = 0
  · rw [if_pos hclk, hclk, decide_eq_true rfl, Bool.and_true]
  · rw [if_neg hclk, if_neg hb, if_pos, decide_eq_false hclk, Bool.and_false]
    by_contra hno
    rw [not_or, BitVec.not_lt] at hno
    refine h ⟨hclk, hno.1, fun hzero => ?_⟩
    by_contra hslave
    exact hno.2 ⟨hzero, Bool.not_eq_true _ ▸ hslave⟩

theorem SscHwopts.not_widthOk {opts : SscHwopts} :
    ¬opts.WidthOk ↔ opts.dataWidth < 2#6 ∨ 32#6 < opts.dataWidth := by
  rw [WidthOk, not_and_or, BitVec.not_le, BitVec.not_le]

theorem SscConf.sethwopts_bad {s : SscConf} (h : ¬s.opts.WidthOk) : s.sethwopts = (s, eInval) := by
  rw [sethwopts, if_pos (SscHwopts.not_widthOk.mp h)]

theorem SscConf.sethwopts_ok {s : SscConf} (h : s.opts.WidthOk) :
    s.sethwopts.2 = 0 ∧ s.sethwopts.1.con = s.opts.conBits ∧
      s.sethwopts.1.master = s.opts.masterSelect ∧ s.sethwopts.1.enabled = s.enabled ∧
      s.sethwopts.1.br = s.br ∧ s.sethwopts.1.baud = s.baud ∧ s.sethwopts.1.opts = s.opts ∧
      s.sethwopts.1.getKernelClk = s.getKernelClk := by
  have hno : ¬(s.opts.dataWidth < 2#6 ∨ 32#6 < s.opts.dataWidth) := fun hbad =>
    SscHwopts.not_widthOk.mpr hbad h
  rw [sethwopts, if_neg hno]
  exact ⟨rfl, rfl, rfl, rfl, rfl, rfl, rfl, rfl⟩

/-- How `ifx_ssc_hwinit` ends: it succeeds if the options and the baud rate fit, and otherwise it has
disabled the controller and, with a good width, written the control register. -/
theorem SscConf.hwinit_cases {s : SscConf} (hb : s.baud ≠ 0) :
    ∃ t ret, s.hwinit = some (t, ret) ∧ t.baud = s.baud ∧
      (s.HwoptsFit s.opts ∧ ret = 0 ∨
        ¬s.HwoptsFit s.opts ∧ ret = eInval ∧ t.enabled = false ∧ t.br = s.br ∧
          t.opts = s.opts ∧ t.con = if s.opts.WidthOk then s.opts.conBits else s.con) := by
  rw [hwinit]
  by_cases hw : s.opts.WidthOk
  · obtain ⟨hret, hcon, hmaster, hen, hbr, hbaud, hopts, hclk⟩ :=
      SscConf.sethwopts_ok (s := { s with enabled := false }) hw
    generalize SscConf.sethwopts { s with enabled := false } = r at *
    rw [hret, if_neg not_zero_neg]
    have hfit : r.1.BaudFits r.1.baud ↔ s.HwoptsFit s.opts := by
      rw [BaudFits, hclk, hbaud, hmaster, HwoptsFit]
      exact ⟨fun h => ⟨hw, h⟩, fun h => h.2⟩
    by_cases h : s.HwoptsFit s.opts
    · rw [SscConf.setBaud_fits (hbaud ▸ hb) (hfit.mpr h)]
      simp only [if_neg not_zero_neg]
      exact ⟨_, _, rfl, hbaud, Or.inl ⟨h, rfl⟩⟩
    · rw [SscConf.setBaud_unfit (hbaud ▸ hb) (fun hr => h (hfit.mp hr))]
      simp only [if_pos eInval_neg]
      refine ⟨_, _, rfl, hbaud, Or.inr ⟨h, rfl, ?_, hbr, hopts, ?_⟩⟩
      · show (r.1.enabled && _) = false
        rw [hen]
        rfl
      · rw [if_pos hw]
        exact hcon
  · rw [SscConf.sethwopts_bad (s := { s with enabled := false }) hw, if_pos eInval_neg]
    refine ⟨_, _, rfl, rfl, Or.inr ⟨fun h => hw h.1, rfl, rfl, rfl, rfl, ?_⟩⟩
    rw [if_neg hw]

theorem SscConf.Idle.refuses {s : SscConf} (h : s.Idle) : s.refuses = true := by
  rw [SscConf.refuses, h.1]
  rfl

theorem SscConf.safe_iff {s t : SscConf} {e : ConfEvent} {ret : Int} (h : s.call e = some (t, ret))
    (ioctl : Prop) :
    s.Safe e ioctl ↔ (ret ≠ 0 → SameConf s t) ∧ (ioctl → ret = 0 → s.Idle) ∧
      (ioctl → s.Idle → s.Valid e → ret = 0) := by
  constructor
  · intro ⟨u, r, hcall, hsafe⟩
    cases Option.some.inj (h.symm.trans hcall)
    exact hsafe
  · intro hsafe
    exact ⟨t, ret, h, hsafe⟩

/-- A refusal is safe, unless the port is idle and the value valid. -/
theorem SscConf.safe_of_refused {s : SscConf} {e : ConfEvent} (h : s.call e = some (s, eBusy)) :
    s.Safe e True ↔ ¬(s.Idle ∧ s.Valid e) := by
  rw [SscConf.safe_iff h]
  constructor
  · intro ⟨_, _, hvalid⟩ ⟨hidle, hv⟩
    exact absurd (hvalid trivial hidle hv) (by decide)
  · intro hno
    exact ⟨fun _ => .refl s, fun _ h0 => absurd h0 (by decide), fun _ hi hv => absurd ⟨hi, hv⟩ hno⟩

/-- A call that the test lets through meets a port that is not idle: it must fail, and leave the
configuration. -/
theorem SscConf.safe_of_admitted {s t : SscConf} {e : ConfEvent} {ret : Int}
    (href : s.refuses = false) (h : s.call e = some (t, ret)) :
    s.Safe e True ↔ ret ≠ 0 ∧ SameConf s t := by
  have hidle : ¬s.Idle := fun hi => Bool.false_ne_true (href.symm.trans hi.refuses)
  rw [SscConf.safe_iff h]
  constructor
  · intro ⟨hsame, hzero, _⟩
    have hne : ret ≠ 0 := fun h0 => hidle (hzero trivial h0)
    exact ⟨hne, hsame hne⟩
  · intro ⟨hne, hsame⟩
    exact ⟨fun _ => hsame, fun _ h0 => absurd h0 hne, fun _ hi => absurd hi hidle⟩

/-- When a call does what it shall. An ioctl that is refused must not be a valid one on an idle port;
one that the test lets through must fail without having changed anything; and an initialisation that
fails must find what it leaves. -/
def ConfGood (s : SscConf) (e : ConfEvent) : Prop :=
  match e with
  | .baudSet none => True
  | .baudSet (some baud) =>
    if s.refuses then ¬(s.Idle ∧ s.Valid e)
    else baud = 0 ∨ ¬s.BaudFits baud ∧ (s.getKernelClk = 0 ∨ s.enabled = false)
  | .hwoptsSet opts copied =>
    if s.refuses then ¬(s.Idle ∧ s.Valid e)
    else
      opts = s.opts ∧ (copied = true →
        s.enabled = false ∧ ¬s.HwoptsFit opts ∧ (opts.WidthOk → s.con = opts.conBits))
  | .hwinit =>
    s.HwoptsFit s.opts ∨ s.enabled = false ∧ (s.opts.WidthOk → s.con = s.opts.conBits)
  | .modeSet _ _ => True
  | .other _ => True

theorem baudSet_safe_iff (s : SscConf) (arg : Option Word) :
    s.Safe (.baudSet arg) True ↔ ConfGood s (.baudSet arg) := by
  by_cases href : s.refuses = true
  · have hcall : s.call (.baudSet arg) = some (s, eBusy) := by
      show s.baudSet arg = _
      unfold SscConf.baudSet
      rw [if_pos href]
    rw [SscConf.safe_of_refused hcall]
    cases arg with
    | none => exact iff_of_true (fun h => h.2) trivial
    | some baud => rw [ConfGood, if_pos href]
  · have hfalse := Bool.not_eq_true _ ▸ href
    cases arg with
    | none =>
      have hcall : s.call (.baudSet none) = some (s, eFault) := by
        show s.baudSet none = _
        rw [SscConf.baudSet, if_neg href]
      rw [SscConf.safe_of_admitted hfalse hcall]
      exact iff_of_true ⟨by decide, .refl s⟩ trivial
    | some baud =>
      rw [ConfGood, if_neg href]
      have hset : s.call (.baudSet (some baud)) = s.baudSet (some baud) := rfl
      rw [SscConf.baudSet, if_neg href] at hset
      by_cases hb : baud = 0
      · rw [if_pos hb] at hset
        rw [SscConf.safe_of_admitted hfalse hset]
        exact iff_of_true ⟨by decide, .refl s⟩ (Or.inl hb)
      · rw [if_neg hb] at hset
        by_cases hfit : s.BaudFits baud
        · rw [SscConf.setBaud_fits hb hfit] at hset
          simp only [if_neg not_zero_neg] at hset
          rw [SscConf.safe_of_admitted hfalse hset]
          exact iff_of_false (fun h => h.1 rfl) (by
            rintro (h | h)
            · exact hb h
            · exact h.1 hfit)
        · rw [SscConf.setBaud_unfit hb hfit] at hset
          simp only [if_pos eInval_neg] at hset
          rw [SscConf.safe_of_admitted hfalse hset]
          constructor
          · intro ⟨_, hsame⟩
            refine Or.inr ⟨hfit, ?_⟩
            by_cases hclk : s.getKernelClk = 0
            · exact Or.inl hclk
            · have hen := hsame.enabled
              simp only [hclk, decide_false, Bool.and_false] at hen
              exact Or.inr hen.symm
          · rintro (h | ⟨_, hclk | hen⟩)
            · exact absurd h hb
            · refine ⟨by decide, ?_, rfl, rfl, rfl, rfl⟩
              simp only [hclk, decide_true, Bool.and_true]
            · refine ⟨by decide, ?_, rfl, rfl, rfl, rfl⟩
              simp only [hen, Bool.false_and]

theorem hwoptsSet_safe_iff {s : SscConf} (hb : s.baud ≠ 0) (opts : SscHwopts) (copied : Bool) :
    s.Safe (.hwoptsSet opts copied) True ↔ ConfGood s (.hwoptsSet opts copied) := by
  rw [ConfGood]
  by_cases href : s.refuses = true
  · have hcall : s.call (.hwoptsSet opts copied) = some (s, eBusy) := by
      show s.hwoptsSet opts copied = _
      rw [SscConf.hwoptsSet, if_pos href]
    rw [SscConf.safe_of_refused hcall, if_pos href]
  · have hfalse := Bool.not_eq_true _ ▸ href
    have hset : s.call (.hwoptsSet opts copied) = s.hwoptsSet opts copied := rfl
    rw [if_neg href]
    rw [SscConf.hwoptsSet, if_neg href] at hset
    cases copied with
    | false =>
      have hcall : s.call (.hwoptsSet opts false) = some ({ s with opts := opts }, eFault) := hset
      rw [SscConf.safe_of_admitted hfalse hcall]
      constructor
      · intro ⟨_, hsame⟩
        exact ⟨hsame.opts, fun h => absurd h Bool.false_ne_true⟩
      · intro ⟨hopts, _⟩
        exact ⟨by decide, rfl, rfl, rfl, rfl, hopts⟩
    | true =>
      obtain ⟨t, ret, hinit, hbaud, hcases⟩ :=
        SscConf.hwinit_cases (s := { s with opts := opts }) hb
      simp only [Bool.not_true, if_neg Bool.false_ne_true, hinit] at hset
      rcases hcases with ⟨hfit, rfl⟩ | ⟨hfit, rfl, hen, hbr, hopts, hcon⟩
      · rw [if_neg not_zero_neg] at hset
        rw [SscConf.safe_of_admitted hfalse hset]
        exact iff_of_false (fun h => h.1 rfl) (fun h => (h.2 rfl).2.1 hfit)
      · rw [if_pos eInval_neg] at hset
        rw [SscConf.safe_of_admitted hfalse hset]
        simp only at hopts hcon
        constructor
        · intro ⟨_, hsame⟩
          refine ⟨hopts.symm.trans hsame.opts, fun _ => ⟨hsame.enabled.symm.trans hen, hfit, ?_⟩⟩
          intro hw
          rw [if_pos hw] at hcon
          exact hsame.con.symm.trans hcon
        · intro ⟨heq, hrest⟩
          obtain ⟨hen', _, hcon'⟩ := hrest rfl
          refine ⟨by decide, hen.trans hen'.symm, hbr, ?_, hbaud, hopts.trans heq⟩
          by_cases hw : opts.WidthOk
          · rw [if_pos hw] at hcon
            exact hcon.trans (hcon' hw).symm
          · rw [if_neg hw] at hcon
            exact hcon

theorem hwinit_safe_iff {s : SscConf} (hb : s.baud ≠ 0) :
    s.Safe .hwinit False ↔ ConfGood s .hwinit := by
  obtain ⟨t, ret, hinit, hbaud, hcases⟩ := SscConf.hwinit_cases hb
  rw [SscConf.safe_iff (show s.call .hwinit = some (t, ret) from hinit), ConfGood]
  rcases hcases with ⟨hfit, rfl⟩ | ⟨hfit, rfl, hen, hbr, hopts, hcon⟩
  · exact iff_of_true ⟨fun h => absurd rfl h, fun h => h.elim, fun h => h.elim⟩ (Or.inl hfit)
  · constructor
    · intro ⟨hkept, _⟩
      have hsame := hkept (by decide)
      refine Or.inr ⟨hsame.enabled.symm.trans hen, fun hw => ?_⟩
      rw [if_pos hw] at hcon
      exact hsame.con.symm.trans hcon
    · rintro (h | ⟨hen', hcon'⟩)
      · exact absurd h hfit
      · refine ⟨fun _ => ⟨hen.trans hen'.symm, hbr, ?_, hbaud, hopts⟩, fun h => h.elim,
          fun h => h.elim⟩
        by_cases hw : s.opts.WidthOk
        · rw [if_pos hw] at hcon
          exact hcon.trans (hcon' hw).symm
        · rw [if_neg hw] at hcon
          exact hcon

theorem confOk_iff {s : SscConf} {e : ConfEvent} (hb : s.baud ≠ 0) :
    ConfOk s e ↔ ConfGood s e := by
  cases e with
  | baudSet arg => exact baudSet_safe_iff s arg
  | hwoptsSet opts copied => exact hwoptsSet_safe_iff hb opts copied
  | hwinit => exact hwinit_safe_iff hb
  | modeSet val todo => exact Iff.rfl
  | other t => exact Iff.rfl

/-- No call takes a baud rate of 0, so that none divides by it. -/
theorem SscConf.call_baud {s t : SscConf} {e : ConfEvent} {ret : Int} (hb : s.baud ≠ 0)
    (h : s.call e = some (t, ret)) : t.baud ≠ 0 := by
  cases e with
  | baudSet arg =>
    change s.baudSet arg = _ at h
    unfold SscConf.baudSet at h
    by_cases href : s.refuses = true
    · rw [if_pos href] at h
      cases Option.some.inj h
      exact hb
    · rw [if_neg href] at h
      cases arg with
      | none =>
        cases Option.some.inj h
        exact hb
      | some baud =>
        simp only at h
        by_cases hzero : baud = 0
        · rw [if_pos hzero] at h
          cases Option.some.inj h
          exact hb
        · rw [if_neg hzero] at h
          by_cases hfit : s.BaudFits baud
          · rw [SscConf.setBaud_fits hzero hfit] at h
            cases Option.some.inj h
            exact hzero
          · rw [SscConf.setBaud_unfit hzero hfit] at h
            cases Option.some.inj h
            exact hb
  | hwoptsSet opts copied =>
    change s.hwoptsSet opts copied = _ at h
    unfold SscConf.hwoptsSet at h
    by_cases href : s.refuses = true
    · rw [if_pos href] at h
      cases Option.some.inj h
      exact hb
    · rw [if_neg href] at h
      obtain ⟨u, code, hinit, hbaud, -⟩ := SscConf.hwinit_cases (s := { s with opts := opts }) hb
      simp only [hinit] at h
      cases copied with
      | false =>
        cases Option.some.inj h
        exact hb
      | true =>
        by_cases hneg : code < 0
        · simp only [Bool.not_true, if_neg Bool.false_ne_true, if_pos hneg] at h
          cases Option.some.inj h
          exact hbaud ▸ hb
        · simp only [Bool.not_true, if_neg Bool.false_ne_true, if_neg hneg] at h
          cases Option.some.inj h
          exact hbaud ▸ hb
  | hwinit =>
    obtain ⟨u, code, hinit, hbaud, -⟩ := SscConf.hwinit_cases hb
    cases Option.some.inj (hinit.symm.trans h)
    exact hbaud ▸ hb
  | modeSet val todo =>
    have ht : (s.modeSet val todo).1 = t := congrArg Prod.fst (Option.some.inj h)
    rw [← ht, SscConf.modeSet]
    by_cases hval : val &&& ~~~3#32 ≠ 0
    · rw [if_pos hval]
      exact hb
    · rw [if_neg hval]
      by_cases hbusy : (s.busy || todo) = true
      · rw [if_pos hbusy]
        exact hb
      · rw [if_neg hbusy]
        exact hb
  | other u =>
    cases Option.some.inj h
    exact hb

theorem confStep_baud {s t : SscConf} {e : ConfEvent} (hb : s.baud ≠ 0)
    (h : confStep s e = some t) : t.baud ≠ 0 := by
  obtain ⟨⟨u, ret⟩, hcall, rfl⟩ := Option.map_eq_some_iff.mp h
  exact SscConf.call_baud hb hcall

/-- Along a run from the start of the driver, whatever happens in between, all calls do what they
shall exactly if each meets its condition. -/
theorem ssc_reconfigure_iff (fpiHz : Word) (es : List ConfEvent) :
    RunMeets confStep ConfOk (sscConfStart fpiHz) es ↔
      RunMeets confStep ConfGood (sscConfStart fpiHz) es := by
  have hstart : (sscConfStart fpiHz).baud ≠ 0 := show 2000000#32 ≠ 0#32 by decide
  exact runMeets_congr (fun {s _} (hb : s.baud ≠ 0) => confOk_iff hb)
    (fun hb _ h => confStep_baud hb h) hstart es

/-- The port as `ifx_ssc_init` leaves it, and a baud rate of one megahertz. -/
theorem ssc_idle_port_refused :
    ¬∀ (fpiHz : Word) (es : List ConfEvent), RunMeets confStep ConfOk (sscConfStart fpiHz) es := by
  intro h
  have hrun := h 133333333#32 [.hwinit, .baudSet (some 1000000#32)]
  obtain ⟨t, ht⟩ : ∃ t, confStep (sscConfStart 133333333#32) .hwinit = some t := ⟨_, rfl⟩
  have hok := (hrun.2 t ht).1
  cases Option.some.inj ht
  obtain ⟨u, ret, hcall, -, -, haccepts⟩ := hok
  have hzero : ret = 0 := haccepts trivial (by decide) ⟨by decide, by decide⟩
  cases Option.some.inj hcall
  exact absurd hzero (by decide)

end DanubeBsp
