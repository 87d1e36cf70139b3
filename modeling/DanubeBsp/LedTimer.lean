import DanubeBsp.GptuRuns
import DanubeBsp.Led

namespace DanubeBsp

/-- The last command to the timer was its start. -/
def TimerDev.Running (dev : TimerDev) (a : TimerAlloc) : Prop :=
  (dev.runReg (timerReg a.base)).getLsbD 0 = true

theorem GptuSys.call_inv {s : GptuSys} (h : GptuInv s) (findTaskByPid : Word → Word)
    (c : GptuCall) : GptuInv (s.call findTaskByPid c).1 :=
  @gptuStep_inv findTaskByPid s _ c h rfl

theorem timerReg_inj {t u : Nat} (h : timerReg t = timerReg u) : t = u := by
  simp only [timerReg, Prod.mk.injEq] at h
  omega

/-- The timer stays allocated, and neither stops nor changes its reload value. -/
structure TimerKept (s t : GptuSys) (a : TimerAlloc) : Prop where
  live : a ∈ t.live
  runReg : t.dev.runReg (timerReg a.base) = s.dev.runReg (timerReg a.base)
  reload : t.dev.reload (timerReg a.base) = s.dev.reload (timerReg a.base)

theorem TimerKept.running {s t : GptuSys} {a : TimerAlloc} (h : TimerKept s t a)
    (hr : s.dev.Running a) : t.dev.Running a := by
  unfold TimerDev.Running
  rw [h.runReg]
  exact hr

theorem gptuOffIfUnused_regs (dev : TimerDev) :
    (gptuOffIfUnused dev).runReg = dev.runReg ∧ (gptuOffIfUnused dev).reload = dev.reload := by
  unfold gptuOffIfUnused
  split
  next => exact ⟨rfl, rfl⟩
  next => exact ⟨rfl, rfl⟩

theorem released_regs (dev : TimerDev) (t : Nat) (mask : Word) (runReg : Nat × Nat → Word) :
    (released dev t mask runReg).runReg = runReg ∧
      (released dev t mask runReg).reload = dev.reload := by
  unfold released disableTimerIrq
  dsimp only
  split
  next => exact ⟨rfl, rfl⟩
  next => exact ⟨rfl, rfl⟩

theorem GptuInv.base_ne {s : GptuSys} (h : GptuInv s) {a b : TimerAlloc} (ha : a ∈ s.live)
    (hb : b ∈ s.live) {timer : Nat} (hat : a.covers timer = false) (hbt : b.covers timer = true) :
    timerReg a.base ≠ timerReg b.base := by
  intro heq
  have hbase := timerReg_inj heq
  have hcov := a.covers_base
  rw [hbase] at hcov
  have hab := h.covers_unique ha hb hcov b.covers_base
  rw [hab, hbt] at hat
  exact absurd hat Bool.true_eq_false.mp

theorem GptuInv.run_kept {s : GptuSys} (h : GptuInv s) {a : TimerAlloc} (ha : a ∈ s.live)
    {timer t : Nat} {mask : Word} (hat : a.covers timer = false)
    (hocc : occupiedTimer s.dev timer = some (t, mask)) (w : Word) :
    Function.update s.dev.runReg (timerReg t) w (timerReg a.base) =
      s.dev.runReg (timerReg a.base) := by
  by_cases hex : ∃ b ∈ s.live, b.covers timer = true
  · obtain ⟨b, hb, hbt⟩ := hex
    obtain ⟨flag, -, hb'⟩ := h.occupiedTimer_live hb hbt
    rw [hocc] at hb'
    cases Option.some.inj hb'
    exact Function.update_of_ne (h.base_ne ha hb hat hbt) _ _
  · have hno : ∀ b ∈ s.live, b.covers timer = false := by
      intro b hb
      by_contra hc
      exact hex ⟨b, hb, Bool.eq_true_of_not_eq_false hc⟩
    rw [h.occupiedTimer_free hno] at hocc
    cases hocc

theorem GptuInv.call_kept {s : GptuSys} (h : GptuInv s) {a : TimerAlloc} (ha : a ∈ s.live)
    (findTaskByPid : Word → Word) {c : GptuCall} (hc : c.touches a = false) :
    TimerKept s (s.call findTaskByPid c).1 a := by
  cases c with
  | request timer flag value arg1 arg2 =>
    obtain ⟨hsame, herr⟩ | ⟨t, ret, arg, clc, reg, on, con, reload, heq, ⟨_, ht'⟩, _, hfree, _, _,
        hreload⟩ := requestTimer_cases findTaskByPid timer flag value arg1 arg2 h.even
    · simp only [GptuSys.call, gptuCall, hsame]
      simp only [List.mem_cons, List.not_mem_nil, or_false] at herr
      obtain herr | herr := herr
      · rw [herr]
        exact ⟨ha, rfl, rfl⟩
      · rw [herr]
        exact ⟨ha, rfl, rfl⟩
    · have hne : timerReg a.base ≠ timerReg t := by
        intro hreg
        have hno := h.new_disjoint ht' hfree ha (TimerAlloc.covers_base ⟨t, !is16bit flag⟩)
        have hyes := a.covers_base
        rw [timerReg_inj hreg, hno] at hyes
        exact absurd hyes Bool.false_ne_true
      simp only [GptuSys.call, gptuCall, heq]
      refine ⟨List.mem_cons_of_mem _ ha, rfl, ?_⟩
      simp only [hreload]
      exact Function.update_of_ne hne _ _
  | free timer en =>
    obtain ⟨b, hb, hbt, flag, runReg, _, hrun, heq⟩ | ⟨-, heq⟩ := h.freeTimer_spec timer en
    · simp only [GptuSys.call, gptuCall, heq]
      obtain ⟨hoffRun, hoffReload⟩ :=
        gptuOffIfUnused_regs (released s.dev b.base (timerMask flag b.base) runReg)
      obtain ⟨hrelRun, hrelReload⟩ :=
        released_regs s.dev b.base (timerMask flag b.base) runReg
      refine ⟨?_, ?_, ?_⟩
      · refine List.mem_filter.mpr ⟨ha, ?_⟩
        rw [Bool.not_eq_true']
        exact hc
      · rw [hoffRun, hrelRun]
        exact hrun _ (h.base_ne ha hb hc hbt)
      · rw [hoffReload, hrelReload]
    · simp only [GptuSys.call, gptuCall, heq]
      exact ⟨ha, rfl, rfl⟩
  | start timer isResume =>
    simp only [GptuSys.call, gptuCall, startTimer]
    split
    next => exact ⟨ha, rfl, rfl⟩
    next t mask hocc => exact ⟨ha, h.run_kept ha hc hocc _, rfl⟩
  | stop timer =>
    simp only [GptuSys.call, gptuCall, stopTimer]
    split
    next => exact ⟨ha, rfl, rfl⟩
    next t mask hocc => exact ⟨ha, h.run_kept ha hc hocc _, rfl⟩
  | getCount timer count =>
    simp only [GptuSys.call, gptuCall]
    refine ⟨?_, rfl, rfl⟩
    cases (getCountValue s.dev timer count).1 <;> exact ha

theorem GptuSys.call_numberOfTimers {s : GptuSys} (h : GptuInv s) (findTaskByPid : Word → Word)
    (c : GptuCall) : (s.call findTaskByPid c).1.dev.numberOfTimers = s.dev.numberOfTimers := by
  cases c with
  | request timer flag value arg1 arg2 =>
    obtain ⟨hsame, -⟩ | ⟨t, ret, arg, clc, reg, on, con, reload, heq, -⟩ :=
      requestTimer_cases findTaskByPid timer flag value arg1 arg2 h.even
    · simp only [GptuSys.call, gptuCall, hsame]
    · simp only [GptuSys.call, gptuCall, heq]
      rfl
  | free timer en =>
    obtain ⟨b, _, _, flag, runReg, _, _, heq⟩ | ⟨-, heq⟩ := h.freeTimer_spec timer en
    · simp only [GptuSys.call, gptuCall, heq]
      exact (gptuOffIfUnused_rest _).1.trans (released_rest _ _ _ _).1
    · simp only [GptuSys.call, gptuCall, heq]
  | start timer isResume =>
    simp only [GptuSys.call, gptuCall, startTimer]
    split <;> rfl
  | stop timer =>
    simp only [GptuSys.call, gptuCall, stopTimer]
    split <;> rfl
  | getCount timer count => rfl

/-- What the calls of the timer driver leave of the whole. -/
structure LedTimerFrame (s t : LedSys) : Prop where
  led : t.led = s.led
  gpio : t.gpio = s.gpio
  reqFreq : t.reqFreq = s.reqFreq
  inv : GptuInv t.gptu
  count : t.gptu.dev.numberOfTimers = s.gptu.dev.numberOfTimers

theorem LedTimerFrame.refl {s : LedSys} (h : GptuInv s.gptu) : LedTimerFrame s s :=
  ⟨rfl, rfl, rfl, h, rfl⟩

theorem LedTimerFrame.trans {s t u : LedSys} (h : LedTimerFrame s t) (h' : LedTimerFrame t u) :
    LedTimerFrame s u :=
  ⟨h'.led.trans h.led, h'.gpio.trans h.gpio, h'.reqFreq.trans h.reqFreq, h'.inv,
    h'.count.trans h.count⟩

section Calls

variable (board : LedBoard) {s : LedSys}

theorem LedSys.timerCall_frame (h : GptuInv s.gptu) (c : GptuCall) :
    LedTimerFrame s (s.timerCall board c).1 :=
  ⟨rfl, rfl, rfl, GptuSys.call_inv h _ c, GptuSys.call_numberOfTimers h _ c⟩

theorem LedSys.freeTimer_frame (h : GptuInv s.gptu) (timer : Nat) (o : LedServices) :
    LedTimerFrame s (s.freeTimer board timer o) := by
  have hcall := s.timerCall_frame board h (.free timer o.timerEnabled)
  unfold LedSys.freeTimer
  dsimp only
  split_ifs
  · exact hcall
  · exact ⟨hcall.led, hcall.gpio, hcall.reqFreq, hcall.inv, hcall.count⟩
  · exact ⟨hcall.led, hcall.gpio, hcall.reqFreq, hcall.inv, hcall.count⟩

theorem LedSys.freeTimer_live (h : GptuInv s.gptu) {timer : Nat} {a : TimerAlloc}
    (ha : a ∈ s.gptu.live) (hc : a.covers timer = true) (o : LedServices) :
    (s.freeTimer board timer o).gptu.live = s.gptu.live.filter (fun b => !b.covers timer) ∧
      (s.freeTimer board timer o).mine = (if s.mine.any (·.covers timer) then none else s.mine) ∧
      (s.freeTimer board timer o).foreign = (s.foreign || !s.mine.any (·.covers timer)) := by
  obtain ⟨b, hb, hbt, flag, runReg, _, _, heq⟩ | ⟨hno, -⟩ := h.freeTimer_spec timer o.timerEnabled
  · simp only [LedSys.freeTimer, LedSys.timerCall, GptuSys.call, gptuCall, heq, GptuResult.ret]
    cases s.mine.any (·.covers timer) with
    | false => exact ⟨rfl, rfl, (Bool.or_true _).symm⟩
    | true => exact ⟨rfl, rfl, (Bool.or_false _).symm⟩
  · exact absurd (hc.symm.trans (hno a ha)) Bool.true_eq_false.mp

theorem LedSys.freeTimer_none (h : GptuInv s.gptu) {timer : Nat}
    (hno : ∀ a ∈ s.gptu.live, a.covers timer = false) (o : LedServices) :
    s.freeTimer board timer o = s := by
  simp only [LedSys.freeTimer, LedSys.timerCall, GptuSys.call, gptuCall, DanubeBsp.freeTimer,
    h.occupiedTimer_free hno, GptuResult.ret, eInval]
  rfl

theorem LedSys.releaseGpt_frame (h : GptuInv s.gptu) (o : LedServices) :
    LedTimerFrame s (s.releaseGpt board 2 o) := by
  have hstop := s.timerCall_frame board h (.stop (timerIndex 2 false))
  exact hstop.trans (LedSys.freeTimer_frame board hstop.inv _ o)

/-- What `release_gpt` frees is what covers timer 2A. -/
theorem LedSys.releaseGpt_live (h : GptuInv s.gptu) {a : TimerAlloc} (ha : a ∈ s.gptu.live)
    (hc : a.covers 4 = true) (o : LedServices) :
    (s.releaseGpt board 2 o).gptu.live = s.gptu.live.filter (fun b => !b.covers 4) ∧
      (s.releaseGpt board 2 o).mine = (if s.mine.any (·.covers 4) then none else s.mine) ∧
      (s.releaseGpt board 2 o).foreign = (s.foreign || !s.mine.any (·.covers 4)) := by
  have hstop := s.timerCall_frame board h (.stop (timerIndex 2 false))
  exact LedSys.freeTimer_live board hstop.inv (s := (s.timerCall board (.stop 4)).1) ha hc o

theorem LedSys.releaseGpt_none (h : GptuInv s.gptu)
    (hno : ∀ a ∈ s.gptu.live, a.covers 4 = false) (o : LedServices) :
    s.releaseGpt board 2 o = s := by
  have hstop : (s.timerCall board (.stop 4)).1 = s := by
    simp only [LedSys.timerCall, GptuSys.call, gptuCall, stopTimer, h.occupiedTimer_free hno]
    rfl
  unfold LedSys.releaseGpt
  show (s.timerCall board (.stop 4)).1.freeTimer board 4 o = s
  rw [hstop]
  exact LedSys.freeTimer_none board h hno o

end Calls

/-- What a request for timer 2B with this divider gets: the 16-bit timer, or the pair. -/
def ledAlloc (divider : Word) : TimerAlloc :=
  if divider &&& ~~~0xffff#32 = 0 then ⟨5, false⟩ else ⟨4, true⟩

/-- Timer 2B exists, and nobody holds what the request would get. -/
def GptuSys.HasFree (g : GptuSys) (divider : Word) : Prop :=
  5 < firstTimer + g.dev.numberOfTimers ∧
    ∀ b ∈ g.live, ∀ j, (ledAlloc divider).covers j = true → b.covers j = false

theorem ledAlloc_shape (divider : Word) :
    ledAlloc divider = ⟨5, false⟩ ∨ ledAlloc divider = ⟨4, true⟩ := by
  unfold ledAlloc
  split
  next => exact .inl rfl
  next => exact .inr rfl

theorem ledAlloc_covers (divider : Word) : (ledAlloc divider).covers 5 = true := by
  obtain h | h := ledAlloc_shape divider
  · rw [h]
    rfl
  · rw [h]
    rfl

theorem timerBase_five (flag : Word) : 4 ≤ timerBase flag 5 ∧ timerBase flag 5 ≤ 5 := by
  unfold timerBase
  split
  next => exact ⟨by decide, by decide⟩
  next => exact ⟨by decide, by decide⟩

theorem setTimerFlag_alloc (divider : Word) :
    (⟨timerBase (setTimerFlag divider true false timerFlagNoHandle) 5,
      !is16bit (setTimerFlag divider true false timerFlagNoHandle)⟩ : TimerAlloc) =
        ledAlloc divider := by
  unfold setTimerFlag ledAlloc
  by_cases h : divider &&& ~~~0xffff#32 = 0
  · rw [if_neg (not_not.mpr h), if_pos h]
    decide
  · rw [if_pos h, if_neg h]
    decide

theorem GptuInv.mask_free {g : GptuSys} (h : GptuInv g) {t : Nat} (ht : t < 31) (flag : Word) :
    g.dev.occupation &&& timerMask flag t = 0 ↔
      ∀ b ∈ g.live, ∀ j, (TimerAlloc.mk t (!is16bit flag)).covers j = true → b.covers j = false := by
  rw [and_eq_zero_iff]
  constructor
  · intro hz b hb j hj
    by_contra hc
    have hocc := (h.bits j).mpr ⟨b, hb, Bool.eq_true_of_not_eq_false hc⟩
    have hmask := hz j hocc
    rw [getLsbD_timerMask ht, hj] at hmask
    exact absurd hmask Bool.true_eq_false.mp
  · intro hno j hocc
    obtain ⟨b, hb, hbj⟩ := (h.bits j).mp hocc
    rw [getLsbD_timerMask ht]
    by_contra hc
    have hfree := hno b hb j (Bool.eq_true_of_not_eq_false hc)
    exact absurd (hbj.symm.trans hfree) Bool.true_eq_false.mp

theorem allocTimer_named (dev : TimerDev) {timer : Nat} (flag : Word) (h : firstTimer ≤ timer) :
    allocTimer dev timer flag =
      if dev.occupation &&& timerMask flag timer ≠ 0 then none else some (timer, 0) := by
  unfold allocTimer
  rw [if_neg (Nat.not_lt.mpr h)]

section Request

variable (findTaskByPid : Word → Word) {dev : TimerDev} {timer : Nat} {flag : Word}

theorem requestTimer_taken (value arg1 arg2 : Word) (hlow : firstTimer ≤ timerBase flag timer)
    (h : ¬(timer < firstTimer + dev.numberOfTimers ∧
      dev.occupation &&& timerMask flag (timerBase flag timer) = 0)) :
    requestTimer findTaskByPid dev timer flag value arg1 arg2 = (.einval, dev) ∨
      requestTimer findTaskByPid dev timer flag value arg1 arg2 = (.ebusy, dev) := by
  unfold requestTimer
  split
  next => exact .inl rfl
  next hlt =>
    dsimp only
    have hocc : dev.occupation &&& timerMask flag (timerBase flag timer) ≠ 0 := by
      intro hz
      exact h ⟨by omega, hz⟩
    rw [allocTimer_named dev flag hlow, if_pos hocc]
    exact .inr rfl

theorem requestTimer_free (value arg1 arg2 : Word) (hlow : firstTimer ≤ timerBase flag timer)
    (hlt : timer < firstTimer + dev.numberOfTimers)
    (hfree : dev.occupation &&& timerMask flag (timerBase flag timer) = 0) :
    ∃ dev', requestTimer findTaskByPid dev timer flag value arg1 arg2 = (.ok 0, dev') ∧
      dev'.reload (timerReg (timerBase flag timer)) =
        if is16bit flag then value &&& 0xffff#32 else value := by
  unfold requestTimer
  rw [if_neg (by omega)]
  dsimp only
  rw [allocTimer_named dev flag hlow, if_neg (not_not.mpr hfree)]
  obtain ⟨clc, hclc⟩ := gptuOn_eq (fillTimer dev (timerBase flag timer) flag arg1 arg2)
  obtain ⟨arg, on, reg, hirq, -⟩ := enableTimerIrq_cases findTaskByPid
    { fillTimer dev (timerBase flag timer) flag arg1 arg2 with fGptuOn := true, clc }
    (timerBase flag timer) flag arg1
  dsimp only at hirq ⊢
  rw [hclc, hirq]
  exact ⟨_, rfl, Function.update_self _ _ _⟩

end Request

theorem ledAlloc_reload (divider : Word) :
    (if is16bit (setTimerFlag divider true false timerFlagNoHandle) then divider &&& 0xffff#32
      else divider) = divider := by
  have halloc := congrArg TimerAlloc.is32 (setTimerFlag_alloc divider)
  dsimp only at halloc
  split
  next h16 =>
    rw [h16] at halloc
    have hz : divider &&& ~~~0xffff#32 = 0 := by
      by_contra hne
      rw [ledAlloc, if_neg hne] at halloc
      cases halloc
    calc divider &&& 0xffff#32 = divider &&& 0xffff#32 ||| divider &&& ~~~0xffff#32 := by
          rw [hz]
          exact BitVec.or_zero.symm
      _ = divider &&& (0xffff#32 ||| ~~~0xffff#32) := by rw [BitVec.and_or_distrib_left]
      _ = divider := by
        show divider &&& BitVec.allOnes 32 = divider
        exact BitVec.and_allOnes
  next => rfl

theorem GptuSys.request_free {g : GptuSys} (h : GptuInv g) (findTaskByPid : Word → Word)
    {divider : Word} (hfree : g.HasFree divider) :
    ∃ g', g.call findTaskByPid (.request 5
        (setTimerFlag divider true false timerFlagNoHandle) divider 0 0) = (g', .ok 0) ∧
      g'.live = ledAlloc divider :: g.live ∧
      g'.dev.reload (timerReg (ledAlloc divider).base) = divider := by
  have halloc := setTimerFlag_alloc divider
  have hreload := ledAlloc_reload divider
  obtain ⟨hlt, hno⟩ := hfree
  rw [← halloc] at hno ⊢
  have hrange := timerBase_five (setTimerFlag divider true false timerFlagNoHandle)
  generalize setTimerFlag divider true false timerFlagNoHandle = flag at hreload hrange hno ⊢
  have hmask := (h.mask_free (by omega) flag).mpr hno
  obtain ⟨dev', heq, hval⟩ := requestTimer_free findTaskByPid divider 0 0
    (by simp only [firstTimer]; omega) hlt hmask
  refine ⟨⟨dev', ⟨timerBase flag 5, !is16bit flag⟩ :: g.live⟩, ?_, rfl, hval.trans hreload⟩
  simp only [GptuSys.call, gptuCall, heq, liveAfter, if_true]

theorem GptuSys.request_taken {g : GptuSys} (h : GptuInv g) (findTaskByPid : Word → Word)
    {divider : Word} (hfree : ¬g.HasFree divider) :
    ∃ r, g.call findTaskByPid (.request 5
        (setTimerFlag divider true false timerFlagNoHandle) divider 0 0) = (g, r) ∧ r.ret ≠ 0 := by
  have halloc := setTimerFlag_alloc divider
  unfold GptuSys.HasFree at hfree
  rw [← halloc] at hfree
  have hrange := timerBase_five (setTimerFlag divider true false timerFlagNoHandle)
  generalize setTimerFlag divider true false timerFlagNoHandle = flag at hrange hfree ⊢
  rw [← h.mask_free (by omega) flag] at hfree
  obtain heq | heq := requestTimer_taken findTaskByPid divider 0 0
    (by simp only [firstTimer]; omega) hfree
  · refine ⟨.einval, ?_, by decide⟩
    simp only [GptuSys.call, gptuCall, heq, liveAfter]
  · refine ⟨.ebusy, ?_, by decide⟩
    simp only [GptuSys.call, gptuCall, heq, liveAfter]

/-- The driver holds a timer that runs. -/
def LedSys.Holds (s : LedSys) : Prop :=
  ∃ a, s.mine = some a ∧ a ∈ s.gptu.live ∧ s.gptu.dev.Running a

/-- The driver holds a timer that runs at this frequency. -/
def LedSys.HoldsAt (board : LedBoard) (s : LedSys) (freq : Word) : Prop :=
  ∃ a, s.mine = some a ∧ a ∈ s.gptu.live ∧ s.gptu.dev.Running a ∧
    s.gptu.dev.reload (timerReg a.base) = calDivider board.fpiBusClock freq

/-- `setup_gpt` can get the timer for this frequency. -/
def LedSys.Grants (board : LedBoard) (s : LedSys) (freq : Word) (o : LedServices) : Prop :=
  o.refuseSetTimer = false ∧ o.refuseStartTimer = false ∧
    calDivider board.fpiBusClock freq ≠ 0 ∧ s.gptu.HasFree (calDivider board.fpiBusClock freq)

theorem timerIndex_two_true : timerIndex 2 true = 5 := rfl

theorem eBusy_ne_zero : eBusy ≠ 0 := by decide

section Setup

variable (board : LedBoard) {s : LedSys}

theorem LedSys.setTimer_free (h : GptuInv s.gptu) {freq : Word} {o : LedServices}
    (hset : o.refuseSetTimer = false) (hd : calDivider board.fpiBusClock freq ≠ 0)
    (hfree : s.gptu.HasFree (calDivider board.fpiBusClock freq)) :
    ∃ g, s.setTimer board 5 freq o =
        ({ s with gptu := g, mine := some (ledAlloc (calDivider board.fpiBusClock freq)) }, 0) ∧
      GptuInv g ∧ g.dev.numberOfTimers = s.gptu.dev.numberOfTimers ∧
      g.live = ledAlloc (calDivider board.fpiBusClock freq) :: s.gptu.live ∧
      g.dev.reload (timerReg (ledAlloc (calDivider board.fpiBusClock freq)).base) =
        calDivider board.fpiBusClock freq := by
  obtain ⟨g, heq, hlive, hreload⟩ := GptuSys.request_free h board.findTaskByPid hfree
  have hinv := GptuSys.call_inv h board.findTaskByPid (.request 5
    (setTimerFlag (calDivider board.fpiBusClock freq) true false timerFlagNoHandle)
    (calDivider board.fpiBusClock freq) 0 0)
  have hcount := GptuSys.call_numberOfTimers h board.findTaskByPid (.request 5
    (setTimerFlag (calDivider board.fpiBusClock freq) true false timerFlagNoHandle)
    (calDivider board.fpiBusClock freq) 0 0)
  rw [heq] at hinv hcount
  refine ⟨g, ?_, hinv, hcount, hlive, hreload⟩
  simp only [LedSys.setTimer, hset, GptuSys.setTimer, if_neg hd, heq, GptuResult.ret, hlive]
  rfl

theorem LedSys.setTimer_fails (h : GptuInv s.gptu) {freq : Word} {o : LedServices}
    (hno : ¬(o.refuseSetTimer = false ∧ calDivider board.fpiBusClock freq ≠ 0 ∧
      s.gptu.HasFree (calDivider board.fpiBusClock freq))) :
    ∃ ret, s.setTimer board 5 freq o = (s, ret) ∧ ret ≠ 0 := by
  unfold LedSys.setTimer
  cases hset : o.refuseSetTimer with
  | true => exact ⟨eBusy, rfl, by decide⟩
  | false =>
    by_cases hd : calDivider board.fpiBusClock freq = 0
    · simp only [GptuSys.setTimer, if_pos hd]
      exact ⟨eInval, rfl, by decide⟩
    · have hfree : ¬s.gptu.HasFree (calDivider board.fpiBusClock freq) := by
        intro hf
        exact hno ⟨hset, hd, hf⟩
      obtain ⟨r, heq, hr⟩ := GptuSys.request_taken h board.findTaskByPid hfree
      simp only [GptuSys.setTimer, if_neg hd, heq, if_pos hr]
      exact ⟨r.ret, rfl, hr⟩

theorem LedSys.startTimer_live (h : GptuInv s.gptu) {a : TimerAlloc} (ha : a ∈ s.gptu.live)
    {timer : Nat} (hc : a.covers timer = true) {o : LedServices}
    (hstart : o.refuseStartTimer = false) :
    ∃ g, s.startTimer board timer o = ({ s with gptu := g }, 0) ∧ GptuInv g ∧
      g.dev.numberOfTimers = s.gptu.dev.numberOfTimers ∧ g.live = s.gptu.live ∧
      g.dev.Running a ∧ g.dev.reload = s.gptu.dev.reload := by
  obtain ⟨flag, -, hocc⟩ := h.occupiedTimer_live ha hc
  refine ⟨⟨{ s.gptu.dev with
    runReg := Function.update s.gptu.dev.runReg (timerReg a.base) 5#32 }, s.gptu.live⟩, ?_,
    h.runReg _, rfl, rfl, ?_, rfl⟩
  · simp only [LedSys.startTimer, hstart, LedSys.timerCall, GptuSys.call, gptuCall,
      DanubeBsp.startTimer, hocc, GptuResult.ret]
    rfl
  · show (Function.update s.gptu.dev.runReg (timerReg a.base) 5#32 (timerReg a.base)).getLsbD 0 = true
    rw [Function.update_self]
    rfl

theorem LedSys.setupGpt_ok (h : GptuInv s.gptu) {freq : Word} {o : LedServices}
    (hg : s.Grants board freq o) :
    (s.setupGpt board 2 freq o).2 = 0 ∧ LedTimerFrame s (s.setupGpt board 2 freq o).1 ∧
      (s.setupGpt board 2 freq o).1.foreign = s.foreign ∧
      (s.setupGpt board 2 freq o).1.mine = some (ledAlloc (calDivider board.fpiBusClock freq)) ∧
      (s.setupGpt board 2 freq o).1.HoldsAt board freq := by
  obtain ⟨hset, hstart, hd, hfree⟩ := hg
  obtain ⟨g, hseteq, hinv, hcount, hlive, hreload⟩ := LedSys.setTimer_free board h hset hd hfree
  have hmem : ledAlloc (calDivider board.fpiBusClock freq) ∈ g.live := by simp [hlive]
  obtain ⟨g', hstarteq, hinv', hcount', hlive', hrun, hreload'⟩ := LedSys.startTimer_live board
    (s := { s with gptu := g, mine := some (ledAlloc (calDivider board.fpiBusClock freq)) })
    hinv hmem (ledAlloc_covers _) hstart
  have heq : s.setupGpt board 2 freq o = ({ s with
      gptu := g', mine := some (ledAlloc (calDivider board.fpiBusClock freq)) }, 0) := by
    simp only [LedSys.setupGpt, timerIndex_two_true, hseteq, ne_eq, not_true_eq_false, if_false,
      hstarteq]
  rw [heq]
  refine ⟨rfl, ⟨rfl, rfl, rfl, hinv', hcount'.trans hcount⟩, rfl, rfl, _, rfl, ?_, hrun, ?_⟩
  · rw [hlive']
    exact hmem
  · rw [hreload']
    exact hreload

theorem LedSys.setupGpt_fails (h : GptuInv s.gptu)
    (hmine : ∀ a, s.mine = some a → a ∈ s.gptu.live ∧ a.covers 5 = true) {freq : Word}
    {o : LedServices} (hg : ¬s.Grants board freq o) :
    (s.setupGpt board 2 freq o).2 ≠ 0 ∧ LedTimerFrame s (s.setupGpt board 2 freq o).1 ∧
      (s.setupGpt board 2 freq o).1.foreign = s.foreign ∧
      ((s.setupGpt board 2 freq o).1 = s ∨
        s.mine = none ∧ (s.setupGpt board 2 freq o).1.mine = none) := by
  by_cases hset : o.refuseSetTimer = false ∧ calDivider board.fpiBusClock freq ≠ 0 ∧
      s.gptu.HasFree (calDivider board.fpiBusClock freq)
  · obtain ⟨hset, hd, hfree⟩ := hset
    have hstart : o.refuseStartTimer = true := by
      by_contra hs
      exact hg ⟨hset, Bool.eq_false_of_not_eq_true hs, hd, hfree⟩
    have hnone : s.mine = none := by
      cases hm : s.mine with
      | none => rfl
      | some a =>
        obtain ⟨ha, hc⟩ := hmine a hm
        have hno := hfree.2 a ha 5 (ledAlloc_covers _)
        exact absurd (hc.symm.trans hno) Bool.true_eq_false.mp
    obtain ⟨g, hseteq, hinv, hcount, hlive, -⟩ := LedSys.setTimer_free board h hset hd hfree
    have heq : s.setupGpt board 2 freq o = (LedSys.freeTimer board { s with
        gptu := g, mine := some (ledAlloc (calDivider board.fpiBusClock freq)) } 5 o, eBusy) := by
      simp only [LedSys.setupGpt, timerIndex_two_true, hseteq, ne_eq, not_true_eq_false, if_false,
        LedSys.startTimer, hstart, if_true, eBusy_ne_zero, not_false_eq_true]
    have hmem : ledAlloc (calDivider board.fpiBusClock freq) ∈ g.live := by simp [hlive]
    have hany : (some (ledAlloc (calDivider board.fpiBusClock freq))).any (·.covers 5) = true :=
      ledAlloc_covers _
    obtain ⟨-, hfreed, hforeign⟩ := LedSys.freeTimer_live board
      (s := { s with gptu := g, mine := some (ledAlloc (calDivider board.fpiBusClock freq)) })
      hinv hmem (ledAlloc_covers _) o
    have hframe := LedSys.freeTimer_frame board
      (s := { s with gptu := g, mine := some (ledAlloc (calDivider board.fpiBusClock freq)) })
      hinv 5 o
    rw [hany] at hfreed hforeign
    rw [heq]
    refine ⟨eBusy_ne_zero, ⟨hframe.led, hframe.gpio, hframe.reqFreq, hframe.inv,
      hframe.count.trans hcount⟩, ?_, .inr ⟨hnone, hfreed⟩⟩
    simpa using hforeign
  · obtain ⟨ret, hseteq, hret⟩ := LedSys.setTimer_fails board h hset
    have heq : s.setupGpt board 2 freq o = (s, ret) := by
      simp only [LedSys.setupGpt, timerIndex_two_true, hseteq, if_pos hret]
    rw [heq]
    exact ⟨hret, LedTimerFrame.refl h, rfl, .inl rfl⟩

end Setup

end DanubeBsp
