import Mathlib.Data.List.Pairwise
import DanubeBsp.GptuRequest

namespace DanubeBsp

/-- The allocation that holds a timer is unique. -/
theorem GptuInv.covers_unique {s : GptuSys} (h : GptuInv s) {a b : TimerAlloc} (ha : a ∈ s.live)
    (hb : b ∈ s.live) {j : Nat} (haj : a.covers j = true) (hbj : b.covers j = true) : a = b := by
  by_contra hne
  have hsymm : Std.Symm fun a b : TimerAlloc => ∀ t, a.covers t = true → b.covers t = false := by
    constructor
    intro c d hcd t hd
    by_contra hc
    have hno := hcd t (Bool.eq_true_of_not_eq_false hc)
    exact absurd (hd.symm.trans hno) Bool.true_eq_false.mp
  have hno := h.disjoint.forall ha hb hne j haj
  exact absurd (hbj.symm.trans hno) Bool.true_eq_false.mp

theorem GptuInv.base_of_covers {s : GptuSys} (h : GptuInv s) {a : TimerAlloc} (ha : a ∈ s.live)
    {timer : Nat} {flag : Word} (hc : a.covers timer = true) (hf : is16bit flag = !a.is32) :
    timerBase flag timer = a.base := by
  unfold timerBase
  rw [hf]
  obtain rfl | ⟨h32, rfl⟩ := TimerAlloc.covers_iff.mp hc
  · cases h32 : a.is32 with
    | false => rfl
    | true =>
      have hal := h.aligned a ha h32
      simp only [Bool.not_true, Bool.false_eq_true, if_false]
      omega
  · have hal := h.aligned a ha h32
    simp only [h32, Bool.not_true, Bool.false_eq_true, if_false]
    omega

theorem GptuInv.covers_range {s : GptuSys} (h : GptuInv s) {a : TimerAlloc} (ha : a ∈ s.live)
    {timer : Nat} (hc : a.covers timer = true) :
    firstTimer ≤ timer ∧ timer < firstTimer + s.dev.numberOfTimers := by
  have hlow := h.lower a ha
  have hup := h.upper a ha
  have heven := h.even
  obtain rfl | ⟨h32, rfl⟩ := TimerAlloc.covers_iff.mp hc
  · exact ⟨hlow, hup⟩
  · have hal := h.aligned a ha h32
    simp only [firstTimer] at *
    omega

/-- The shared checks find the allocation that holds the timer. -/
theorem GptuInv.occupiedTimer_live {s : GptuSys} (h : GptuInv s) {a : TimerAlloc} (ha : a ∈ s.live)
    {timer : Nat} (hc : a.covers timer = true) :
    ∃ flag, is16bit flag = (!a.is32) ∧
      occupiedTimer s.dev timer = some (a.base, timerMask flag a.base) := by
  have hf := h.flags a ha timer hc
  have hon : s.dev.fGptuOn = true := h.on.mpr (List.ne_nil_of_mem ha)
  obtain ⟨hlow, hup⟩ := h.covers_range ha hc
  have hbase := h.base_of_covers ha hc hf
  have hbound := h.bound
  have haup := h.upper a ha
  refine ⟨(s.dev.timer (timer - firstTimer)).flag, hf, ?_⟩
  have hall : (s.dev.occupation &&& timerMask (s.dev.timer (timer - firstTimer)).flag a.base) ^^^
      timerMask (s.dev.timer (timer - firstTimer)).flag a.base = 0 := by
    rw [and_xor_eq_zero_iff]
    intro j hj
    rw [getLsbD_timerMask (by simp only [firstTimer] at haup; omega), hf, Bool.not_not] at hj
    exact (h.bits j).mpr ⟨a, ha, hj⟩
  simp only [occupiedTimer, hon, hbase, hall]
  rw [if_neg (by simp), if_neg (by omega), if_neg (by simp)]

theorem GptuInv.occupiedTimer_free {s : GptuSys} (h : GptuInv s) {timer : Nat}
    (hno : ∀ a ∈ s.live, a.covers timer = false) : occupiedTimer s.dev timer = none := by
  unfold occupiedTimer
  split
  next => rfl
  next =>
    split
    next => rfl
    next hrange =>
      dsimp only
      split
      next => rfl
      next hall =>
        have hbound := h.bound
        generalize (s.dev.timer (timer - firstTimer)).flag = flag at hall
        rw [not_not, and_xor_eq_zero_iff] at hall
        have hle : timerBase flag timer ≤ timer := by
          unfold timerBase
          split
          next => exact le_refl _
          next => exact Nat.sub_le _ _
        have hmask : (timerMask flag (timerBase flag timer)).getLsbD timer = true := by
          rw [getLsbD_timerMask (by simp only [firstTimer] at hrange; omega),
            TimerAlloc.covers_iff]
          unfold timerBase
          cases hw : is16bit flag with
          | true => exact .inl rfl
          | false =>
            simp only [Bool.false_eq_true, if_false, Bool.not_false, true_and]
            omega
        obtain ⟨a, ha, hc⟩ := (h.bits timer).mp (hall timer hmask)
        exact absurd (hc.symm.trans (hno a ha)) Bool.true_eq_false.mp

theorem disableTimerIrq_timer (dev : TimerDev) (t i : Nat) :
    ((disableTimerIrq dev t).timer i).irq = (dev.timer i).irq ∧
      ((disableTimerIrq dev t).timer i).flag = (dev.timer i).flag ∧
      ((disableTimerIrq dev t).timer i).fIrqOn =
        if i = t - firstTimer then false else (dev.timer i).fIrqOn := by
  simp only [disableTimerIrq]
  by_cases hi : i = t - firstTimer
  · subst hi
    split
    next => simp
    next hoff => simpa using hoff
  · rw [if_neg hi]
    split
    next =>
      dsimp only
      rw [Function.update_of_ne hi]
      exact ⟨rfl, rfl, rfl⟩
    next => exact ⟨rfl, rfl, rfl⟩

theorem disableTimerIrq_disables (dev : TimerDev) (t irq : Nat) :
    (disableTimerIrq dev t).disables irq = dev.disables irq +
      if (dev.timer (t - firstTimer)).fIrqOn = true ∧ irq = (dev.timer (t - firstTimer)).irq
      then 1 else 0 := by
  simp only [disableTimerIrq]
  split
  next hon =>
    by_cases hirq : irq = (dev.timer (t - firstTimer)).irq
    · simp [hirq, hon]
    · simp [hirq]
  next hoff => simp [hoff]

theorem disableTimerIrq_rest (dev : TimerDev) (t : Nat) :
    (disableTimerIrq dev t).numberOfTimers = dev.numberOfTimers ∧
      (disableTimerIrq dev t).occupation = dev.occupation ∧
      (disableTimerIrq dev t).fGptuOn = dev.fGptuOn ∧
      (disableTimerIrq dev t).irnen = dev.irnen ∧
      (disableTimerIrq dev t).enables = dev.enables := by
  simp only [disableTimerIrq]
  split
  next => exact ⟨rfl, rfl, rfl, rfl, rfl⟩
  next => exact ⟨rfl, rfl, rfl, rfl, rfl⟩

theorem gptuOffIfUnused_rest (dev : TimerDev) :
    (gptuOffIfUnused dev).numberOfTimers = dev.numberOfTimers ∧
      (gptuOffIfUnused dev).occupation = dev.occupation ∧
      (gptuOffIfUnused dev).timer = dev.timer ∧
      (gptuOffIfUnused dev).enables = dev.enables ∧
      (gptuOffIfUnused dev).disables = dev.disables := by
  unfold gptuOffIfUnused
  split
  next => exact ⟨rfl, rfl, rfl, rfl, rfl⟩
  next => exact ⟨rfl, rfl, rfl, rfl, rfl⟩

theorem gptuOffIfUnused_irnen {dev : TimerDev} {i : Nat}
    (h : (gptuOffIfUnused dev).irnen.getLsbD i = true) : dev.irnen.getLsbD i = true := by
  unfold gptuOffIfUnused at h
  split at h
  next => simp [disableGptu] at h
  next => exact h

theorem gptuOffIfUnused_on {dev : TimerDev} (h : dev.fGptuOn = true) :
    (gptuOffIfUnused dev).fGptuOn = true ↔ dev.occupation ≠ 0 := by
  unfold gptuOffIfUnused
  split
  next hzero => simp [hzero.1]
  next hused =>
    refine iff_of_true h ?_
    intro hzero
    exact hused ⟨hzero, h⟩

/-- The device of `free_timer` before the unit is switched off. -/
def released (dev : TimerDev) (t : Nat) (mask : Word) (runReg : Nat × Nat → Word) : TimerDev :=
  let dev := disableTimerIrq { dev with
    runReg, irnen := clearBit dev.irnen (((timerReg t).1 - 1) * 2 + (timerReg t).2) } t
  { dev with occupation := dev.occupation &&& ~~~mask }

theorem freeTimer_eq {dev : TimerDev} {timer t : Nat} {mask : Word} (en : Bool)
    (h : occupiedTimer dev timer = some (t, mask)) :
    ∃ runReg, (∀ r, r ≠ timerReg t → runReg r = dev.runReg r) ∧
      freeTimer dev timer en = (.ok 0, gptuOffIfUnused (released dev t mask runReg)) := by
  simp only [freeTimer, h]
  refine ⟨_, ?_, rfl⟩
  intro r hr
  split
  next => exact Function.update_of_ne hr _ _
  next => rfl

theorem released_rest (dev : TimerDev) (t : Nat) (mask : Word) (runReg : Nat × Nat → Word) :
    (released dev t mask runReg).numberOfTimers = dev.numberOfTimers ∧
      (released dev t mask runReg).occupation = dev.occupation &&& ~~~mask ∧
      (released dev t mask runReg).fGptuOn = dev.fGptuOn ∧
      (released dev t mask runReg).irnen =
        clearBit dev.irnen (((timerReg t).1 - 1) * 2 + (timerReg t).2) ∧
      (released dev t mask runReg).enables = dev.enables := by
  obtain ⟨hn, hocc, hon, hirnen, hen⟩ := disableTimerIrq_rest { dev with
    runReg, irnen := clearBit dev.irnen (((timerReg t).1 - 1) * 2 + (timerReg t).2) } t
  refine ⟨hn, ?_, hon, hirnen, hen⟩
  unfold released
  dsimp only
  rw [hocc]

theorem released_timer (dev : TimerDev) (t : Nat) (mask : Word) (runReg : Nat × Nat → Word)
    (i : Nat) :
    ((released dev t mask runReg).timer i).irq = (dev.timer i).irq ∧
      ((released dev t mask runReg).timer i).flag = (dev.timer i).flag ∧
      ((released dev t mask runReg).timer i).fIrqOn =
        if i = t - firstTimer then false else (dev.timer i).fIrqOn :=
  disableTimerIrq_timer _ t i

theorem released_disables (dev : TimerDev) (t : Nat) (mask : Word) (runReg : Nat × Nat → Word)
    (irq : Nat) :
    (released dev t mask runReg).disables irq = dev.disables irq +
      if (dev.timer (t - firstTimer)).fIrqOn = true ∧ irq = (dev.timer (t - firstTimer)).irq
      then 1 else 0 :=
  disableTimerIrq_disables _ t irq

section Freed

variable {s : GptuSys} {a : TimerAlloc} {timer : Nat} {flag : Word} {runReg : Nat × Nat → Word}

theorem GptuInv.stays_live (h : GptuInv s) (ha : a ∈ s.live) (hc : a.covers timer = true)
    {b : TimerAlloc} (hb : b ∈ s.live) (hne : b ≠ a) :
    b ∈ s.live.filter fun a => !a.covers timer := by
  refine List.mem_filter.mpr ⟨hb, ?_⟩
  rw [Bool.not_eq_true']
  by_contra hcb
  exact hne (h.covers_unique hb ha (Bool.eq_true_of_not_eq_false hcb) hc)

theorem GptuInv.freed_bits (h : GptuInv s) (ha : a ∈ s.live) (hc : a.covers timer = true)
    (hf : is16bit flag = !a.is32) (j : Nat) :
    (s.dev.occupation &&& ~~~timerMask flag a.base).getLsbD j = true ↔
      ∃ b ∈ s.live.filter (fun a => !a.covers timer), b.covers j = true := by
  have hbound := h.bound
  have hup := h.upper a ha
  rw [getLsbD_and_not, getLsbD_timerMask (by simp only [firstTimer] at hup; omega), hf,
    Bool.not_not, Bool.and_eq_true, h.bits, Bool.not_eq_true']
  constructor
  · rintro ⟨⟨b, hb, hbj⟩, haj⟩
    refine ⟨b, h.stays_live ha hc hb ?_, hbj⟩
    rintro rfl
    exact absurd (hbj.symm.trans haj) Bool.true_eq_false.mp
  · rintro ⟨b, hb, hbj⟩
    obtain ⟨hb, hbt⟩ := List.mem_filter.mp hb
    refine ⟨⟨b, hb, hbj⟩, ?_⟩
    by_contra haj
    have heq := h.covers_unique ha hb (Bool.eq_true_of_not_eq_false haj) hbj
    rw [heq] at hc
    rw [hc] at hbt
    exact absurd hbt Bool.false_ne_true

theorem GptuInv.freed_unused (h : GptuInv s) (ha : a ∈ s.live) (hc : a.covers timer = true)
    (hf : is16bit flag = !a.is32) :
    s.dev.occupation &&& ~~~timerMask flag a.base = 0 ↔
      s.live.filter (fun a => !a.covers timer) = [] := by
  have hbits := h.freed_bits ha hc hf
  rw [eq_zero_iff_getLsbD]
  constructor
  · intro hzero
    apply List.eq_nil_iff_forall_not_mem.mpr
    intro b hb
    have hset := (hbits b.base).mpr ⟨b, hb, b.covers_base⟩
    exact absurd (hset.symm.trans (hzero b.base)) Bool.true_eq_false.mp
  · intro hnil j
    by_contra hset
    obtain ⟨b, hb, -⟩ := (hbits j).mp (Bool.eq_true_of_not_eq_false hset)
    rw [hnil] at hb
    exact absurd hb List.not_mem_nil

theorem GptuInv.freed_balance (h : GptuInv s) (ha : a ∈ s.live) {mask : Word} {i : Nat}
    (hi : i < s.dev.numberOfTimers) :
    (released s.dev a.base mask runReg).disables (timerInterrupt + i) =
      (released s.dev a.base mask runReg).enables (timerInterrupt + i) +
        if ((released s.dev a.base mask runReg).timer i).fIrqOn then 0 else 1 := by
  have hlow := h.lower a ha
  have hup := h.upper a ha
  have hbal := h.balance i hi
  have hfirst := h.irq (a.base - firstTimer) (by omega)
  obtain ⟨-, -, -, -, hen⟩ := released_rest s.dev a.base mask runReg
  rw [released_disables, hen, (released_timer s.dev a.base mask runReg i).2.2, hfirst, hbal]
  by_cases hit : i = a.base - firstTimer
  · subst hit
    cases (s.dev.timer (a.base - firstTimer)).fIrqOn with
    | true => simp
    | false => simp
  · simp [hit]

theorem GptuInv.freed (h : GptuInv s) (ha : a ∈ s.live) (hc : a.covers timer = true)
    (hf : is16bit flag = !a.is32) :
    GptuInv ⟨gptuOffIfUnused (released s.dev a.base (timerMask flag a.base) runReg),
      s.live.filter fun a => !a.covers timer⟩ := by
  have hlow := h.lower a ha
  have hup := h.upper a ha
  have hbound := h.bound
  obtain ⟨hn, hocc, hon, hirnen, hen⟩ :=
    released_rest s.dev a.base (timerMask flag a.base) runReg
  have htab := released_timer s.dev a.base (timerMask flag a.base) runReg
  obtain ⟨gn, gocc, gtab, gen, gdis⟩ :=
    gptuOffIfUnused_rest (released s.dev a.base (timerMask flag a.base) runReg)
  have hbits := h.freed_bits ha hc hf
  have hsub : ∀ b ∈ s.live.filter (fun a => !a.covers timer), b ∈ s.live :=
    fun b hb => (List.mem_filter.mp hb).1
  refine ⟨?_, ?_, fun b hb => h.lower b (hsub b hb), ?_, fun b hb => h.aligned b (hsub b hb),
    h.disjoint.sublist List.filter_sublist, ?_, ?_, ?_, ?_, ?_, ?_, ?_⟩
  · show _ % 2 = 0
    rw [gn, hn]
    exact h.even
  · show _ ≤ 12
    rw [gn, hn]
    exact hbound
  · intro b hb
    show _ < _ + (gptuOffIfUnused _).numberOfTimers
    rw [gn, hn]
    exact h.upper b (hsub b hb)
  · intro j
    show (gptuOffIfUnused _).occupation.getLsbD j = true ↔ _
    rw [gocc, hocc]
    exact hbits j
  · intro b hb j hj
    show is16bit ((gptuOffIfUnused _).timer _).flag = _
    rw [gtab, (htab _).2.1]
    exact h.flags b (hsub b hb) j hj
  · show (gptuOffIfUnused _).fGptuOn = true ↔ _
    rw [gptuOffIfUnused_on (hon.trans (h.on.mpr (List.ne_nil_of_mem ha))), hocc, Ne,
      h.freed_unused ha hc hf]
  · intro i hi
    have hi : ((gptuOffIfUnused _).timer i).fIrqOn = true := hi
    rw [gtab, (htab i).2.2] at hi
    by_cases hit : i = a.base - firstTimer
    · rw [if_pos hit] at hi
      exact absurd hi Bool.false_ne_true
    · rw [if_neg hit] at hi
      obtain ⟨b, hb, hbase⟩ := h.irqOn i hi
      refine ⟨b, h.stays_live ha hc hb ?_, hbase⟩
      rintro rfl
      omega
  · intro i hi
    have hi := gptuOffIfUnused_irnen hi
    have hpos : ((timerReg a.base).1 - 1) * 2 + (timerReg a.base).2 = a.base - firstTimer := by
      simp only [timerReg, firstTimer] at hlow ⊢
      omega
    rw [hirnen, hpos, getLsbD_clearBit (by simp only [firstTimer] at hup ⊢; omega),
      Bool.and_eq_true] at hi
    obtain ⟨hi, hne⟩ := hi
    obtain ⟨b, hb, hbase⟩ := h.irnen i hi
    refine ⟨b, h.stays_live ha hc hb ?_, hbase⟩
    rintro rfl
    have hit : i = b.base - firstTimer := by omega
    simp [hit] at hne
  · intro i hi
    have hi : i < (gptuOffIfUnused _).numberOfTimers := hi
    rw [gn, hn] at hi
    show ((gptuOffIfUnused _).timer i).irq = _
    rw [gtab, (htab i).1]
    exact h.irq i hi
  · intro i hi
    have hi : i < (gptuOffIfUnused _).numberOfTimers := hi
    rw [gn, hn] at hi
    show (gptuOffIfUnused _).disables _ = (gptuOffIfUnused _).enables _ +
      if ((gptuOffIfUnused _).timer i).fIrqOn then 0 else 1
    rw [gtab, gen, gdis]
    exact h.freed_balance ha hi

end Freed

theorem GptuInv.runReg {s : GptuSys} (h : GptuInv s) (runReg : Nat × Nat → Word) :
    GptuInv ⟨{ s.dev with runReg }, s.live⟩ :=
  ⟨h.even, h.bound, h.lower, h.upper, h.aligned, h.disjoint, h.bits, h.flags, h.on, h.irqOn,
    h.irnen, h.irq, h.balance⟩

/-- `free_timer` succeeds exactly on the timers of live allocations. -/
theorem GptuInv.freeTimer_spec {s : GptuSys} (h : GptuInv s) (timer : Nat) (en : Bool) :
    (∃ a ∈ s.live, a.covers timer = true ∧ ∃ flag runReg, is16bit flag = (!a.is32) ∧
        (∀ r, r ≠ timerReg a.base → runReg r = s.dev.runReg r) ∧
        freeTimer s.dev timer en =
          (.ok 0, gptuOffIfUnused (released s.dev a.base (timerMask flag a.base) runReg))) ∨
      (∀ a ∈ s.live, a.covers timer = false) ∧ freeTimer s.dev timer en = (.einval, s.dev) := by
  by_cases hex : ∃ a ∈ s.live, a.covers timer = true
  · left
    obtain ⟨a, ha, hc⟩ := hex
    obtain ⟨flag, hf, hocc⟩ := h.occupiedTimer_live ha hc
    obtain ⟨runReg, hrun, heq⟩ := freeTimer_eq en hocc
    exact ⟨a, ha, hc, flag, runReg, hf, hrun, heq⟩
  · right
    have hno : ∀ a ∈ s.live, a.covers timer = false := by
      intro a ha
      by_contra hc
      exact hex ⟨a, ha, Bool.eq_true_of_not_eq_false hc⟩
    refine ⟨hno, ?_⟩
    simp only [freeTimer, h.occupiedTimer_free hno]

theorem gptuStep_inv {findTaskByPid : Word → Word} {s t : GptuSys} {call : GptuCall}
    (h : GptuInv s) (hs : gptuStep findTaskByPid s call = some t) : GptuInv t := by
  cases Option.some.inj hs
  cases call with
  | request timer flag value arg1 arg2 =>
    dsimp only [gptuCall]
    obtain ⟨hsame, herr⟩ | ⟨t, ret, arg, clc, reg, on, con, reload, heq, ⟨ht, ht'⟩, hal, hfree,
        hret, hreg, -⟩ := requestTimer_cases findTaskByPid timer flag value arg1 arg2 h.even
    · rw [hsame]
      simp only [List.mem_cons, List.not_mem_nil, or_false] at herr
      obtain herr | herr := herr
      · rw [herr]
        exact h
      · rw [herr]
        exact h
    · rw [heq]
      dsimp only [liveAfter]
      rw [← hret]
      exact h.granted ht ht' hal hfree hreg
  | free timer en =>
    dsimp only [gptuCall]
    obtain ⟨a, ha, hc, flag, runReg, hf, -, heq⟩ | ⟨-, heq⟩ := h.freeTimer_spec timer en
    · rw [heq]
      exact h.freed ha hc hf
    · rw [heq]
      exact h
  | start timer isResume =>
    dsimp only [gptuCall, startTimer]
    split
    next => exact h
    next => exact h.runReg _
  | stop timer =>
    dsimp only [gptuCall, stopTimer]
    split
    next => exact h
    next => exact h.runReg _
  | getCount timer count =>
    dsimp only [gptuCall, getCountValue]
    split
    next => exact h
    next => exact h

theorem gptuInit_inv (cfg : Fin 8) : GptuInv ⟨gptuInit cfg, []⟩ := by
  have hn : (gptuInit cfg).numberOfTimers = min (cfg.val * 2) 12 := rfl
  refine ⟨?_, ?_, ?_, ?_, ?_, List.Pairwise.nil, ?_, ?_, ?_, ?_, ?_, ?_, ?_⟩
  · show (gptuInit cfg).numberOfTimers % 2 = 0
    omega
  · show (gptuInit cfg).numberOfTimers ≤ 12
    omega
  · simp
  · simp
  · simp
  · simp [gptuInit]
  · simp
  · simp [gptuInit]
  · intro i hi
    exact absurd hi Bool.false_ne_true
  · simp [gptuInit]
  · intro i hi
    exact if_pos hi
  · intro i hi
    have hi : i < (gptuInit cfg).numberOfTimers := hi
    show (if timerInterrupt ≤ timerInterrupt + i ∧
      timerInterrupt + i < timerInterrupt + (gptuInit cfg).numberOfTimers then 1 else 0) = 1
    rw [if_pos (by omega)]

/-- Taking away what holds a timer takes away one allocation. -/
theorem GptuInv.filter_eq_erase {s : GptuSys} (h : GptuInv s) {a : TimerAlloc} (ha : a ∈ s.live)
    {timer : Nat} (hc : a.covers timer = true) :
    s.live.filter (fun b => !b.covers timer) = s.live.erase a := by
  have hnodup : s.live.Nodup := by
    refine h.disjoint.imp ?_
    rintro b c hbc rfl
    have hno := hbc b.base b.covers_base
    exact absurd (b.covers_base.symm.trans hno) Bool.true_eq_false.mp
  rw [hnodup.erase_eq_filter]
  apply List.filter_congr
  intro b hb
  by_cases hba : b = a
  · subst hba
    simp [hc]
  · have hcb : b.covers timer = false := by
      by_contra hcb
      exact hba (h.covers_unique hb ha (Bool.eq_true_of_not_eq_false hcb) hc)
    simp [hba, hcb]

theorem GptuInv.call_error {findTaskByPid : Word → Word} {s : GptuSys} {call : GptuCall}
    (h : GptuInv s) (herr : ∀ ret, (gptuCall findTaskByPid s.dev call).1 ≠ .ok ret) :
    gptuStep findTaskByPid s call = some s := by
  have hdev : (gptuCall findTaskByPid s.dev call).2 = s.dev := by
    cases call with
    | request timer flag value arg1 arg2 =>
      obtain ⟨hsame, -⟩ | ⟨t, ret, arg, clc, reg, on, con, reload, heq, -⟩ :=
        requestTimer_cases findTaskByPid timer flag value arg1 arg2 h.even
      · exact hsame
      · exact absurd (congrArg Prod.fst heq) (herr ret)
    | free timer en =>
      obtain ⟨a, ha, hc, flag, runReg, hf, -, heq⟩ | ⟨-, heq⟩ := h.freeTimer_spec timer en
      · exact absurd (congrArg Prod.fst heq) (herr 0)
      · exact congrArg Prod.snd heq
    | start timer isResume =>
      dsimp only [gptuCall, startTimer] at herr ⊢
      split
      next => rfl
      next hocc => rw [hocc] at herr; exact absurd rfl (herr 0)
    | stop timer =>
      dsimp only [gptuCall, stopTimer] at herr ⊢
      split
      next => rfl
      next hocc => rw [hocc] at herr; exact absurd rfl (herr 0)
    | getCount timer count => rfl
  have hlive : liveAfter s.live call (gptuCall findTaskByPid s.dev call).1 = s.live := by
    cases hres : (gptuCall findTaskByPid s.dev call).1 with
    | ok ret => exact absurd hres (herr ret)
    | einval => cases call <;> rfl
    | ebusy => cases call <;> rfl
  simp only [gptuStep, hdev, hlive]

/-- Freeing any timer of an allocation releases that allocation and nothing else. -/
theorem GptuInv.free_exact (findTaskByPid : Word → Word) {s : GptuSys} (h : GptuInv s)
    {a : TimerAlloc} (ha : a ∈ s.live) {timer : Nat} (hc : a.covers timer = true) (en : Bool) :
    ∃ t, gptuStep findTaskByPid s (.free timer en) = some t ∧ t.live = s.live.erase a ∧
      ∀ j, t.dev.occupation.getLsbD j = (s.dev.occupation.getLsbD j && !a.covers j) := by
  have hbound := h.bound
  obtain ⟨b, hb, hcb, flag, runReg, hf, -, heq⟩ | ⟨hno, -⟩ := h.freeTimer_spec timer en
  · have hba := h.covers_unique hb ha hcb hc
    subst hba
    have hup := h.upper b hb
    refine ⟨_, rfl, ?_, ?_⟩
    · show liveAfter s.live _ (freeTimer s.dev timer en).1 = _
      rw [heq]
      exact h.filter_eq_erase hb hc
    · intro j
      show (freeTimer s.dev timer en).2.occupation.getLsbD j = _
      rw [heq, (gptuOffIfUnused_rest _).2.1, (released_rest _ _ _ _).2.1, getLsbD_and_not,
        getLsbD_timerMask (by simp only [firstTimer] at hup; omega), hf, Bool.not_not]
  · exact absurd (hc.symm.trans (hno a ha)) Bool.true_eq_false.mp

/-- The timer allocation is sound over all runs of the driver's calls. -/
theorem gptu_alloc_sound (findTaskByPid : Word → Word) (cfg : Fin 8) (calls : List GptuCall)
    (s : GptuSys) (h : run (gptuStep findTaskByPid) ⟨gptuInit cfg, []⟩ calls = some s) :
    (s.live.Pairwise fun a b => ∀ t, ¬(a.covers t = true ∧ b.covers t = true)) ∧
      (∀ a ∈ s.live, a.is32 = true → a.base % 2 = 0 ∧
        s.dev.occupation.getLsbD a.base = true ∧ s.dev.occupation.getLsbD (a.base + 1) = true) ∧
      (∀ t, s.dev.occupation.getLsbD t = true ↔ ∃ a ∈ s.live, a.covers t = true) ∧
      (s.dev.fGptuOn = true ↔ ∃ t, s.dev.occupation.getLsbD t = true) ∧
      (∀ i, s.dev.irnen.getLsbD i = true → s.dev.occupation.getLsbD (firstTimer + i) = true) ∧
      (∀ i, (s.dev.timer i).fIrqOn = true →
        s.dev.occupation.getLsbD (firstTimer + i) = true) ∧
      (∀ i, i < s.dev.numberOfTimers → s.dev.disables (timerInterrupt + i) =
        s.dev.enables (timerInterrupt + i) + if (s.dev.timer i).fIrqOn then 0 else 1) ∧
      (∀ timer en, ∀ a ∈ s.live, a.covers timer = true →
        ∃ t, gptuStep findTaskByPid s (.free timer en) = some t ∧ t.live = s.live.erase a ∧
          ∀ j, t.dev.occupation.getLsbD j = (s.dev.occupation.getLsbD j && !a.covers j)) ∧
      (∀ timer en, (∀ a ∈ s.live, a.covers timer = false) →
        (gptuCall findTaskByPid s.dev (.free timer en)).1 = .einval) ∧
      ∀ call, (∀ ret, (gptuCall findTaskByPid s.dev call).1 ≠ .ok ret) →
        gptuStep findTaskByPid s call = some s := by
  have hinv : GptuInv s := run_invariant gptuStep_inv (gptuInit_inv cfg) h
  have hbase : ∀ a ∈ s.live, s.dev.occupation.getLsbD a.base = true :=
    fun a ha => (hinv.bits a.base).mpr ⟨a, ha, a.covers_base⟩
  refine ⟨?_, ?_, hinv.bits, ?_, ?_, ?_, hinv.balance, ?_, ?_, ?_⟩
  · refine hinv.disjoint.imp ?_
    rintro a b hab t ⟨hat, hbt⟩
    exact absurd (hbt.symm.trans (hab t hat)) Bool.true_eq_false.mp
  · intro a ha h32
    have hnext : a.covers (a.base + 1) = true := TimerAlloc.covers_iff.mpr (.inr ⟨h32, rfl⟩)
    exact ⟨hinv.aligned a ha h32, hbase a ha, (hinv.bits _).mpr ⟨a, ha, hnext⟩⟩
  · rw [hinv.on]
    constructor
    · intro hne
      obtain ⟨a, ha⟩ := List.exists_mem_of_ne_nil _ hne
      exact ⟨a.base, hbase a ha⟩
    · rintro ⟨t, ht⟩
      obtain ⟨a, ha, -⟩ := (hinv.bits t).mp ht
      exact List.ne_nil_of_mem ha
  · intro i hi
    obtain ⟨a, ha, heq⟩ := hinv.irnen i hi
    rw [← heq]
    exact hbase a ha
  · intro i hi
    obtain ⟨a, ha, heq⟩ := hinv.irqOn i hi
    rw [← heq]
    exact hbase a ha
  · intro timer en a ha hc
    exact hinv.free_exact findTaskByPid ha hc en
  · intro timer en hno
    obtain ⟨a, ha, hc, -⟩ | ⟨-, heq⟩ := hinv.freeTimer_spec timer en
    · exact absurd (hc.symm.trans (hno a ha)) Bool.true_eq_false.mp
    · exact congrArg Prod.fst heq
  · intro call herr
    exact hinv.call_error herr

/-- A 32-bit timer for a signal, then a second request for its upper half. -/
theorem gptu_alloc_sound_small :
    ∃ s, run (gptuStep id) ⟨gptuInit 3, []⟩ [.request 0 0x301 9 1 2, .request 3 0 5 0 0] = some s ∧
      s.live = [⟨2, true⟩] ∧ (s.dev.fGptuOn = true ↔ ∃ t, s.dev.occupation.getLsbD t = true) := by
  refine ⟨_, rfl, by decide, ?_⟩
  exact (gptu_alloc_sound id 3 [.request 0 0x301 9 1 2, .request 3 0 5 0 0] _ rfl).2.2.2.1

end DanubeBsp
