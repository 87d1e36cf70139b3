import DanubeBsp.Gptu

namespace DanubeBsp

theorem TimerAlloc.covers_iff {a : TimerAlloc} {timer : Nat} :
    a.covers timer = true ↔ timer = a.base ∨ (a.is32 = true ∧ timer = a.base + 1) := by
  simp [TimerAlloc.covers]

theorem TimerAlloc.covers_base (a : TimerAlloc) : a.covers a.base = true :=
  TimerAlloc.covers_iff.mpr (.inl rfl)

theorem getLsbD_three (k : Nat) : (3#32).getLsbD k = (decide (k = 0) || decide (k = 1)) := by
  match k with
  | 0 => rfl
  | 1 => rfl
  | k + 2 =>
    have h : (3 : Nat) < 2 ^ (k + 2) :=
      lt_of_lt_of_le (by decide : 3 < 2 ^ 2) (Nat.pow_le_pow_right (by decide) (by omega))
    simp [BitVec.getLsbD, Nat.testBit_lt_two_pow h]

/-- The mask holds exactly the timers of the allocation. -/
theorem getLsbD_timerMask {flag : Word} {timer j : Nat} (ht : timer < 31) :
    (timerMask flag timer).getLsbD j = (TimerAlloc.mk timer (!is16bit flag)).covers j := by
  unfold timerMask TimerAlloc.covers
  cases is16bit flag with
  | true =>
    rw [if_pos rfl, getLsbD_bit (by omega)]
    simp [Bool.beq_eq_decide_eq]
  | false =>
    rw [if_neg Bool.false_ne_true, BitVec.getLsbD_shiftLeft, getLsbD_three]
    by_cases hlt : j < timer
    · have h0 : j ≠ timer := by omega
      have h1 : j ≠ timer + 1 := by omega
      simp [hlt, h0, h1]
    · by_cases hj : j < 32
      · have h0 : j - timer = 0 ↔ j = timer := by omega
        have h1 : j - timer = 1 ↔ j = timer + 1 := by omega
        simp [hlt, hj, h0, h1, Bool.beq_eq_decide_eq]
      · have h0 : j ≠ timer := by omega
        have h1 : j ≠ timer + 1 := by omega
        simp [hj, h0, h1]

/-- The callers' books agree with the device. -/
structure GptuInv (s : GptuSys) : Prop where
  even : s.dev.numberOfTimers % 2 = 0
  bound : s.dev.numberOfTimers ≤ 12
  lower : ∀ a ∈ s.live, firstTimer ≤ a.base
  upper : ∀ a ∈ s.live, a.base < firstTimer + s.dev.numberOfTimers
  aligned : ∀ a ∈ s.live, a.is32 = true → a.base % 2 = 0
  disjoint : s.live.Pairwise fun a b => ∀ t, a.covers t = true → b.covers t = false
  bits : ∀ t, s.dev.occupation.getLsbD t = true ↔ ∃ a ∈ s.live, a.covers t = true
  flags : ∀ a ∈ s.live, ∀ t, a.covers t = true →
    is16bit (s.dev.timer (t - firstTimer)).flag = !a.is32
  on : s.dev.fGptuOn = true ↔ s.live ≠ []
  irqOn : ∀ i, (s.dev.timer i).fIrqOn = true → ∃ a ∈ s.live, a.base = firstTimer + i
  irnen : ∀ i, s.dev.irnen.getLsbD i = true → ∃ a ∈ s.live, a.base = firstTimer + i
  irq : ∀ i, i < s.dev.numberOfTimers → (s.dev.timer i).irq = timerInterrupt + i
  balance : ∀ i, i < s.dev.numberOfTimers → s.dev.disables (timerInterrupt + i) =
    s.dev.enables (timerInterrupt + i) + if (s.dev.timer i).fIrqOn then 0 else 1

/-- A granted timer is in range, aligned when it is a pair, and free. -/
theorem allocTimer_spec {dev : TimerDev} {timer t ret : Nat} {flag : Word}
    (heven : dev.numberOfTimers % 2 = 0) (hlt : timer < firstTimer + dev.numberOfTimers)
    (h : allocTimer dev (timerBase flag timer) flag = some (t, ret)) :
    firstTimer ≤ t ∧ t < firstTimer + dev.numberOfTimers ∧ (is16bit flag = false → t % 2 = 0) ∧
      dev.occupation &&& timerMask flag t = 0 ∧
      t = if ret = 0 then timerBase flag timer else ret := by
  unfold allocTimer at h
  split at h
  next =>
    obtain ⟨t', hpick, heq⟩ := Option.map_eq_some_iff.mp h
    simp only [Prod.mk.injEq] at heq
    obtain ⟨rfl, rfl⟩ := heq
    have hfree := List.find?_some hpick
    obtain ⟨i, hi, rfl⟩ := List.mem_range'.mp (List.mem_of_find?_eq_some hpick)
    have hne : firstTimer + (if is16bit flag then 1 else 2) * i ≠ 0 := by
      simp [firstTimer]
    refine ⟨Nat.le_add_right _ _, ?_, ?_, by simpa using hfree, by rw [if_neg hne]⟩
    · cases hw : is16bit flag with
      | true =>
        simp only [hw, if_true] at hi ⊢
        omega
      | false =>
        simp only [hw, Bool.false_eq_true, if_false] at hi ⊢
        omega
    · intro hw
      simp only [hw, Bool.false_eq_true, if_false, firstTimer]
      omega
  next hge =>
    split at h
    next => simp at h
    next hfree =>
      simp only [Option.some.injEq, Prod.mk.injEq] at h
      obtain ⟨rfl, rfl⟩ := h
      have hle : timerBase flag timer ≤ timer := by
        unfold timerBase
        split
        next => exact le_refl _
        next => exact Nat.sub_le _ _
      refine ⟨by omega, by omega, ?_, not_not.mp hfree, by rw [if_pos rfl]⟩
      intro hw
      simp only [timerBase, hw, Bool.false_eq_true, if_false]
      omega

/-- The device after the interrupt part of a request. -/
def irqGranted (dev : TimerDev) (i : Nat) (arg : Word) (on : Bool) : TimerDev :=
  { dev with
    timer := Function.update dev.timer i
      { dev.timer i with arg1 := arg, fIrqOn := on || (dev.timer i).fIrqOn }
    enables := if on then
      Function.update dev.enables (dev.timer i).irq (dev.enables (dev.timer i).irq + 1)
      else dev.enables }

theorem enableTimerIrq_cases (findTaskByPid : Word → Word) (dev : TimerDev) (timer : Nat)
    (flag arg1 : Word) : ∃ arg on reg,
      enableTimerIrq findTaskByPid dev timer flag arg1 =
        (irqGranted dev (timer - firstTimer) arg on, reg) ∧
      (reg = 0 ∨ reg = 1#32 <<< (timer - firstTimer)) := by
  by_cases hno : timerFlagMaskHandle flag ≠ timerFlagNoHandle
  · by_cases hsig : timerFlagMaskHandle flag = timerFlagSignal
    · refine ⟨findTaskByPid arg1, true, 1#32 <<< (timer - firstTimer), ?_, .inr rfl⟩
      simp only [enableTimerIrq, if_pos hno, if_pos hsig, if_pos (Or.inl hsig)]
      rfl
    · simp only [enableTimerIrq, if_pos hno, if_neg hsig]
      split
      next => exact ⟨_, true, _, rfl, .inr rfl⟩
      next => exact ⟨_, false, _, rfl, .inr rfl⟩
  · refine ⟨(dev.timer (timer - firstTimer)).arg1, false, 0, ?_, .inl rfl⟩
    simp [enableTimerIrq, if_neg hno, irqGranted]

/-- Filling the table changes flags and arguments only. -/
theorem fillTimer_irq (dev : TimerDev) (t : Nat) (flag arg1 arg2 : Word) (i : Nat) :
    ((fillTimer dev t flag arg1 arg2).timer i).irq = (dev.timer i).irq ∧
      ((fillTimer dev t flag arg1 arg2).timer i).fIrqOn = (dev.timer i).fIrqOn := by
  have hfirst : ∀ j, (Function.update dev.timer (t - firstTimer)
        { dev.timer (t - firstTimer) with flag, arg1, arg2 } j).irq = (dev.timer j).irq ∧
      (Function.update dev.timer (t - firstTimer)
        { dev.timer (t - firstTimer) with flag, arg1, arg2 } j).fIrqOn = (dev.timer j).fIrqOn := by
    intro j
    by_cases hj : j = t - firstTimer
    · subst hj
      rw [Function.update_self]
      exact ⟨rfl, rfl⟩
    · rw [Function.update_of_ne hj]
      exact ⟨rfl, rfl⟩
  simp only [fillTimer]
  split
  next => exact hfirst i
  next =>
    by_cases hi : i = t - firstTimer + 1
    · subst hi
      rw [Function.update_self]
      exact hfirst _
    · rw [Function.update_of_ne hi]
      exact hfirst i

theorem fillTimer_flag (dev : TimerDev) {t : Nat} (flag arg1 arg2 : Word) {j : Nat}
    (ht : firstTimer ≤ t) (hj : firstTimer ≤ j) :
    ((fillTimer dev t flag arg1 arg2).timer (j - firstTimer)).flag =
      if (TimerAlloc.mk t (!is16bit flag)).covers j then flag
      else (dev.timer (j - firstTimer)).flag := by
  have hbase : j - firstTimer = t - firstTimer ↔ j = t := by omega
  have hnext : j - firstTimer = t - firstTimer + 1 ↔ j = t + 1 := by omega
  simp only [fillTimer, TimerAlloc.covers_iff]
  cases hw : is16bit flag with
  | true =>
    simp only [if_true, Bool.not_true, Bool.false_eq_true, false_and, or_false,
      Function.update_apply, hbase]
    split
    next => rfl
    next => rfl
  | false =>
    simp only [Bool.false_eq_true, if_false, Bool.not_false, true_and, Function.update_apply,
      hbase, hnext]
    by_cases h1 : j = t + 1
    · simp [h1]
    · by_cases h0 : j = t
      · simp [h0]
      · simp [h0, h1]

theorem gptuOn_eq (dev : TimerDev) :
    ∃ clc, gptuOn dev = { dev with fGptuOn := true, clc } := by
  unfold gptuOn
  split
  next hon => exact ⟨dev.clc, by rw [← hon]⟩
  next => exact ⟨_, rfl⟩

/-- The device after a granted request. -/
def granted (dev : TimerDev) (t : Nat) (flag arg1 arg2 arg clc reg : Word) (on : Bool)
    (con reload : Nat × Nat → Word) : TimerDev :=
  let filled := { fillTimer dev t flag arg1 arg2 with fGptuOn := true, clc }
  { irqGranted filled (t - firstTimer) arg on with con, reload, irnen := dev.irnen ||| reg }

theorem requestTimer_cases (findTaskByPid : Word → Word) {dev : TimerDev} (timer : Nat)
    (flag value arg1 arg2 : Word) (heven : dev.numberOfTimers % 2 = 0) :
    (requestTimer findTaskByPid dev timer flag value arg1 arg2).2 = dev ∧
        (requestTimer findTaskByPid dev timer flag value arg1 arg2).1 ∈
          [GptuResult.einval, GptuResult.ebusy] ∨
      ∃ t ret arg clc reg on con reload,
        requestTimer findTaskByPid dev timer flag value arg1 arg2 =
          (.ok ret, granted dev t flag arg1 arg2 arg clc reg on con reload) ∧
        (firstTimer ≤ t ∧ t < firstTimer + dev.numberOfTimers) ∧
        (is16bit flag = false → t % 2 = 0) ∧ dev.occupation &&& timerMask flag t = 0 ∧
        t = (if ret = 0 then timerBase flag timer else ret) ∧
        (reg = 0 ∨ reg = 1#32 <<< (t - firstTimer)) ∧
        reload = Function.update dev.reload (timerReg t)
          (if is16bit flag then value &&& 0xffff#32 else value) := by
  unfold requestTimer
  split
  next => exact .inl ⟨rfl, by simp⟩
  next hlt =>
    dsimp only
    cases halloc : allocTimer dev (timerBase flag timer) flag with
    | none => exact .inl ⟨rfl, by simp⟩
    | some grant =>
      obtain ⟨t, ret⟩ := grant
      right
      obtain ⟨hlow, hup, hal, hfree, hret⟩ := allocTimer_spec heven (by omega) halloc
      obtain ⟨clc, hclc⟩ := gptuOn_eq (fillTimer dev t flag arg1 arg2)
      obtain ⟨arg, on, reg, hirq, hreg⟩ := enableTimerIrq_cases findTaskByPid
        { fillTimer dev t flag arg1 arg2 with fGptuOn := true, clc } t flag arg1
      dsimp only at hirq ⊢
      rw [hclc, hirq]
      exact ⟨t, ret, arg, clc, reg, on, Function.update dev.con (timerReg t) (conReg flag),
        Function.update dev.reload (timerReg t)
          (if is16bit flag then value &&& 0xffff#32 else value),
        rfl, ⟨hlow, hup⟩, hal, hfree, hret, hreg, rfl⟩

/-- Only `fIrqOn` of the requested timer can change. -/
theorem granted_timer (dev : TimerDev) (t : Nat) (flag arg1 arg2 arg clc reg : Word) (on : Bool)
    (con reload : Nat × Nat → Word) (i : Nat) :
    ((granted dev t flag arg1 arg2 arg clc reg on con reload).timer i).irq = (dev.timer i).irq ∧
      ((granted dev t flag arg1 arg2 arg clc reg on con reload).timer i).flag =
        ((fillTimer dev t flag arg1 arg2).timer i).flag ∧
      ((granted dev t flag arg1 arg2 arg clc reg on con reload).timer i).fIrqOn =
        if i = t - firstTimer then on || (dev.timer i).fIrqOn else (dev.timer i).fIrqOn := by
  obtain ⟨hirq, hon⟩ := fillTimer_irq dev t flag arg1 arg2 i
  simp only [granted, irqGranted, Function.update_apply]
  by_cases hi : i = t - firstTimer
  · subst hi
    simp [hirq, hon]
  · simp [hi, hirq, hon]

section Granted

variable {s : GptuSys} {t : Nat} {flag : Word}

/-- A free timer is in no live allocation. -/
theorem GptuInv.new_disjoint (h : GptuInv s) (ht' : t < firstTimer + s.dev.numberOfTimers)
    (hfree : s.dev.occupation &&& timerMask flag t = 0) {b : TimerAlloc} (hb : b ∈ s.live) {j : Nat}
    (hj : (TimerAlloc.mk t (!is16bit flag)).covers j = true) : b.covers j = false := by
  have hbound := h.bound
  by_contra hc
  have hocc := (h.bits j).mpr ⟨b, hb, Bool.eq_true_of_not_eq_false hc⟩
  have hmask := (and_eq_zero_iff _ _).mp hfree j hocc
  rw [getLsbD_timerMask (by simp only [firstTimer] at ht'; omega), hj] at hmask
  exact absurd hmask Bool.true_eq_false.mp

theorem GptuInv.new_irq_off (h : GptuInv s) (ht : firstTimer ≤ t)
    (ht' : t < firstTimer + s.dev.numberOfTimers)
    (hfree : s.dev.occupation &&& timerMask flag t = 0) :
    (s.dev.timer (t - firstTimer)).fIrqOn = false := by
  by_contra hc
  obtain ⟨b, hb, hbase⟩ := h.irqOn _ (Bool.eq_true_of_not_eq_false hc)
  have hbt : b.base = t := by omega
  have hno := h.new_disjoint ht' hfree hb (TimerAlloc.covers_base ⟨t, !is16bit flag⟩)
  have hyes := b.covers_base
  rw [hbt] at hyes
  exact absurd (hyes.symm.trans hno) Bool.true_eq_false.mp

theorem GptuInv.granted_bits (h : GptuInv s) (ht' : t < firstTimer + s.dev.numberOfTimers) (j : Nat) :
    (s.dev.occupation ||| timerMask flag t).getLsbD j = true ↔
      ∃ a ∈ TimerAlloc.mk t (!is16bit flag) :: s.live, a.covers j = true := by
  have hbound := h.bound
  rw [BitVec.getLsbD_or, Bool.or_eq_true, h.bits,
    getLsbD_timerMask (by simp only [firstTimer] at ht'; omega), List.exists_mem_cons_iff]
  exact or_comm

variable {arg1 arg2 arg clc reg : Word} {on : Bool} {con reload : Nat × Nat → Word}

theorem GptuInv.granted_balance (h : GptuInv s) (ht : firstTimer ≤ t)
    (ht' : t < firstTimer + s.dev.numberOfTimers)
    (hfree : s.dev.occupation &&& timerMask flag t = 0) {i : Nat} (hi : i < s.dev.numberOfTimers) :
    (granted s.dev t flag arg1 arg2 arg clc reg on con reload).disables (timerInterrupt + i) =
      (granted s.dev t flag arg1 arg2 arg clc reg on con reload).enables (timerInterrupt + i) +
        if ((granted s.dev t flag arg1 arg2 arg clc reg on con reload).timer i).fIrqOn
        then 0 else 1 := by
  have hbal := h.balance i hi
  have hirq := h.irq i hi
  have hfirst := h.irq (t - firstTimer) (by omega)
  rw [(granted_timer s.dev t flag arg1 arg2 arg clc reg on con reload i).2.2]
  have hkey : ((fillTimer s.dev t flag arg1 arg2).timer (t - firstTimer)).irq =
      timerInterrupt + (t - firstTimer) :=
    (fillTimer_irq s.dev t flag arg1 arg2 _).1.trans hfirst
  have hen : (granted s.dev t flag arg1 arg2 arg clc reg on con reload).enables =
      if on then Function.update s.dev.enables (timerInterrupt + (t - firstTimer))
        (s.dev.enables (timerInterrupt + (t - firstTimer)) + 1) else s.dev.enables := by
    simp only [granted, irqGranted, hkey]
    rfl
  have hdis : (granted s.dev t flag arg1 arg2 arg clc reg on con reload).disables =
      s.dev.disables := rfl
  rw [hen, hdis, hbal]
  by_cases hit : i = t - firstTimer
  · subst hit
    have hoff := h.new_irq_off ht ht' hfree
    cases on with
    | true => simp [hoff]
    | false => simp [hoff]
  · cases on with
    | true => simp [hit]
    | false => simp [hit]

theorem GptuInv.granted (h : GptuInv s) (ht : firstTimer ≤ t)
    (ht' : t < firstTimer + s.dev.numberOfTimers) (hal : is16bit flag = false → t % 2 = 0)
    (hfree : s.dev.occupation &&& timerMask flag t = 0)
    (hreg : reg = 0 ∨ reg = 1#32 <<< (t - firstTimer)) :
    GptuInv ⟨granted s.dev t flag arg1 arg2 arg clc reg on con reload,
      ⟨t, !is16bit flag⟩ :: s.live⟩ := by
  have hbound := h.bound
  have htab := granted_timer s.dev t flag arg1 arg2 arg clc reg on con reload
  refine ⟨h.even, h.bound, ?_, ?_, ?_, ?_, ?_, ?_, ?_, ?_, ?_, ?_, ?_⟩
  · intro a ha
    obtain rfl | ha := List.mem_cons.mp ha
    · exact ht
    · exact h.lower a ha
  · intro a ha
    obtain rfl | ha := List.mem_cons.mp ha
    · exact ht'
    · exact h.upper a ha
  · intro a ha h32
    obtain rfl | ha := List.mem_cons.mp ha
    · exact hal (by simpa using h32)
    · exact h.aligned a ha h32
  · refine List.pairwise_cons.mpr ⟨?_, h.disjoint⟩
    intro b hb j hj
    exact h.new_disjoint ht' hfree hb hj
  · exact h.granted_bits ht'
  · intro a ha j hj
    rw [(htab _).2.1]
    obtain rfl | ha := List.mem_cons.mp ha
    · have hge : firstTimer ≤ j := by
        obtain rfl | ⟨-, rfl⟩ := TimerAlloc.covers_iff.mp hj
        · exact ht
        · exact Nat.le_succ_of_le ht
      rw [fillTimer_flag s.dev flag arg1 arg2 ht hge, if_pos hj]
      exact (Bool.not_not _).symm
    · have hlow := h.lower a ha
      have hge : firstTimer ≤ j := by
        obtain rfl | ⟨-, rfl⟩ := TimerAlloc.covers_iff.mp hj
        · exact hlow
        · exact Nat.le_succ_of_le hlow
      have hno : ¬(TimerAlloc.mk t (!is16bit flag)).covers j = true := by
        intro hc
        exact absurd (hj.symm.trans (h.new_disjoint ht' hfree ha hc)) Bool.true_eq_false.mp
      rw [fillTimer_flag s.dev flag arg1 arg2 ht hge, if_neg hno]
      exact h.flags a ha j hj
  · exact ⟨fun _ => List.cons_ne_nil _ _, fun _ => rfl⟩
  · intro i hi
    rw [(htab i).2.2] at hi
    by_cases hit : i = t - firstTimer
    · exact ⟨_, List.mem_cons_self, by show t = _; omega⟩
    · rw [if_neg hit] at hi
      obtain ⟨a, ha, hbase⟩ := h.irqOn i hi
      exact ⟨a, List.mem_cons_of_mem _ ha, hbase⟩
  · intro i hi
    have hor : (s.dev.irnen ||| reg).getLsbD i = true := hi
    rw [BitVec.getLsbD_or, Bool.or_eq_true] at hor
    obtain hold | hnew := hor
    · obtain ⟨a, ha, hbase⟩ := h.irnen i hold
      exact ⟨a, List.mem_cons_of_mem _ ha, hbase⟩
    · obtain rfl | rfl := hreg
      · simp at hnew
      · rw [getLsbD_bit (by simp only [firstTimer] at ht'; omega), decide_eq_true_eq] at hnew
        exact ⟨_, List.mem_cons_self, by show t = _; omega⟩
  · intro i hi
    rw [(htab i).1]
    exact h.irq i hi
  · intro i hi
    exact h.granted_balance ht ht' hfree hi

end Granted

end DanubeBsp
