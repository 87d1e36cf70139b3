import DanubeBsp.DmaWfq

namespace DanubeBsp

/-- The channels below `i` have been looked at. -/
def SelectOk (status : Word) (weight : DmaChanNo → Int) (i : Nat) : Option DmaChanNo → Int → Prop
  | none, w => w = 0 ∧ ∀ d : DmaChanNo, d.val < i → status.getLsbD d.val = true → weight d ≤ 0
  | some c, w => w = weight c ∧ c.val < i ∧ status.getLsbD c.val = true ∧ 0 < weight c ∧
      (∀ d : DmaChanNo, d.val < i → status.getLsbD d.val = true → weight d ≤ weight c) ∧
      ∀ d : DmaChanNo, d < c → status.getLsbD d.val = true → weight d < weight c

/-- What is known of the local variables of the tasklet. -/
def TaskletOk (cfg : DmaConfig) (status : Word) (weight : DmaChanNo → Int)
    (ring : DmaChanNo → RxRing) : TaskletPhase → Prop
  | .select _ i chanNo w => status ≠ 0 ∧ i ≤ maxDmaChannelNum ∧ SelectOk status weight i chanNo w
  | .rx _ c => WfqSelected status weight c ∧ chanMapDir c = .rx
  | .rxReport _ c => (WfqSelected status weight c ∧ chanMapDir c = .rx) ∧
      rxDeliverable cfg (ring c).head = true
  | .rxQuiet _ c => (WfqSelected status weight c ∧ chanMapDir c = .rx) ∧
      rxDeliverable cfg (ring c).head = false
  | .tx _ c => WfqSelected status weight c ∧ chanMapDir c = .tx
  | .txReport _ c => chanMapDir c = .tx
  | .resetWeights _ => status ≠ 0 ∧
      ∀ c : DmaChanNo, status.getLsbD c.val = true → weight c ≤ 0
  | .tail => status = 0
  | _ => True

/-- The step left the status word, the weights and the rings alone. -/
structure SameWork (s t : RingSys) : Prop where
  status : t.sys.intStatus = s.sys.intStatus
  weight : t.sys.weight = s.sys.weight
  ring : t.ring = s.ring
  reads : t.reads = s.reads

/-- A handler has read one packet of channel `c`; without one nothing was read. -/
def Reported (up : UpperLayer) (s t : RingSys) (c : DmaChanNo) : Prop :=
  if up.hasHandler c then
    t.ring = Function.update s.ring c ((s.ring c).read (up.bufferAlloc c (s.reads c))) ∧
      t.reads = Function.update s.reads c (s.reads c + 1)
  else t.ring = s.ring ∧ t.reads = s.reads

theorem Reported.other {up : UpperLayer} {s t : RingSys} {c d : DmaChanNo}
    (h : Reported up s t c) (hd : d ≠ c) : t.ring d = s.ring d ∧ t.reads d = s.reads d := by
  unfold Reported at h
  split at h
  next => exact ⟨by rw [h.1, Function.update_of_ne hd], by rw [h.2, Function.update_of_ne hd]⟩
  next => exact ⟨congrFun h.1 d, congrFun h.2 d⟩

theorem Reported.own {up : UpperLayer} {s t : RingSys} {c : DmaChanNo} (h : Reported up s t c)
    (hh : up.hasHandler c = true) :
    t.ring c = (s.ring c).read (up.bufferAlloc c (s.reads c)) ∧ t.reads c = s.reads c + 1 := by
  unfold Reported at h
  rw [if_pos hh] at h
  exact ⟨by rw [h.1, Function.update_self], by rw [h.2, Function.update_self]⟩

/-- Everything a step of the tasklet can do. -/
inductive RingMove (cfg : DmaConfig) (up : UpperLayer) (s t : RingSys) : Prop
  | start (hp : s.sys.phase = .idle) (hs : s.sys.scheduled = true)
      (ht : t.sys.phase = .test dmaIntBudget) (hw : SameWork s t)
  | finish {budget : Int} (hp : s.sys.phase = .test budget) (hz : s.sys.intStatus = 0)
      (ht : t.sys.phase = .tail) (hw : SameWork s t)
  | spent {budget : Int} (hp : s.sys.phase = .test budget) (hz : s.sys.intStatus ≠ 0)
      (hb : budget < 0) (ht : t.sys.phase = .reschedule) (hw : SameWork s t)
  | enter {budget : Int} (hp : s.sys.phase = .test budget) (hz : s.sys.intStatus ≠ 0)
      (hb : 0 ≤ budget) (ht : t.sys.phase = .select (budget - 1) 0 none 0) (hw : SameWork s t)
  | reschedule (hp : s.sys.phase = .reschedule) (ht : t.sys.phase = .idle)
      (hs : t.sys.scheduled = true) (hw : SameWork s t)
  | select {budget : Int} {i : Nat} {chanNo : Option DmaChanNo} {w : Int}
      (hp : s.sys.phase = .select budget i chanNo w)
      (ht : t.sys.phase = selectStep s.sys budget i chanNo w) (hw : SameWork s t)
  | rx {budget : Int} {c : DmaChanNo} (hp : s.sys.phase = .rx budget c)
      (ht : t.sys.phase = if rxDeliverable cfg (s.ring c).head then .rxReport budget c
        else .rxQuiet budget c) (hw : SameWork s t)
  | report {budget : Int} {c : DmaChanNo} (hp : s.sys.phase = .rxReport budget c)
      (ht : t.sys.phase = .test budget) (hi : t.sys.intStatus = s.sys.intStatus)
      (hw : t.sys.weight = Function.update s.sys.weight c (s.sys.weight c - 1))
      (hr : Reported up s t c)
  | quiet {budget : Int} {c : DmaChanNo} (hp : s.sys.phase = .rxQuiet budget c)
      (hown : (s.ring c).head.dmaOwn = true) (ht : t.sys.phase = .test budget)
      (hi : t.sys.intStatus = clearBit s.sys.intStatus c.val)
      (hw : t.sys.weight = s.sys.weight) (hr : t.ring = s.ring) (hn : t.reads = s.reads)
  | rejected {budget : Int} {c : DmaChanNo} (hp : s.sys.phase = .rxQuiet budget c)
      (hown : (s.ring c).head.dmaOwn = false) (ht : t.sys.phase = .test budget)
      (hw : SameWork s t)
  | tx {budget : Int} {c : DmaChanNo} (hp : s.sys.phase = .tx budget c)
      (ht : t.sys.phase = .txReport budget c)
      (hi : t.sys.intStatus = clearBit s.sys.intStatus c.val)
      (hw : t.sys.weight = s.sys.weight) (hr : t.ring = s.ring) (hn : t.reads = s.reads)
  | transmitted {budget : Int} {c : DmaChanNo} (hp : s.sys.phase = .txReport budget c)
      (ht : t.sys.phase = .test budget)
      (hi : ∃ cs : List DmaChanNo, (∀ d ∈ cs, chanMapDir d = .tx) ∧
        t.sys.intStatus = cs.foldl (fun w d => clearBit w d.val) s.sys.intStatus)
      (hw : t.sys.weight = s.sys.weight) (hr : t.ring = s.ring) (hn : t.reads = s.reads)
  | refill {budget : Int} (hp : s.sys.phase = .resetWeights budget)
      (ht : t.sys.phase = .test budget) (hi : t.sys.intStatus = s.sys.intStatus)
      (hw : t.sys.weight = cfg.defaultWeight) (hr : t.ring = s.ring) (hn : t.reads = s.reads)
  | again (hp : s.sys.phase = .tail) (hz : s.sys.intStatus ≠ 0) (ht : t.sys.phase = .idle)
      (hs : t.sys.scheduled = true) (hw : SameWork s t)
  | stop (hp : s.sys.phase = .tail) (hz : s.sys.intStatus = 0) (ht : t.sys.phase = .idle)
      (hs : t.sys.scheduled = s.sys.scheduled) (hw : SameWork s t)

theorem foldl_disableChIrq (cs : List DmaChanNo) (s : IntSys) :
    (cs.foldl disableChIrq s).intStatus = cs.foldl (fun w d => clearBit w d.val) s.intStatus ∧
      (cs.foldl disableChIrq s).weight = s.weight ∧ (cs.foldl disableChIrq s).phase = s.phase := by
  induction cs generalizing s with
  | nil => exact ⟨rfl, rfl, rfl⟩
  | cons c cs ih => exact ih (disableChIrq s c)

theorem ringStep_cases {cfg : DmaConfig} {up : UpperLayer} {s t : RingSys}
    (h : ringStep cfg up s = some t) : RingMove cfg up s t := by
  obtain ⟨u, hu, rfl⟩ := Option.map_eq_some_iff.mp h
  have hsame : ∀ {u : IntSys}, u.intStatus = s.sys.intStatus → u.weight = s.sys.weight →
      SameWork s { s with sys := u } := fun hi hw => ⟨hi, hw, rfl, rfl⟩
  unfold taskletStep at hu
  have hphase : s.loaded.phase = s.sys.phase := rfl
  cases hp : s.sys.phase with
  | idle =>
    simp only [hphase, hp] at hu
    split at hu
    next hs => cases Option.some.inj hu; exact .start hp hs rfl (hsame rfl rfl)
    next => simp at hu
  | test budget =>
    simp only [hphase, hp] at hu
    split at hu
    next hz => cases Option.some.inj hu; exact .finish hp hz rfl (hsame rfl rfl)
    next hz =>
      split at hu
      next hb => cases Option.some.inj hu; exact .spent hp hz hb rfl (hsame rfl rfl)
      next hb => cases Option.some.inj hu; exact .enter hp hz (by omega) rfl (hsame rfl rfl)
  | reschedule =>
    simp only [hphase, hp] at hu
    cases Option.some.inj hu
    exact .reschedule hp rfl rfl (hsame rfl rfl)
  | select budget i chanNo w =>
    simp only [hphase, hp] at hu
    cases Option.some.inj hu
    exact .select hp rfl (hsame rfl rfl)
  | rx budget c =>
    simp only [hphase, hp] at hu
    cases Option.some.inj hu
    exact .rx hp rfl (hsame rfl rfl)
  | rxReport budget c =>
    simp only [hphase, hp] at hu
    cases Option.some.inj hu
    simp only [intrHandler]
    split
    next hh => exact .report hp rfl rfl rfl (by simp [Reported, hh, readRing])
    next hh => exact .report hp rfl rfl rfl (by simp [Reported, hh])
  | rxQuiet budget c =>
    simp only [hphase, hp] at hu
    cases Option.some.inj hu
    by_cases hown : (s.ring c).head.dmaOwn = true
    · exact .quiet hp hown rfl (if_pos hown) rfl rfl rfl
    · exact .rejected hp (Bool.eq_false_of_not_eq_true hown) rfl (hsame (if_neg hown) rfl)
  | tx budget c =>
    simp only [hphase, hp] at hu
    cases Option.some.inj hu
    exact .tx hp rfl rfl rfl rfl rfl
  | txReport budget c =>
    simp only [hphase, hp] at hu
    cases Option.some.inj hu
    simp only [intrHandler]
    split
    next =>
      obtain ⟨hi, hw, ht⟩ := foldl_disableChIrq (up.transmitCpt c)
        { s.loaded with phase := .test budget }
      exact .transmitted hp ht ⟨up.transmitCpt c, up.transmits c, hi⟩ hw rfl rfl
    next => exact .transmitted hp rfl ⟨[], by simp, rfl⟩ rfl rfl rfl
  | resetWeights budget =>
    simp only [hphase, hp] at hu
    cases Option.some.inj hu
    exact .refill hp rfl rfl rfl rfl rfl
  | tail =>
    simp only [hphase, hp] at hu
    split at hu
    next hz => cases Option.some.inj hu; exact .again hp hz rfl rfl (hsame rfl rfl)
    next hz => cases Option.some.inj hu; exact .stop hp (not_not.mp hz) rfl rfl (hsame rfl rfl)

theorem SelectOk.step {s : IntSys} {i : Nat} {chanNo : Option DmaChanNo} {w : Int}
    (h : SelectOk s.intStatus s.weight i chanNo w) (budget : Int) (hi : i < maxDmaChannelNum) :
    ∃ chanNo' w', selectStep s budget i chanNo w = .select budget (i + 1) chanNo' w' ∧
      SelectOk s.intStatus s.weight (i + 1) chanNo' w' := by
  have hsplit : ∀ d : DmaChanNo, d.val < i + 1 → d.val < i ∨ d = ⟨i, hi⟩ := by
    intro d hd
    obtain hlt | heq := Nat.lt_succ_iff_lt_or_eq.mp hd
    · exact .inl hlt
    · exact .inr (Fin.ext heq)
  unfold selectStep
  rw [dif_pos hi]
  dsimp only
  split
  next hc =>
    simp only [Bool.and_eq_true, decide_eq_true_eq] at hc
    obtain ⟨⟨hpend, hpos⟩, hgt⟩ := hc
    refine ⟨_, _, rfl, rfl, Nat.lt_succ_self i, hpend, hpos, ?_, ?_⟩
    · intro d hd hdp
      obtain hlt | rfl := hsplit d hd
      · cases chanNo with
        | none => exact le_trans (h.2 d hlt hdp) (le_of_lt hpos)
        | some c =>
          obtain ⟨rfl, -, -, -, hmax, -⟩ := h
          exact le_trans (hmax d hlt hdp) (le_of_lt hgt)
      · exact le_refl _
    · intro d hd hdp
      have hlt : d.val < i := hd
      cases chanNo with
      | none => exact lt_of_le_of_lt (h.2 d hlt hdp) hpos
      | some c =>
        obtain ⟨rfl, -, -, -, hmax, -⟩ := h
        exact lt_of_le_of_lt (hmax d hlt hdp) hgt
  next hc =>
    simp only [Bool.and_eq_true, decide_eq_true_eq, not_and, not_lt] at hc
    refine ⟨chanNo, w, rfl, ?_⟩
    cases chanNo with
    | none =>
      refine ⟨h.1, ?_⟩
      intro d hd hdp
      obtain hlt | rfl := hsplit d hd
      · exact h.2 d hlt hdp
      · by_contra hpos
        have hle := hc ⟨hdp, lt_of_not_ge hpos⟩
        rw [h.1] at hle
        exact hpos hle
    | some c =>
      obtain ⟨hw, hci, hcp, hpos, hmax, hfirst⟩ := h
      refine ⟨hw, Nat.lt_succ_of_lt hci, hcp, hpos, ?_, hfirst⟩
      intro d hd hdp
      obtain hlt | rfl := hsplit d hd
      · exact hmax d hlt hdp
      · by_contra hgt
        have hle := hc ⟨hdp, lt_trans hpos (lt_of_not_ge hgt)⟩
        rw [hw] at hle
        exact hgt hle

theorem SelectOk.finish {s : IntSys} {cfg : DmaConfig} {ring : DmaChanNo → RxRing} {budget : Int}
    {chanNo : Option DmaChanNo} {w : Int} (hz : s.intStatus ≠ 0)
    (h : SelectOk s.intStatus s.weight maxDmaChannelNum chanNo w) :
    TaskletOk cfg s.intStatus s.weight ring (selectStep s budget maxDmaChannelNum chanNo w) := by
  unfold selectStep
  rw [dif_neg (lt_irrefl _)]
  cases chanNo with
  | none => exact ⟨hz, fun c hc => h.2 c c.isLt hc⟩
  | some c =>
    obtain ⟨-, -, hcp, hpos, hmax, hfirst⟩ := h
    have hsel : WfqSelected s.intStatus s.weight c :=
      ⟨hcp, hpos, fun d hd => hmax d d.isLt hd, hfirst⟩
    dsimp only
    split
    next hdir => exact ⟨hsel, hdir⟩
    next hdir =>
      refine ⟨hsel, ?_⟩
      cases hc : chanMapDir c with
      | rx => exact absurd hc hdir
      | tx => rfl

/-- `TaskletOk` of a whole state. -/
def RingOk (cfg : DmaConfig) (s : RingSys) : Prop :=
  TaskletOk cfg s.sys.intStatus s.sys.weight s.ring s.sys.phase

theorem RingOk.of_same {cfg : DmaConfig} {s t : RingSys} (hw : SameWork s t)
    (h : TaskletOk cfg s.sys.intStatus s.sys.weight s.ring t.sys.phase) : RingOk cfg t := by
  rw [RingOk, hw.status, hw.weight, hw.ring]
  exact h

theorem RingMove.ok {cfg : DmaConfig} {up : UpperLayer} {s t : RingSys} (h : RingOk cfg s)
    (hm : RingMove cfg up s t) : RingOk cfg t := by
  cases hm with
  | start hp hs ht hw => exact .of_same hw (ht ▸ trivial)
  | finish hp hz ht hw => exact .of_same hw (ht ▸ hz)
  | spent hp hz hb ht hw => exact .of_same hw (ht ▸ trivial)
  | enter hp hz hb ht hw =>
    refine .of_same hw ?_
    rw [ht]
    exact ⟨hz, Nat.zero_le _, rfl, fun d hd => absurd hd (Nat.not_lt_zero _)⟩
  | reschedule hp ht hs hw => exact .of_same hw (ht ▸ trivial)
  | @select budget i chanNo w hp ht hw =>
    refine .of_same hw ?_
    rw [RingOk, hp] at h
    obtain ⟨hz, hi, hsel⟩ := h
    rw [ht]
    obtain hlt | rfl := Nat.lt_or_eq_of_le hi
    · obtain ⟨chanNo', w', heq, hnext⟩ := hsel.step budget hlt
      rw [heq]
      exact ⟨hz, hlt, hnext⟩
    · exact hsel.finish hz
  | @rx budget c hp ht hw =>
    refine .of_same hw ?_
    rw [RingOk, hp] at h
    rw [ht]
    split
    next hd => exact ⟨h, hd⟩
    next hd => exact ⟨h, Bool.eq_false_of_not_eq_true hd⟩
  | report hp ht => rw [RingOk, ht]; trivial
  | quiet hp hown ht => rw [RingOk, ht]; trivial
  | rejected hp hown ht hw => exact .of_same hw (ht ▸ trivial)
  | tx hp ht =>
    rw [RingOk, hp] at h
    rw [RingOk, ht]
    exact h.2
  | transmitted hp ht => rw [RingOk, ht]; trivial
  | refill hp ht => rw [RingOk, ht]; trivial
  | again hp hz ht hs hw => exact .of_same hw (ht ▸ trivial)
  | stop hp hz ht hs hw => exact .of_same hw (ht ▸ trivial)

end DanubeBsp
