import DanubeBsp.DmaProgress

namespace DanubeBsp

theorem WfqSelected.unique {status : Word} {weight : DmaChanNo → Int} {c d : DmaChanNo}
    (hc : WfqSelected status weight c) (hd : WfqSelected status weight d) : c = d := by
  obtain hlt | heq | hgt := lt_trichotomy c d
  · exact absurd (hd.first c hlt hc.pending) (not_lt.mpr (hc.largest d hd.pending))
  · exact heq
  · exact absurd (hc.first d hgt hd.pending) (not_lt.mpr (hd.largest c hc.pending))

theorem SameWork.trans {s t u : RingSys} (h : SameWork s t) (h' : SameWork t u) : SameWork s u :=
  ⟨h'.status.trans h.status, h'.weight.trans h.weight, h'.ring.trans h.ring,
    h'.reads.trans h.reads⟩

section Iteration

variable {cfg : DmaConfig} {up : UpperLayer} {s t : RingSys}

theorem untilTest_step (n : Nat) (hp : s.sys.phase.atTest = false)
    (hs : ringStep cfg up s = some t) : untilTest cfg up (n + 1) s = untilTest cfg up n t := by
  rw [untilTest, hp, hs]
  rfl

theorem untilTest_test (n : Nat) {budget : Int} (hp : s.sys.phase = .test budget) :
    untilTest cfg up (n + 1) s = some s := by
  rw [untilTest, hp]
  rfl

theorem RingMove.of_select {budget : Int} {i : Nat} {chanNo : Option DmaChanNo} {w : Int}
    (hp : s.sys.phase = .select budget i chanNo w) (hm : RingMove cfg up s t) :
    t.sys.phase = selectStep s.sys budget i chanNo w ∧ SameWork s t := by
  cases hm with
  | select hp' ht hw =>
    cases hp.symm.trans hp'
    exact ⟨ht, hw⟩
  | _ => simp_all

theorem RingMove.of_rx {budget : Int} {c : DmaChanNo} (hp : s.sys.phase = .rx budget c)
    (hm : RingMove cfg up s t) :
    (t.sys.phase = if rxDeliverable cfg (s.ring c).head then .rxReport budget c
      else .rxQuiet budget c) ∧ SameWork s t := by
  cases hm with
  | rx hp' ht hw =>
    cases hp.symm.trans hp'
    exact ⟨ht, hw⟩
  | _ => simp_all

theorem ringStep_of_running (cfg : DmaConfig) (up : UpperLayer) {s : RingSys}
    (hp : s.sys.phase ≠ .idle) (hok : RingOk cfg s) :
    ∃ t, ringStep cfg up s = some t ∧ RingMove cfg up s t ∧ RingOk cfg t := by
  have hsome : (taskletStep cfg s.loaded).isSome = true := taskletStep_isSome (.inr hp)
  obtain ⟨u, hu⟩ := Option.isSome_iff_exists.mp hsome
  have ht : ringStep cfg up s = some (intrHandler up { s with sys := u } s.sys.phase) := by
    rw [ringStep, hu]
    rfl
  have hmove := ringStep_cases ht
  exact ⟨_, ht, hmove, hmove.ok hok⟩

/-- The selection loop ends with the call of a handler or with the refill. -/
theorem untilTest_select (up : UpperLayer) (n k : Nat) {i : Nat} {budget : Int}
    {chanNo : Option DmaChanNo} {w : Int}
    (hp : s.sys.phase = .select budget i chanNo w) (hi : i + n = maxDmaChannelNum)
    (hok : RingOk cfg s) :
    ∃ u, untilTest cfg up (n + 1 + k) s = untilTest cfg up k u ∧ SameWork s u ∧ RingOk cfg u ∧
      ((∃ c, u.sys.phase = .rx budget c ∨ u.sys.phase = .tx budget c) ∨
        u.sys.phase = .resetWeights budget) := by
  induction n generalizing s i chanNo w with
  | zero =>
    obtain ⟨t, hs, hmove, hokt⟩ := ringStep_of_running cfg up (by simp [hp]) hok
    obtain ⟨ht, hw⟩ := hmove.of_select hp
    refine ⟨t, ?_, hw, hokt, ?_⟩
    · rw [Nat.zero_add, Nat.add_comm]
      exact untilTest_step k (by rw [hp]; rfl) hs
    · rw [ht]
      unfold selectStep
      rw [dif_neg (by omega)]
      cases chanNo with
      | none => exact .inr rfl
      | some c =>
        dsimp only
        split
        next => exact .inl ⟨c, .inl rfl⟩
        next => exact .inl ⟨c, .inr rfl⟩
  | succ n ih =>
    obtain ⟨t, hs, hmove, hokt⟩ := ringStep_of_running cfg up (by simp [hp]) hok
    obtain ⟨ht, hw⟩ := hmove.of_select hp
    rw [RingOk, hp] at hok
    obtain ⟨chanNo', w', heq, -⟩ := hok.2.2.step budget (by omega)
    obtain ⟨u, hu, hsame, hrest⟩ := ih (ht.trans heq) (by omega) hokt
    refine ⟨u, ?_, hw.trans hsame, hrest⟩
    rw [← hu, show n + 1 + 1 + k = n + 1 + k + 1 by omega]
    exact untilTest_step _ (by rw [hp]; rfl) hs

/-- What the pass did: it served the selected channel, met a rejected descriptor or refilled the
weights. -/
inductive PassEnd (cfg : DmaConfig) (s t : RingSys) : Prop
  | served {c : DmaChanNo} (hsel : WfqSelected s.sys.intStatus s.sys.weight c)
      (hr : ¬(chanMapDir c = .rx ∧ Rejected cfg (s.ring c).head)) (hp : MadeProgress s t)
  | rejected {c : DmaChanNo} (hsel : WfqSelected s.sys.intStatus s.sys.weight c)
      (hdir : chanMapDir c = .rx) (hr : Rejected cfg (s.ring c).head) (hw : SameWork s t)
  | refilled (hneeds : NeedsRefill s.sys.intStatus s.sys.weight)
      (hi : t.sys.intStatus = s.sys.intStatus) (hw : t.sys.weight = cfg.defaultWeight)
      (hn : t.reads = s.reads)

theorem PassEnd.of_same {u : RingSys} (hw : SameWork s u) (h : PassEnd cfg u t) :
    PassEnd cfg s t := by
  cases h with
  | served hsel hr hp =>
    rw [hw.status, hw.weight] at hsel
    rw [hw.ring] at hr
    refine .served hsel hr ?_
    obtain ⟨c, hc⟩ := hp
    simp only [IntSys.pending, hw.status, hw.weight, hw.reads] at hc
    exact ⟨c, hc⟩
  | rejected hsel hdir hr hw' =>
    rw [hw.status, hw.weight] at hsel
    rw [hw.ring] at hr
    exact .rejected hsel hdir hr (hw.trans hw')
  | refilled hneeds hi hw' hn =>
    rw [hw.status, hw.weight] at hneeds
    exact .refilled hneeds (hi.trans hw.status) hw' (hn.trans hw.reads)

theorem pass_rx (up : UpperLayer) (k : Nat) {budget : Int} {c : DmaChanNo} (hp : s.sys.phase = .rx budget c)
    (hok : RingOk cfg s) :
    ∃ t, untilTest cfg up (k + 3) s = some t ∧ PassEnd cfg s t := by
  obtain ⟨u, hs, hmove, hoku⟩ := ringStep_of_running cfg up (by simp [hp]) hok
  obtain ⟨hu, hw⟩ := hmove.of_rx hp
  rw [RingOk, hp] at hok
  obtain ⟨hsel, hdir⟩ := hok
  have hfirst : untilTest cfg up (k + 3) s = untilTest cfg up (k + 2) u :=
    untilTest_step _ (by rw [hp]; rfl) hs
  by_cases hd : rxDeliverable cfg (s.ring c).head = true
  · rw [if_pos hd] at hu
    obtain ⟨t, hs', hmove', -⟩ := ringStep_of_running cfg up (by simp [hu]) hoku
    have ht : t.sys.phase = .test budget ∧
        t.sys.weight = Function.update u.sys.weight c (u.sys.weight c - 1) := by
      cases hmove' with
      | report hp' ht _ hw' => cases hu.symm.trans hp'; exact ⟨ht, hw'⟩
      | _ => simp_all
    refine ⟨t, ?_, .served hsel ?_ ⟨c, .inr (.inl ?_)⟩⟩
    · rw [hfirst, untilTest_step _ (by rw [hu]; rfl) hs', untilTest_test _ ht.1]
    · rintro ⟨-, hr⟩
      exact absurd (hr.2.symm.trans hd) Bool.false_ne_true
    · rw [ht.2, Function.update_self, hw.weight]
      omega
  · rw [if_neg hd] at hu
    obtain ⟨t, hs', hmove', -⟩ := ringStep_of_running cfg up (by simp [hu]) hoku
    have hlast : ∀ {b}, t.sys.phase = .test b → untilTest cfg up (k + 3) s = some t := by
      intro b ht
      rw [hfirst, untilTest_step _ (by rw [hu]; rfl) hs', untilTest_test _ ht]
    cases hmove' with
    | quiet hp' hown ht hi _ _ _ =>
      cases hu.symm.trans hp'
      rw [hw.ring] at hown
      refine ⟨t, hlast ht, .served hsel ?_ ⟨c, .inr (.inr ⟨hsel.pending, ?_⟩)⟩⟩
      · rintro ⟨-, hr⟩
        exact absurd (hr.1.symm.trans hown) Bool.false_ne_true
      · rw [IntSys.pending, hi, pending_clearBit]
        simp
    | rejected hp' hown ht hw' =>
      cases hu.symm.trans hp'
      rw [hw.ring] at hown
      exact ⟨t, hlast ht, .rejected hsel hdir ⟨hown, Bool.eq_false_of_not_eq_true hd⟩
        (hw.trans hw')⟩
    | _ => simp_all

theorem pass_tx (up : UpperLayer) (k : Nat) {budget : Int} {c : DmaChanNo} (hp : s.sys.phase = .tx budget c)
    (hok : RingOk cfg s) :
    ∃ t, untilTest cfg up (k + 3) s = some t ∧ PassEnd cfg s t := by
  obtain ⟨u, hs, hmove, hoku⟩ := ringStep_of_running cfg up (by simp [hp]) hok
  rw [RingOk, hp] at hok
  obtain ⟨hsel, hdir⟩ := hok
  have hu : u.sys.phase = .txReport budget c ∧
      u.sys.intStatus = clearBit s.sys.intStatus c.val := by
    cases hmove with
    | tx hp' ht hi => cases hp.symm.trans hp'; exact ⟨ht, hi⟩
    | _ => simp_all
  obtain ⟨t, hs', hmove', -⟩ := ringStep_of_running cfg up (by simp [hu.1]) hoku
  have ht : t.sys.phase = .test budget ∧
      ∀ i, t.sys.intStatus.getLsbD i = true → u.sys.intStatus.getLsbD i = true := by
    cases hmove' with
    | transmitted hp' ht hi =>
      cases hu.1.symm.trans hp'
      obtain ⟨cs, -, hi⟩ := hi
      refine ⟨ht, ?_⟩
      intro i hset
      rw [hi, foldl_clearBit, Bool.and_eq_true] at hset
      exact hset.1
    | _ => simp_all
  refine ⟨t, ?_, .served hsel ?_ ⟨c, .inr (.inr ⟨hsel.pending, ?_⟩)⟩⟩
  · rw [untilTest_step _ (by rw [hp]; rfl) hs, untilTest_step _ (by rw [hu.1]; rfl) hs',
      untilTest_test _ ht.1]
  · rintro ⟨hrx, -⟩
    rw [hdir] at hrx
    cases hrx
  · by_contra hc
    have hset := ht.2 _ (Bool.eq_true_of_not_eq_false hc)
    rw [hu.2, pending_clearBit] at hset
    simp at hset

theorem pass_refill (up : UpperLayer) (k : Nat) {budget : Int} (hp : s.sys.phase = .resetWeights budget)
    (hok : RingOk cfg s) :
    ∃ t, untilTest cfg up (k + 2) s = some t ∧ PassEnd cfg s t := by
  obtain ⟨t, hs, hmove, -⟩ := ringStep_of_running cfg up (by simp [hp]) hok
  rw [RingOk, hp] at hok
  cases hmove with
  | refill hp' ht hi hw _ hn =>
    refine ⟨t, ?_, .refilled hok.2 hi hw hn⟩
    rw [untilTest_step _ (by rw [hp]; rfl) hs, untilTest_test _ ht]
  | _ => simp_all

end Iteration

theorem loopIteration_pass (cfg : DmaConfig) (up : UpperLayer) (budget : Nat) {status : Word}
    (hz : status ≠ 0) (weight : DmaChanNo → Int) (ring : DmaChanNo → RxRing) :
    ∃ t, loopIteration cfg up (loopHead budget status weight ring) = some t ∧
      PassEnd cfg (loopHead budget status weight ring) t := by
  have hp : (loopHead budget status weight ring).sys.phase = .test budget := rfl
  have hok : RingOk cfg (loopHead budget status weight ring) := trivial
  obtain ⟨u, hs, hmove, hoku⟩ := ringStep_of_running cfg up (by simp [hp]) hok
  have hu : u.sys.phase = .select ((budget : Int) - 1) 0 none 0 ∧
      SameWork (loopHead budget status weight ring) u := by
    cases hmove with
    | enter hp' _ _ ht hw => cases hp.symm.trans hp'; exact ⟨ht, hw⟩
    | finish hp' hz' => exact absurd hz' hz
    | spent hp' _ hb =>
      cases hp.symm.trans hp'
      exact absurd hb (by omega)
    | _ => simp_all
  obtain ⟨v, hv, hw, hokv, hphase⟩ := untilTest_select up 20 4 hu.1 rfl hoku
  have hrun : loopIteration cfg up (loopHead budget status weight ring) = untilTest cfg up 4 v := by
    rw [loopIteration, hs]
    exact hv
  have hsame := hu.2.trans hw
  rw [hrun]
  obtain ⟨c, hrx | htx⟩ | hrefill := hphase
  · obtain ⟨t, ht, hend⟩ := pass_rx up 1 hrx hokv
    exact ⟨t, ht, hend.of_same hsame⟩
  · obtain ⟨t, ht, hend⟩ := pass_tx up 1 htx hokv
    exact ⟨t, ht, hend.of_same hsame⟩
  · obtain ⟨t, ht, hend⟩ := pass_refill up 2 hrefill hokv
    exact ⟨t, ht, hend.of_same hsame⟩

theorem loopIteration_zero (cfg : DmaConfig) (up : UpperLayer) (budget : Int)
    (weight : DmaChanNo → Int) (ring : DmaChanNo → RxRing) :
    loopIteration cfg up (loopHead budget 0 weight ring) = none := rfl

theorem SameWork.no_progress {s t : RingSys} (hw : SameWork s t) : ¬MadeProgress s t := by
  rintro ⟨d, hd | hd | hd⟩
  · rw [hw.reads] at hd
    exact lt_irrefl _ hd
  · rw [hw.weight] at hd
    exact lt_irrefl _ hd
  · rw [IntSys.pending, IntSys.pending, hw.status] at hd
    exact absurd (hd.1.symm.trans hd.2) (by simp)

/-- A refill lowers no weight and does nothing else. -/
theorem refill_no_progress {s t : RingSys} (hi : t.sys.intStatus = s.sys.intStatus)
    (hw : ∀ c, s.sys.weight c ≤ t.sys.weight c) (hn : t.reads = s.reads) : ¬MadeProgress s t := by
  rintro ⟨d, hd | hd | hd⟩
  · rw [hn] at hd
    exact lt_irrefl _ hd
  · exact absurd hd (not_lt.mpr (hw d))
  · rw [IntSys.pending, IntSys.pending, hi] at hd
    exact absurd (hd.1.symm.trans hd.2) (by simp)

section Conditions

variable (ethernetD2 : Bool) (up : UpperLayer) (status : Word) (weights : ChanWeights)
  (ring : DmaChanNo → RxRing)

theorem iterationProgresses_iff (budget : Nat) :
    IterationProgresses (dmaCoreConfig ethernetD2) up
        (loopHead budget status weights.weight ring) ↔
      ∃ c, WfqSelected status weights.weight c ∧
        ¬(chanMapDir c = .rx ∧ Rejected (dmaCoreConfig ethernetD2) (ring c).head) := by
  by_cases hz : status = 0
  · subst hz
    refine iff_of_false ?_ ?_
    · rintro ⟨t, ht, -⟩
      rw [loopIteration_zero] at ht
      cases ht
    · rintro ⟨c, hsel, -⟩
      simpa using hsel.pending
  · obtain ⟨t, ht, hend⟩ := loopIteration_pass (dmaCoreConfig ethernetD2) up budget hz
      weights.weight ring
    rw [IterationProgresses, ht]
    simp only [Option.some.injEq, exists_eq_left']
    cases hend with
    | @served c hsel hr hp => exact iff_of_true hp ⟨c, hsel, hr⟩
    | @rejected c hsel hdir hr hw =>
      refine iff_of_false hw.no_progress ?_
      rintro ⟨d, hsel', hr'⟩
      cases hsel.unique hsel'
      exact hr' ⟨hdir, hr⟩
    | refilled hneeds hi hw hn =>
      refine iff_of_false (refill_no_progress hi (fun c => hw ▸ weights.le c) hn) ?_
      rintro ⟨d, hsel, -⟩
      exact absurd hsel.positive (not_lt.mpr (hneeds d hsel.pending))

theorem reachesIdle_iff (budget : Int) :
    ReachesIdle (dmaCoreConfig ethernetD2) up (loopHead budget status weights.weight ring) ↔
      (∀ i, maxDmaChannelNum ≤ i → status.getLsbD i = false) ∧
        ∀ c : DmaChanNo, status.getLsbD c.val = true →
          ChannelDrains (dmaCoreConfig ethernetD2) up ring c := by
  have hdef : ∀ c, 0 < (dmaCoreConfig ethernetD2).defaultWeight c := by
    intro c
    change (0 : Int) < 100
    decide
  exact loopHead_reachesIdle_iff _ up budget status weights.weight ring hdef

end Conditions

/-- An iteration makes progress exactly when there is a pending channel with weight left and the
descriptor of the selected channel is not rejected; the tasklet comes to rest exactly when every
status bit belongs to a channel that drains. -/
theorem dmaTasklet_progress_iff (ethernetD2 : Bool) (up : UpperLayer) (status : Word)
    (weights : ChanWeights) (ring : DmaChanNo → RxRing) :
    (∀ budget : Nat,
      IterationProgresses (dmaCoreConfig ethernetD2) up
          (loopHead budget status weights.weight ring) ↔
        ∃ c, WfqSelected status weights.weight c ∧
          ¬(chanMapDir c = .rx ∧ Rejected (dmaCoreConfig ethernetD2) (ring c).head)) ∧
    ∀ budget : Int,
      ReachesIdle (dmaCoreConfig ethernetD2) up (loopHead budget status weights.weight ring) ↔
        (∀ i, maxDmaChannelNum ≤ i → status.getLsbD i = false) ∧
          ∀ c : DmaChanNo, status.getLsbD c.val = true →
            ChannelDrains (dmaCoreConfig ethernetD2) up ring c := by
  refine ⟨?_, ?_⟩
  · exact iterationProgresses_iff ethernetD2 up status weights ring
  · exact reachesIdle_iff ethernetD2 up status weights ring

local instance dmaChannelsNeZero : NeZero maxDmaChannelNum := ⟨by decide⟩

/-- The handlers of the Ethernet driver, with buffers to be had. -/
def ethernetUpper : UpperLayer where
  hasHandler := fun _ => true
  bufferAlloc := fun _ _ => some ⟨0x80002000#32, 0, 0x80003000#32⟩
  transmitCpt := fun _ => [1, 3, 7]
  transmits := by decide

/-- A ring whose only descriptor holds a completed packet of 1536 bytes. -/
def oversizeRing : RxRing :=
  ⟨⟨fun _ => ⟨0x40000600#32, 0x1000#32⟩, fun _ => 0x80003000#32, 1, 0, 0x600#32⟩, by decide⟩

/-- Without `ENABLE_DANUBE_ETHERNET_D2` a packet of 1536 bytes on channel 0 is neither passed on nor
taken off: the iteration changes nothing and the tasklet never rests. -/
theorem oversize_packet_spins :
    ¬IterationProgresses (dmaCoreConfig false) ethernetUpper
        (loopHead 100 1 (fun _ => dmaChDefaultWeight) fun _ => oversizeRing) ∧
      ¬ReachesIdle (dmaCoreConfig false) ethernetUpper
        (loopHead 100 1 (fun _ => dmaChDefaultWeight) fun _ => oversizeRing) := by
  have hrejected : Rejected (dmaCoreConfig false) oversizeRing.head := ⟨by decide, by decide⟩
  have hsize : oversizeRing.size = 1 := rfl
  have honly : ∀ c : DmaChanNo, (1 : Word).getLsbD c.val = true → c = 0 := by decide
  refine ⟨?_, ?_⟩
  · intro h
    obtain ⟨c, hsel, hr⟩ := (iterationProgresses_iff false ethernetUpper 1
      ⟨fun _ => dmaChDefaultWeight, fun _ => le_refl _⟩ (fun _ => oversizeRing) 100).mp h
    cases honly c hsel.pending
    exact hr ⟨by decide, hrejected⟩
  · intro h
    obtain ⟨-, hdrains⟩ := (reachesIdle_iff false ethernetUpper 1
      ⟨fun _ => dmaChDefaultWeight, fun _ => le_refl _⟩ (fun _ => oversizeRing) 100).mp h
    obtain htx | hown | ⟨-, ⟨k, hk, -, hown⟩ | ⟨hall, -⟩⟩ := hdrains 0 (by decide)
    · exact absurd htx (by decide)
    · exact absurd (hrejected.1.symm.trans hown) Bool.false_ne_true
    · rw [hsize, Nat.lt_one_iff] at hk
      rw [hk, RxRing.ahead_zero] at hown
      exact absurd (hrejected.1.symm.trans hown) Bool.false_ne_true
    · have hzero := hall 0 (by decide)
      rw [RxRing.ahead_zero] at hzero
      exact absurd (hrejected.2.symm.trans hzero) Bool.false_ne_true

end DanubeBsp
