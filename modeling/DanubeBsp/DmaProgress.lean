import DanubeBsp.DmaDrain
import DanubeBsp.DmaMoves
import Mathlib.Algebra.BigOperators.Fin
import Mathlib.Algebra.Order.BigOperators.Group.Finset

namespace DanubeBsp

theorem foldl_disableChIrq_inv {s : IntSys} (h : IntInv s) (cs : List DmaChanNo) :
    IntInv (cs.foldl disableChIrq s) := by
  induction cs generalizing s with
  | nil => exact h
  | cons c cs ih => exact ih (disableChIrq_inv h c)

theorem ringStep_intInv {cfg : DmaConfig} {up : UpperLayer} {s t : RingSys} (h : IntInv s.sys)
    (hs : ringStep cfg up s = some t) : IntInv t.sys := by
  obtain ⟨u, hu, rfl⟩ := Option.map_eq_some_iff.mp hs
  have hloaded : IntInv s.loaded := ⟨h.live, h.once, h.quiet, h.kept⟩
  have hinv : IntInv u := taskletStep_inv hloaded hu
  unfold intrHandler
  split
  next =>
    split
    next => exact hinv
    next => exact hinv
  next c _ =>
    split
    next => exact foldl_disableChIrq_inv hinv _
    next => exact hinv
  next => exact hinv

theorem taskletStep_isSome {cfg : DmaConfig} {s : IntSys}
    (h : s.scheduled = true ∨ s.phase ≠ .idle) : (taskletStep cfg s).isSome = true := by
  unfold taskletStep
  cases hp : s.phase with
  | idle =>
    obtain hs | hne := h
    · simp [hs]
    · exact absurd hp hne
  | test budget =>
    dsimp only
    split
    next => rfl
    next =>
      split
      next => rfl
      next => rfl
  | tail =>
    dsimp only
    split
    next => rfl
    next => rfl
  | _ => rfl

/-- The tasklet runs on as long as a status bit is set. -/
theorem ringStep_of_status (cfg : DmaConfig) (up : UpperLayer) {s : RingSys} (h : IntInv s.sys)
    (hz : s.sys.intStatus ≠ 0) : ∃ t, ringStep cfg up s = some t := by
  have hin : s.sys.inProcess = true := by
    by_contra hc
    exact hz (h.quiet (Bool.eq_false_of_not_eq_true hc))
  have hsome : (taskletStep cfg s.loaded).isSome = true := taskletStep_isSome (h.live.mp hin)
  obtain ⟨u, hu⟩ := Option.isSome_iff_exists.mp hsome
  exact ⟨_, by rw [ringStep, hu]; rfl⟩

/-- The number of reads after which a pending channel is quiet. -/
inductive Left (cfg : DmaConfig) (up : UpperLayer) (s : RingSys) (c : DmaChanNo) : Nat → Prop
  | tx (h : chanMapDir c = .tx) : Left cfg up s c 0
  | rx {k : Nat} (h : chanMapDir c = .rx)
      (hk : DrainsIn cfg (up.hasHandler c) (up.bufferAlloc c) (s.reads c) (s.ring c) k) :
      Left cfg up s c k

theorem Left.congr {cfg : DmaConfig} {up : UpperLayer} {s t : RingSys} {c : DmaChanNo} {k : Nat}
    (hr : t.ring c = s.ring c) (hn : t.reads c = s.reads c) (h : Left cfg up s c k) :
    Left cfg up t c k := by
  cases h with
  | tx h => exact .tx h
  | rx h hk => exact .rx h (hr ▸ hn ▸ hk)

/-- A report on a channel that gets quiet takes one read off. -/
theorem Left.report {cfg : DmaConfig} {up : UpperLayer} {s t : RingSys} {c : DmaChanNo} {k : Nat}
    (hdir : chanMapDir c = .rx) (hd : rxDeliverable cfg (s.ring c).head = true)
    (hr : Reported up s t c) (h : Left cfg up s c k) :
    ∃ k', k = k' + 1 ∧ Left cfg up t c k' := by
  cases h with
  | tx h => rw [hdir] at h; cases h
  | rx h hk =>
    cases hk with
    | owned hown => exact absurd ((rxDeliverable_not_dmaOwn hd).symm.trans hown) Bool.false_ne_true
    | @read _ k' _ hh _ hk =>
      refine ⟨k', rfl, .rx hdir ?_⟩
      rw [(hr.own hh).1, (hr.own hh).2]
      exact hk

theorem Left.not_rejected {cfg : DmaConfig} {up : UpperLayer} {s : RingSys} {c : DmaChanNo}
    {k : Nat} (hdir : chanMapDir c = .rx) (h : Left cfg up s c k) :
    ¬Rejected cfg (s.ring c).head := by
  rintro ⟨hown, hd⟩
  cases h with
  | tx h => rw [hdir] at h; cases h
  | rx h hk =>
    cases hk with
    | owned hk => exact absurd (hown.symm.trans hk) Bool.false_ne_true
    | read _ hk _ => exact absurd (hd.symm.trans hk) Bool.false_ne_true

/-- With `k` reads left, the number of passes that serve the channel. -/
def passesLeft (status : Word) (k : DmaChanNo → Nat) (c : DmaChanNo) : Nat :=
  if status.getLsbD c.val then k c + 1 else 0

def workload (status : Word) (k : DmaChanNo → Nat) : Nat := ∑ c : DmaChanNo, passesLeft status k c

section Workload

variable {status status' : Word} {k k' : DmaChanNo → Nat}

theorem passesLeft_le {c : DmaChanNo}
    (hs : status'.getLsbD c.val = true → status.getLsbD c.val = true) (hk : k' c ≤ k c) :
    passesLeft status' k' c ≤ passesLeft status k c := by
  unfold passesLeft
  by_cases h' : status'.getLsbD c.val = true
  · rw [if_pos h', if_pos (hs h')]
    omega
  · rw [if_neg h']
    exact Nat.zero_le _

theorem workload_le
    (hs : ∀ c : DmaChanNo, status'.getLsbD c.val = true → status.getLsbD c.val = true)
    (hk : ∀ c, k' c ≤ k c) : workload status' k' ≤ workload status k :=
  Finset.sum_le_sum fun c _ => passesLeft_le (hs c) (hk c)

theorem workload_lt {c : DmaChanNo}
    (hs : ∀ c : DmaChanNo, status'.getLsbD c.val = true → status.getLsbD c.val = true)
    (hk : ∀ c, k' c ≤ k c) (hc : status.getLsbD c.val = true)
    (hlt : status'.getLsbD c.val = true → k' c < k c) : workload status' k' < workload status k := by
  refine Finset.sum_lt_sum (fun d _ => passesLeft_le (hs d) (hk d)) ⟨c, Finset.mem_univ c, ?_⟩
  unfold passesLeft
  rw [if_pos hc]
  by_cases h' : status'.getLsbD c.val = true
  · have hlt := hlt h'
    rw [if_pos h']
    omega
  · rw [if_neg h']
    omega

end Workload

/-- No pending channel has weight left. -/
def NeedsRefill (status : Word) (weight : DmaChanNo → Int) : Prop :=
  ∀ c : DmaChanNo, status.getLsbD c.val = true → weight c ≤ 0

instance (status : Word) (weight : DmaChanNo → Int) : Decidable (NeedsRefill status weight) :=
  inferInstanceAs (Decidable (∀ _ : DmaChanNo, _))

/-- Within a pass the steps count down. -/
def phaseRank (scheduled : Bool) : TaskletPhase → Nat
  | .test budget => if budget < 0 then 62 else 50
  | .reschedule => 61
  | .idle => if scheduled then 60 else 0
  | .select _ i _ _ => 45 - i
  | .rx _ _ | .tx _ _ | .resetWeights _ => 20
  | .rxReport _ _ | .rxQuiet _ _ => 19
  | .tail => 10
  | .txReport _ _ => 0

/-- A refill has one more pass to come. After a transmission the handler may take more channels out
of the status word, so that a refill can become necessary. -/
def stepRank (s : RingSys) : Nat :=
  match s.sys.phase with
  | .txReport _ _ => 199
  | p => phaseRank s.sys.scheduled p + if NeedsRefill s.sys.intStatus s.sys.weight then 100 else 0

theorem phaseRank_le (scheduled : Bool) (p : TaskletPhase) : phaseRank scheduled p ≤ 62 := by
  unfold phaseRank
  split
  all_goals first | omega | (split <;> omega)

theorem stepRank_of_ne {s : RingSys} (h : ∀ budget c, s.sys.phase ≠ .txReport budget c) :
    stepRank s = phaseRank s.sys.scheduled s.sys.phase +
      if NeedsRefill s.sys.intStatus s.sys.weight then 100 else 0 := by
  unfold stepRank
  split
  next budget c hp => exact absurd hp (h budget c)
  next => rfl

theorem stepRank_lt (s : RingSys) : stepRank s < 200 := by
  have hrank := phaseRank_le s.sys.scheduled s.sys.phase
  unfold stepRank
  split
  next => omega
  next =>
    split
    next => omega
    next => omega

theorem selectStep_rank (s : IntSys) (a b : Bool) (budget : Int) {i : Nat}
    (chanNo : Option DmaChanNo) (w : Int) (hi : i ≤ maxDmaChannelNum) :
    phaseRank a (selectStep s budget i chanNo w) < phaseRank b (.select budget i chanNo w) ∧
      ∀ b c, selectStep s budget i chanNo w ≠ .txReport b c := by
  have hi : i ≤ 20 := hi
  unfold selectStep
  split
  next hlt =>
    dsimp only
    split
    next => exact ⟨by simp only [phaseRank]; omega, by simp⟩
    next => exact ⟨by simp only [phaseRank]; omega, by simp⟩
  next =>
    cases chanNo with
    | none => exact ⟨by simp only [phaseRank]; omega, by simp⟩
    | some c =>
      dsimp only
      split
      next => exact ⟨by simp only [phaseRank]; omega, by simp⟩
      next => exact ⟨by simp only [phaseRank]; omega, by simp⟩

/-- The variant of the tasklet. -/
structure Ranked (cfg : DmaConfig) (up : UpperLayer) (s : RingSys) (m : Nat) : Prop where
  int : IntInv s.sys
  ok : RingOk cfg s
  low : ∀ i, maxDmaChannelNum ≤ i → s.sys.intStatus.getLsbD i = false
  work : ∃ k : DmaChanNo → Nat,
    (∀ c, s.sys.pending c = true → Left cfg up s c (k c)) ∧
      m = workload s.sys.intStatus k * 200 + stepRank s

section Steps

variable {cfg : DmaConfig} {up : UpperLayer} {s t : RingSys} {m : Nat}

/-- A step within the pass. -/
theorem Ranked.move (h : Ranked cfg up s m) (hint : IntInv t.sys) (hok : RingOk cfg t)
    (hw : SameWork s t) (hs : ∀ budget c, s.sys.phase ≠ .txReport budget c)
    (ht : ∀ budget c, t.sys.phase ≠ .txReport budget c)
    (hlt : phaseRank t.sys.scheduled t.sys.phase < phaseRank s.sys.scheduled s.sys.phase) :
    ∃ m', m' < m ∧ Ranked cfg up t m' := by
  have hrank : stepRank t < stepRank s := by
    rw [stepRank_of_ne hs, stepRank_of_ne ht, hw.status, hw.weight]
    omega
  obtain ⟨k, hk, rfl⟩ := h.work
  refine ⟨_, ?_, hint, hok, hw.status ▸ h.low, k, ?_, rfl⟩
  · rw [hw.status]
    omega
  · intro c hc
    rw [IntSys.pending, hw.status] at hc
    exact (hk c hc).congr (congrFun hw.ring c) (congrFun hw.reads c)

/-- A step that takes work off. -/
theorem Ranked.served (h : Ranked cfg up s m) (hint : IntInv t.sys) (hok : RingOk cfg t)
    (hsub : ∀ i, t.sys.intStatus.getLsbD i = true → s.sys.intStatus.getLsbD i = true)
    (hwork : ∀ k, (∀ c, s.sys.pending c = true → Left cfg up s c (k c)) →
      ∃ k', (∀ c, t.sys.pending c = true → Left cfg up t c (k' c)) ∧
        workload t.sys.intStatus k' * 200 + stepRank t <
          workload s.sys.intStatus k * 200 + stepRank s) :
    ∃ m', m' < m ∧ Ranked cfg up t m' := by
  obtain ⟨k, hk, rfl⟩ := h.work
  obtain ⟨k', hk', hlt⟩ := hwork k hk
  refine ⟨_, hlt, hint, hok, ?_, k', hk', rfl⟩
  intro i hi
  by_contra hc
  have hset := hsub i (Bool.eq_true_of_not_eq_false hc)
  rw [h.low i hi] at hset
  exact absurd hset Bool.false_ne_true

theorem clearBit_sub {w : Word} (c : DmaChanNo) {i : Nat}
    (h : (clearBit w c.val).getLsbD i = true) : w.getLsbD i = true := by
  rw [getLsbD_clearBit (lt_trans c.isLt (by decide)), Bool.and_eq_true] at h
  exact h.1

theorem Ranked.cleared {c : DmaChanNo} (h : Ranked cfg up s m) (hint : IntInv t.sys)
    (hok : RingOk cfg t) (hc : s.sys.pending c = true)
    (hi : t.sys.intStatus = clearBit s.sys.intStatus c.val) (hr : t.ring = s.ring)
    (hn : t.reads = s.reads) : ∃ m', m' < m ∧ Ranked cfg up t m' := by
  have hsub : ∀ i, t.sys.intStatus.getLsbD i = true → s.sys.intStatus.getLsbD i = true := by
    intro i hset
    rw [hi] at hset
    exact clearBit_sub c hset
  refine h.served hint hok hsub ?_
  intro k hk
  refine ⟨k, ?_, ?_⟩
  · intro d hd
    exact (hk d (hsub _ hd)).congr (congrFun hr d) (congrFun hn d)
  · have hlt : workload t.sys.intStatus k < workload s.sys.intStatus k := by
      refine workload_lt (c := c) (fun d => hsub _) (fun d => le_refl _) hc ?_
      intro hset
      rw [hi, getLsbD_clearBit (lt_trans c.isLt (by decide))] at hset
      simp at hset
    have hrank := stepRank_lt t
    omega

theorem foldl_clearBit (cs : List DmaChanNo) (w : Word) (i : Nat) :
    (cs.foldl (fun w d => clearBit w d.val) w).getLsbD i =
      (w.getLsbD i && !decide (∃ d ∈ cs, d.val = i)) := by
  induction cs generalizing w with
  | nil => simp
  | cons c cs ih =>
    rw [List.foldl_cons, ih, getLsbD_clearBit (lt_trans c.isLt (by decide))]
    by_cases hc : c.val = i
    · simp [hc]
    · have hc' : i ≠ c.val := fun h => hc h.symm
      simp [hc, hc']

theorem Ranked.report {budget : Int} {c : DmaChanNo} (h : Ranked cfg up s m) (hint : IntInv t.sys)
    (hok : RingOk cfg t) (hp : s.sys.phase = .rxReport budget c)
    (hi : t.sys.intStatus = s.sys.intStatus)
    (hr : Reported up s t c) : ∃ m', m' < m ∧ Ranked cfg up t m' := by
  have hphase := h.ok
  rw [RingOk, hp] at hphase
  obtain ⟨⟨hsel, hdir⟩, hd⟩ := hphase
  refine h.served hint hok (fun i => hi ▸ id) ?_
  intro k hk
  obtain ⟨k', hkc, hleft⟩ := (hk c hsel.pending).report hdir hd hr
  refine ⟨Function.update k c k', ?_, ?_⟩
  · intro d hdp
    by_cases hdc : d = c
    · subst hdc
      rwa [Function.update_self]
    · rw [Function.update_of_ne hdc]
      rw [IntSys.pending, hi] at hdp
      exact (hk d hdp).congr (hr.other hdc).1 (hr.other hdc).2
  · have hlt : workload t.sys.intStatus (Function.update k c k') < workload s.sys.intStatus k := by
      rw [hi]
      refine workload_lt (c := c) (fun d => id) ?_ hsel.pending ?_
      · intro d
        by_cases hdc : d = c
        · subst hdc
          rw [Function.update_self]
          omega
        · rw [Function.update_of_ne hdc]
      · intro _
        rw [Function.update_self]
        omega
    have hrank := stepRank_lt t
    omega

theorem Ranked.transmitted {budget : Int} {c : DmaChanNo} (h : Ranked cfg up s m)
    (hint : IntInv t.sys) (hok : RingOk cfg t) (hp : s.sys.phase = .txReport budget c)
    (ht : t.sys.phase = .test budget)
    (hi : ∃ cs : List DmaChanNo, (∀ d ∈ cs, chanMapDir d = .tx) ∧
      t.sys.intStatus = cs.foldl (fun w d => clearBit w d.val) s.sys.intStatus)
    (hr : t.ring = s.ring) (hn : t.reads = s.reads) : ∃ m', m' < m ∧ Ranked cfg up t m' := by
  obtain ⟨cs, -, hi⟩ := hi
  have hsub : ∀ i, t.sys.intStatus.getLsbD i = true → s.sys.intStatus.getLsbD i = true := by
    intro i hset
    rw [hi, foldl_clearBit, Bool.and_eq_true] at hset
    exact hset.1
  refine h.served hint hok hsub ?_
  intro k hk
  refine ⟨k, ?_, ?_⟩
  · intro d hd
    exact (hk d (hsub _ hd)).congr (congrFun hr d) (congrFun hn d)
  · have hle : workload t.sys.intStatus k ≤ workload s.sys.intStatus k :=
      workload_le (fun d => hsub _) fun d => le_refl _
    have hreport : stepRank s = 199 := by rw [stepRank, hp]
    have htest : stepRank t ≤ 162 := by
      have hrank := phaseRank_le t.sys.scheduled t.sys.phase
      rw [stepRank_of_ne (by simp [ht])]
      split
      next => omega
      next => omega
    omega

theorem Ranked.refill {budget : Int} (hdef : ∀ c, 0 < cfg.defaultWeight c)
    (h : Ranked cfg up s m) (hint : IntInv t.sys) (hok : RingOk cfg t)
    (hp : s.sys.phase = .resetWeights budget) (ht : t.sys.phase = .test budget)
    (hi : t.sys.intStatus = s.sys.intStatus) (hw : t.sys.weight = cfg.defaultWeight)
    (hr : t.ring = s.ring) (hn : t.reads = s.reads) : ∃ m', m' < m ∧ Ranked cfg up t m' := by
  have hphase := h.ok
  rw [RingOk, hp] at hphase
  obtain ⟨hz, hneeds⟩ := hphase
  refine h.served hint hok (fun i => hi ▸ id) ?_
  intro k hk
  refine ⟨k, ?_, ?_⟩
  · intro d hd
    rw [IntSys.pending, hi] at hd
    exact (hk d hd).congr (congrFun hr d) (congrFun hn d)
  · -- some channel is pending, and it has got a positive weight
    obtain ⟨i, hset⟩ : ∃ i, s.sys.intStatus.getLsbD i = true := by
      by_contra hc
      push Not at hc
      exact hz ((eq_zero_iff_getLsbD _).mpr fun j => Bool.eq_false_of_not_eq_true (hc j))
    have hlt : i < maxDmaChannelNum := by
      by_contra hc
      rw [h.low i (not_lt.mp hc)] at hset
      exact absurd hset Bool.false_ne_true
    have hfull : ¬NeedsRefill t.sys.intStatus t.sys.weight := by
      intro hc
      have hle := hc ⟨i, hlt⟩ (hi ▸ hset)
      rw [hw] at hle
      exact absurd (hdef ⟨i, hlt⟩) (not_lt.mpr hle)
    have hrank := phaseRank_le t.sys.scheduled t.sys.phase
    have hneeds : NeedsRefill s.sys.intStatus s.sys.weight := hneeds
    rw [hi, stepRank_of_ne (s := t) (by simp [ht]), stepRank_of_ne (s := s) (by simp [hp]),
      if_neg hfull, if_pos hneeds]
    omega

theorem Ranked.step (hdef : ∀ c, 0 < cfg.defaultWeight c) (h : Ranked cfg up s m)
    (hs : ringStep cfg up s = some t) : ∃ m', m' < m ∧ Ranked cfg up t m' := by
  have hint := ringStep_intInv h.int hs
  have hmove := ringStep_cases hs
  have hok := hmove.ok h.ok
  have hphase := h.ok
  cases hmove with
  | start hp hs ht hw =>
    refine h.move hint hok hw (by simp [hp]) (by simp [ht]) ?_
    simp [hp, ht, hs, phaseRank, dmaIntBudget]
  | finish hp hz ht hw =>
    refine h.move hint hok hw (by simp [hp]) (by simp [ht]) ?_
    simp only [hp, ht, phaseRank]
    split
    next => omega
    next => omega
  | spent hp hz hb ht hw =>
    refine h.move hint hok hw (by simp [hp]) (by simp [ht]) ?_
    simp [hp, ht, hb, phaseRank]
  | enter hp hz hb ht hw =>
    refine h.move hint hok hw (by simp [hp]) (by simp [ht]) ?_
    simp [hp, ht, not_lt.mpr hb, phaseRank]
  | reschedule hp ht hs hw =>
    refine h.move hint hok hw (by simp [hp]) (by simp [ht]) ?_
    simp [hp, ht, hs, phaseRank]
  | @select budget i chanNo w hp ht hw =>
    rw [RingOk, hp] at hphase
    obtain ⟨-, hi, -⟩ := hphase
    obtain ⟨hlt, hne⟩ := selectStep_rank s.sys t.sys.scheduled s.sys.scheduled budget chanNo w hi
    refine h.move hint hok hw (by simp [hp]) (by simpa [ht] using hne) ?_
    rw [hp, ht]
    exact hlt
  | rx hp ht hw =>
    have hne : ∀ b c, t.sys.phase ≠ .txReport b c := by
      intro b c
      rw [ht]
      split
      next => simp
      next => simp
    refine h.move hint hok hw (by simp [hp]) hne ?_
    rw [hp, ht]
    split
    next => simp [phaseRank]
    next => simp [phaseRank]
  | report hp ht hi hw hr => exact h.report hint hok hp hi hr
  | quiet hp hown ht hi hw hr hn =>
    rw [RingOk, hp] at hphase
    exact h.cleared hint hok hphase.1.1.pending hi hr hn
  | @rejected budget c hp hown ht hw =>
    rw [RingOk, hp] at hphase
    obtain ⟨⟨hsel, hdir⟩, hd⟩ := hphase
    obtain ⟨k, hk, -⟩ := h.work
    exact absurd ⟨hown, hd⟩ ((hk c hsel.pending).not_rejected hdir)
  | tx hp ht hi hw hr hn =>
    rw [RingOk, hp] at hphase
    exact h.cleared hint hok hphase.1.pending hi hr hn
  | transmitted hp ht hi hw hr hn => exact h.transmitted hint hok hp ht hi hr hn
  | refill hp ht hi hw hr hn => exact h.refill hdef hint hok hp ht hi hw hr hn
  | again hp hz ht hs hw =>
    rw [RingOk, hp] at hphase
    exact absurd hphase hz
  | stop hp hz ht hs hw =>
    have hsched : s.sys.scheduled = false := by
      by_contra hc
      have hidle := h.int.once (Bool.eq_true_of_not_eq_false hc)
      simp [hp] at hidle
    refine h.move hint hok hw (by simp [hp]) (by simp [ht]) ?_
    simp [hp, ht, hs, hsched, phaseRank]

/-- A status bit that the tasklet never clears: one without a channel, or that of a channel whose
reads lead nowhere. -/
def Stuck (cfg : DmaConfig) (up : UpperLayer) (s : RingSys) : Prop :=
  (∃ i, maxDmaChannelNum ≤ i ∧ s.sys.intStatus.getLsbD i = true) ∨
    ∃ c, s.sys.pending c = true ∧ ∀ k, ¬Left cfg up s c k

theorem Stuck.status (h : Stuck cfg up s) : s.sys.intStatus ≠ 0 := by
  intro hz
  have hclear := (eq_zero_iff_getLsbD _).mp hz
  obtain ⟨i, -, hset⟩ | ⟨c, hset, -⟩ := h
  · exact absurd (hset.symm.trans (hclear i)) (by simp)
  · exact absurd (hset.symm.trans (hclear c.val)) (by simp)

/-- The step keeps the bits above the channels and the bit of every channel that is stuck, and
leaves that channel as it is. -/
theorem Stuck.keep (h : Stuck cfg up s)
    (hhigh : ∀ i, maxDmaChannelNum ≤ i → s.sys.intStatus.getLsbD i = true →
      t.sys.intStatus.getLsbD i = true)
    (hchan : ∀ c, (∀ k, ¬Left cfg up s c k) → s.sys.pending c = true → t.sys.pending c = true)
    (hleft : ∀ c k, Left cfg up t c k → ∃ k', Left cfg up s c k') : Stuck cfg up t := by
  obtain ⟨i, hi, hset⟩ | ⟨c, hc, hnone⟩ := h
  · exact .inl ⟨i, hi, hhigh i hi hset⟩
  · refine .inr ⟨c, hchan c hnone hc, ?_⟩
    intro k hk
    obtain ⟨k', hk'⟩ := hleft c k hk
    exact hnone k' hk'

theorem Stuck.same (h : Stuck cfg up s) (hw : SameWork s t) : Stuck cfg up t := by
  refine h.keep (fun i _ hset => hw.status ▸ hset) ?_ ?_
  · intro c _ hc
    rw [IntSys.pending, hw.status]
    exact hc
  · intro c k hk
    exact ⟨k, hk.congr (congrFun hw.ring c).symm (congrFun hw.reads c).symm⟩

/-- Clearing bits of channels that get quiet. -/
theorem Stuck.cleared (h : Stuck cfg up s) (cs : List DmaChanNo)
    (hi : t.sys.intStatus = cs.foldl (fun w d => clearBit w d.val) s.sys.intStatus)
    (hcs : ∀ d ∈ cs, ∃ k, Left cfg up s d k) (hr : t.ring = s.ring) (hn : t.reads = s.reads) :
    Stuck cfg up t := by
  refine h.keep ?_ ?_ ?_
  · intro i hhigh hset
    have hnot : ¬∃ d ∈ cs, d.val = i := by
      rintro ⟨d, -, rfl⟩
      exact absurd d.isLt (not_lt.mpr hhigh)
    rw [hi, foldl_clearBit, hset]
    simpa using hnot
  · intro c hnone hc
    have hnot : ¬∃ d ∈ cs, d.val = c.val := by
      rintro ⟨d, hd, heq⟩
      obtain ⟨k, hk⟩ := hcs d hd
      rw [Fin.ext heq] at hk
      exact hnone k hk
    rw [IntSys.pending] at hc ⊢
    rw [hi, foldl_clearBit, hc]
    simpa using hnot
  · intro c k hk
    exact ⟨k, hk.congr (congrFun hr c).symm (congrFun hn c).symm⟩

theorem Stuck.report {c : DmaChanNo} (h : Stuck cfg up s) (hdir : chanMapDir c = .rx)
    (hd : rxDeliverable cfg (s.ring c).head = true) (hi : t.sys.intStatus = s.sys.intStatus)
    (hr : Reported up s t c) : Stuck cfg up t := by
  refine h.keep (fun i _ hset => hi ▸ hset) ?_ ?_
  · intro d _ hdp
    rw [IntSys.pending, hi]
    exact hdp
  · intro d k hk
    by_cases hdc : d = c
    · subst hdc
      cases hk with
      | tx htx => exact ⟨0, .tx htx⟩
      | rx _ hk =>
        by_cases hh : up.hasHandler d = true
        · rw [(hr.own hh).1, (hr.own hh).2] at hk
          exact ⟨k + 1, .rx hdir (.read hh hd hk)⟩
        · rw [Reported, if_neg hh] at hr
          rw [hr.1, hr.2] at hk
          exact ⟨k, .rx hdir hk⟩
    · exact ⟨k, hk.congr (hr.other hdc).1.symm (hr.other hdc).2.symm⟩

theorem RingMove.stuck (hok : RingOk cfg s) (h : Stuck cfg up s) (hm : RingMove cfg up s t) :
    Stuck cfg up t := by
  cases hm with
  | start _ _ _ hw => exact h.same hw
  | finish _ _ _ hw => exact h.same hw
  | spent _ _ _ _ hw => exact h.same hw
  | enter _ _ _ _ hw => exact h.same hw
  | reschedule _ _ _ hw => exact h.same hw
  | select _ _ hw => exact h.same hw
  | rx _ _ hw => exact h.same hw
  | report hp ht hi hw hr =>
    rw [RingOk, hp] at hok
    exact h.report hok.1.2 hok.2 hi hr
  | @quiet budget c hp hown ht hi hw hr hn =>
    rw [RingOk, hp] at hok
    refine h.cleared [c] hi ?_ hr hn
    intro d hd
    rw [List.mem_singleton.mp hd]
    exact ⟨0, .rx hok.1.2 (.owned hown)⟩
  | rejected _ _ _ hw => exact h.same hw
  | @tx budget c hp ht hi hw hr hn =>
    rw [RingOk, hp] at hok
    refine h.cleared [c] hi ?_ hr hn
    intro d hd
    rw [List.mem_singleton.mp hd]
    exact ⟨0, .tx hok.2⟩
  | transmitted hp ht hi hw hr hn =>
    obtain ⟨cs, hcs, hi⟩ := hi
    exact h.cleared cs hi (fun d hd => ⟨0, .tx (hcs d hd)⟩) hr hn
  | refill hp ht hi hw hr hn =>
    exact h.cleared [] hi (fun d hd => absurd hd List.not_mem_nil) hr hn
  | again _ _ _ _ hw => exact h.same hw
  | stop _ _ _ _ hw => exact h.same hw

theorem Stuck.not_halts (hint : IntInv s.sys) (hok : RingOk cfg s) (h : Stuck cfg up s) :
    ¬Halts (ringStep cfg up) s t := by
  refine not_halts_of_invariant (fun s => IntInv s.sys ∧ RingOk cfg s ∧ Stuck cfg up s) ?_
    ⟨hint, hok, h⟩
  rintro s ⟨hint, hok, h⟩
  obtain ⟨t, ht⟩ := ringStep_of_status cfg up hint h.status
  have hmove := ringStep_cases ht
  exact ⟨t, ht, ringStep_intInv hint ht, hmove.ok hok, hmove.stuck hok h⟩

end Steps

section LoopHead

variable (cfg : DmaConfig) (up : UpperLayer) (budget : Int) (status : Word)
  (weight : DmaChanNo → Int) (ring : DmaChanNo → RxRing)

theorem loopHead_intInv : IntInv (loopHead budget status weight ring).sys := by
  refine ⟨?_, ?_, ?_, ?_⟩
  · exact iff_of_true rfl (.inr (by simp [loopHead]))
  · intro hc
    exact absurd hc Bool.false_ne_true
  · intro hc
    exact absurd hc Bool.true_eq_false.mp
  · intro c hc
    exact absurd hc Bool.false_ne_true

theorem loopHead_left (c : DmaChanNo) :
    (∃ k, Left cfg up (loopHead budget status weight ring) c k) ↔ ChannelDrains cfg up ring c := by
  have hdrains : (∃ k, DrainsIn cfg (up.hasHandler c) (up.bufferAlloc c) 0 (ring c) k) ↔ _ :=
    exists_drainsIn_iff
  simp only [Nat.zero_add] at hdrains
  rw [ChannelDrains, ← hdrains]
  constructor
  · rintro ⟨k, hk⟩
    cases hk with
    | tx h => exact .inl h
    | rx h hk => exact .inr ⟨k, hk⟩
  · intro h
    cases hdir : chanMapDir c with
    | tx => exact ⟨0, .tx hdir⟩
    | rx =>
      obtain h | ⟨k, hk⟩ := h
      · rw [hdir] at h
        cases h
      · exact ⟨k, .rx hdir hk⟩

/-- A tasklet that does not go on is idle. -/
theorem idle_of_ringStep {cfg : DmaConfig} {up : UpperLayer} {s : RingSys} (h : IntInv s.sys)
    (hs : ringStep cfg up s = none) : TaskletIdle s := by
  have hnone : taskletStep cfg s.loaded = none := Option.map_eq_none_iff.mp hs
  have hnot : ¬(s.sys.scheduled = true ∨ s.sys.phase ≠ .idle) := by
    intro hc
    have hsome : (taskletStep cfg s.loaded).isSome = true := taskletStep_isSome hc
    simp [hnone] at hsome
  have hin : s.sys.inProcess = false := Bool.eq_false_of_not_eq_true (mt h.live.mp hnot)
  push Not at hnot
  exact ⟨hnot.2, Bool.eq_false_of_not_eq_true hnot.1, hin, h.quiet hin⟩

theorem loopHead_reachesIdle_iff (hdef : ∀ c, 0 < cfg.defaultWeight c) :
    ReachesIdle cfg up (loopHead budget status weight ring) ↔
      (∀ i, maxDmaChannelNum ≤ i → status.getLsbD i = false) ∧
        ∀ c : DmaChanNo, status.getLsbD c.val = true → ChannelDrains cfg up ring c := by
  have hint := loopHead_intInv budget status weight ring
  have hok : RingOk cfg (loopHead budget status weight ring) := trivial
  constructor
  · rintro ⟨t, h, -⟩
    refine ⟨?_, ?_⟩
    · intro i hi
      by_contra hc
      exact Stuck.not_halts hint hok (.inl ⟨i, hi, Bool.eq_true_of_not_eq_false hc⟩) h
    · intro c hc
      by_contra hnone
      rw [← loopHead_left cfg up budget status weight, not_exists] at hnone
      exact Stuck.not_halts hint hok (.inr ⟨c, hc, hnone⟩) h
  · rintro ⟨hlow, hdrains⟩
    have hleft : ∀ c : DmaChanNo, ∃ k, status.getLsbD c.val = true →
        Left cfg up (loopHead budget status weight ring) c k := by
      intro c
      by_cases hc : status.getLsbD c.val = true
      · obtain ⟨k, hk⟩ := (loopHead_left cfg up budget status weight ring c).mpr (hdrains c hc)
        exact ⟨k, fun _ => hk⟩
      · exact ⟨0, fun h => absurd h hc⟩
    choose k hk using hleft
    obtain ⟨t, ht⟩ := halts_of_ranked (Ranked cfg up) (fun h hs => h.step hdef hs)
      ⟨hint, hok, hlow, k, hk, rfl⟩
    obtain ⟨hfinal, hnone⟩ := ht.final (fun h hs => ringStep_intInv h hs) hint
    exact ⟨t, ht, idle_of_ringStep hfinal hnone⟩

end LoopHead

end DanubeBsp
