import DanubeBsp.DmaRx
import DanubeBsp.WordBits

namespace DanubeBsp

abbrev maxDmaChannelNum : Nat := 20

def dmaIntBudget : Int := 100

abbrev DmaChanNo := Fin maxDmaChannelNum

inductive DmaDir
  | rx
  | tx
  deriving DecidableEq

/-- Column `dir` of `default_dma_map`. -/
def chanMapDir (c : DmaChanNo) : DmaDir := if c.val % 2 = 0 then .rx else .tx

/-- The position in `do_dma_tasklet` with its local variables; `idle` while it does not run. -/
inductive TaskletPhase
  | idle
  | test (budget : Int)
  | reschedule
  | select (budget : Int) (i : Nat) (chanNo : Option DmaChanNo) (weight : Int)
  | rx (budget : Int) (c : DmaChanNo)
  | rxReport (budget : Int) (c : DmaChanNo)
  | rxQuiet (budget : Int) (c : DmaChanNo)
  | tx (budget : Int) (c : DmaChanNo)
  | txReport (budget : Int) (c : DmaChanNo)
  | resetWeights (budget : Int)
  | tail
  deriving DecidableEq

/-- Build switches and tables of the driver. -/
structure DmaConfig where
  ethernetD2 : Bool
  defaultWeight : DmaChanNo → Int

/-- `desc` is the descriptor at `curr_desc` of each channel. The last two fields are history: `fresh`
after an interrupt until the handler of the channel runs, `disabled` after `disable_ch_irq` until
the next interrupt. -/
structure IntSys where
  intStatus : Word
  inProcess : Bool
  scheduled : Bool
  phase : TaskletPhase
  desc : DmaChanNo → DmaDesc
  weight : DmaChanNo → Int
  fresh : DmaChanNo → Bool
  disabled : DmaChanNo → Bool

def IntSys.pending (s : IntSys) (c : DmaChanNo) : Bool := s.intStatus.getLsbD c.val

/-- `disableChIrq` stands for every caller that takes a channel out of `g_danube_dma_int_status`,
`desc` for a change of the current descriptor by the hardware or by the upper layer. -/
inductive IntEvent
  | interrupt (c : DmaChanNo)
  | tasklet
  | disableChIrq (c : DmaChanNo)
  | desc (c : DmaChanNo) (d : DmaDesc)

/-- The interrupt routine runs with interrupts off. -/
def dmaInterrupt (s : IntSys) (c : DmaChanNo) : IntSys :=
  let s := { s with
    intStatus := setBit s.intStatus c.val
    fresh := Function.update s.fresh c true
    disabled := Function.update s.disabled c false }
  if s.inProcess then s else { s with inProcess := true, scheduled := true }

def disableChIrq (s : IntSys) (c : DmaChanNo) : IntSys :=
  { s with
    intStatus := clearBit s.intStatus c.val
    disabled := Function.update s.disabled c true }

/-- The condition of `rx_chan_intr_handler` for passing a packet on. -/
def rxDeliverable (cfg : DmaConfig) (d : DmaDesc) : Bool :=
  d.done && (cfg.ethernetD2 || decide ((dataLength d).toNat < 1536))

/-- The channel selection: the body of its loop, then the call of the handler. -/
def selectStep (s : IntSys) (budget : Int) (i : Nat) (chanNo : Option DmaChanNo) (weight : Int) :
    TaskletPhase :=
  if h : i < maxDmaChannelNum then
    let c : DmaChanNo := ⟨i, h⟩
    if s.pending c && decide (s.weight c > 0) && decide (s.weight c > weight) then
      .select budget (i + 1) (some c) (s.weight c)
    else .select budget (i + 1) chanNo weight
  else
    match chanNo with
    | some c => if chanMapDir c = .rx then .rx budget c else .tx budget c
    | none => .resetWeights budget

/-- One step of `do_dma_tasklet`. Interrupts may come between any two steps; `rxQuiet`, `tx` and
`tail` are the sections with interrupts off, the two `Report` phases are the calls of
`intr_handler`. -/
def taskletStep (cfg : DmaConfig) (s : IntSys) : Option IntSys :=
  match s.phase with
  | .idle =>
    if s.scheduled then some { s with scheduled := false, phase := .test dmaIntBudget } else none
  | .test budget =>
    if s.intStatus = 0 then some { s with phase := .tail }
    else if budget < 0 then some { s with phase := .reschedule }
    else some { s with phase := .select (budget - 1) 0 none 0 }
  | .reschedule => some { s with scheduled := true, phase := .idle }
  | .select budget i chanNo weight => some { s with phase := selectStep s budget i chanNo weight }
  | .rx budget c =>
    some { s with
      fresh := Function.update s.fresh c false
      phase := if rxDeliverable cfg (s.desc c) then .rxReport budget c else .rxQuiet budget c }
  | .rxReport budget c =>
    some { s with
      weight := Function.update s.weight c (s.weight c - 1)
      phase := .test budget }
  | .rxQuiet budget c =>
    some { s with
      fresh := Function.update s.fresh c false
      intStatus := if (s.desc c).dmaOwn then clearBit s.intStatus c.val else s.intStatus
      phase := .test budget }
  | .tx budget c =>
    some { s with
      fresh := Function.update s.fresh c false
      intStatus := clearBit s.intStatus c.val
      phase := .txReport budget c }
  | .txReport budget _ => some { s with phase := .test budget }
  | .resetWeights budget => some { s with weight := cfg.defaultWeight, phase := .test budget }
  | .tail =>
    if s.intStatus ≠ 0 then some { s with inProcess := true, scheduled := true, phase := .idle }
    else some { s with inProcess := false, phase := .idle }

def intStep (cfg : DmaConfig) (s : IntSys) : IntEvent → Option IntSys
  | .interrupt c => some (dmaInterrupt s c)
  | .tasklet => taskletStep cfg s
  | .disableChIrq c => some (disableChIrq s c)
  | .desc c d => some { s with desc := Function.update s.desc c d }

def intInit (cfg : DmaConfig) (desc : DmaChanNo → DmaDesc) : IntSys :=
  { intStatus := 0, inProcess := false, scheduled := false, phase := .idle, desc
    weight := cfg.defaultWeight, fresh := fun _ => false, disabled := fun _ => false }

/-- The ways in which a status bit goes away. -/
inductive ClearedBy (s t : IntSys) (c : DmaChanNo) : IntEvent → Prop
  | rx (budget : Int) (hp : s.phase = .rxQuiet budget c) (hown : (s.desc c).dmaOwn = true) :
      ClearedBy s t c .tasklet
  | tx (budget : Int) (hp : s.phase = .tx budget c) (hreport : t.phase = .txReport budget c) :
      ClearedBy s t c .tasklet
  | disabled : ClearedBy s t c (.disableChIrq c)

/-- The calls of `disable_ch_irq` that the handler of the Ethernet driver makes on
`TRANSMIT_CPT_INT`: for all transmit channels of its device but the third. -/
def transmitCptCalls : List IntEvent :=
  [.disableChIrq 1, .disableChIrq 3, .disableChIrq 7]

/-- An interrupt whose handler has not run since is still in the status word. -/
def FreshKept (s : IntSys) : Prop :=
  ∀ c, s.fresh c = true → s.pending c = true ∨ s.disabled c = true

/-- `g_danube_dma_in_process` covers exactly the life of the tasklet, and status bits wait only
while it is set. -/
structure IntInv (s : IntSys) : Prop where
  live : s.inProcess = true ↔ s.scheduled = true ∨ s.phase ≠ .idle
  once : s.scheduled = true → s.phase = .idle
  quiet : s.inProcess = false → s.intStatus = 0
  kept : FreshKept s

theorem pending_clearBit (s : IntSys) (c d : DmaChanNo) :
    (clearBit s.intStatus c.val).getLsbD d.val = (s.pending d && !decide (d = c)) := by
  rw [getLsbD_clearBit (lt_trans c.isLt (by decide)), IntSys.pending]
  simp only [Fin.ext_iff]

theorem pending_clearBit_ne (s : IntSys) {c d : DmaChanNo} (h : d ≠ c) :
    (clearBit s.intStatus c.val).getLsbD d.val = s.pending d := by
  rw [pending_clearBit]
  simp [h]

theorem pending_setBit (s : IntSys) (c d : DmaChanNo) :
    (setBit s.intStatus c.val).getLsbD d.val = (s.pending d || decide (d = c)) := by
  rw [getLsbD_setBit (lt_trans c.isLt (by decide)), IntSys.pending]
  simp only [Fin.ext_iff]

/-- A step of the running tasklet that neither ends nor reschedules it. -/
theorem IntInv.running {s t : IntSys} (h : IntInv s) (hs : s.phase ≠ .idle) (ht : t.phase ≠ .idle)
    (hsch : t.scheduled = s.scheduled) (hin : t.inProcess = s.inProcess) (hk : FreshKept t) :
    IntInv t := by
  have hidle : s.scheduled = false := by
    by_contra hc
    exact hs (h.once (Bool.eq_true_of_not_eq_false hc))
  have hlive : s.inProcess = true := h.live.mpr (.inr hs)
  refine ⟨?_, ?_, ?_, hk⟩
  · rw [hin, hlive]
    exact ⟨fun _ => .inr ht, fun _ => rfl⟩
  · intro hc
    rw [hsch, hidle] at hc
    exact absurd hc Bool.false_ne_true
  · intro hc
    rw [hin, hlive] at hc
    exact absurd hc Bool.true_eq_false.mp

/-- The handler of channel `c` may clear its own bit and no other. -/
theorem FreshKept.handled {s t : IntSys} {c : DmaChanNo} (h : FreshKept s)
    (hf : t.fresh = Function.update s.fresh c false) (hd : t.disabled = s.disabled)
    (hp : ∀ d, d ≠ c → t.pending d = s.pending d) : FreshKept t := by
  intro d hfresh
  rw [hf] at hfresh
  by_cases hdc : d = c
  · subst hdc
    rw [Function.update_self] at hfresh
    exact absurd hfresh Bool.false_ne_true
  · rw [Function.update_of_ne hdc] at hfresh
    rw [hp d hdc, hd]
    exact h d hfresh

theorem selectStep_ne_idle (s : IntSys) (budget : Int) (i : Nat) (chanNo : Option DmaChanNo)
    (weight : Int) : selectStep s budget i chanNo weight ≠ .idle := by
  unfold selectStep
  split
  next =>
    dsimp only
    split
    next => simp
    next => simp
  next =>
    cases chanNo with
    | none => simp
    | some c =>
      dsimp only
      split
      next => simp
      next => simp

theorem taskletStart_inv {s : IntSys} (h : IntInv s)
    (hsch : s.scheduled = true) :
    IntInv { s with scheduled := false, phase := .test dmaIntBudget } := by
  have hlive : s.inProcess = true := h.live.mpr (.inl hsch)
  refine ⟨?_, ?_, h.quiet, h.kept⟩
  · exact ⟨fun _ => .inr (by simp), fun _ => hlive⟩
  · intro hc
    exact absurd hc Bool.false_ne_true

/-- Every scheduling of the tasklet goes with `g_danube_dma_in_process` set. -/
theorem IntInv.scheduling {t : IntSys} (hin : t.inProcess = true) (hsch : t.scheduled = true)
    (hp : t.phase = .idle) (hk : FreshKept t) : IntInv t := by
  refine ⟨?_, fun _ => hp, ?_, hk⟩
  · exact ⟨fun _ => .inl hsch, fun _ => hin⟩
  · intro hc
    exact absurd (hin.symm.trans hc) Bool.true_eq_false.mp

theorem taskletEnd_inv {s : IntSys} (h : IntInv s) (hp : s.phase ≠ .idle)
    (hzero : s.intStatus = 0) : IntInv { s with inProcess := false, phase := .idle } := by
  refine ⟨?_, fun _ => rfl, fun _ => hzero, h.kept⟩
  constructor
  · intro hc
    exact absurd hc Bool.false_ne_true
  · rintro (hc | hc)
    · exact absurd (h.once hc) hp
    · exact absurd rfl hc

theorem taskletStep_inv {cfg : DmaConfig} {s t : IntSys} (h : IntInv s)
    (hs : taskletStep cfg s = some t) : IntInv t := by
  unfold taskletStep at hs
  cases hp : s.phase with
  | idle =>
    simp only [hp] at hs
    split at hs
    next hsch => cases Option.some.inj hs; exact taskletStart_inv h hsch
    next => simp at hs
  | test budget =>
    have hne : s.phase ≠ .idle := by simp [hp]
    simp only [hp] at hs
    split at hs
    next => cases Option.some.inj hs; exact h.running hne (by simp) rfl rfl h.kept
    next =>
      split at hs
      next => cases Option.some.inj hs; exact h.running hne (by simp) rfl rfl h.kept
      next => cases Option.some.inj hs; exact h.running hne (by simp) rfl rfl h.kept
  | reschedule =>
    have hne : s.phase ≠ .idle := by simp [hp]
    have hin : s.inProcess = true := h.live.mpr (.inr hne)
    simp only [hp] at hs
    cases Option.some.inj hs
    exact IntInv.scheduling hin rfl rfl h.kept
  | select budget i chanNo weight =>
    simp only [hp] at hs
    cases Option.some.inj hs
    exact h.running (by simp [hp]) (selectStep_ne_idle s budget i chanNo weight) rfl rfl h.kept
  | rx budget c =>
    simp only [hp] at hs
    cases Option.some.inj hs
    refine h.running (by simp [hp]) ?_ rfl rfl (h.kept.handled rfl rfl fun _ _ => rfl)
    dsimp only
    split
    next => simp
    next => simp
  | rxReport budget c =>
    simp only [hp] at hs
    cases Option.some.inj hs
    exact h.running (by simp [hp]) (by simp) rfl rfl h.kept
  | rxQuiet budget c =>
    simp only [hp] at hs
    cases Option.some.inj hs
    refine h.running (by simp [hp]) (by simp) rfl rfl (h.kept.handled rfl rfl ?_)
    intro d hd
    dsimp only [IntSys.pending]
    split
    next => exact pending_clearBit_ne s hd
    next => rfl
  | tx budget c =>
    simp only [hp] at hs
    cases Option.some.inj hs
    refine h.running (by simp [hp]) (by simp) rfl rfl (h.kept.handled rfl rfl ?_)
    intro d hd
    exact pending_clearBit_ne s hd
  | txReport budget c =>
    simp only [hp] at hs
    cases Option.some.inj hs
    exact h.running (by simp [hp]) (by simp) rfl rfl h.kept
  | resetWeights budget =>
    simp only [hp] at hs
    cases Option.some.inj hs
    exact h.running (by simp [hp]) (by simp) rfl rfl h.kept
  | tail =>
    have hne : s.phase ≠ .idle := by simp [hp]
    simp only [hp] at hs
    split at hs
    next => cases Option.some.inj hs; exact IntInv.scheduling rfl rfl rfl h.kept
    next hzero => cases Option.some.inj hs; exact taskletEnd_inv h hne (not_not.mp hzero)

theorem dmaInterrupt_inv {s : IntSys} (h : IntInv s) (c : DmaChanNo) :
    IntInv (dmaInterrupt s c) := by
  have hkept : ∀ d, Function.update s.fresh c true d = true →
      (setBit s.intStatus c.val).getLsbD d.val = true ∨
        Function.update s.disabled c false d = true := by
    intro d hd
    rw [pending_setBit]
    by_cases hdc : d = c
    · left
      simp [hdc]
    · rw [Function.update_of_ne hdc] at hd ⊢
      obtain hp | hp := h.kept d hd
      · left
        simp [hp]
      · exact .inr hp
  unfold dmaInterrupt
  dsimp only
  split
  next hin =>
    refine ⟨h.live, h.once, ?_, hkept⟩
    intro hc
    exact absurd (hin.symm.trans hc) Bool.true_eq_false.mp
  next hin =>
    have hidle : s.phase = .idle := by
      by_contra hc
      exact hin (h.live.mpr (.inr hc))
    exact IntInv.scheduling rfl rfl hidle hkept

theorem disableChIrq_inv {s : IntSys} (h : IntInv s) (c : DmaChanNo) :
    IntInv (disableChIrq s c) := by
  refine ⟨h.live, h.once, ?_, ?_⟩
  · intro hin
    show clearBit s.intStatus c.val = 0
    rw [h.quiet hin, clearBit_zero]
  · intro d hd
    by_cases hdc : d = c
    · right
      subst hdc
      exact Function.update_self ..
    · obtain hp | hp := h.kept d hd
      · left
        show (clearBit s.intStatus c.val).getLsbD d.val = true
        rw [pending_clearBit_ne s hdc, hp]
      · right
        show Function.update s.disabled c true d = true
        rw [Function.update_of_ne hdc]
        exact hp

theorem intStep_inv {cfg : DmaConfig} {s t : IntSys} {e : IntEvent} (h : IntInv s)
    (hs : intStep cfg s e = some t) : IntInv t := by
  cases e with
  | interrupt c => cases Option.some.inj hs; exact dmaInterrupt_inv h c
  | tasklet => exact taskletStep_inv h hs
  | disableChIrq c => cases Option.some.inj hs; exact disableChIrq_inv h c
  | desc c d => cases Option.some.inj hs; exact ⟨h.live, h.once, h.quiet, h.kept⟩

theorem intInit_inv (cfg : DmaConfig) (desc : DmaChanNo → DmaDesc) : IntInv (intInit cfg desc) := by
  refine ⟨?_, ?_, fun _ => rfl, ?_⟩
  · simp [intInit]
  · simp [intInit]
  · intro c hc
    exact absurd hc Bool.false_ne_true

/-- Only the channel itself loses its bit in a clearing step. -/
theorem eq_of_clearBit {s : IntSys} {c d : DmaChanNo} (hset : s.pending d = true)
    (hclr : (clearBit s.intStatus c.val).getLsbD d.val = false) : d = c := by
  by_contra hne
  rw [pending_clearBit_ne s hne, hset] at hclr
  exact absurd hclr Bool.true_eq_false.mp

theorem taskletStep_cleared {cfg : DmaConfig} {s t : IntSys} {c : DmaChanNo}
    (hs : taskletStep cfg s = some t) (hset : s.pending c = true) (hclr : t.pending c = false) :
    ClearedBy s t c .tasklet := by
  have hkeep : t.intStatus ≠ s.intStatus := by
    intro heq
    have hsame : t.pending c = s.pending c := by rw [IntSys.pending, heq, IntSys.pending]
    rw [hsame, hset] at hclr
    exact absurd hclr Bool.true_eq_false.mp
  unfold taskletStep at hs
  cases hp : s.phase with
  | rxQuiet budget d =>
    simp only [hp] at hs
    cases Option.some.inj hs
    dsimp only [IntSys.pending] at hkeep hclr
    split at hclr
    next hown =>
      have hcd := eq_of_clearBit hset hclr
      subst hcd
      exact .rx budget hp hown
    next hown => rw [if_neg hown] at hkeep; exact absurd rfl hkeep
  | tx budget d =>
    simp only [hp] at hs
    cases Option.some.inj hs
    have hcd := eq_of_clearBit hset hclr
    subst hcd
    exact .tx budget hp rfl
  | idle =>
    simp only [hp] at hs
    split at hs
    next => cases Option.some.inj hs; exact absurd rfl hkeep
    next => simp at hs
  | test budget =>
    simp only [hp] at hs
    split at hs
    next => cases Option.some.inj hs; exact absurd rfl hkeep
    next =>
      split at hs
      next => cases Option.some.inj hs; exact absurd rfl hkeep
      next => cases Option.some.inj hs; exact absurd rfl hkeep
  | tail =>
    simp only [hp] at hs
    split at hs
    next => cases Option.some.inj hs; exact absurd rfl hkeep
    next => cases Option.some.inj hs; exact absurd rfl hkeep
  | _ =>
    simp only [hp] at hs
    cases Option.some.inj hs
    exact absurd rfl hkeep

theorem intStep_cleared {cfg : DmaConfig} {s t : IntSys} {e : IntEvent} {c : DmaChanNo}
    (hs : intStep cfg s e = some t) (hset : s.pending c = true) (hclr : t.pending c = false) :
    ClearedBy s t c e := by
  cases e with
  | tasklet => exact taskletStep_cleared hs hset hclr
  | disableChIrq d =>
    cases Option.some.inj hs
    have hcd := eq_of_clearBit hset hclr
    subst hcd
    exact .disabled
  | interrupt d =>
    cases Option.some.inj hs
    have hbit : (dmaInterrupt s d).pending c = (s.pending c || decide (c = d)) := by
      have hst : (dmaInterrupt s d).intStatus = setBit s.intStatus d.val := by
        unfold dmaInterrupt
        dsimp only
        split
        next => rfl
        next => rfl
      rw [IntSys.pending, hst, pending_setBit]
    rw [hbit, hset] at hclr
    simp at hclr
  | desc d x =>
    cases Option.some.inj hs
    exact absurd (hset.symm.trans hclr) Bool.true_eq_false.mp

/-- No interrupt is lost: the tasklet is scheduled or running whenever a status bit waits, and a bit
goes away only in the handler of its channel or when the upper layer disables the channel. -/
theorem dmaTasklet_no_lost_interrupt (cfg : DmaConfig) (desc : DmaChanNo → DmaDesc)
    (es : List IntEvent) (s : IntSys) (h : run (intStep cfg) (intInit cfg desc) es = some s) :
    (s.inProcess = false → s.intStatus = 0 ∧ s.scheduled = false ∧ s.phase = .idle) ∧
      (s.intStatus ≠ 0 → s.phase ≠ .idle ∨ s.scheduled = true) ∧
      (∀ c, s.fresh c = true → s.pending c = true ∨ s.disabled c = true) ∧
      ∀ e t c, intStep cfg s e = some t → s.pending c = true → t.pending c = false →
        ClearedBy s t c e := by
  have hinv : IntInv s := run_invariant intStep_inv (intInit_inv cfg desc) h
  refine ⟨?_, ?_, hinv.kept, fun e t c => intStep_cleared⟩
  · intro hin
    have hnot : ¬(s.scheduled = true ∨ s.phase ≠ .idle) := by
      rw [← hinv.live, hin]
      exact Bool.false_ne_true
    rw [not_or, not_not, Bool.not_eq_true] at hnot
    exact ⟨hinv.quiet hin, hnot⟩
  · intro hst
    have hin : s.inProcess = true := by
      by_contra hc
      exact hst (hinv.quiet (Bool.eq_false_of_not_eq_true hc))
    exact (hinv.live.mp hin).symm

/-- The tasklet has started on one transmit interrupt. -/
theorem dmaTasklet_no_lost_interrupt_small :
    ∃ s, run (intStep ⟨true, fun _ => 100⟩) (intInit ⟨true, fun _ => 100⟩ fun _ => .zero)
        [.interrupt 1, .tasklet, .tasklet] = some s ∧ s.intStatus ≠ 0 ∧
      (s.phase ≠ .idle ∨ s.scheduled = true) := by
  refine ⟨_, rfl, by decide, ?_⟩
  exact (dmaTasklet_no_lost_interrupt ⟨true, fun _ => 100⟩ (fun _ => .zero)
    [.interrupt 1, .tasklet, .tasklet] _ rfl).2.1 (by decide)

/-- Two transmit channels interrupt; the handler of the first reports to the Ethernet driver, which
takes the second one out of the status word before its handler has run. -/
theorem dmaTasklet_upper_layer_clears :
    ∃ s, run (intStep ⟨true, fun _ => 100⟩) (intInit ⟨true, fun _ => 100⟩ fun _ => .zero)
        ([.interrupt 1, .interrupt 3] ++ List.replicate 24 .tasklet ++ transmitCptCalls) = some s ∧
      s.phase = .txReport 99 1 ∧ s.fresh 3 = true ∧ s.pending 3 = false := by
  refine ⟨_, rfl, by decide, by decide, by decide⟩

end DanubeBsp
