import DanubeBsp.Eth1TxRing

namespace DanubeBsp

/-- The second port with its interrupt line: `line` counts the calls of `enable_irq` less those of
`disable_irq`, where `request_irq` is the first enable. -/
structure Eth1Line where
  sys : Eth1Sys
  line : Int

inductive Eth1LineEvent
  | port (e : Eth1Event)
  | txTimeout
  deriving DecidableEq

/-- `eth1_tx_timeout`. -/
def eth1TxTimeout (e : Eth1) : Eth1 :=
  { e with devTxIrq := 0#32, ier := 0#32, queueStopped := false }

/-- The calls of `enable_irq` in `eth1_xmit`. -/
def eth1XmitEnables (e : Eth1) (ch : Nat) : Int :=
  if (eth1AllocTxDesc (e.txCh (eth1Channel ch))).2.2 = true ∧ e.devTxIrq = 0#32 then 1 else 0

/-- The calls of `disable_irq` in `mailbox_irq_handler`, from the state that it leaves. -/
def mailboxIrqDisables (e : Eth1) : Int := if e.devTxIrq = 0#32 then 1 else 0

/-- A line that is not enabled delivers no interrupt. -/
def eth1LineStep (s : Eth1Line) : Eth1LineEvent → Option Eth1Line
  | .port (.xmit ch data len) => do
    let sys ← eth1Step s.sys (.xmit ch data len)
    return ⟨sys, s.line + eth1XmitEnables s.sys.drv ch⟩
  | .port (.complete ch) => do
    let sys ← eth1Step s.sys (.complete ch)
    return ⟨sys, s.line⟩
  | .port (.mailboxIrq isr ch2Own) =>
    if 0 < s.line then do
      let sys ← eth1Step s.sys (.mailboxIrq isr ch2Own)
      return ⟨sys, s.line - mailboxIrqDisables sys.drv⟩
    else none
  | .txTimeout => some { s with sys := { s.sys with drv := eth1TxTimeout s.sys.drv } }

/-- The balance of the transmit interrupts. -/
structure Eth1Balanced (s : Eth1Line) : Prop where
  ier : s.sys.drv.ier = s.sys.drv.devTxIrq
  line : s.line = if s.sys.drv.devTxIrq = 0#32 then 0 else 1

/-- A timeout finds no interrupt asked for. -/
def Eth1TimeoutIdle (s : Eth1Line) : Eth1LineEvent → Prop
  | .port _ => True
  | .txTimeout => s.sys.drv.devTxIrq = 0#32

instance (s : Eth1Line) : (e : Eth1LineEvent) → Decidable (Eth1TimeoutIdle s e)
  | .port _ => inferInstanceAs (Decidable True)
  | .txTimeout => inferInstanceAs (Decidable (_ = _))

theorem eth1Xmit_devTxIrq (e : Eth1) (skb : Skb) (ch : Nat) :
    (eth1Xmit e skb ch).1.devTxIrq =
      if (eth1AllocTxDesc (e.txCh (eth1Channel ch))).2.2 = true
      then e.devTxIrq ||| (1#32 <<< (eth1Channel ch + 16)) else e.devTxIrq := by
  simp only [eth1Xmit]
  split <;> split <;> rfl

theorem eth1Xmit_ier {e : Eth1} (h : e.ier = e.devTxIrq) (skb : Skb) (ch : Nat) :
    (eth1Xmit e skb ch).1.ier = (eth1Xmit e skb ch).1.devTxIrq := by
  simp only [eth1Xmit]
  split
  · split
    · rfl
    · exact h
  · split
    · rfl
    · exact h

theorem eth1Channel_bit (irq : Word) (ch : Fin 4) :
    irq ||| (1#32 <<< (eth1Channel ch + 16)) ≠ 0#32 := by
  intro h
  have hbit := congrArg (fun w : Word => w.getLsbD (eth1Channel ch + 16)) h
  have hch : eth1Channel ch + 16 < 32 := by
    unfold eth1Channel
    split <;> omega
  simp [hch] at hbit

theorem mailboxIrqHandler_ier {e : Eth1} (h : e.ier = e.devTxIrq) (isr : Word) (ch2Own : Bool) :
    (mailboxIrqHandler e isr ch2Own).ier = (mailboxIrqHandler e isr ch2Own).devTxIrq := by
  simp only [mailboxIrqHandler]
  split
  · split
    · rfl
    · rfl
  · split
    · exact h
    · rfl

/-- The first bit that is set enables the line, and a full channel sets one. -/
theorem Eth1Balanced.xmit {s : Eth1Line} (hs : Eth1Balanced s) (ch : Fin 4) (skb : Skb)
    {next : Nat} {freed : List Nat} :
    Eth1Balanced ⟨{ s.sys with drv := (eth1Xmit s.sys.drv skb ch).1, next := next, freed := freed },
      s.line + eth1XmitEnables s.sys.drv ch⟩ := by
  refine ⟨eth1Xmit_ier hs.ier skb ch, ?_⟩
  have hbit := eth1Channel_bit s.sys.drv.devTxIrq ch
  have hline := hs.line
  simp only [eth1Xmit_devTxIrq, eth1XmitEnables]
  by_cases hfull : (eth1AllocTxDesc (s.sys.drv.txCh (eth1Channel ch))).2.2 = true
  · by_cases hirq : s.sys.drv.devTxIrq = 0#32
    · simp_all
    · simp_all
  · simp_all

/-- The handler runs with the line enabled, so there is a bit before it; clearing the last one
disables the line. -/
theorem Eth1Balanced.mailboxIrq {s : Eth1Line} (hs : Eth1Balanced s) (hline : 0 < s.line)
    (isr : Word) (ch2Own : Bool) :
    Eth1Balanced ⟨{ s.sys with drv := mailboxIrqHandler s.sys.drv isr ch2Own },
      s.line - mailboxIrqDisables (mailboxIrqHandler s.sys.drv isr ch2Own)⟩ := by
  refine ⟨mailboxIrqHandler_ier hs.ier isr ch2Own, ?_⟩
  have hone : s.line = 1 := by
    have h := hs.line
    split at h
    · omega
    · exact h
  simp only [mailboxIrqDisables, hone]
  split <;> rfl

/-- A timeout clears all bits and leaves the line as it is. -/
theorem Eth1Balanced.txTimeout_iff {s : Eth1Line} (hs : Eth1Balanced s) :
    s.sys.drv.devTxIrq = 0#32 ↔
      Eth1Balanced { s with sys := { s.sys with drv := eth1TxTimeout s.sys.drv } } := by
  have hline := hs.line
  constructor
  · intro hirq
    rw [if_pos hirq] at hline
    exact ⟨rfl, hline⟩
  · intro ht
    have hzero : s.line = 0 := ht.line
    by_contra hirq
    rw [if_neg hirq] at hline
    omega

theorem eth1LineStep_balanced {s t : Eth1Line} {e : Eth1LineEvent} (hs : Eth1Balanced s)
    (h : eth1LineStep s e = some t) : Eth1TimeoutIdle s e ↔ Eth1Balanced t := by
  cases e with
  | txTimeout =>
    cases Option.some.inj h
    exact hs.txTimeout_iff
  | port e =>
    refine iff_of_true trivial ?_
    cases e with
    | xmit ch data len =>
      cases Option.some.inj h
      exact hs.xmit ch _
    | complete ch =>
      simp only [eth1LineStep, eth1Step] at h
      split at h
      · cases Option.some.inj h
        exact ⟨hs.ier, hs.line⟩
      · cases h
    | mailboxIrq isr ch2Own =>
      simp only [eth1LineStep] at h
      split at h
      next hline =>
        cases Option.some.inj h
        exact hs.mailboxIrq hline isr ch2Own
      next => cases h

theorem eth1LineStep_none {s : Eth1Line} {e : Eth1LineEvent} (h : eth1LineStep s e = none) :
    Eth1TimeoutIdle s e := by
  cases e with
  | port e => trivial
  | txTimeout => cases h

/-- The interrupt register, the line and `eth1_dev_tx_irq` agree in every state of a run exactly when
no timeout of the run finds an interrupt asked for. -/
theorem eth1_irq_balanced_iff {alloc : Nat → Option Word} {sys : Eth1Sys}
    (hload : eth1Load alloc = .ok sys) (es : List Eth1LineEvent) :
    RunMeets eth1LineStep Eth1TimeoutIdle ⟨sys, 1⟩ es ↔
      ∀ pre t, pre <+: es → run eth1LineStep ⟨sys, 1⟩ pre = some t → Eth1Balanced t := by
  have hinit : Eth1Balanced ⟨sys, 1⟩ := by
    obtain ⟨skbs, _, rfl⟩ := eth1Load_ok hload
    exact ⟨rfl, rfl⟩
  apply runMeets_iff_states id _ _ (fun _ => eth1LineStep_none) hinit es
  · intro s t e hs hok h
    exact (eth1LineStep_balanced hs h).mp hok
  · intro s t e hs h ht
    exact (eth1LineStep_balanced hs h).mpr ht

theorem eth1_irq_balanced_xmit_irq : ∃ sys t,
    eth1Load (fun _ => some 0x80200000#32) = .ok sys ∧
      run eth1LineStep ⟨sys, 1⟩
        [.port (.xmit 0 0x80300000#32 60#32), .port (.mailboxIrq 1#32 true), .txTimeout] = some t ∧
      Eth1Balanced t := by
  have hload := eth1Load_some fun _ => 0x80200000#32
  refine ⟨_, _, hload, rfl, ?_⟩
  exact (eth1_irq_balanced_iff hload
    [.port (.xmit 0 0x80300000#32 60#32), .port (.mailboxIrq 1#32 true), .txTimeout]).mp
    (by decide) _ _ List.prefix_rfl rfl

/-- A full ring, a timeout and the next packet for the full ring: the line is enabled twice. The queue
that the watchdog finds stopped is that of `eth_stop` in `danube_eth_download_firmware`. -/
theorem eth1_irq_timeout_unbalanced : ∃ sys t,
    eth1Load (fun _ => some 0x80200000#32) = .ok sys ∧
      run eth1LineStep ⟨sys, 1⟩ (List.replicate 32 (.port (.xmit 0 0x80300000#32 60#32)) ++
        [.txTimeout, .port (.xmit 0 0x80300000#32 60#32)]) = some t ∧
      t.line = 2 ∧ t.sys.drv.devTxIrq = 0x10000#32 ∧ ¬ Eth1Balanced t := by
  have hload := eth1Load_some fun _ => 0x80200000#32
  refine ⟨_, _, hload, rfl, rfl, rfl, ?_⟩
  intro h
  exact absurd h.line (by decide)

end DanubeBsp
