import DanubeBsp.ByteOrder
import DanubeBsp.RingSlice
import DanubeBsp.Runs

namespace DanubeBsp

/-- The descriptor of the TX interrupt and its bit in the mask register. `unbalanced` is the complaint of
`enable_irq` about an interrupt that is not disabled. -/
structure IrqDesc where
  depth : Nat
  ier : Bool
  unbalanced : Bool

def enableIrq (irq : IrqDesc) : IrqDesc :=
  match irq.depth with
  | 0 => { irq with unbalanced := true }
  | 1 => { irq with depth := 0, ier := true }
  | depth + 2 => { irq with depth := depth + 1 }

def disableIrq (irq : IrqDesc) : IrqDesc :=
  { irq with depth := irq.depth + 1, ier := if irq.depth = 0 then false else irq.ier }

/-- `mask_and_ack_danube_irq`. -/
def maskAndAckIrq (irq : IrqDesc) : IrqDesc := { irq with ier := false }

/-- `end_danube_irq`, after the handler. -/
def endIrq (irq : IrqDesc) : IrqDesc := if irq.depth = 0 then { irq with ier := true } else irq

def IrqDesc.enabled (irq : IrqDesc) : Prop := irq.depth = 0 ∧ irq.ier = true

/-- A store to the transmit register: a flow-control character or one of the buffer. -/
inductive TxChar
  | flow (c : Byte)
  | data (c : Byte)
  deriving DecidableEq

def uartXmitSize : Nat := 1024

/-- The transmit side of the port. `tbuf` are the stores to the transmit register so far. -/
structure AscPort where
  xmitBuf : Nat → Byte
  head : Nat
  tail : Nat
  xChar : Byte
  stopped : Bool
  hwStopped : Bool
  ascTxIrqOn : Nat
  irq : IrqDesc
  tbuf : List TxChar

def danubeascStopTx (p : AscPort) : AscPort :=
  if p.ascTxIrqOn ≠ 0 then { p with irq := disableIrq p.irq, ascTxIrqOn := 0 } else p

/-- The drain loop; `room` readings of the FIFO level find it not full. -/
def txLoop : Nat → AscPort → AscPort
  | 0, p => p
  | room + 1, p =>
    if p.xChar ≠ 0 then txLoop room { p with tbuf := p.tbuf ++ [.flow p.xChar], xChar := 0 }
    else
      let tail := (p.tail + 1) &&& (uartXmitSize - 1)
      let p := { p with tbuf := p.tbuf ++ [.data (p.xmitBuf p.tail)], tail }
      if p.head = p.tail then p else txLoop room p

/-- There is something to send and the tty runs. -/
def AscPort.sending (p : AscPort) : Prop :=
  p.head ≠ p.tail ∧ p.stopped = false ∧ p.hwStopped = false

def danubeascTxChars (p : AscPort) (room : Nat) : AscPort :=
  if p.head = p.tail ∨ p.stopped = true ∨ p.hwStopped = true then danubeascStopTx p
  else
    let p := txLoop room p
    if p.head = p.tail then danubeascStopTx p else p

def danubeascStartTx (p : AscPort) (room : Nat) : AscPort :=
  let p := danubeascTxChars p room
  if p.ascTxIrqOn = 0 then { p with irq := enableIrq p.irq, ascTxIrqOn := p.ascTxIrqOn + 1 } else p

/-- The interrupt is masked on entry and at the end of the handler, and opened again on exit. -/
def danubeascTxInt (p : AscPort) (room : Nat) : AscPort :=
  let p := danubeascTxChars { p with irq := maskAndAckIrq p.irq } room
  { p with irq := endIrq (maskAndAckIrq p.irq) }

/-- Where `danubeasc_start_tx` stands when interrupts are on in it: in `danubeasc_tx_chars` (the tests of its
first line, the drain loop, the test behind it), in `danubeasc_stop_tx`, or in its own last lines. -/
inductive StartTxPc
  | enter
  | runTest
  | loop
  | flowTest
  | flowSend
  | flowClear
  | dataSend
  | advance
  | roundTest
  | emptyTest
  | stopTest
  | disable
  | clearFlag
  | enableTest
  | enable
  | count
  deriving DecidableEq

/-- The first line of `danubeasc_tx_chars` gives up here. -/
def StartTxPc.returns (p : AscPort) : StartTxPc → Bool
  | .enter => p.head = p.tail
  | .runTest => p.stopped || p.hwStopped
  | _ => false

/-- One access of `danubeasc_start_tx` and where it goes on; `notFull` answers a reading of the FIFO level. -/
def startTxStep (p : AscPort) (notFull : Bool) (pc : StartTxPc) : AscPort × Option StartTxPc :=
  match pc with
  | .enter => (p, some (if pc.returns p then .stopTest else .runTest))
  | .runTest => (p, some (if pc.returns p then .stopTest else .loop))
  | .loop => (p, some (if notFull then .flowTest else .emptyTest))
  | .flowTest => (p, some (if p.xChar ≠ 0 then .flowSend else .dataSend))
  | .flowSend => ({ p with tbuf := p.tbuf ++ [.flow p.xChar] }, some .flowClear)
  | .flowClear => ({ p with xChar := 0 }, some .loop)
  | .dataSend => ({ p with tbuf := p.tbuf ++ [.data (p.xmitBuf p.tail)] }, some .advance)
  | .advance => ({ p with tail := (p.tail + 1) &&& (uartXmitSize - 1) }, some .roundTest)
  | .roundTest => (p, some (if p.head = p.tail then .emptyTest else .loop))
  | .emptyTest => (p, some (if p.head = p.tail then .stopTest else .enableTest))
  | .stopTest => (p, some (if p.ascTxIrqOn ≠ 0 then .disable else .enableTest))
  | .disable => ({ p with irq := disableIrq p.irq }, some .clearFlag)
  | .clearFlag => ({ p with ascTxIrqOn := 0 }, some .enableTest)
  | .enableTest => (p, if p.ascTxIrqOn = 0 then some .enable else none)
  | .enable => ({ p with irq := enableIrq p.irq }, some .count)
  | .count => ({ p with ascTxIrqOn := p.ascTxIrqOn + 1 }, none)

/-- The call by itself: port and place after the given answers, none where it is over before them. -/
def startTxAlone (s : AscPort × Option StartTxPc) (notFull : Bool) : Option (AscPort × Option StartTxPc) :=
  s.2.map (startTxStep s.1 notFull)

def TxChar.flow? : TxChar → Option Byte
  | .flow c => some c
  | .data _ => none

def TxChar.data? : TxChar → Option Byte
  | .flow _ => none
  | .data c => some c

/-- The characters in the circular buffer. -/
def AscPort.queued (p : AscPort) : List Byte :=
  ringSlice uartXmitSize p.xmitBuf p.tail (ringDist uartXmitSize p.tail p.head)

/-- A flow-control character that waits. -/
def AscPort.waiting (p : AscPort) : List Byte := if p.xChar = 0 then [] else [p.xChar]

theorem xmit_next (i : Nat) : (i + 1) &&& (uartXmitSize - 1) = (i + 1) % uartXmitSize :=
  Nat.and_two_pow_sub_one_eq_mod (i + 1) 10

/-- Taking the oldest character out of the buffer. -/
theorem AscPort.queued_pop {p : AscPort} (hh : p.head < uartXmitSize) (ht : p.tail < uartXmitSize)
    (hne : p.head ≠ p.tail) :
    p.queued = p.xmitBuf p.tail :: ringSlice uartXmitSize p.xmitBuf ((p.tail + 1) % uartXmitSize)
      (ringDist uartXmitSize ((p.tail + 1) % uartXmitSize) p.head) := by
  have hdist : ringDist uartXmitSize p.tail p.head =
      ringDist uartXmitSize ((p.tail + 1) % uartXmitSize) p.head + 1 := by
    simp only [ringDist, uartXmitSize] at *
    omega
  rw [AscPort.queued, hdist, ringSlice_succ, Nat.mod_eq_of_lt ht, ringSlice_mod]

/-- Putting a character behind the youngest one, while there is a free slot. -/
theorem AscPort.queued_push {p : AscPort} {c : Byte} (hh : p.head < uartXmitSize)
    (ht : p.tail < uartXmitSize) (hfree : (p.head + 1) % uartXmitSize ≠ p.tail) :
    ringSlice uartXmitSize (Function.update p.xmitBuf p.head c) p.tail
      (ringDist uartXmitSize p.tail ((p.head + 1) % uartXmitSize)) = p.queued ++ [c] := by
  have hdist : ringDist uartXmitSize p.tail ((p.head + 1) % uartXmitSize) =
      ringDist uartXmitSize p.tail p.head + 1 := by
    simp only [ringDist, uartXmitSize] at *
    omega
  have hend : (p.tail + ringDist uartXmitSize p.tail p.head) % uartXmitSize = p.head := by
    simp only [ringDist, uartXmitSize] at *
    omega
  have hlt : ringDist uartXmitSize p.tail p.head < uartXmitSize := Nat.mod_lt _ (by decide)
  have hkeep := @ringSlice_update_end Byte uartXmitSize p.xmitBuf p.tail _ c hlt
  rw [hend] at hkeep
  rw [hdist, ringSlice_snoc, hend, Function.update_self, hkeep, AscPort.queued]

/-- What a drain of the buffer keeps: every character is sent, queued or waiting, in its order. -/
structure Drains (p q : AscPort) : Prop where
  data : q.tbuf.filterMap TxChar.data? ++ q.queued = p.tbuf.filterMap TxChar.data? ++ p.queued
  flow : q.tbuf.filterMap TxChar.flow? ++ q.waiting = p.tbuf.filterMap TxChar.flow? ++ p.waiting
  head : q.head = p.head
  tail : q.tail < uartXmitSize

theorem Drains.trans {p q r : AscPort} (h : Drains p q) (h' : Drains q r) : Drains p r :=
  ⟨h'.data.trans h.data, h'.flow.trans h.flow, h'.head.trans h.head, h'.tail⟩

theorem Drains.flowChar {p : AscPort} (ht : p.tail < uartXmitSize) (hx : p.xChar ≠ 0) :
    Drains p { p with tbuf := p.tbuf ++ [.flow p.xChar], xChar := 0 } := by
  refine ⟨?_, ?_, rfl, ht⟩
  · simp [TxChar.data?, AscPort.queued]
  · simpa [TxChar.flow?, AscPort.waiting] using hx

theorem Drains.dataChar {p : AscPort} (hh : p.head < uartXmitSize) (ht : p.tail < uartXmitSize)
    (hne : p.head ≠ p.tail) :
    Drains p { p with
      tbuf := p.tbuf ++ [.data (p.xmitBuf p.tail)], tail := (p.tail + 1) % uartXmitSize } := by
  refine ⟨?_, ?_, rfl, Nat.mod_lt _ (by decide)⟩
  · rw [p.queued_pop hh ht hne]
    simp [TxChar.data?, AscPort.queued]
  · simp [TxChar.flow?, AscPort.waiting]

/-- The loop drains, leaves the interrupt alone, and its first round sends a waiting character. -/
theorem txLoop_spec (room : Nat) {p : AscPort} (hh : p.head < uartXmitSize)
    (ht : p.tail < uartXmitSize) (hne : p.head ≠ p.tail) :
    Drains p (txLoop room p) ∧ (txLoop room p).irq = p.irq ∧
      (txLoop room p).ascTxIrqOn = p.ascTxIrqOn ∧ (0 < room → (txLoop room p).xChar = 0) ∧
      (p.xChar = 0 → (txLoop room p).xChar = 0) := by
  induction room generalizing p with
  | zero => exact ⟨⟨rfl, rfl, rfl, ht⟩, rfl, rfl, fun h => absurd h (by decide), fun h => h⟩
  | succ room ih =>
    unfold txLoop
    split
    next hx =>
      have hstep := Drains.flowChar ht hx
      obtain ⟨hd, hirq, hon, -, hzero⟩ :=
        @ih { p with tbuf := p.tbuf ++ [.flow p.xChar], xChar := 0 } hh ht hne
      exact ⟨hstep.trans hd, hirq, hon, fun _ => hzero rfl, fun h => absurd h hx⟩
    next hx =>
      have hx : p.xChar = 0 := not_not.mp hx
      have hstep := Drains.dataChar hh ht hne
      simp only [xmit_next]
      split
      next => exact ⟨hstep, rfl, rfl, fun _ => hx, fun _ => hx⟩
      next hmore =>
        obtain ⟨hd, hirq, hon, -, hzero⟩ := @ih { p with
          tbuf := p.tbuf ++ [.data (p.xmitBuf p.tail)]
          tail := (p.tail + 1) % uartXmitSize } hh hstep.tail hmore
        exact ⟨hstep.trans hd, hirq, hon, fun _ => hzero hx, fun _ => hzero hx⟩

/-- The flag counts the one enable call that is in effect. -/
def FlagOk (p : AscPort) : Prop :=
  p.irq.unbalanced = false ∧
    (p.ascTxIrqOn = 1 ∧ p.irq.depth = 0 ∨ p.ascTxIrqOn = 0 ∧ p.irq.depth = 1)

/-- Outside the handler the mask bit follows the depth. -/
def MaskOk (irq : IrqDesc) : Prop := irq.ier = decide (irq.depth = 0)

theorem FlagOk.stopTx {p : AscPort} (h : FlagOk p) : FlagOk (danubeascStopTx p) := by
  obtain ⟨hbal, ⟨hon, hd⟩ | ⟨hon, hd⟩⟩ := h
  · simp [danubeascStopTx, FlagOk, disableIrq, hon, hd, hbal]
  · simp [danubeascStopTx, FlagOk, hon, hd, hbal]

theorem MaskOk.stopTx {p : AscPort} (hf : FlagOk p) (h : MaskOk p.irq) :
    MaskOk (danubeascStopTx p).irq := by
  obtain ⟨-, ⟨hon, hd⟩ | ⟨hon, hd⟩⟩ := hf
  · simp [danubeascStopTx, MaskOk, disableIrq, hon, hd]
  · simpa [danubeascStopTx, hon] using h

theorem Drains.stopTx {p q : AscPort} (h : Drains p q) : Drains p (danubeascStopTx q) := by
  unfold danubeascStopTx
  split
  next => exact ⟨h.data, h.flow, h.head, h.tail⟩
  next => exact h

@[simp] theorem stopTx_xChar (p : AscPort) : (danubeascStopTx p).xChar = p.xChar := by
  unfold danubeascStopTx
  split <;> rfl

/-- What `danubeasc_tx_chars` does, whether it sends or returns at once. -/
structure TxCharsSpec (p q : AscPort) (room : Nat) : Prop where
  drains : Drains p q
  sent : p.sending → 0 < room → q.xChar = 0
  kept : p.xChar = 0 ∨ ¬ p.sending → q.xChar = p.xChar

theorem txChars_spec {p : AscPort} (hh : p.head < uartXmitSize) (ht : p.tail < uartXmitSize)
    (room : Nat) : TxCharsSpec p (danubeascTxChars p room) room := by
  unfold danubeascTxChars
  split
  next hidle =>
    have hnot : ¬ p.sending := by
      rintro ⟨hne, hs, hw⟩
      simp [hne, hs, hw] at hidle
    refine ⟨Drains.stopTx ⟨rfl, rfl, rfl, ht⟩, fun hs => absurd hs hnot, ?_⟩
    intro _
    exact stopTx_xChar p
  next hbusy =>
    simp only [not_or] at hbusy
    obtain ⟨hd, -, -, hsent, hzero⟩ := txLoop_spec room hh ht hbusy.1
    have hsending : p.sending := ⟨hbusy.1, by simpa using hbusy.2.1, by simpa using hbusy.2.2⟩
    have hkept : p.xChar = 0 ∨ ¬ p.sending → (txLoop room p).xChar = p.xChar := by
      rintro (hx | hnot)
      · rw [hzero hx, hx]
      · exact absurd hsending hnot
    dsimp only
    split
    next => exact ⟨hd.stopTx, fun _ hr => (stopTx_xChar _).trans (hsent hr),
        fun h => (stopTx_xChar _).trans (hkept h)⟩
    next => exact ⟨hd, fun _ hr => hsent hr, hkept⟩

theorem FlagOk.txLoop {p : AscPort} (hh : p.head < uartXmitSize) (ht : p.tail < uartXmitSize)
    (room : Nat) (hne : p.head ≠ p.tail) (h : FlagOk p) : FlagOk (txLoop room p) := by
  obtain ⟨-, hirq, hon, -⟩ := txLoop_spec room hh ht hne
  unfold FlagOk
  rw [hirq, hon]
  exact h

theorem FlagOk.txChars {p : AscPort} (hh : p.head < uartXmitSize) (ht : p.tail < uartXmitSize)
    (room : Nat) (h : FlagOk p) : FlagOk (danubeascTxChars p room) := by
  unfold danubeascTxChars
  split
  next => exact h.stopTx
  next hbusy =>
    simp only [not_or] at hbusy
    have hloop := FlagOk.txLoop hh ht room hbusy.1 h
    dsimp only
    split
    next => exact hloop.stopTx
    next => exact hloop

theorem MaskOk.txChars {p : AscPort} (hh : p.head < uartXmitSize) (ht : p.tail < uartXmitSize)
    (room : Nat) (hf : FlagOk p) (h : MaskOk p.irq) : MaskOk (danubeascTxChars p room).irq := by
  unfold danubeascTxChars
  split
  next => exact h.stopTx hf
  next hbusy =>
    simp only [not_or] at hbusy
    have hirq := (txLoop_spec room hh ht hbusy.1).2.1
    have hloop := FlagOk.txLoop hh ht room hbusy.1 hf
    have hmask : MaskOk (txLoop room p).irq := by
      rw [hirq]
      exact h
    dsimp only
    split
    next => exact hmask.stopTx hloop
    next => exact hmask

/-- After a start the interrupt is enabled, whatever the drain has done to it. -/
theorem startTx_irq {p : AscPort} (hh : p.head < uartXmitSize) (ht : p.tail < uartXmitSize)
    (room : Nat) (hf : FlagOk p) (hm : MaskOk p.irq) :
    FlagOk (danubeascStartTx p room) ∧ MaskOk (danubeascStartTx p room).irq ∧
      (danubeascStartTx p room).irq.enabled := by
  have hm' := hm.txChars hh ht room hf
  obtain ⟨hbal, ⟨hon, hd⟩ | ⟨hon, hd⟩⟩ := hf.txChars hh ht room
  · have hsame : danubeascStartTx p room = danubeascTxChars p room := by
      simp [danubeascStartTx, hon]
    rw [hsame]
    refine ⟨⟨hbal, .inl ⟨hon, hd⟩⟩, hm', hd, ?_⟩
    rw [hm', hd]
    rfl
  · have hirq : enableIrq (danubeascTxChars p room).irq =
        { (danubeascTxChars p room).irq with depth := 0, ier := true } := by
      simp [enableIrq, hd]
    simp [danubeascStartTx, hon, hirq, FlagOk, MaskOk, IrqDesc.enabled, hbal]

theorem FlagOk.leave {q : AscPort} (h : FlagOk q) :
    FlagOk { q with irq := endIrq (maskAndAckIrq q.irq) } ∧ MaskOk (endIrq (maskAndAckIrq q.irq)) := by
  obtain ⟨hbal, ⟨hon, hd⟩ | ⟨hon, hd⟩⟩ := h
  · simp [FlagOk, MaskOk, endIrq, maskAndAckIrq, hbal, hon, hd]
  · simp [FlagOk, MaskOk, endIrq, maskAndAckIrq, hbal, hon, hd]

theorem txInt_irq {p : AscPort} (hh : p.head < uartXmitSize) (ht : p.tail < uartXmitSize)
    (room : Nat) (hf : FlagOk p) :
    FlagOk (danubeascTxInt p room) ∧ MaskOk (danubeascTxInt p room).irq := by
  have hchars := @FlagOk.txChars { p with irq := maskAndAckIrq p.irq } hh ht room hf
  exact hchars.leave

theorem TxCharsSpec.startTx {p : AscPort} (hh : p.head < uartXmitSize) (ht : p.tail < uartXmitSize)
    (room : Nat) : TxCharsSpec p (danubeascStartTx p room) room := by
  obtain ⟨hd, hsent, hkept⟩ := txChars_spec hh ht room
  unfold danubeascStartTx
  dsimp only
  split
  next => exact ⟨⟨hd.data, hd.flow, hd.head, hd.tail⟩, hsent, hkept⟩
  next => exact ⟨hd, hsent, hkept⟩

theorem TxCharsSpec.txInt {p : AscPort} (hh : p.head < uartXmitSize) (ht : p.tail < uartXmitSize)
    (room : Nat) : TxCharsSpec p (danubeascTxInt p room) room := by
  obtain ⟨hd, hsent, hkept⟩ :=
    @txChars_spec { p with irq := maskAndAckIrq p.irq } hh ht room
  exact ⟨⟨hd.data, hd.flow, hd.head, hd.tail⟩, hsent, hkept⟩

/-- The last lines of the call, from the test of the flag. -/
theorem startTxAlone_enable (p : AscPort) :
    ∃ bs, run startTxAlone (p, some .enableTest) bs =
      some (if p.ascTxIrqOn = 0 then { p with
        irq := enableIrq p.irq, ascTxIrqOn := p.ascTxIrqOn + 1 } else p, none) := by
  by_cases hon : p.ascTxIrqOn = 0
  · refine ⟨[false, false, false], ?_⟩
    simp [run, startTxAlone, startTxStep, hon]
  · refine ⟨[false], ?_⟩
    simp [run, startTxAlone, startTxStep, hon]

theorem startTxAlone_stop (p : AscPort) :
    ∃ bs, run startTxAlone (p, some .stopTest) bs = some (danubeascStopTx p, some .enableTest) := by
  by_cases hon : p.ascTxIrqOn = 0
  · refine ⟨[false], ?_⟩
    simp [run, startTxAlone, startTxStep, danubeascStopTx, hon]
  · refine ⟨[false, false, false], ?_⟩
    simp [run, startTxAlone, startTxStep, danubeascStopTx, hon]

theorem startTxAlone_loop (room : Nat) (p : AscPort) :
    ∃ bs, run startTxAlone (p, some .loop) bs = some (txLoop room p, some .emptyTest) := by
  induction room generalizing p with
  | zero => exact ⟨[false], by simp [run, startTxAlone, startTxStep, txLoop]⟩
  | succ room ih =>
    unfold txLoop
    split
    next hx =>
      obtain ⟨bs, hbs⟩ := ih { p with tbuf := p.tbuf ++ [.flow p.xChar], xChar := 0 }
      have hwaits : p.xChar ≠ 0#8 := hx
      refine ⟨[true, true, true, true] ++ bs, ?_⟩
      rw [run_append]
      simpa [run, startTxAlone, startTxStep, hwaits] using hbs
    next hx =>
      have hx : p.xChar = 0 := not_not.mp hx
      dsimp only
      split
      next hlast =>
        refine ⟨[true, true, true, true, true], ?_⟩
        simp [run, startTxAlone, startTxStep, hx, hlast]
      next hmore =>
        obtain ⟨bs, hbs⟩ := ih { p with
          tbuf := p.tbuf ++ [.data (p.xmitBuf p.tail)]
          tail := (p.tail + 1) &&& (uartXmitSize - 1) }
        refine ⟨[true, true, true, true, true] ++ bs, ?_⟩
        rw [run_append]
        simpa [run, startTxAlone, startTxStep, hx, hmore] using hbs

theorem startTxAlone_trans {s t u : AscPort × Option StartTxPc}
    (h : ∃ bs, run startTxAlone s bs = some t) (h' : ∃ bs, run startTxAlone t bs = some u) :
    ∃ bs, run startTxAlone s bs = some u := by
  obtain ⟨bs, hbs⟩ := h
  obtain ⟨cs, hcs⟩ := h'
  refine ⟨bs ++ cs, ?_⟩
  rw [run_append, hbs]
  exact hcs

/-- Left alone, the accesses add up to the call as the callers with interrupts off see it. -/
theorem startTxAlone_eq_startTx (p : AscPort) (room : Nat) :
    ∃ bs, run startTxAlone (p, some .enter) bs = some (danubeascStartTx p room, none) := by
  have hend := startTxAlone_enable (danubeascTxChars p room)
  refine startTxAlone_trans ?_ hend
  unfold danubeascTxChars
  split
  next hidle =>
    refine startTxAlone_trans ?_ (startTxAlone_stop p)
    by_cases hempty : p.head = p.tail
    · exact ⟨[false], by simp [run, startTxAlone, startTxStep, StartTxPc.returns, hempty]⟩
    · have hstop : p.stopped = true ∨ p.hwStopped = true := hidle.resolve_left hempty
      refine ⟨[false, false], ?_⟩
      simp [run, startTxAlone, startTxStep, StartTxPc.returns, hempty, hstop]
  next hbusy =>
    simp only [not_or, Bool.not_eq_true] at hbusy
    obtain ⟨hne, hs, hw⟩ := hbusy
    have henter : ∃ bs, run startTxAlone (p, some .enter) bs = some (p, some .loop) :=
      ⟨[false, false], by simp [run, startTxAlone, startTxStep, StartTxPc.returns, hne, hs, hw]⟩
    have hloop := startTxAlone_trans henter (startTxAlone_loop room p)
    dsimp only
    split
    next hempty =>
      have hstop : ∃ bs, run startTxAlone (txLoop room p, some .emptyTest) bs =
          some (txLoop room p, some .stopTest) :=
        ⟨[false], by simp [run, startTxAlone, startTxStep, hempty]⟩
      exact startTxAlone_trans (startTxAlone_trans hloop hstop) (startTxAlone_stop _)
    next hmore =>
      have hskip : ∃ bs, run startTxAlone (txLoop room p, some .emptyTest) bs =
          some (txLoop room p, some .enableTest) :=
        ⟨[false], by simp [run, startTxAlone, startTxStep, hmore]⟩
      exact startTxAlone_trans hloop hskip

end DanubeBsp
