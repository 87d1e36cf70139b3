import DanubeBsp.AscTx

namespace DanubeBsp

/-- The call stands in the drain loop, or between the tests before it. -/
def StartTxPc.drains : StartTxPc → Bool
  | .runTest | .loop | .flowTest | .flowSend | .flowClear | .dataSend | .advance => true
  | _ => false

/-- The call stands between a test of `asc_tx_irq_on` and the store that follows it. -/
def StartTxPc.switches : StartTxPc → Bool
  | .disable | .clearFlag | .enable | .count => true
  | _ => false

/-- `uart_send_xchar` calls with interrupts on: `inside` are the places of the requests under way, the
youngest first. `appended` and `requested` are the characters of the buffer and of the requests; `stalled`
remembers a call that left a flow-control character although the FIFO had room. -/
structure AscRun where
  port : AscPort
  inside : List StartTxPc
  appended : List Byte
  requested : List Byte
  stalled : Bool

inductive AscEvent
  | append (c : Byte)
  /-- `uart_send_xchar` has stored `x_char`. -/
  | request (c : Byte) (hc : c ≠ 0)
  /-- The next access of the youngest request. -/
  | step (notFull : Bool)
  | startTx (room : Nat)
  | stopTx
  | setStopped (b : Bool)
  | setHwStopped (b : Bool)
  | txInt (room : Nat)

/-- The port after a call that drains the buffer. -/
def AscRun.drained (s : AscRun) (room : Nat) (port : AscPort) : AscRun :=
  { s with port, stalled := s.stalled || decide (0 < room ∧ port.xChar ≠ 0) }

/-- Other callers of the transmit side hold `info->lock` with interrupts off, so each is one event. -/
def ascStep (s : AscRun) : AscEvent → Option AscRun
  | .append c =>
    let head := (s.port.head + 1) &&& (uartXmitSize - 1)
    if head = s.port.tail then none
    else some { s with
      port := { s.port with xmitBuf := Function.update s.port.xmitBuf s.port.head c, head }
      appended := s.appended ++ [c] }
  | .request c _ =>
    some { s with
      port := { s.port with xChar := c }
      inside := .enter :: s.inside
      requested := s.requested ++ [c] }
  | .step notFull =>
    match s.inside with
    | [] => none
    | pc :: below =>
      let (port, next) := startTxStep s.port notFull pc
      some { s with
        port
        inside := next.toList ++ below
        stalled := s.stalled || (notFull && pc.returns s.port && decide (s.port.xChar ≠ 0)) }
  | .startTx room => some (s.drained room (danubeascStartTx s.port room))
  | .stopTx => some { s with port := danubeascStopTx s.port }
  | .setStopped b => some { s with port := { s.port with stopped := b } }
  | .setHwStopped b => some { s with port := { s.port with hwStopped := b } }
  | .txInt room =>
    if s.port.irq.ier then some (s.drained room (danubeascTxInt s.port room)) else none

/-- The buffered characters not yet sent; one that is sent leaves the ring an access later. -/
def AscRun.dataLeft (s : AscRun) : List Byte :=
  if .advance ∈ s.inside then s.port.queued.tail else s.port.queued

/-- The flow-control character not yet sent; one that is sent is cleared an access later. -/
def AscRun.flowLeft (s : AscRun) : List Byte :=
  if .flowClear ∈ s.inside then [] else s.port.waiting

/-- Nothing is lost, doubled, reordered or stalled, and the flag follows the interrupt. -/
structure TxGood (s : AscRun) : Prop where
  data : s.port.tbuf.filterMap TxChar.data? ++ s.dataLeft = s.appended
  flow : s.port.tbuf.filterMap TxChar.flow? ++ s.flowLeft = s.requested
  live : s.stalled = false
  flag : (∀ pc ∈ s.inside, pc.switches = false) → (s.port.ascTxIrqOn = 1 ↔ s.port.irq.enabled)
  balanced : s.port.irq.unbalanced = false

/-- A start with something to send leaves the interrupt enabled, and so does the end of a request. -/
def StartEnables (s t : AscRun) : AscEvent → Prop
  | .startTx _ => s.port.sending → t.port.irq.enabled
  | .step _ => t.inside.length < s.inside.length → t.port.irq.enabled
  | _ => True

/-- No other call comes while a request drains the buffer or switches the interrupt, and no TX interrupt
while it drains or is about to disable the line. -/
def Undisturbed (s : AscRun) : AscEvent → Prop
  | .request _ _ => s.inside = []
  | .startTx _ | .stopTx => ∀ pc ∈ s.inside, pc.drains = false ∧ pc.switches = false
  | .txInt _ => s.port.irq.enabled → ∀ pc ∈ s.inside, pc.drains = false ∧ pc ≠ .disable
  | _ => True

/-- A flow-control request finds no other one waiting; where one waits and the FIFO has room, the buffer
is not empty and the tty runs. -/
def FlowCanGo (s : AscRun) : AscEvent → Prop
  | .request _ _ => s.port.xChar = 0
  | .step notFull =>
    ∀ pc ∈ s.inside.head?, s.port.xChar ≠ 0 → notFull = true → pc.returns s.port = false
  | .startTx room => s.port.xChar ≠ 0 → 0 < room → s.port.sending
  | .txInt room => s.port.irq.enabled → s.port.xChar ≠ 0 → 0 < room → s.port.sending
  | _ => True

/-- What a request relies on at its place in the drain loop. -/
def PlaceOk (p : AscPort) : Option StartTxPc → Prop
  | some .runTest | some .loop | some .flowTest | some .dataSend | some .advance => p.head ≠ p.tail
  | some .flowSend | some .flowClear => p.head ≠ p.tail ∧ p.xChar ≠ 0
  | _ => True

/-- The flag counts the one enable call that is in effect, up to the switch under way. -/
def SwitchOk (p : AscPort) : Option StartTxPc → Prop
  | some .disable => p.irq.unbalanced = false ∧ p.ascTxIrqOn = 1 ∧ p.irq.depth = 0
  | some .clearFlag => p.irq.unbalanced = false ∧ p.ascTxIrqOn = 1 ∧ p.irq.depth = 1
  | some .enable => p.irq.unbalanced = false ∧ p.ascTxIrqOn = 0 ∧ p.irq.depth = 1
  | some .count => p.irq.unbalanced = false ∧ p.ascTxIrqOn = 0 ∧ p.irq.depth = 0
  | _ => FlagOk p

structure AscInv (s : AscRun) (frame : Option StartTxPc) : Prop where
  inside : s.inside = frame.toList
  head : s.port.head < uartXmitSize
  tail : s.port.tail < uartXmitSize
  data : s.port.tbuf.filterMap TxChar.data? ++ s.dataLeft = s.appended
  flow : s.port.tbuf.filterMap TxChar.flow? ++ s.flowLeft = s.requested
  live : s.stalled = false
  place : PlaceOk s.port frame
  switch : SwitchOk s.port frame
  mask : MaskOk s.port.irq

theorem switchOk_balanced {p : AscPort} {frame : Option StartTxPc} (h : SwitchOk p frame) :
    p.irq.unbalanced = false := by
  unfold SwitchOk at h
  split at h <;> exact h.1

theorem switchOk_flagOk {p : AscPort} {frame : Option StartTxPc} (h : SwitchOk p frame)
    (hrest : ∀ pc ∈ frame, pc.switches = false) : FlagOk p := by
  unfold SwitchOk at h
  split at h
  next => exact absurd (hrest _ rfl) (by decide)
  next => exact absurd (hrest _ rfl) (by decide)
  next => exact absurd (hrest _ rfl) (by decide)
  next => exact absurd (hrest _ rfl) (by decide)
  next => exact h

theorem FlagOk.switchOk {p : AscPort} {frame : Option StartTxPc} (h : FlagOk p)
    (hrest : ∀ pc ∈ frame, pc.switches = false) : SwitchOk p frame := by
  unfold SwitchOk
  split
  next => exact absurd (hrest _ rfl) (by decide)
  next => exact absurd (hrest _ rfl) (by decide)
  next => exact absurd (hrest _ rfl) (by decide)
  next => exact absurd (hrest _ rfl) (by decide)
  next => exact h

theorem placeOk_of_rest (p : AscPort) {frame : Option StartTxPc}
    (hrest : ∀ pc ∈ frame, pc.drains = false) : PlaceOk p frame := by
  cases frame with
  | none => trivial
  | some pc =>
    have hpc := hrest pc rfl
    cases pc <;> trivial

theorem FlagOk.follows {p : AscPort} (h : FlagOk p) (hm : MaskOk p.irq) :
    p.ascTxIrqOn = 1 ↔ p.irq.enabled := by
  obtain ⟨-, ⟨hon, hd⟩ | ⟨hon, hd⟩⟩ := h
  · rw [MaskOk, hd] at hm
    simp [IrqDesc.enabled, hon, hd, hm]
  · simp [IrqDesc.enabled, hon, hd]

theorem AscInv.mem_inside {s : AscRun} {frame : Option StartTxPc} (h : AscInv s frame)
    {pc : StartTxPc} : pc ∈ s.inside ↔ pc ∈ frame := by
  rw [h.inside, Option.mem_toList, Option.mem_def]

theorem AscInv.good {s : AscRun} {frame : Option StartTxPc} (h : AscInv s frame) : TxGood s := by
  refine ⟨h.data, h.flow, h.live, ?_, switchOk_balanced h.switch⟩
  intro hrest
  exact (switchOk_flagOk h.switch fun pc hpc => hrest pc (h.mem_inside.mpr hpc)).follows h.mask

theorem AscInv.enabled_iff {s : AscRun} {frame : Option StartTxPc} (h : AscInv s frame) :
    s.port.irq.ier = true ↔ s.port.irq.enabled := by
  have hm := h.mask
  rw [MaskOk] at hm
  simp [IrqDesc.enabled, hm]

/-- Outside the drain loop everything queued or waiting is still to be sent. -/
theorem AscRun.left_of_rest {s : AscRun} (hrest : ∀ pc ∈ s.inside, pc.drains = false) :
    s.dataLeft = s.port.queued ∧ s.flowLeft = s.port.waiting := by
  have hadvance : StartTxPc.advance ∉ s.inside := fun hpc => absurd (hrest _ hpc) (by decide)
  have hclear : StartTxPc.flowClear ∉ s.inside := fun hpc => absurd (hrest _ hpc) (by decide)
  exact ⟨if_neg hadvance, if_neg hclear⟩

/-- A draining call outside the drain loop of a request keeps the invariant if a waiting flow-control
character can go, and is good only then. -/
theorem drained_cases {s : AscRun} {frame : Option StartTxPc} {q : AscPort} {room : Nat}
    (h : AscInv s frame) (hrest : ∀ pc ∈ frame, pc.drains = false)
    (hspec : TxCharsSpec s.port q room) (hswitch : SwitchOk q frame) (hmask : MaskOk q.irq) :
    ((s.port.xChar ≠ 0 → 0 < room → s.port.sending) → AscInv (s.drained room q) frame) ∧
      (TxGood (s.drained room q) → s.port.xChar ≠ 0 → 0 < room → s.port.sending) := by
  obtain ⟨hd, hsent, hkept⟩ := hspec
  have hold : ∀ pc ∈ s.inside, pc.drains = false := fun pc hpc => hrest pc (h.mem_inside.mp hpc)
  obtain ⟨hdata, hflow⟩ := AscRun.left_of_rest hold
  obtain ⟨hdata', hflow'⟩ := @AscRun.left_of_rest (s.drained room q) hold
  constructor
  · intro hgo
    refine ⟨h.inside, hd.head.trans_lt h.head, hd.tail, ?_, ?_, ?_, placeOk_of_rest q hrest, hswitch,
      hmask⟩
    · rw [hdata']
      exact hd.data.trans (hdata ▸ h.data)
    · rw [hflow']
      exact hd.flow.trans (hflow ▸ h.flow)
    · simp only [AscRun.drained, h.live, Bool.false_or, decide_eq_false_iff_not, not_and, not_not]
      intro hroom
      by_cases hs : s.port.sending
      · exact hsent hs hroom
      · rw [hkept (.inr hs)]
        by_contra hx
        exact hs (hgo hx hroom)
  · intro hgood hx hroom
    by_contra hs
    have hl := hgood.live
    simp only [AscRun.drained, h.live, Bool.false_or, decide_eq_false_iff_not, not_and, not_not] at hl
    rw [hkept (.inr hs)] at hl
    exact hx (hl hroom)

theorem AscInv.startTx {s t : AscRun} {frame : Option StartTxPc} {room : Nat} (h : AscInv s frame)
    (hund : Undisturbed s (.startTx room)) (ht : ascStep s (.startTx room) = some t) :
    (FlowCanGo s (.startTx room) → AscInv t frame) ∧ (TxGood t → FlowCanGo s (.startTx room)) ∧
      t.port.irq.enabled := by
  cases Option.some.inj ht
  have hrest : ∀ pc ∈ frame, pc.drains = false ∧ pc.switches = false :=
    fun pc hpc => hund pc (h.mem_inside.mpr hpc)
  have hflag := switchOk_flagOk h.switch fun pc hpc => (hrest pc hpc).2
  obtain ⟨hflag', hmask', henabled⟩ := startTx_irq h.head h.tail room hflag h.mask
  obtain ⟨hkeep, hmeet⟩ := drained_cases h (fun pc hpc => (hrest pc hpc).1)
    (TxCharsSpec.startTx h.head h.tail room) (hflag'.switchOk fun pc hpc => (hrest pc hpc).2) hmask'
  exact ⟨hkeep, hmeet, henabled⟩

theorem stopTx_of_off {p : AscPort} (hon : p.ascTxIrqOn = 0) : danubeascStopTx p = p := by
  simp [danubeascStopTx, hon]

theorem txChars_of_off {p : AscPort} (hh : p.head < uartXmitSize) (ht : p.tail < uartXmitSize)
    (room : Nat) (hon : p.ascTxIrqOn = 0) :
    (danubeascTxChars p room).irq = p.irq ∧ (danubeascTxChars p room).ascTxIrqOn = 0 := by
  unfold danubeascTxChars
  split
  next =>
    rw [stopTx_of_off hon]
    exact ⟨rfl, hon⟩
  next hbusy =>
    simp only [not_or] at hbusy
    obtain ⟨-, hirq, hkept, -⟩ := txLoop_spec room hh ht hbusy.1
    dsimp only
    split
    next =>
      rw [stopTx_of_off (hkept.trans hon)]
      exact ⟨hirq, hkept.trans hon⟩
    next => exact ⟨hirq, hkept.trans hon⟩

/-- With the flag clear the interrupt routine leaves the descriptor of an enabled line alone. -/
theorem txInt_irq_of_off {p : AscPort} (hh : p.head < uartXmitSize) (ht : p.tail < uartXmitSize)
    (room : Nat) (h : SwitchOk p (some .count)) :
    SwitchOk (danubeascTxInt p room) (some .count) ∧ MaskOk (danubeascTxInt p room).irq := by
  obtain ⟨hbal, hon, hd⟩ := h
  obtain ⟨hirq, hoff⟩ := @txChars_of_off { p with irq := maskAndAckIrq p.irq } hh ht room hon
  simp only [SwitchOk, MaskOk, danubeascTxInt, hirq, hoff]
  simp [maskAndAckIrq, endIrq, hd, hbal]

theorem AscInv.txInt {s t : AscRun} {frame : Option StartTxPc} {room : Nat} (h : AscInv s frame)
    (hund : Undisturbed s (.txInt room)) (ht : ascStep s (.txInt room) = some t) :
    (FlowCanGo s (.txInt room) → AscInv t frame) ∧ (TxGood t → FlowCanGo s (.txInt room)) := by
  simp only [ascStep] at ht
  split at ht
  next hier =>
    cases Option.some.inj ht
    have hen := h.enabled_iff.mp hier
    have hrest : ∀ pc ∈ frame, pc.drains = false ∧ pc ≠ .disable :=
      fun pc hpc => hund hen pc (h.mem_inside.mpr hpc)
    have hirq : SwitchOk (danubeascTxInt s.port room) frame ∧
        MaskOk (danubeascTxInt s.port room).irq := by
      by_cases hswitch : ∀ pc ∈ frame, pc.switches = false
      · obtain ⟨hflag, hmask⟩ := txInt_irq h.head h.tail room (switchOk_flagOk h.switch hswitch)
        exact ⟨hflag.switchOk hswitch, hmask⟩
      · push Not at hswitch
        obtain ⟨pc, hpc, hsw⟩ := hswitch
        cases hpc
        have hs := h.switch
        have hdepth := hen.1
        -- Between the enable call and the count of it the flag is still clear.
        cases pc with
        | count => exact txInt_irq_of_off h.head h.tail room hs
        | disable => exact absurd rfl (hrest _ rfl).2
        | clearFlag => exact absurd (hdepth.symm.trans hs.2.2) (by decide)
        | enable => exact absurd (hdepth.symm.trans hs.2.2) (by decide)
        | _ => exact absurd rfl hsw
    obtain ⟨hkeep, hmeet⟩ := drained_cases h (fun pc hpc => (hrest pc hpc).1)
      (TxCharsSpec.txInt h.head h.tail room) hirq.1 hirq.2
    exact ⟨fun hgo => hkeep (hgo hen), fun hgood _ => hmeet hgood⟩
  next => cases ht

theorem AscInv.stopTx {s : AscRun} {frame : Option StartTxPc} (h : AscInv s frame)
    (hrest : ∀ pc ∈ frame, pc.drains = false ∧ pc.switches = false) :
    AscInv { s with port := danubeascStopTx s.port } frame := by
  have hd : Drains s.port (danubeascStopTx s.port) := Drains.stopTx ⟨rfl, rfl, rfl, h.tail⟩
  have hflag := switchOk_flagOk h.switch fun pc hpc => (hrest pc hpc).2
  have hold : ∀ pc ∈ s.inside, pc.drains = false :=
    fun pc hpc => (hrest pc (h.mem_inside.mp hpc)).1
  obtain ⟨hdata, hflow⟩ := AscRun.left_of_rest hold
  obtain ⟨hdata', hflow'⟩ := @AscRun.left_of_rest { s with port := danubeascStopTx s.port } hold
  refine ⟨h.inside, hd.head.trans_lt h.head, hd.tail, ?_, ?_, h.live,
    placeOk_of_rest _ fun pc hpc => (hrest pc hpc).1,
    hflag.stopTx.switchOk fun pc hpc => (hrest pc hpc).2, h.mask.stopTx hflag⟩
  · rw [hdata']
    exact hd.data.trans (hdata ▸ h.data)
  · rw [hflow']
    exact hd.flow.trans (hflow ▸ h.flow)

theorem placeOk_append {p : AscPort} {frame : Option StartTxPc} {c : Byte} (h : PlaceOk p frame)
    (hfree : (p.head + 1) % uartXmitSize ≠ p.tail) :
    PlaceOk { p with
      xmitBuf := Function.update p.xmitBuf p.head c
      head := (p.head + 1) % uartXmitSize } frame := by
  cases frame with
  | none => trivial
  | some pc => cases pc <;> first | exact hfree | exact ⟨hfree, h.2⟩ | trivial

theorem AscInv.append {s : AscRun} {frame : Option StartTxPc} {c : Byte} (h : AscInv s frame)
    (hfree : (s.port.head + 1) % uartXmitSize ≠ s.port.tail) :
    AscInv { s with
      port := { s.port with
        xmitBuf := Function.update s.port.xmitBuf s.port.head c
        head := (s.port.head + 1) % uartXmitSize }
      appended := s.appended ++ [c] } frame := by
  have hpush := @AscPort.queued_push s.port c h.head h.tail hfree
  have hleft : AscRun.dataLeft { s with
      port := { s.port with
        xmitBuf := Function.update s.port.xmitBuf s.port.head c
        head := (s.port.head + 1) % uartXmitSize }
      appended := s.appended ++ [c] } = s.dataLeft ++ [c] := by
    simp only [AscRun.dataLeft, AscPort.queued]
    rw [hpush]
    split
    next hadvance =>
      -- The character being taken out is still the first one of the ring.
      have hframe := h.mem_inside.mp hadvance
      have hplace := h.place
      rw [Option.mem_def.mp hframe] at hplace
      have hpop := s.port.queued_pop h.head h.tail hplace
      rw [← AscPort.queued, hpop]
      rfl
    next => rfl
  refine ⟨h.inside, Nat.mod_lt _ (by decide), h.tail, ?_, h.flow, h.live, placeOk_append h.place hfree,
    ?_, h.mask⟩
  · rw [hleft, ← List.append_assoc, h.data]
  · exact h.switch

/-- An access outside the drain loop moves the request on; the port changes in the flag and the line only. -/
theorem AscInv.switched {s : AscRun} {frame next : Option StartTxPc} {irq : IrqDesc} {on : Nat}
    (h : AscInv s frame) (hsent : ∀ pc ∈ frame, pc ≠ .advance ∧ pc ≠ .flowClear)
    (hsent' : ∀ pc ∈ next, pc ≠ .advance ∧ pc ≠ .flowClear)
    (hplace : PlaceOk { s.port with ascTxIrqOn := on, irq := irq } next)
    (hswitch : SwitchOk { s.port with ascTxIrqOn := on, irq := irq } next) (hmask : MaskOk irq) :
    AscInv { s with
      port := { s.port with ascTxIrqOn := on, irq := irq }
      inside := next.toList } next := by
  have hold : .advance ∉ s.inside ∧ .flowClear ∉ s.inside :=
    ⟨fun hpc => (hsent _ (h.mem_inside.mp hpc)).1 rfl,
      fun hpc => (hsent _ (h.mem_inside.mp hpc)).2 rfl⟩
  have hnew : .advance ∉ next.toList ∧ .flowClear ∉ next.toList :=
    ⟨fun hpc => (hsent' _ (Option.mem_toList.mp hpc)).1 rfl,
      fun hpc => (hsent' _ (Option.mem_toList.mp hpc)).2 rfl⟩
  have hdata := h.data
  have hflow := h.flow
  rw [AscRun.dataLeft, if_neg hold.1] at hdata
  rw [AscRun.flowLeft, if_neg hold.2] at hflow
  refine ⟨rfl, h.head, h.tail, ?_, ?_, h.live, hplace, hswitch, hmask⟩
  · rw [AscRun.dataLeft, if_neg hnew.1]
    exact hdata
  · rw [AscRun.flowLeft, if_neg hnew.2]
    exact hflow

/-- A test moves the request on and leaves the port alone. -/
theorem AscInv.moved {s : AscRun} {frame next : Option StartTxPc} (h : AscInv s frame)
    (hsent : ∀ pc ∈ frame, pc ≠ .advance ∧ pc ≠ .flowClear)
    (hsent' : ∀ pc ∈ next, pc ≠ .advance ∧ pc ≠ .flowClear)
    (hplace : PlaceOk s.port next) (hswitch : SwitchOk s.port next) :
    AscInv { s with inside := next.toList } next :=
  h.switched hsent hsent' hplace hswitch h.mask

/-- The stores of the drain loop: the character goes to the register one access before it leaves its cell. -/
theorem AscInv.flowSend {s : AscRun} (h : AscInv s (some .flowSend)) :
    AscInv { s with
      port := { s.port with tbuf := s.port.tbuf ++ [.flow s.port.xChar] }
      inside := [.flowClear] } (some .flowClear) := by
  have hdata := h.data
  have hflow := h.flow
  have hwait : s.port.waiting = [s.port.xChar] := if_neg h.place.2
  rw [AscRun.dataLeft, h.inside] at hdata
  rw [AscRun.flowLeft, h.inside, Option.toList, if_neg (by decide), hwait] at hflow
  refine ⟨rfl, h.head, h.tail, ?_, ?_, h.live, h.place, h.switch, h.mask⟩
  · simpa [AscRun.dataLeft, TxChar.data?, List.filterMap_cons, AscPort.queued] using hdata
  · simpa [AscRun.flowLeft, TxChar.flow?] using hflow

theorem AscInv.flowClear {s : AscRun} (h : AscInv s (some .flowClear)) :
    AscInv { s with port := { s.port with xChar := 0 }, inside := [.loop] } (some .loop) := by
  have hdata := h.data
  have hflow := h.flow
  rw [AscRun.dataLeft, h.inside] at hdata
  rw [AscRun.flowLeft, h.inside] at hflow
  refine ⟨rfl, h.head, h.tail, ?_, ?_, h.live, h.place.1, h.switch, h.mask⟩
  · simpa [AscRun.dataLeft, AscPort.queued] using hdata
  · simpa [AscRun.flowLeft, AscPort.waiting] using hflow

theorem AscInv.dataSend {s : AscRun} (h : AscInv s (some .dataSend)) :
    AscInv { s with
      port := { s.port with tbuf := s.port.tbuf ++ [.data (s.port.xmitBuf s.port.tail)] }
      inside := [.advance] } (some .advance) := by
  have hdata := h.data
  have hflow := h.flow
  have hpop := s.port.queued_pop h.head h.tail h.place
  rw [AscRun.dataLeft, h.inside, Option.toList, if_neg (by decide), hpop] at hdata
  rw [AscRun.flowLeft, h.inside] at hflow
  refine ⟨rfl, h.head, h.tail, ?_, ?_, h.live, h.place, h.switch, h.mask⟩
  · have hleft : AscPort.queued { s.port with
        tbuf := s.port.tbuf ++ [.data (s.port.xmitBuf s.port.tail)] } = s.port.queued := rfl
    rw [AscRun.dataLeft, if_pos (by simp), hleft, hpop]
    simpa [TxChar.data?] using hdata
  · simpa [AscRun.flowLeft, TxChar.flow?, List.filterMap_cons, AscPort.waiting] using hflow

theorem AscInv.advance {s : AscRun} (h : AscInv s (some .advance)) :
    AscInv { s with
      port := { s.port with tail := (s.port.tail + 1) % uartXmitSize }
      inside := [.roundTest] } (some .roundTest) := by
  have hdata := h.data
  have hflow := h.flow
  rw [AscRun.dataLeft, h.inside, Option.toList, if_pos (by simp),
    s.port.queued_pop h.head h.tail h.place] at hdata
  rw [AscRun.flowLeft, h.inside] at hflow
  refine ⟨rfl, h.head, Nat.mod_lt _ (by decide), ?_, ?_, h.live, trivial, h.switch, h.mask⟩
  · simpa [AscRun.dataLeft, AscPort.queued] using hdata
  · simpa [AscRun.flowLeft, AscPort.waiting] using hflow

/-- The accesses of a request keep everything, apart from a character that may have to stay. -/
theorem AscInv.access {s : AscRun} {pc : StartTxPc} (h : AscInv s (some pc)) (notFull : Bool) :
    AscInv { s with
      port := (startTxStep s.port notFull pc).1
      inside := (startTxStep s.port notFull pc).2.toList } (startTxStep s.port notFull pc).2 := by
  cases pc with
  | flowSend => exact h.flowSend
  | flowClear => exact h.flowClear
  | dataSend => exact h.dataSend
  | advance =>
    simp only [startTxStep, xmit_next]
    exact h.advance
  | enter =>
    simp only [startTxStep, StartTxPc.returns, decide_eq_true_eq]
    split
    next => exact h.moved (by simp) (by simp) trivial h.switch
    next hne => exact h.moved (by simp) (by simp) hne h.switch
  | runTest =>
    simp only [startTxStep]
    split
    next => exact h.moved (by simp) (by simp) trivial h.switch
    next => exact h.moved (by simp) (by simp) h.place h.switch
  | loop =>
    simp only [startTxStep]
    split
    next => exact h.moved (by simp) (by simp) h.place h.switch
    next => exact h.moved (by simp) (by simp) trivial h.switch
  | flowTest =>
    simp only [startTxStep]
    split
    next hx => exact h.moved (by simp) (by simp) ⟨h.place, hx⟩ h.switch
    next => exact h.moved (by simp) (by simp) h.place h.switch
  | roundTest =>
    simp only [startTxStep]
    split
    next => exact h.moved (by simp) (by simp) trivial h.switch
    next hne => exact h.moved (by simp) (by simp) hne h.switch
  | emptyTest =>
    simp only [startTxStep]
    split
    next => exact h.moved (by simp) (by simp) trivial h.switch
    next => exact h.moved (by simp) (by simp) trivial h.switch
  | stopTest =>
    obtain ⟨hbal, hflag⟩ := h.switch
    simp only [startTxStep]
    split
    next hon =>
      have hset := hflag.resolve_right fun hoff => hon hoff.1
      exact h.moved (by simp) (by simp) trivial ⟨hbal, hset⟩
    next => exact h.moved (by simp) (by simp) trivial h.switch
  | disable =>
    obtain ⟨hbal, hon, hd⟩ := h.switch
    simp only [startTxStep]
    refine h.switched (by simp) (by simp) trivial ?_ ?_
    · simp [SwitchOk, disableIrq, hbal, hon, hd]
    · simp [MaskOk, disableIrq, hd]
  | clearFlag =>
    obtain ⟨hbal, hon, hd⟩ := h.switch
    simp only [startTxStep]
    exact h.switched (by simp) (by simp) trivial ⟨hbal, .inr ⟨rfl, hd⟩⟩ h.mask
  | enableTest =>
    obtain ⟨hbal, hflag⟩ := h.switch
    simp only [startTxStep]
    split
    next hon =>
      have hclear := hflag.resolve_left fun hset => by simp [hset.1] at hon
      exact h.moved (by simp) (by simp) trivial ⟨hbal, hclear⟩
    next => exact h.moved (by simp) (by simp) trivial h.switch
  | enable =>
    obtain ⟨hbal, hon, hd⟩ := h.switch
    simp only [startTxStep]
    refine h.switched (by simp) (by simp) trivial ?_ ?_
    · simp [SwitchOk, enableIrq, hbal, hon, hd]
    · simp [MaskOk, enableIrq, hd]
  | count =>
    obtain ⟨hbal, hon, hd⟩ := h.switch
    simp only [startTxStep]
    refine h.switched (by simp) (by simp) trivial ⟨hbal, .inl ⟨?_, hd⟩⟩ h.mask
    simp [hon]

theorem ascStep_step {s : AscRun} {pc : StartTxPc} (h : AscInv s (some pc)) (notFull : Bool) :
    ascStep s (.step notFull) = some { s with
      port := (startTxStep s.port notFull pc).1
      inside := (startTxStep s.port notFull pc).2.toList
      stalled := notFull && pc.returns s.port && decide (s.port.xChar ≠ 0) } := by
  simp [ascStep, h.inside, h.live]

/-- A request ends with the flag set. -/
theorem startTxStep_done {p : AscPort} {pc : StartTxPc} {notFull : Bool} (hs : SwitchOk p (some pc))
    (h : (startTxStep p notFull pc).2 = none) : (startTxStep p notFull pc).1.ascTxIrqOn = 1 := by
  cases pc with
  | enableTest =>
    simp only [startTxStep, ite_eq_right_iff, reduceCtorEq, imp_false] at h
    obtain ⟨-, hset | hclear⟩ := hs
    · exact hset.1
    · exact absurd hclear.1 h
  | count => simp [startTxStep, hs.2.1]
  | _ => simp [startTxStep] at h

theorem AscInv.step_request {s t : AscRun} {pc : StartTxPc} {notFull : Bool} (h : AscInv s (some pc))
    (ht : ascStep s (.step notFull) = some t) :
    (FlowCanGo s (.step notFull) → ∃ frame, AscInv t frame) ∧
      (TxGood t → FlowCanGo s (.step notFull)) ∧ StartEnables s t (.step notFull) := by
  have hnext := h.access notFull
  have hpc : s.inside.head? = some pc := by
    rw [h.inside]
    rfl
  rw [ascStep_step h notFull] at ht
  cases Option.some.inj ht
  refine ⟨?_, ?_, ?_⟩
  · intro hgo
    refine ⟨_, hnext.inside, hnext.head, hnext.tail, hnext.data, hnext.flow, ?_, hnext.place,
      hnext.switch, hnext.mask⟩
    have hgo := hgo pc (hpc ▸ rfl)
    cases notFull with
    | false => rfl
    | true =>
      by_cases hx : s.port.xChar = 0
      · simp [hx]
      · simp [hgo hx rfl]
  · intro hgood pc' hpc' hx hfull
    cases Option.some.inj (hpc.symm.trans hpc')
    have hlive := hgood.live
    simp only [hfull, Bool.true_and, Bool.and_eq_false_iff, decide_eq_false_iff_not, not_not] at hlive
    exact hlive.resolve_right hx
  · intro hshort
    rw [h.inside] at hshort
    have hdone : (startTxStep s.port notFull pc).2 = none := by
      cases hn : (startTxStep s.port notFull pc).2 with
      | none => rfl
      | some pc' => simp [hn] at hshort
    have hon := startTxStep_done h.switch hdone
    have hswitch := hnext.switch
    rw [hdone] at hswitch
    have hflag : FlagOk (startTxStep s.port notFull pc).1 := hswitch
    exact (hflag.follows hnext.mask).mp hon

theorem AscInv.request {s : AscRun} {c : Byte} (h : AscInv s none) (hc : c ≠ 0) :
    (s.port.xChar = 0 → AscInv { s with
        port := { s.port with xChar := c }
        inside := [.enter]
        requested := s.requested ++ [c] } (some .enter)) ∧
      (TxGood { s with
        port := { s.port with xChar := c }
        inside := [.enter]
        requested := s.requested ++ [c] } → s.port.xChar = 0) := by
  have hdata := h.data
  have hflow := h.flow
  rw [AscRun.dataLeft, h.inside, Option.toList, if_neg (by simp)] at hdata
  rw [AscRun.flowLeft, h.inside, Option.toList, if_neg (by simp)] at hflow
  have hnew : AscPort.waiting { s.port with xChar := c } = [c] := if_neg hc
  constructor
  · intro hx
    have hold : s.port.waiting = [] := if_pos hx
    refine ⟨rfl, h.head, h.tail, ?_, ?_, h.live, trivial, h.switch, h.mask⟩
    · rw [AscRun.dataLeft, if_neg (by simp)]
      exact hdata
    · rw [AscRun.flowLeft, if_neg (by simp), hnew, ← hflow, hold, List.append_nil]
  · intro hgood
    -- A request that overwrites a waiting character loses it.
    by_contra hx
    have hold : s.port.waiting = [s.port.xChar] := if_neg hx
    have hsent := hgood.flow
    rw [AscRun.flowLeft, if_neg (by simp), hnew] at hsent
    rw [← hflow, hold] at hsent
    have hlen := congrArg List.length hsent
    simp at hlen

/-- What one undisturbed event does: it keeps the invariant where a waiting flow-control character can go,
and only there it ends in a good state. -/
theorem AscInv.step {s t : AscRun} {frame : Option StartTxPc} {e : AscEvent} (h : AscInv s frame)
    (hund : Undisturbed s e) (ht : ascStep s e = some t) :
    (FlowCanGo s e → ∃ frame', AscInv t frame') ∧ (TxGood t → FlowCanGo s e) ∧ StartEnables s t e := by
  cases e with
  | append c =>
    simp only [ascStep, xmit_next] at ht
    split at ht
    next => cases ht
    next hfree =>
      cases Option.some.inj ht
      exact ⟨fun _ => ⟨frame, h.append hfree⟩, fun _ => trivial, trivial⟩
  | request c hc =>
    have hnone : frame = none := by
      have hinside : s.inside = [] := hund
      rw [h.inside] at hinside
      cases frame with
      | none => rfl
      | some pc => cases hinside
    subst hnone
    cases Option.some.inj ht
    obtain ⟨hkeep, hmeet⟩ := h.request hc
    rw [h.inside]
    exact ⟨fun hx => ⟨_, hkeep hx⟩, hmeet, trivial⟩
  | step notFull =>
    cases frame with
    | none => simp [ascStep, h.inside] at ht
    | some pc => exact h.step_request ht
  | startTx room =>
    obtain ⟨hkeep, hmeet, henabled⟩ := h.startTx hund ht
    exact ⟨fun hgo => ⟨frame, hkeep hgo⟩, hmeet, fun _ => henabled⟩
  | stopTx =>
    cases Option.some.inj ht
    exact ⟨fun _ => ⟨frame, h.stopTx fun pc hpc => hund pc (h.mem_inside.mpr hpc)⟩,
      fun _ => trivial, trivial⟩
  | setStopped b =>
    cases Option.some.inj ht
    exact ⟨fun _ => ⟨frame, h.inside, h.head, h.tail, h.data, h.flow, h.live, h.place, h.switch, h.mask⟩,
      fun _ => trivial, trivial⟩
  | setHwStopped b =>
    cases Option.some.inj ht
    exact ⟨fun _ => ⟨frame, h.inside, h.head, h.tail, h.data, h.flow, h.live, h.place, h.switch, h.mask⟩,
      fun _ => trivial, trivial⟩
  | txInt room =>
    obtain ⟨hkeep, hmeet⟩ := h.txInt hund ht
    exact ⟨fun hgo => ⟨frame, hkeep hgo⟩, hmeet, trivial⟩

end DanubeBsp
