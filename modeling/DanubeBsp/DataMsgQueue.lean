import Mathlib.Data.List.Count
import Mathlib.Data.List.Perm.Basic
import DanubeBsp.Runs
import DanubeBsp.RingSlice
import DanubeBsp.WordMemory

namespace DanubeBsp

/-- The header's sequence number and the first word of the content: `msg_buf_addr` of a data
message, the parameter of a command message. -/
structure MpsDataMessage where
  msgSeqno : BitVec 8
  msgBufAddr : Word
  deriving DecidableEq

/-- A `kmalloc`ed copy of a message; `id` tells the allocations apart. -/
structure RxNode where
  id : Nat
  msg : MpsDataMessage
  deriving DecidableEq

def maxMpsDatamsgQlen : Nat := 1024

/-- `MPS_DATAMSG_LIST`: a ring of `MAX_MPS_DATAMSG_QLEN + 1` slots. -/
structure DatamsgList where
  circularBuf : Nat → Option RxNode
  rpos : Nat
  wpos : Nat

def mpsDatamsgQueueInit : DatamsgList := ⟨fun _ => none, 0, 0⟩

def mpsDatamsgNextQPos (pos : Nat) : Nat := if pos < maxMpsDatamsgQlen then pos + 1 else 0

def mpsDatamsgIsQFull (q : DatamsgList) : Bool := mpsDatamsgNextQPos q.wpos == q.rpos

def mpsDatamsgIsQEmpty (q : DatamsgList) : Bool := q.rpos == q.wpos

def mpsDatamsgGetQCount (q : DatamsgList) : Nat :=
  if q.rpos ≤ q.wpos then q.wpos - q.rpos else q.wpos + 1 + maxMpsDatamsgQlen - q.rpos

/-- The four read loops. The downstream ones run on CPU1, the upstream ones on CPU0, and each CPU
has a data queue and a command queue of its own. -/
inductive MbxLoop
  | dsd
  | dsc
  | usd
  | usc
  deriving DecidableEq

inductive MsgKind
  | data
  | command
  deriving DecidableEq

/-- `dsd` and `usd` read a `wifi_mbx` into `mps_rcvDataMsgQ`, `dsc` and `usc` read `command_mbx`
into `mps_rcvCmdMsgQ`. -/
def MbxLoop.kind : MbxLoop → MsgKind
  | .dsd => .data
  | .dsc => .command
  | .usd => .data
  | .usc => .command

def mbxLoops : List MbxLoop := [.dsd, .dsc, .usd, .usc]

/-- The mailbox that a loop reads and the queue that it fills; `queued` is history: the nodes
accepted by the queue and not taken out again. -/
structure MbxPort where
  mbx : List MpsDataMessage
  q : DatamsgList
  queued : List RxNode

/-- A call of `mps_dev_kfree_skb_any`, with the kind of the message that the address is from. -/
structure SkbFree where
  kind : MsgKind
  buf : Word
  seqno : BitVec 8
  deriving DecidableEq

/-- `allocated` numbers the nodes, `freed` are the `kfree`d ones, `called` the callbacks made. -/
structure MbxState where
  port : MbxLoop → MbxPort
  allocated : Nat
  freed : List Nat
  skbFreed : List SkbFree
  called : List RxNode

def mbxInit : MbxState := ⟨fun _ => ⟨[], mpsDatamsgQueueInit, []⟩, 0, [], [], []⟩

def MbxState.setPort (s : MbxState) (l : MbxLoop) (p : MbxPort) : MbxState :=
  { s with port := Function.update s.port l p }

/-- `mps_datamsg_enqueue_tail`; `false` is `-ENOMEM`, after the buffer of the message was given to
`mps_dev_kfree_skb_any`. -/
def mpsDatamsgEnqueueTail (l : MbxLoop) (s : MbxState) (buf : RxNode) : MbxState × Bool :=
  let p := s.port l
  if mpsDatamsgIsQFull p.q then
    ({ s with skbFreed := s.skbFreed ++ [⟨l.kind, buf.msg.msgBufAddr, buf.msg.msgSeqno⟩] }, false)
  else
    (s.setPort l
      { p with
        q := ⟨Function.update p.q.circularBuf p.q.wpos (some buf), p.q.rpos,
          mpsDatamsgNextQPos p.q.wpos⟩
        queued := p.queued ++ [buf] }, true)

/-- One pass of a read loop after a successful `kmalloc`: the result of the enqueue is not used. -/
def mbxReadOne (l : MbxLoop) (s : MbxState) (m : MpsDataMessage) : MbxState :=
  let s' := (mpsDatamsgEnqueueTail l { s with allocated := s.allocated + 1 } ⟨s.allocated, m⟩).1
  s'.setPort l { s'.port l with mbx := (s'.port l).mbx.tail }

/-- A read loop while at most `allocs` calls of `kmalloc` succeed, with `num_msg`. The message of
the failed `kmalloc` stays in the mailbox. -/
def mbxRead (l : MbxLoop) : Nat → MbxState → MbxState × Nat
  | 0, s => (s, 0)
  | allocs + 1, s =>
    match (s.port l).mbx with
    | [] => (s, 0)
    | m :: _ =>
      let r := mbxRead l allocs (mbxReadOne l s m)
      (r.1, r.2 + 1)

def mbxReadDsdMsg := mbxRead .dsd

def mbxReadDscMsg := mbxRead .dsc

def mbxReadUsdMsg := mbxRead .usd

def mbxReadUscMsg := mbxRead .usc

/-- `mps_datamsg_dequeue_head`. -/
def mpsDatamsgDequeueHead (q : DatamsgList) : DatamsgList × Option RxNode :=
  if mpsDatamsgIsQEmpty q then (q, none)
  else ({ q with rpos := mpsDatamsgNextQPos q.rpos }, q.circularBuf q.rpos)

/-- One pass of a reader loop; a `NULL` node ends the call. -/
def mbxHandleOne (callback : BitVec 8 → Bool) (l : MbxLoop) (s : MbxState) : MbxState :=
  let p := s.port l
  match mpsDatamsgDequeueHead p.q with
  | (q, none) => s.setPort l { p with q := q }
  | (q, some m) =>
    { s.setPort l { p with q := q, queued := p.queued.tail } with
      freed := s.freed ++ [m.id]
      called := if callback m.msg.msgSeqno then s.called ++ [m] else s.called }

/-- A message arrives, an interrupt runs a read loop, a reader loop makes one pass. -/
inductive MbxEvent
  | arrive (l : MbxLoop) (m : MpsDataMessage)
  | interrupt (l : MbxLoop) (allocs : Nat)
  | handle (l : MbxLoop)

def mbxReadMsg : MbxLoop → Nat → MbxState → MbxState × Nat
  | .dsd => mbxReadDsdMsg
  | .dsc => mbxReadDscMsg
  | .usd => mbxReadUsdMsg
  | .usc => mbxReadUscMsg

def mbxStep (callback : BitVec 8 → Bool) (s : MbxState) : MbxEvent → Option MbxState
  | .arrive l m => some (s.setPort l { s.port l with mbx := (s.port l).mbx ++ [m] })
  | .interrupt l allocs => some (mbxReadMsg l allocs s).1
  | .handle l => some (mbxHandleOne callback l s)

/-- The ring holds exactly these nodes, oldest first. -/
def QueueHolds (q : DatamsgList) (nodes : List RxNode) : Prop :=
  ∃ R, q.rpos = R % (maxMpsDatamsgQlen + 1) ∧
    q.wpos = (R + nodes.length) % (maxMpsDatamsgQlen + 1) ∧ nodes.length ≤ maxMpsDatamsgQlen ∧
    ringSlice (maxMpsDatamsgQlen + 1) q.circularBuf R nodes.length = nodes.map some

theorem mpsDatamsgNextQPos_mod (r : Nat) :
    mpsDatamsgNextQPos (r % (maxMpsDatamsgQlen + 1)) = (r + 1) % (maxMpsDatamsgQlen + 1) :=
  ringNext_mod maxMpsDatamsgQlen r

theorem queueHolds_init : QueueHolds mpsDatamsgQueueInit [] :=
  ⟨0, rfl, rfl, Nat.zero_le _, rfl⟩

theorem QueueHolds.count {q : DatamsgList} {nodes : List RxNode} (h : QueueHolds q nodes) :
    mpsDatamsgGetQCount q = nodes.length := by
  obtain ⟨R, hr, hw, hle, _⟩ := h
  have hc := ringCount_mod (Nat.le_add_right R nodes.length) (by omega :
    R + nodes.length ≤ R + maxMpsDatamsgQlen)
  unfold mpsDatamsgGetQCount
  rw [hr, hw, hc]
  omega

theorem QueueHolds.full_iff {q : DatamsgList} {nodes : List RxNode} (h : QueueHolds q nodes) :
    mpsDatamsgIsQFull q = true ↔ nodes.length = maxMpsDatamsgQlen := by
  obtain ⟨R, hr, hw, hle, _⟩ := h
  unfold mpsDatamsgIsQFull
  rw [hr, hw, mpsDatamsgNextQPos_mod, beq_iff_eq]
  constructor
  · intro heq
    have hn : ¬R + nodes.length + 1 < R + (maxMpsDatamsgQlen + 1) := by
      intro hlt
      have := ringPos_inj (by omega) hlt heq.symm
      omega
    omega
  · intro heq
    rw [heq, Nat.add_assoc, Nat.add_mod_right]

theorem QueueHolds.empty_iff {q : DatamsgList} {nodes : List RxNode} (h : QueueHolds q nodes) :
    mpsDatamsgIsQEmpty q = true ↔ nodes = [] := by
  obtain ⟨R, hr, hw, hle, _⟩ := h
  unfold mpsDatamsgIsQEmpty
  rw [hr, hw, beq_iff_eq]
  constructor
  · intro heq
    have := ringPos_inj (Nat.le_add_right R nodes.length) (by omega) heq
    exact List.length_eq_zero_iff.mp (by omega)
  · intro heq
    rw [heq]
    rfl

theorem QueueHolds.enqueue {q : DatamsgList} {nodes : List RxNode} (h : QueueHolds q nodes)
    (buf : RxNode) (hroom : nodes.length < maxMpsDatamsgQlen) :
    QueueHolds ⟨Function.update q.circularBuf q.wpos (some buf), q.rpos, mpsDatamsgNextQPos q.wpos⟩
      (nodes ++ [buf]) := by
  obtain ⟨R, hr, hw, hle, hslice⟩ := h
  refine ⟨R, hr, ?_, ?_, ?_⟩
  · show mpsDatamsgNextQPos q.wpos = _
    rw [hw, mpsDatamsgNextQPos_mod, List.length_append, List.length_singleton, Nat.add_assoc]
  · rw [List.length_append, List.length_singleton]
    omega
  · show ringSlice _ (Function.update q.circularBuf q.wpos (some buf)) R _ = _
    rw [List.length_append, List.length_singleton, ringSlice_snoc, hw,
      ringSlice_update_end (by omega), hslice, Function.update_self, List.map_append,
      List.map_singleton]

theorem QueueHolds.dequeue {q : DatamsgList} {n : RxNode} {nodes : List RxNode}
    (h : QueueHolds q (n :: nodes)) :
    q.circularBuf q.rpos = some n ∧
      QueueHolds { q with rpos := mpsDatamsgNextQPos q.rpos } nodes := by
  obtain ⟨R, hr, hw, hle, hslice⟩ := h
  rw [List.length_cons, ringSlice_succ, List.map_cons, List.cons.injEq] at hslice
  rw [List.length_cons] at hle hw
  refine ⟨?_, R + 1, ?_, ?_, ?_, hslice.2⟩
  · rw [hr]
    exact hslice.1
  · show mpsDatamsgNextQPos q.rpos = _
    rw [hr, mpsDatamsgNextQPos_mod]
  · show q.wpos = _
    rw [hw, Nat.add_assoc, Nat.add_comm 1]
  · omega

/-- The nodes in the four queues. -/
def queuedIds (s : MbxState) : List Nat :=
  mbxLoops.flatMap fun l => (s.port l).queued.map RxNode.id

/-- Every node is in one queue or freed once, the counters are exact, and only the buffers of data
messages were given to `mps_dev_kfree_skb_any`. -/
structure MbxConserved (s : MbxState) : Prop where
  nodes : (queuedIds s ++ s.freed).Perm (List.range s.allocated)
  holds : ∀ l, QueueHolds (s.port l).q (s.port l).queued
  count : ∀ l, mpsDatamsgGetQCount (s.port l).q = (s.port l).queued.length
  skb : ∀ c ∈ s.skbFreed, c.kind = .data

/-- The queue has room for every message that the interrupt takes out of the mailbox. -/
def MbxRoom (s : MbxState) : MbxEvent → Prop
  | .interrupt l allocs =>
    mpsDatamsgGetQCount (s.port l).q + min allocs (s.port l).mbx.length ≤ maxMpsDatamsgQlen
  | _ => True

theorem count_queuedIds_setPort (s : MbxState) (l : MbxLoop) (p : MbxPort) (i : Nat) :
    (queuedIds (s.setPort l p)).count i + ((s.port l).queued.map RxNode.id).count i =
      (queuedIds s).count i + (p.queued.map RxNode.id).count i := by
  cases l <;>
    simp [queuedIds, mbxLoops, MbxState.setPort, Function.update_apply, List.count_append] <;> omega

/-- The bookkeeping that the steps preserve: no queue has overflowed so far. -/
structure MbxInv (s : MbxState) : Prop where
  books : ∀ i, (queuedIds s).count i + s.freed.count i = if i < s.allocated then 1 else 0
  holds : ∀ l, QueueHolds (s.port l).q (s.port l).queued
  skb : s.skbFreed = []

theorem mbxInit_inv : MbxInv mbxInit :=
  ⟨by intro i; rfl, fun _ => queueHolds_init, rfl⟩

theorem MbxInv.conserved {s : MbxState} (h : MbxInv s) : MbxConserved s := by
  refine ⟨?_, h.holds, fun l => (h.holds l).count, ?_⟩
  · apply List.perm_iff_count.mpr
    intro i
    rw [List.count_append, h.books i, List.count_range]
  · rw [h.skb]
    simp

theorem MbxState.setPort_holds {s : MbxState} (h : ∀ l, QueueHolds (s.port l).q (s.port l).queued)
    (l : MbxLoop) {p : MbxPort} (hp : QueueHolds p.q p.queued) (k : MbxLoop) :
    QueueHolds ((s.setPort l p).port k).q ((s.setPort l p).port k).queued := by
  by_cases hk : k = l
  · subst hk
    simpa [MbxState.setPort] using hp
  · simpa [MbxState.setPort, Function.update_of_ne hk] using h k

/-- A step that keeps the queued nodes of the port touches no node. -/
theorem MbxInv.setPort {s : MbxState} (h : MbxInv s) (l : MbxLoop) {p : MbxPort}
    (hq : p.queued = (s.port l).queued) (hp : QueueHolds p.q p.queued) : MbxInv (s.setPort l p) := by
  refine ⟨?_, MbxState.setPort_holds h.holds l hp, h.skb⟩
  intro i
  have hc := count_queuedIds_setPort s l p i
  have hb := h.books i
  rw [hq] at hc
  show _ + s.freed.count i = if i < s.allocated then 1 else 0
  omega

theorem MbxInv.enqueue {s : MbxState} (h : MbxInv s) (l : MbxLoop) (m : MpsDataMessage)
    (hroom : (s.port l).queued.length < maxMpsDatamsgQlen) :
    MbxInv (mpsDatamsgEnqueueTail l { s with allocated := s.allocated + 1 } ⟨s.allocated, m⟩).1 := by
  have hfull : ¬mpsDatamsgIsQFull (s.port l).q = true := by
    rw [(h.holds l).full_iff]
    omega
  unfold mpsDatamsgEnqueueTail
  dsimp only
  rw [if_neg hfull]
  refine ⟨?_, MbxState.setPort_holds h.holds l ((h.holds l).enqueue _ hroom), h.skb⟩
  intro i
  have hc := count_queuedIds_setPort { s with allocated := s.allocated + 1 } l
    { s.port l with
      q := ⟨Function.update (s.port l).q.circularBuf (s.port l).q.wpos (some ⟨s.allocated, m⟩),
        (s.port l).q.rpos, mpsDatamsgNextQPos (s.port l).q.wpos⟩
      queued := (s.port l).queued ++ [⟨s.allocated, m⟩] } i
  have hb := h.books i
  have hq : queuedIds { s with allocated := s.allocated + 1 } = queuedIds s := rfl
  rw [hq] at hc
  dsimp only at hc
  rw [List.map_append, List.count_append, List.map_singleton, List.count_singleton] at hc
  show _ + s.freed.count i = if i < s.allocated + 1 then 1 else 0
  dsimp only at hc ⊢
  by_cases hi : s.allocated = i
  · subst hi
    simp at hc hb ⊢
    omega
  · simp only [beq_iff_eq, if_neg hi] at hc
    split at hb <;> split <;> omega

theorem mpsDatamsgEnqueueTail_mbx (l : MbxLoop) (s : MbxState) (buf : RxNode) :
    ((mpsDatamsgEnqueueTail l s buf).1.port l).mbx = (s.port l).mbx := by
  unfold mpsDatamsgEnqueueTail
  dsimp only
  split
  next => rfl
  next => simp [MbxState.setPort]

theorem MbxInv.readOne {s : MbxState} (h : MbxInv s) (l : MbxLoop) (m : MpsDataMessage)
    (hroom : (s.port l).queued.length < maxMpsDatamsgQlen) : MbxInv (mbxReadOne l s m) :=
  (h.enqueue l m hroom).setPort l rfl ((h.enqueue l m hroom).holds l)

theorem mbxReadOne_queued {s : MbxState} (h : MbxInv s) (l : MbxLoop) (m : MpsDataMessage)
    (hroom : (s.port l).queued.length < maxMpsDatamsgQlen) :
    ((mbxReadOne l s m).port l).queued = (s.port l).queued ++ [⟨s.allocated, m⟩] := by
  have hfull : ¬mpsDatamsgIsQFull (s.port l).q = true := by
    rw [(h.holds l).full_iff]
    omega
  unfold mbxReadOne mpsDatamsgEnqueueTail
  dsimp only
  rw [if_neg hfull]
  simp [MbxState.setPort]

theorem mbxReadOne_mbx (l : MbxLoop) (s : MbxState) (m : MpsDataMessage) :
    ((mbxReadOne l s m).port l).mbx = (s.port l).mbx.tail := by
  unfold mbxReadOne
  simp [MbxState.setPort, mpsDatamsgEnqueueTail_mbx]

/-- The read loop by induction on the successful allocations. -/
theorem MbxInv.read {s : MbxState} (h : MbxInv s) (l : MbxLoop) (allocs : Nat)
    (hroom : (s.port l).queued.length + min allocs (s.port l).mbx.length ≤ maxMpsDatamsgQlen) :
    MbxInv (mbxRead l allocs s).1 := by
  induction allocs generalizing s with
  | zero => exact h
  | succ allocs ih =>
    unfold mbxRead
    split
    next => exact h
    next m rest hm =>
      rw [hm, List.length_cons] at hroom
      have hlt : (s.port l).queued.length < maxMpsDatamsgQlen := by omega
      apply ih (h.readOne l m hlt)
      rw [mbxReadOne_queued h l m hlt, mbxReadOne_mbx, hm, List.tail_cons, List.length_append,
        List.length_singleton]
      omega

/-- Dequeueing the oldest node and freeing it moves its number from the queue to `freed`. -/
theorem MbxInv.release {s : MbxState} (h : MbxInv s) (l : MbxLoop) {n : RxNode} {nodes : List RxNode}
    (hq : (s.port l).queued = n :: nodes) (called : List RxNode) :
    MbxInv { s.setPort l
        { s.port l with
          q := { (s.port l).q with rpos := mpsDatamsgNextQPos (s.port l).q.rpos }
          queued := nodes } with
      freed := s.freed ++ [n.id]
      called := called } := by
  have hl := h.holds l
  rw [hq] at hl
  refine ⟨?_, MbxState.setPort_holds h.holds l hl.dequeue.2, h.skb⟩
  intro i
  have hc := count_queuedIds_setPort s l
    { s.port l with
      q := { (s.port l).q with rpos := mpsDatamsgNextQPos (s.port l).q.rpos }
      queued := nodes } i
  have hb := h.books i
  rw [hq, List.map_cons, List.count_cons] at hc
  show (queuedIds (s.setPort l _)).count i + (s.freed ++ [n.id]).count i =
    if i < s.allocated then 1 else 0
  rw [List.count_append, List.count_singleton, ← hb]
  dsimp only at hc ⊢
  omega

theorem MbxInv.handle {s : MbxState} (h : MbxInv s) (callback : BitVec 8 → Bool) (l : MbxLoop) :
    MbxInv (mbxHandleOne callback l s) := by
  have hl := h.holds l
  unfold mbxHandleOne mpsDatamsgDequeueHead
  cases hq : (s.port l).queued with
  | nil =>
    simp only [hl.empty_iff.mpr hq, if_true]
    exact h.setPort l rfl hl
  | cons n nodes =>
    have he : ¬mpsDatamsgIsQEmpty (s.port l).q = true := by
      rw [hl.empty_iff, hq]
      simp
    rw [hq] at hl
    simp only [if_neg he, hl.dequeue.1, hq, List.tail_cons]
    exact h.release l hq _

theorem mbxReadMsg_eq (l : MbxLoop) : mbxReadMsg l = mbxRead l := by
  cases l <;> rfl

theorem mbxStep_inv {callback : BitVec 8 → Bool} {s t : MbxState} {e : MbxEvent} (h : MbxInv s)
    (hroom : MbxRoom s e) (hs : mbxStep callback s e = some t) : MbxInv t := by
  cases e with
  | arrive l m =>
    cases Option.some.inj hs
    exact h.setPort l rfl (h.holds l)
  | interrupt l allocs =>
    cases Option.some.inj hs
    rw [mbxReadMsg_eq]
    apply h.read l allocs
    rw [← (h.holds l).count]
    exact hroom
  | handle l =>
    cases Option.some.inj hs
    exact h.handle callback l

/-- While no interrupt overfills a queue, every node is queued or freed exactly once. -/
theorem dataMsg_conserved (callback : BitVec 8 → Bool) (es : List MbxEvent) (s : MbxState)
    (hroom : RunMeets (mbxStep callback) MbxRoom mbxInit es)
    (h : run (mbxStep callback) mbxInit es = some s) : MbxConserved s :=
  MbxInv.conserved (run_invariant_of_meets mbxStep_inv mbxInit_inv hroom h)

/-- A data message and a command message are queued; the command message is handled. -/
theorem dataMsg_conserved_small :
    ∃ s, run (mbxStep fun _ => true) mbxInit [.arrive .usd ⟨1, 0x8000⟩, .arrive .usc ⟨7, 3⟩,
        .interrupt .usd 1, .interrupt .usc 1, .handle .usc] = some s ∧
      s.freed = [1] ∧ (s.port .usd).queued = [⟨0, 1, 0x8000⟩] ∧ MbxConserved s := by
  refine ⟨_, rfl, by decide, by decide, ?_⟩
  refine dataMsg_conserved (fun _ => true) [.arrive .usd ⟨1, 0x8000⟩, .arrive .usc ⟨7, 3⟩,
    .interrupt .usd 1, .interrupt .usc 1, .handle .usc] _ ?_ rfl
  simp only [RunMeets, mbxStep, Option.some.injEq, forall_eq', MbxRoom, and_true, true_and]
  decide

/-- A message taken out of the mailbox while its queue is full: the first word of its content is
freed as a buffer, whatever the kind, and the node is in no queue and not freed. -/
theorem MbxInv.overflow {s : MbxState} (h : MbxInv s) (l : MbxLoop) {m : MpsDataMessage}
    {r : List MpsDataMessage} (hm : (s.port l).mbx = m :: r)
    (hfull : (s.port l).queued.length = maxMpsDatamsgQlen) :
    (mbxRead l 1 s).1.skbFreed = [⟨l.kind, m.msgBufAddr, m.msgSeqno⟩] ∧
      ¬MbxConserved (mbxRead l 1 s).1 := by
  have hf := (h.holds l).full_iff.mpr hfull
  have heq : (mbxRead l 1 s).1 =
      { s.setPort l { s.port l with mbx := (s.port l).mbx.tail } with
        allocated := s.allocated + 1
        skbFreed := s.skbFreed ++ [⟨l.kind, m.msgBufAddr, m.msgSeqno⟩] } := by
    simp only [mbxRead, hm, mbxReadOne, mpsDatamsgEnqueueTail, hf, if_true]
    simp only [MbxState.setPort]
  have hinv := h.setPort l (p := { s.port l with mbx := (s.port l).mbx.tail }) rfl (h.holds l)
  have hb : _ + s.freed.count s.allocated = if s.allocated < s.allocated then 1 else 0 :=
    hinv.books s.allocated
  rw [heq, h.skb]
  refine ⟨rfl, ?_⟩
  intro hcons
  have hc := List.perm_iff_count.mp hcons.nodes s.allocated
  rw [List.count_append, List.count_range] at hc
  have hc : (queuedIds (s.setPort l { s.port l with mbx := (s.port l).mbx.tail })).count s.allocated +
      s.freed.count s.allocated = if s.allocated < s.allocated + 1 then 1 else 0 := hc
  simp at hb hc
  omega

/-- One message at a time, without a pass of the reader, fills the queue. -/
theorem MbxInv.fill {s : MbxState} (h : MbxInv s) (callback : BitVec 8 → Bool) (l : MbxLoop)
    (m : MpsDataMessage) (n : Nat) (hmbx : (s.port l).mbx = [])
    (hroom : (s.port l).queued.length + n ≤ maxMpsDatamsgQlen) :
    ∃ t, run (mbxStep callback) s (List.replicate n [.arrive l m, .interrupt l 1]).flatten = some t ∧
      MbxInv t ∧ (t.port l).mbx = [] ∧
      (t.port l).queued.length = (s.port l).queued.length + n := by
  induction n generalizing s with
  | zero => exact ⟨s, rfl, h, hmbx, rfl⟩
  | succ n ih =>
    have hlt : (s.port l).queued.length < maxMpsDatamsgQlen := by omega
    obtain ⟨u, hu⟩ : ∃ u, u = s.setPort l { s.port l with mbx := (s.port l).mbx ++ [m] } := ⟨_, rfl⟩
    have hport : u.port l = { s.port l with mbx := [m] } := by
      rw [hu]
      simp [MbxState.setPort, hmbx]
    have hinv : MbxInv u := by
      rw [hu]
      exact h.setPort l rfl (h.holds l)
    have hroom' : (u.port l).queued.length < maxMpsDatamsgQlen := by
      rw [hport]
      exact hlt
    have hread : (mbxReadMsg l 1 u).1 = mbxReadOne l u m := by
      rw [mbxReadMsg_eq]
      simp [mbxRead, hport]
    have hlen : ((mbxReadOne l u m).port l).queued.length = (s.port l).queued.length + 1 := by
      rw [mbxReadOne_queued hinv l m hroom', hport, List.length_append, List.length_singleton]
    obtain ⟨t, ht, hti, htm, htq⟩ := ih (hinv.readOne l m hroom')
      (by rw [mbxReadOne_mbx, hport]; rfl) (by omega)
    refine ⟨t, ?_, hti, htm, by omega⟩
    rw [List.replicate_succ, List.flatten_cons, run_append]
    have hpair : run (mbxStep callback) s [.arrive l m, .interrupt l 1] =
        some (mbxReadOne l u m) := by
      rw [← hread, hu]
      rfl
    rw [hpair, Option.bind_some, ht]

/-- The 1025th command message in a row: its parameter word is freed as a buffer and its node is
lost. -/
theorem dataMsg_full_queue_frees_command :
    ∃ s, run (mbxStep fun _ => true) mbxInit
        ((List.replicate 1024 [.arrive .dsc ⟨7, 3⟩, .interrupt .dsc 1]).flatten ++
          [.arrive .dsc ⟨7, 3⟩, .interrupt .dsc 1]) = some s ∧
      s.skbFreed = [⟨.command, 3, 7⟩] ∧ ¬MbxConserved s := by
  obtain ⟨t, ht, hinv, hmbx, hlen⟩ :=
    mbxInit_inv.fill (fun _ => true) .dsc ⟨7, 3⟩ 1024 rfl (Nat.le_refl _)
  have hover := (hinv.setPort .dsc (p := { t.port .dsc with mbx := [⟨7, 3⟩] }) rfl
    (hinv.holds .dsc)).overflow .dsc (m := ⟨7, 3⟩) (r := []) (by simp [MbxState.setPort])
    (by simpa [MbxState.setPort, mbxInit, maxMpsDatamsgQlen] using hlen)
  refine ⟨_, ?_, hover⟩
  rw [run_append, ht, Option.bind_some]
  simp [run, mbxStep, hmbx, mbxReadMsg_eq]

end DanubeBsp
