import DanubeBsp.DmaTasklet
import DanubeBsp.Runs

namespace DanubeBsp

def dmaChDefaultWeight : Int := 100

/-- The tables as `dma_chip_init` leaves them: every channel gets the same weight. -/
def dmaCoreConfig (ethernetD2 : Bool) : DmaConfig := ⟨ethernetD2, fun _ => dmaChDefaultWeight⟩

/-- The weights of the channels, which start at the default and are only lowered and refilled. -/
structure ChanWeights where
  weight : DmaChanNo → Int
  le : ∀ c, weight c ≤ dmaChDefaultWeight

/-- A receive ring whose `curr_desc` is one of its descriptors. -/
structure RxRing where
  ch : RxChan
  inRing : ch.currDesc < ch.descLen

def RxRing.size (r : RxRing) : Nat := r.ch.descLen

/-- The descriptor `j` places after `curr_desc`. -/
def RxRing.ahead (r : RxRing) (j : Nat) : DmaDesc :=
  r.ch.desc ((r.ch.currDesc + j) % r.ch.descLen)

def RxRing.head (r : RxRing) : DmaDesc := r.ch.desc r.ch.currDesc

theorem rxAdvance_inRing {ch : RxChan} (h : ch.currDesc < ch.descLen) :
    (rxAdvance ch).currDesc < (rxAdvance ch).descLen := by
  simp only [rxAdvance]
  split
  next => omega
  next hne => omega

theorem dmaDeviceRead_inRing {ch : RxChan} (h : ch.currDesc < ch.descLen)
    (alloc : Option RxBuffer) :
    (dmaDeviceRead ch alloc).2.currDesc < (dmaDeviceRead ch alloc).2.descLen := by
  unfold dmaDeviceRead
  split
  next =>
    cases alloc with
    | none => exact rxAdvance_inRing h
    | some b => exact rxAdvance_inRing h
  next => exact h

def RxRing.read (r : RxRing) (alloc : Option RxBuffer) : RxRing :=
  ⟨(dmaDeviceRead r.ch alloc).2, dmaDeviceRead_inRing r.inRing alloc⟩

/-- The devices' `intr_handler`s. On `RCV_INT` a handler reads one packet; the result of the
`n`-th `buffer_alloc` of a channel is given. On `TRANSMIT_CPT_INT` it calls `disable_ch_irq` for
some transmit channels. A device may have no handler. -/
structure UpperLayer where
  hasHandler : DmaChanNo → Bool
  bufferAlloc : DmaChanNo → Nat → Option RxBuffer
  transmitCpt : DmaChanNo → List DmaChanNo
  transmits : ∀ c d, d ∈ transmitCpt c → chanMapDir d = .tx

/-- The tasklet with the receive rings; `reads` counts the packets read from each. -/
structure RingSys where
  sys : IntSys
  ring : DmaChanNo → RxRing
  reads : DmaChanNo → Nat

def RingSys.loaded (s : RingSys) : IntSys := { s.sys with desc := fun c => (s.ring c).head }

def readRing (up : UpperLayer) (s : RingSys) (c : DmaChanNo) : RingSys :=
  { s with
    ring := Function.update s.ring c ((s.ring c).read (up.bufferAlloc c (s.reads c)))
    reads := Function.update s.reads c (s.reads c + 1) }

/-- What the handler does when the tasklet calls it in the given phase. -/
def intrHandler (up : UpperLayer) (s : RingSys) : TaskletPhase → RingSys
  | .rxReport _ c => if up.hasHandler c then readRing up s c else s
  | .txReport _ c =>
    if up.hasHandler c then { s with sys := (up.transmitCpt c).foldl disableChIrq s.sys } else s
  | _ => s

/-- A step of the tasklet while no interrupt comes and the hardware completes no packet. -/
def ringStep (cfg : DmaConfig) (up : UpperLayer) (s : RingSys) : Option RingSys :=
  (taskletStep cfg s.loaded).map fun t => intrHandler up { s with sys := t } s.sys.phase

/-- The tasklet at the head of its loop. -/
def loopHead (budget : Int) (intStatus : Word) (weight : DmaChanNo → Int)
    (ring : DmaChanNo → RxRing) : RingSys :=
  { sys :=
      { intStatus, inProcess := true, scheduled := false, phase := .test budget
        desc := fun c => (ring c).head, weight
        fresh := fun _ => false, disabled := fun _ => false }
    ring
    reads := fun _ => 0 }

def TaskletPhase.atTest : TaskletPhase → Bool
  | .test _ => true
  | _ => false

/-- Run up to the next loop head, or for the given number of steps. -/
def untilTest (cfg : DmaConfig) (up : UpperLayer) : Nat → RingSys → Option RingSys
  | 0, _ => none
  | n + 1, s =>
    if s.sys.phase.atTest then some s else (ringStep cfg up s).bind (untilTest cfg up n)

/-- One pass through the loop body, from one loop head to the next. -/
def loopIteration (cfg : DmaConfig) (up : UpperLayer) (s : RingSys) : Option RingSys :=
  (ringStep cfg up s).bind (untilTest cfg up 25)

/-- A descriptor is consumed, a weight is lowered or a status bit is cleared. -/
def MadeProgress (s t : RingSys) : Prop :=
  ∃ c, s.reads c < t.reads c ∨ t.sys.weight c < s.sys.weight c ∨
    (s.sys.pending c = true ∧ t.sys.pending c = false)

def IterationProgresses (cfg : DmaConfig) (up : UpperLayer) (s : RingSys) : Prop :=
  ∃ t, loopIteration cfg up s = some t ∧ MadeProgress s t

/-- The tasklet is neither running nor scheduled, and every interrupt is served. -/
structure TaskletIdle (s : RingSys) : Prop where
  phase : s.sys.phase = .idle
  waiting : s.sys.scheduled = false
  quiet : s.sys.inProcess = false
  served : s.sys.intStatus = 0

/-- The tasklet, rescheduled as often as it asks for, comes to rest. -/
def ReachesIdle (cfg : DmaConfig) (up : UpperLayer) (s : RingSys) : Prop :=
  ∃ t, Halts (ringStep cfg up) s t ∧ TaskletIdle t

/-- The first of the pending channels with the largest weight, which has to be positive. -/
structure WfqSelected (status : Word) (weight : DmaChanNo → Int) (c : DmaChanNo) : Prop where
  pending : status.getLsbD c.val = true
  positive : 0 < weight c
  largest : ∀ d : DmaChanNo, status.getLsbD d.val = true → weight d ≤ weight c
  first : ∀ d : DmaChanNo, d < c → status.getLsbD d.val = true → weight d < weight c

/-- A descriptor that is not the hardware's and that the handler does not pass on. -/
def Rejected (cfg : DmaConfig) (d : DmaDesc) : Prop :=
  d.dmaOwn = false ∧ rxDeliverable cfg d = false

/-- The reads of a channel come to a descriptor of the hardware: the packets before it can be
passed on, or the whole ring can and at least one descriptor of it gets a new buffer. -/
def RingDrains (cfg : DmaConfig) (alloc : Nat → Option RxBuffer) (r : RxRing) : Prop :=
  (∃ k, k < r.size ∧ (∀ j, j < k → rxDeliverable cfg (r.ahead j) = true) ∧
    (r.ahead k).dmaOwn = true) ∨
  ((∀ j, j < r.size → rxDeliverable cfg (r.ahead j) = true) ∧ ∃ n, (alloc n).isSome = true)

/-- What the tasklet needs of a pending channel to get rid of it. -/
def ChannelDrains (cfg : DmaConfig) (up : UpperLayer) (ring : DmaChanNo → RxRing)
    (c : DmaChanNo) : Prop :=
  chanMapDir c = .tx ∨ (ring c).head.dmaOwn = true ∨
    (up.hasHandler c = true ∧ RingDrains cfg (up.bufferAlloc c) (ring c))

end DanubeBsp
