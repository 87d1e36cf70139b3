import DanubeBsp.Runs
import DanubeBsp.RingSlice

namespace DanubeBsp

/-- A ring slot: null, the poison `0xEEEEEEEE`, or the buffer of one allocation. -/
inductive QItem
  | null
  | invalid
  | buf (id : Nat)
  deriving DecidableEq, Repr

/-- `MPS_BUFF_HEAD`: a ring of `maxcount + 1` slots. -/
structure BuffHead where
  circularBuf : Nat → QItem
  maxcount : Nat
  rpos : Nat
  wpos : Nat

def mpsNextQPos (pos max : Nat) : Nat := if pos < max then pos + 1 else 0

def mpsIsQFull (q : BuffHead) : Bool := mpsNextQPos q.wpos q.maxcount == q.rpos

def mpsIsQEmpty (q : BuffHead) : Bool := q.rpos == q.wpos

/-- The arithmetic of `MPS_GET_Q_COUNT` on the two snapshots. -/
def mpsGetQCount (rpos wpos maxcount : Nat) : Nat :=
  if rpos ≤ wpos then wpos - rpos else wpos + 1 + maxcount - rpos

/-- The fill loop of `mps_queue_init`; an error carries the number of buffers freed again. -/
def mpsQueueFill (first : Nat) (allocFn : Nat → Bool) (mem : Nat → QItem) :
    Nat → Except Nat (Nat → QItem)
  | 0 => .ok mem
  | n + 1 => do
    let buf ← mpsQueueFill first allocFn mem n
    if allocFn n then .ok (Function.update buf n (.buf (first + n))) else .error n

/-- `mps_queue_init`: a nonzero size fills the ring with buffers numbered from `first` on. -/
def mpsQueueInit (size numEntries first : Nat) (allocFn : Nat → Bool) (mem : Nat → QItem) :
    Except Nat BuffHead :=
  if size ≠ 0 then do
    let buf ← mpsQueueFill first allocFn mem numEntries
    .ok { circularBuf := buf, maxcount := numEntries, rpos := 0, wpos := numEntries }
  else
    .ok { circularBuf := fun i => if i ≤ numEntries then .null else mem i
          maxcount := numEntries, rpos := 0, wpos := 0 }

/-- Where CPU0 stands in `ifx_cpu0_topup_q_lists` or `ifx_cpu0_release_q_lists`; the arguments are
its local variables. -/
inductive Cpu0Pc
  | idle
  | topupStart
  | topupRpos
  | topupWpos (rpos : Nat)
  | topupLoop (count wpos : Nat)
  | topupStore (count wpos : Nat) (mpsBuf : QItem)
  | topupPublish (count wpos : Nat) (mpsBuf : QItem)
  | releaseWpos
  | releaseRpos (wpos : Nat)
  | releaseLoop (wpos rpos : Nat)
  | unlock
  deriving DecidableEq

/-- Where CPU1 stands in `mps_dequeue_head` or `mps_queue_tail`. -/
inductive Cpu1Pc
  | idle
  | dequeueGet
  | dequeuePublish
  | tailStore (buf : QItem)
  | tailPublish (buf : QItem)
  deriving DecidableEq

/-- Both rings and both processors; `retreating` counts the CPU0 contexts that failed the
book-keeping try-lock and have not undone their decrement yet. The lists log the buffers. -/
structure PoolState where
  allocQ : BuffHead
  freeQ : BuffHead
  cpu0 : Cpu0Pc
  cpu1 : Cpu1Pc
  allocHitCount : Nat
  freeHitCount : Nat
  mpsListBookKeepX : Int
  retreating : Nat
  allocated : Nat
  returned : List QItem
  hands : List QItem
  released : List QItem

def mpsBookKeepingThresh : Nat := 5

inductive PoolEvent
  | topupEnter
  | releaseEnter
  | retreat
  | cpu0 (allocOk : Bool)
  | fastAlloc
  | fastFree (buf : QItem)
  | cpu1

/-- `atomic_dec_and_test` on the book-keeping counter; a failed attempt will undo it later. -/
def bookKeepEnter (s : PoolState) (pc : Cpu0Pc) : PoolState :=
  let x := s.mpsListBookKeepX - 1
  if x = 0 then { s with mpsListBookKeepX := x, cpu0 := pc }
  else { s with mpsListBookKeepX := x, retreating := s.retreating + 1 }

def topupEnter (s : PoolState) : PoolState :=
  let hits := s.allocHitCount + 1
  if hits > mpsBookKeepingThresh then bookKeepEnter { s with allocHitCount := 0 } .topupStart
  else { s with allocHitCount := hits }

def releaseEnter (s : PoolState) : PoolState :=
  let hits := s.freeHitCount + 1
  if hits > mpsBookKeepingThresh then bookKeepEnter { s with freeHitCount := 0 } .releaseWpos
  else { s with freeHitCount := hits }

/-- One access of CPU0 to a ring, or one call of the allocator or of the free function. -/
def cpu0Step (s : PoolState) (allocOk : Bool) : Option PoolState :=
  match s.cpu0 with
  | .idle => none
  | .topupStart =>
    if s.allocQ.maxcount = 0 then some { s with cpu0 := .unlock }
    else some { s with cpu0 := .topupRpos }
  | .topupRpos => some { s with cpu0 := .topupWpos s.allocQ.rpos }
  | .topupWpos rpos =>
    let wpos := s.allocQ.wpos
    some { s with cpu0 := .topupLoop (mpsGetQCount rpos wpos s.allocQ.maxcount) wpos }
  | .topupLoop count wpos =>
    if count < s.allocQ.maxcount then
      if allocOk then
        some { s with
          allocated := s.allocated + 1
          cpu0 := .topupStore (count + 1) wpos (.buf s.allocated) }
      else some { s with allocQ := { s.allocQ with wpos := wpos }, cpu0 := .unlock }
    else some { s with cpu0 := .unlock }
  | .topupStore count wpos mpsBuf =>
    some { s with
      allocQ := { s.allocQ with
        circularBuf := Function.update s.allocQ.circularBuf s.allocQ.wpos mpsBuf }
      cpu0 := .topupPublish count wpos mpsBuf }
  | .topupPublish count wpos _ =>
    let wpos := mpsNextQPos wpos s.allocQ.maxcount
    some { s with allocQ := { s.allocQ with wpos := wpos }, cpu0 := .topupLoop count wpos }
  | .releaseWpos => some { s with cpu0 := .releaseRpos s.freeQ.wpos }
  | .releaseRpos wpos => some { s with cpu0 := .releaseLoop wpos s.freeQ.rpos }
  | .releaseLoop wpos rpos =>
    if rpos ≠ wpos then
      some { s with
        released := s.released ++ [s.freeQ.circularBuf rpos]
        cpu0 := .releaseLoop wpos (mpsNextQPos rpos s.freeQ.maxcount) }
    else some { s with freeQ := { s.freeQ with rpos := rpos }, cpu0 := .unlock }
  | .unlock => some { s with mpsListBookKeepX := s.mpsListBookKeepX + 1, cpu0 := .idle }

/-- One access of CPU1 to a ring. -/
def cpu1Step (s : PoolState) : Option PoolState :=
  match s.cpu1 with
  | .idle => none
  | .dequeueGet =>
    let item := s.allocQ.circularBuf s.allocQ.rpos
    some { s with
      allocQ := { s.allocQ with
        circularBuf := Function.update s.allocQ.circularBuf s.allocQ.rpos .invalid }
      returned := s.returned ++ [item]
      hands := s.hands ++ [item]
      cpu1 := .dequeuePublish }
  | .dequeuePublish =>
    some { s with
      allocQ := { s.allocQ with rpos := mpsNextQPos s.allocQ.rpos s.allocQ.maxcount }
      cpu1 := .idle }
  | .tailStore buf =>
    some { s with
      freeQ := { s.freeQ with
        circularBuf := Function.update s.freeQ.circularBuf s.freeQ.wpos buf }
      hands := s.hands.erase buf
      cpu1 := .tailPublish buf }
  | .tailPublish _ =>
    some { s with
      freeQ := { s.freeQ with wpos := mpsNextQPos s.freeQ.wpos s.freeQ.maxcount }
      cpu1 := .idle }

def poolStep (s : PoolState) : PoolEvent → Option PoolState
  | .topupEnter => some (topupEnter s)
  | .releaseEnter => some (releaseEnter s)
  | .retreat =>
    if s.retreating = 0 then none
    else some { s with
      mpsListBookKeepX := s.mpsListBookKeepX + 1
      retreating := s.retreating - 1 }
  | .cpu0 allocOk => cpu0Step s allocOk
  | .fastAlloc =>
    if s.cpu1 = .idle then
      some (if mpsIsQEmpty s.allocQ then s else { s with cpu1 := .dequeueGet })
    else none
  | .fastFree buf =>
    if s.cpu1 = .idle ∧ buf ∈ s.hands then
      some (if mpsIsQFull s.freeQ then s else { s with cpu1 := .tailStore buf })
    else none
  | .cpu1 => cpu1Step s

structure PoolSetup where
  allocSize : Nat
  allocEntries : Nat
  allocMem : Nat → QItem
  allocOk : Nat → Bool
  freeSize : Nat
  freeEntries : Nat
  freeMem : Nat → QItem
  freeOk : Nat → Bool

/-- The buffers that `mps_queue_init` takes from the allocator. -/
def setupCount (size numEntries : Nat) : Nat := if size ≠ 0 then numEntries else 0

/-- Both rings set up, both processors idle and the book-keeping lock open. -/
def poolStart (allocQ freeQ : BuffHead) (allocated : Nat) : PoolState :=
  { allocQ, freeQ, cpu0 := .idle, cpu1 := .idle, allocHitCount := 0, freeHitCount := 0,
    mpsListBookKeepX := 1, retreating := 0, allocated, returned := [], hands := [], released := [] }

def poolInit (p : PoolSetup) : Except Nat PoolState := do
  let first := setupCount p.allocSize p.allocEntries
  let allocQ ← mpsQueueInit p.allocSize p.allocEntries 0 p.allocOk p.allocMem
  let freeQ ← mpsQueueInit p.freeSize p.freeEntries first p.freeOk p.freeMem
  .ok (poolStart allocQ freeQ (first + setupCount p.freeSize p.freeEntries))

/-- The first slot of the alloc queue that CPU1 has not taken. -/
def allocCursor (s : PoolState) : Nat :=
  match s.cpu1 with
  | .dequeuePublish => mpsNextQPos s.allocQ.rpos s.allocQ.maxcount
  | _ => s.allocQ.rpos

/-- The buffer that CPU0 has allocated and not published yet. -/
def allocPending (s : PoolState) : List QItem :=
  match s.cpu0 with
  | .topupStore _ _ mpsBuf => [mpsBuf]
  | .topupPublish _ _ mpsBuf => [mpsBuf]
  | _ => []

/-- The buffers in the alloc queue, with the one that the top-up is storing. -/
def allocPlace (s : PoolState) : List QItem :=
  ringSlice (s.allocQ.maxcount + 1) s.allocQ.circularBuf (allocCursor s)
    (ringDist (s.allocQ.maxcount + 1) (allocCursor s) s.allocQ.wpos) ++ allocPending s

/-- The first slot of the free queue that CPU0 has not released. -/
def freeCursor (s : PoolState) : Nat :=
  match s.cpu0 with
  | .releaseLoop _ rpos => rpos
  | _ => s.freeQ.rpos

/-- The buffer that CPU1 has stored and not published yet. -/
def freePending (s : PoolState) : List QItem :=
  match s.cpu1 with
  | .tailPublish buf => [buf]
  | _ => []

/-- The buffers in the free queue, with the one that CPU1 is publishing. -/
def freePlace (s : PoolState) : List QItem :=
  ringSlice (s.freeQ.maxcount + 1) s.freeQ.circularBuf (freeCursor s)
    (ringDist (s.freeQ.maxcount + 1) (freeCursor s) s.freeQ.wpos) ++ freePending s

end DanubeBsp
