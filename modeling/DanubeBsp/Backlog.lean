import DanubeBsp.LinkedList
import DanubeBsp.Runs

namespace DanubeBsp

/-- Where a context stands in `ifx_mps_data_send`, in a timer flush or in what these call. From
`addTail` to `count` it is in `ifx_mps_data_enqueue`, from `locked` to `unlock` it holds
`bklog_q_lock`; `load` and `iter` are the two parts of `list_for_each_safe`, and from `del` to
`uncount` the element `curr` has been written and leaves the list. -/
inductive SendPc
  | idle
  | started
  | direct
  | enqueue
  | addTail
  | addNextPrev (prev : ListPtr Nat)
  | addNewNext (prev : ListPtr Nat)
  | addNewPrev (prev : ListPtr Nat)
  | addPrevNext (prev : ListPtr Nat)
  | count
  | flushStarted
  | tryLock
  | backOff
  | locked
  | load (pos : ListPtr Nat)
  | iter (curr next : ListPtr Nat)
  | del (curr : Nat) (next : ListPtr Nat)
  | delEntry (curr : Nat) (entryNext next : ListPtr Nat)
  | delNextPrev (curr : Nat) (entryPrev entryNext next : ListPtr Nat)
  | delPrevNext (curr : Nat) (entryPrev entryNext next : ListPtr Nat)
  | poisonNext (curr : Nat) (next : ListPtr Nat)
  | poisonPrev (curr : Nat) (next : ListPtr Nat)
  | uncount (next : ListPtr Nat)
  | unlock
  | returned (ok : Bool)
  deriving DecidableEq

/-- The link through which the next step reads or stores. -/
def SendPc.target : SendPc → ListPtr Nat
  | .addPrevNext prev => prev
  | .load pos => pos
  | .iter curr _ => curr
  | .delNextPrev _ _ entryNext _ => entryNext
  | .delPrevNext _ entryPrev _ _ => entryPrev
  | _ => .head

/-- A call of `ifx_mps_data_send` is named by its number, and so is the list element with its three
arguments. `written` is the order in which `ifx_mps_data_send2` put packets into the FIFO; `before`
is history: the calls that had returned `OK` when a call started. -/
structure BklogState where
  written : List Nat
  links : Links Nat
  bklogPkts : Int
  bklogQLock : Int
  calls : Nat
  isSend : Nat → Bool
  pc : Nat → SendPc
  before : Nat → List Nat

def bklogInit : BklogState :=
  ⟨[], ⟨fun _ => .head, fun _ => .head⟩, 0, 1, 0, fun _ => false, fun _ => .idle, fun _ => []⟩

def BklogState.goto (s : BklogState) (k : Nat) (p : SendPc) : BklogState :=
  { s with pc := Function.update s.pc k p }

def BklogState.setNext (s : BklogState) (p v : ListPtr Nat) : BklogState :=
  { s with links := { s.links with next := Function.update s.links.next p v } }

def BklogState.setPrev (s : BklogState) (p v : ListPtr Nat) : BklogState :=
  { s with links := { s.links with prev := Function.update s.links.prev p v } }

@[simp] theorem BklogState.goto_links (s : BklogState) (k : Nat) (p : SendPc) :
    (s.goto k p).links = s.links := rfl

@[simp] theorem BklogState.setNext_next (s : BklogState) (p v : ListPtr Nat) :
    (s.setNext p v).links.next = Function.update s.links.next p v := rfl

@[simp] theorem BklogState.setNext_prev (s : BklogState) (p v : ListPtr Nat) :
    (s.setNext p v).links.prev = s.links.prev := rfl

@[simp] theorem BklogState.setPrev_next (s : BklogState) (p v : ListPtr Nat) :
    (s.setPrev p v).links.next = s.links.next := rfl

@[simp] theorem BklogState.setPrev_prev (s : BklogState) (p v : ListPtr Nat) :
    (s.setPrev p v).links.prev = Function.update s.links.prev p v := rfl

/-- The elements that a walk along the `next` links meets. -/
def BklogState.backlog (s : BklogState) : List Nat :=
  follow s.links.next s.calls (s.links.next .head)

def returnedOk (s : BklogState) : List Nat :=
  (List.range s.calls).filter fun k => s.isSend k && s.pc k == .returned true

def startCall (s : BklogState) (send : Bool) : BklogState :=
  { s with
    calls := s.calls + 1
    isSend := Function.update s.isSend s.calls send
    pc := Function.update s.pc s.calls (if send then .started else .flushStarted)
    before := Function.update s.before s.calls (returnedOk s) }

/-- The next step of a context: one load, store or update of a counter. `ok` is the result of the
`ifx_mps_data_send2` or the `kmalloc` that it makes; a context that would go through `NULL` stops. -/
def advance (s : BklogState) (k : Nat) (ok : Bool) : Option BklogState :=
  if (s.pc k).target = .null then none
  else
    match s.pc k with
    | .idle => none
    | .started => some (s.goto k (if s.links.next .head = .head then .direct else .enqueue))
    | .direct =>
      if ok then some { s.goto k (.returned true) with written := s.written ++ [k] }
      else some (s.goto k .enqueue)
    | .enqueue =>
      -- INIT_LIST_HEAD of the new element
      if ok then some (((s.setNext (.elem k) (.elem k)).setPrev (.elem k) (.elem k)).goto k .addTail)
      else some (s.goto k (.returned false))
    | .addTail => some (s.goto k (.addNextPrev (s.links.prev .head)))
    | .addNextPrev prev => some ((s.setPrev .head (.elem k)).goto k (.addNewNext prev))
    | .addNewNext prev => some ((s.setNext (.elem k) .head).goto k (.addNewPrev prev))
    | .addNewPrev prev => some ((s.setPrev (.elem k) prev).goto k (.addPrevNext prev))
    | .addPrevNext prev => some ((s.setNext prev (.elem k)).goto k .count)
    | .count => some { s.goto k .tryLock with bklogPkts := s.bklogPkts + 1 }
    | .flushStarted => some (s.goto k (if s.bklogPkts ≠ 0 then .tryLock else .returned true))
    | .tryLock =>
      some { s.goto k (if s.bklogQLock - 1 = 0 then .locked else .backOff) with
        bklogQLock := s.bklogQLock - 1 }
    | .backOff => some { s.goto k (.returned false) with bklogQLock := s.bklogQLock + 1 }
    | .locked => some (s.goto k (.load (s.links.next .head)))
    | .load pos => some (s.goto k (.iter pos (s.links.next pos)))
    | .iter (.elem c) next =>
      if ok then some { s.goto k (.del c next) with written := s.written ++ [c] }
      else some (s.goto k .unlock)
    | .iter _ _ => some (s.goto k .unlock)
    | .del c next => some (s.goto k (.delEntry c (s.links.next (.elem c)) next))
    | .delEntry c entryNext next =>
      some (s.goto k (.delNextPrev c (s.links.prev (.elem c)) entryNext next))
    | .delNextPrev c entryPrev entryNext next =>
      some ((s.setPrev entryNext entryPrev).goto k (.delPrevNext c entryPrev entryNext next))
    | .delPrevNext c entryPrev entryNext next =>
      some ((s.setNext entryPrev entryNext).goto k (.poisonNext c next))
    | .poisonNext c next => some ((s.setNext (.elem c) .null).goto k (.poisonPrev c next))
    -- and kfree, which no other context can notice
    | .poisonPrev c next => some ((s.setPrev (.elem c) .null).goto k (.uncount next))
    | .uncount next => some { s.goto k (.load next) with bklogPkts := s.bklogPkts - 1 }
    | .unlock => some { s.goto k (.returned true) with bklogQLock := s.bklogQLock + 1 }
    | .returned _ => none

/-- A call of `ifx_mps_data_send` starts, a flush starts, a context makes a step. -/
inductive BklogEvent
  | send
  | flush
  | advance (k : Nat) (ok : Bool)

def bklogStep (s : BklogState) : BklogEvent → Option BklogState
  | .send => some (startCall s true)
  | .flush => some (startCall s false)
  | .advance k ok => advance s k ok

end DanubeBsp
