import Mathlib.Logic.Function.Basic
import DanubeBsp.WordMemory
import DanubeBsp.Runs

namespace DanubeBsp

/-- The counters of `danube_mei_mib`. -/
inductive MibField
  | atucPerfLof
  | atucPerfLos
  | atucPerfEs
  | atucPerfInit
  | aturPerfLof
  | aturPerfLos
  | aturPerfLpr
  | aturPerfEs
  | aturChanPerfRxBlk
  | aturChanPerfTxBlk
  | aturChanPerfCorrBlk
  | aturChanPerfUncorrBlk
  | atucPerfStatFastR
  | atucPerfStatFailedFastR
  | atucPerfStatSesL
  | atucPerfStatUasL
  | aturPerfStatSesL
  | aturPerfStatUasL
  deriving DecidableEq

abbrev MibValues := MibField → Word

structure MibIntvl where
  startTime : Nat
  field : MibValues

/-- A node after `memset`. -/
def zeroIntvl : MibIntvl := ⟨0, fun _ => 0⟩

def intervalNum : Nat := 192

/-- `interval_list` around `current_intvl`: the nodes before it and behind it, in list order. -/
structure IntervalList where
  before : List MibIntvl
  current : MibIntvl
  after : List MibIntvl
  size : before.length + 1 + after.length = intervalNum

/-- `danube_mei_mib_init` at time `now`. -/
def danubeMeiMibInit (now : Nat) : IntervalList where
  before := []
  current := { zeroIntvl with startTime := now }
  after := List.replicate 191 zeroIntvl
  size := by simp only [List.length_nil, List.length_replicate, intervalNum]

/-- The next node becomes the current one; behind the last node, the first one is cleared and moved
to the end before that. -/
def nextInterval (l : IntervalList) (now : Nat) : IntervalList :=
  match h : l.after with
  | y :: ys =>
    { before := l.before ++ [l.current]
      current := { y with startTime := now }
      after := ys
      size := by
        have hs := l.size
        simp only [h, List.length_append, List.length_cons, List.length_nil] at hs ⊢
        omega }
  | [] =>
    { before := l.before.tail ++ [l.current]
      current := { zeroIntvl with startTime := now }
      after := []
      size := by
        have hs := l.size
        simp only [h, intervalNum, List.length_append, List.length_tail, List.length_cons,
          List.length_nil] at hs ⊢
        omega }

/-- The rotation at the start of a round of `adsl_mib_poll`. -/
def rotateInterval (l : IntervalList) (now : Nat) : IntervalList :=
  if 900 ≤ now - l.current.startTime then nextInterval l now else l

/-- A counter of the current interval gets a new value. -/
def setField (l : IntervalList) (f : MibField) (v : Word) : IntervalList :=
  { l with current := { l.current with field := Function.update l.current.field f v } }

/-- The walk of the `Curr1Day` values. -/
def currLoop (f : MibField) : List MibIntvl → Nat → Word → Word
  | [], _, j => j
  | x :: xs, i, j => currLoop f xs (i + 1) (if i + 1 = 96 then 0 else j + x.field f)

/-- The walk of the `Prev1Day` values, which stops at the 96th node. -/
def prevLoop (f : MibField) : List MibIntvl → Nat → Word → Nat × Word
  | [], i, j => (i, j)
  | x :: xs, i, j =>
    if i + 1 = 96 then (i + 1, j + x.field f) else prevLoop f xs (i + 1) (j + x.field f)

/-- What `mei_mib_ioctl` reports as `Curr1Day` of a counter. -/
def curr1Day (l : IntervalList) (f : MibField) : Word :=
  currLoop f l.before 0 0 + l.current.field f

def prev1Day (l : IntervalList) (f : MibField) : Word :=
  let (i, j) := prevLoop f l.before 0 0
  if i = 96 then j else 0

def curr1DayTimeElapsed (l : IntervalList) (now : Nat) : Nat :=
  let i := l.before.foldr (fun _ i => i + 900) 0 + (now - l.current.startTime)
  if 86400 ≤ i then i - 86400 else i

/-- The list with the clock. `done` is history: the counters of the completed intervals, oldest
first. -/
structure MibSys where
  list : IntervalList
  clock : Nat
  done : List MibValues

def mibInit (now : Nat) : MibSys := ⟨danubeMeiMibInit now, now, []⟩

/-- A round of the poll thread reads the time, or a counter of the current interval changes. -/
inductive MibEvent
  | poll (now : Nat)
  | count (f : MibField) (v : Word)

def mibStep (s : MibSys) : MibEvent → Option MibSys
  | .poll now =>
    if s.clock ≤ now then
      some
        { list := rotateInterval s.list now
          clock := now
          done :=
            if 900 ≤ now - s.list.current.startTime then s.done ++ [s.list.current.field]
            else s.done }
    else none
  | .count f v => some { s with list := setField s.list f v }

end DanubeBsp
