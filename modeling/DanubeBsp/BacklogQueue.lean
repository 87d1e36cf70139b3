import Mathlib.Algebra.Order.BigOperators.Group.Finset
import Mathlib.Data.List.Nodup
import DanubeBsp.TableSum

namespace DanubeBsp

/-- How far a `data_send` or a flush has come with the queue. From `locked` to `unlock` it holds the
lock; in `move` it goes on to the element `next`, `none` being the end, and `iter` is the body of the
loop. -/
inductive SendPhase
  | idle
  | started
  | direct
  | enqueue
  | flushStarted
  | tryLock
  | backOff
  | locked
  | iter (curr next : Option Nat)
  | sent (curr : Nat) (next : Option Nat)
  | move (next : Option Nat)
  | unlock
  | returned (ok : Bool)
  deriving DecidableEq

/-- The backlog as a queue: to append, to remove and to count are single steps. Calls and the packets
they carry have one number; `written` is the order in which the packets went into the FIFO and
`before` the calls that had returned `OK` when a call started. -/
structure BklogQueue where
  written : List Nat
  backlog : List Nat
  bklogPkts : Int
  bklogQLock : Int
  calls : Nat
  isSend : Nat → Bool
  phase : Nat → SendPhase
  before : Nat → List Nat

def bklogQueueInit : BklogQueue :=
  ⟨[], [], 0, 1, 0, fun _ => false, fun _ => .idle, fun _ => []⟩

def BklogQueue.setPhase (s : BklogQueue) (k : Nat) (p : SendPhase) : BklogQueue :=
  { s with phase := Function.update s.phase k p }

/-- The element behind `c` in the list, `none` at its end. -/
def listNext (c : Nat) : List Nat → Option Nat
  | [] => none
  | x :: xs => if x = c then xs.head? else listNext c xs

def queueReturned (s : BklogQueue) : List Nat :=
  (List.range s.calls).filter fun k => s.isSend k && s.phase k == .returned true

def queueStart (s : BklogQueue) (send : Bool) : BklogQueue :=
  { s with
    calls := s.calls + 1
    isSend := Function.update s.isSend s.calls send
    phase := Function.update s.phase s.calls (if send then .started else .flushStarted)
    before := Function.update s.before s.calls (queueReturned s) }

/-- The next step of a context; `ok` is the result of an attempt to write or to allocate. -/
def queueAdvance (s : BklogQueue) (k : Nat) (ok : Bool) : Option BklogQueue :=
  match s.phase k with
  | .idle => none
  | .started => some (s.setPhase k (if s.backlog.isEmpty then .direct else .enqueue))
  | .direct =>
    if ok then some { s.setPhase k (.returned true) with written := s.written ++ [k] }
    else some (s.setPhase k .enqueue)
  | .enqueue =>
    if ok then
      some { s.setPhase k .tryLock with
        backlog := s.backlog ++ [k]
        bklogPkts := s.bklogPkts + 1 }
    else some (s.setPhase k (.returned false))
  | .flushStarted => some (s.setPhase k (if s.bklogPkts ≠ 0 then .tryLock else .returned true))
  | .tryLock =>
    some { s.setPhase k (if s.bklogQLock - 1 = 0 then .locked else .backOff) with
      bklogQLock := s.bklogQLock - 1 }
  | .backOff => some { s.setPhase k (.returned false) with bklogQLock := s.bklogQLock + 1 }
  | .locked => some (s.setPhase k (.move s.backlog.head?))
  | .iter none _ => some (s.setPhase k .unlock)
  | .iter (some c) next =>
    if ok then some { s.setPhase k (.sent c next) with written := s.written ++ [c] }
    else some (s.setPhase k .unlock)
  | .sent c next =>
    some { s.setPhase k (.move next) with
      backlog := s.backlog.erase c
      bklogPkts := s.bklogPkts - 1 }
  | .move next => some (s.setPhase k (.iter next (next.bind fun c => listNext c s.backlog)))
  | .unlock => some { s.setPhase k (.returned true) with bklogQLock := s.bklogQLock + 1 }
  | .returned _ => none

/-- The packets in the order in which they leave: those in the FIFO, then those that wait. -/
def sendOrder (s : BklogQueue) : List Nat :=
  s.written ++ s.backlog.filter fun c => c ∉ s.written

/-- An accepted packet is in the FIFO or waits, once; a refused one is in neither; a call that starts
after another one has returned `OK` is written after it; the counter is exact. -/
structure QueueOk (s : BklogQueue) : Prop where
  pkts : s.bklogPkts = s.backlog.length
  once : s.written.Nodup ∧ s.backlog.Nodup
  accepted : ∀ k, s.isSend k = true → s.phase k = .returned true → (sendOrder s).count k = 1
  refused : ∀ k, s.isSend k = true → s.phase k = .returned false → k ∉ s.written ∧ k ∉ s.backlog
  ordered : ∀ q ∈ s.written, ∀ p ∈ s.before q, [p, q].Sublist s.written

def SendPhase.holds : SendPhase → Bool
  | .locked => true
  | .iter _ _ => true
  | .sent _ _ => true
  | .move _ => true
  | .unlock => true
  | _ => false

/-- The number of decrements of the lock that a context has still to undo. -/
def SendPhase.weight (p : SendPhase) : Nat := if p.holds || p == .backOff then 1 else 0

/-- Where the packet of a call can be. -/
def CallOk (written backlog before : List Nat) (send : Bool) (k : Nat) : SendPhase → Prop
  | .idle => True
  | .started => k ∉ written ∧ k ∉ backlog
  | .direct => (k ∉ written ∧ k ∉ backlog) ∧ ∀ p ∈ before, p ∈ written
  | .enqueue => k ∉ written ∧ k ∉ backlog
  | .flushStarted => send = false
  | .backOff => send = false
  | .returned false => send = true → k ∉ written ∧ k ∉ backlog
  | _ => send = true → k ∈ written ∨ k ∈ backlog

def Waiting (written backlog : List Nat) : Prop := ∀ c ∈ backlog, c ∉ written

/-- What the holder of the lock knows of the list: `curr` is its first element and `next`, unless it
is the list head, the second. -/
def HoldOk (written backlog : List Nat) : SendPhase → Prop
  | .locked => Waiting written backlog
  | .iter curr next => Waiting written backlog ∧ ∀ c, curr = some c →
      backlog.head? = some c ∧ ∀ d, next = some d → backlog.tail.head? = some d
  | .sent c next => c ∈ written ∧ Waiting written backlog.tail ∧ backlog.head? = some c ∧
      ∀ d, next = some d → backlog.tail.head? = some d
  | .move next => Waiting written backlog ∧ ∀ d, next = some d → backlog.head? = some d
  | .unlock => Waiting written backlog
  | _ => True

structure QueueInv (s : BklogQueue) : Prop where
  pkts : s.bklogPkts = s.backlog.length
  lock : s.bklogQLock + ∑ k ∈ Finset.range s.calls, ((s.phase k).weight : Int) = 1
  fresh : ∀ k, s.calls ≤ k → s.phase k = .idle
  known : ∀ c, c ∈ s.written ∨ c ∈ s.backlog → c < s.calls
  once : s.written.Nodup ∧ s.backlog.Nodup
  call : ∀ k, CallOk s.written s.backlog (s.before k) (s.isSend k) k (s.phase k)
  hold : ∀ k, HoldOk s.written s.backlog (s.phase k)
  excl : ∀ j k, (s.phase j).holds = true → (s.phase k).holds = true → j = k
  waiting : ∀ c ∈ s.backlog, c ∈ s.written → ∃ k next, s.phase k = .sent c next
  before : ∀ q, ∀ p ∈ s.before q, s.isSend p = true ∧ s.phase p = .returned true
  order : ∀ q ∈ sendOrder s, ∀ p ∈ s.before q, [p, q].Sublist (sendOrder s)

theorem mem_sendOrder {s : BklogQueue} {k : Nat} :
    k ∈ sendOrder s ↔ k ∈ s.written ∨ k ∈ s.backlog := by
  simp only [sendOrder, List.mem_append, List.mem_filter, decide_eq_true_eq]
  tauto

theorem QueueInv.nodup {s : BklogQueue} (h : QueueInv s) : (sendOrder s).Nodup := by
  apply List.Nodup.append h.once.1 (h.once.2.filter _)
  intro c hw hf
  simp only [List.mem_filter, decide_eq_true_eq] at hf
  exact hf.2 hw

theorem QueueInv.ok {s : BklogQueue} (h : QueueInv s) : QueueOk s := by
  refine ⟨h.pkts, h.once, ?_, ?_, ?_⟩
  · intro k hsend hk
    have hc := h.call k
    rw [hk] at hc
    exact List.count_eq_one_of_mem h.nodup (mem_sendOrder.mpr (hc hsend))
  · intro k hsend hk
    have hc := h.call k
    rw [hk] at hc
    exact hc hsend
  · intro q hq p hp
    have hsub := h.order q (mem_sendOrder.mpr (.inl hq)) p hp
    obtain ⟨l₁, l₂, heq, h₁, h₂⟩ := List.sublist_append_iff.mp hsub
    -- the part in the backlog is empty, for it would end with `q`
    cases l₂ using List.reverseRecOn with
    | nil => rwa [heq, List.append_nil]
    | append_singleton l x _ =>
      have hx : q = x := by
        have hlast := congrArg List.getLast? heq
        simpa [← List.append_assoc] using hlast
      have hmem := h₂.subset (List.mem_append_right l (List.mem_singleton.mpr rfl))
      simp only [List.mem_filter, decide_eq_true_eq, ← hx] at hmem
      exact absurd hq hmem.2

theorem bklogQueueInit_inv : QueueInv bklogQueueInit where
  pkts := rfl
  lock := rfl
  fresh := by intro k _; rfl
  known := by simp [bklogQueueInit]
  once := ⟨List.nodup_nil, List.nodup_nil⟩
  call := fun _ => trivial
  hold := fun _ => trivial
  excl := by intro j k hj; exact absurd hj Bool.false_ne_true
  waiting := by simp [bklogQueueInit]
  before := by simp [bklogQueueInit]
  order := by simp [bklogQueueInit, sendOrder]

/-- A step of another context that keeps what is in the FIFO and moves no other packet. -/
theorem CallOk.frame {w b w' b' before : List Nat} {send : Bool} {k : Nat} {p : SendPhase}
    (h : CallOk w b before send k p) (hsub : ∀ c ∈ w, c ∈ w')
    (hmem : k ∈ w' ∨ k ∈ b' ↔ k ∈ w ∨ k ∈ b) : CallOk w' b' before send k p := by
  have hout : k ∉ w ∧ k ∉ b → k ∉ w' ∧ k ∉ b' := by
    rw [← not_or, ← not_or, hmem]
    exact id
  have hin : (send = true → k ∈ w ∨ k ∈ b) → send = true → k ∈ w' ∨ k ∈ b' := by
    rw [hmem]
    exact id
  cases p with
  | idle => trivial
  | started => exact hout h
  | direct => exact ⟨hout h.1, fun p hp => hsub p (h.2 p hp)⟩
  | enqueue => exact hout h
  | flushStarted => exact h
  | backOff => exact h
  | tryLock => exact hin h
  | locked => exact hin h
  | iter c n => exact hin h
  | sent c n => exact hin h
  | move n => exact hin h
  | unlock => exact hin h
  | returned ok =>
    cases ok with
    | false => exact fun hs => hout (h hs)
    | true => exact hin h

/-- While the lock counter is one, nobody holds the lock. -/
theorem QueueInv.free {s : BklogQueue} (h : QueueInv s) (hl : s.bklogQLock = 1) (k : Nat) :
    (s.phase k).holds = false := by
  by_cases hk : k < s.calls
  · have hsum : ∑ i ∈ Finset.range s.calls, ((s.phase i).weight : Int) = 0 := by
      have := h.lock
      omega
    have hzero := (Finset.sum_eq_zero_iff_of_nonneg (fun i _ => Int.natCast_nonneg _)).mp hsum k
      (Finset.mem_range.mpr hk)
    cases hh : (s.phase k).holds with
    | false => rfl
    | true => simp [SendPhase.weight, hh] at hzero
  · rw [h.fresh k (Nat.le_of_not_lt hk)]
    rfl

/-- What a step of context `k` to phase `p` has to show. -/
structure QueueMove (s t : BklogQueue) (k : Nat) (p : SendPhase) : Prop where
  phase : t.phase = Function.update s.phase k p
  same : t.calls = s.calls ∧ t.isSend = s.isSend ∧ t.before = s.before
  live : s.phase k ≠ .idle ∧ s.phase k ≠ .returned true
  pkts : t.bklogPkts = t.backlog.length
  lock : t.bklogQLock + p.weight = s.bklogQLock + (s.phase k).weight
  once : t.written.Nodup ∧ t.backlog.Nodup
  subset : ∀ c ∈ s.written, c ∈ t.written
  others : ∀ c, c ≠ k → (c ∈ t.written ∨ c ∈ t.backlog ↔ c ∈ s.written ∨ c ∈ s.backlog)
  call : CallOk t.written t.backlog (s.before k) (s.isSend k) k p
  hold : HoldOk t.written t.backlog p
  holdOthers : ∀ j, j ≠ k → HoldOk t.written t.backlog (s.phase j)
  excl : p.holds = true → (s.phase k).holds = true ∨ s.bklogQLock = 1
  waiting : ∀ c ∈ t.backlog, c ∈ t.written → ∃ j next, t.phase j = .sent c next
  order : ∀ q ∈ sendOrder t, ∀ x ∈ s.before q, [x, q].Sublist (sendOrder t)

theorem QueueInv.lt_calls {s : BklogQueue} (h : QueueInv s) {k : Nat} (hk : s.phase k ≠ .idle) :
    k < s.calls := by
  by_contra hge
  exact hk (h.fresh k (Nat.le_of_not_lt hge))

theorem QueueMove.inv {s t : BklogQueue} {k : Nat} {p : SendPhase} (h : QueueInv s)
    (m : QueueMove s t k p) : QueueInv t := by
  have hk := h.lt_calls m.live.1
  obtain ⟨hcalls, hsend, hbefore⟩ := m.same
  refine
    { pkts := m.pkts, lock := ?_, fresh := ?_, known := ?_, once := m.once, call := ?_, hold := ?_,
      excl := ?_, waiting := m.waiting, before := ?_, order := ?_ }
  · have hsum := sum_table_update (Finset.mem_range.mpr hk) s.phase p
      fun _ q => (q.weight : Int)
    have hl := m.lock
    have hs := h.lock
    rw [hcalls, m.phase]
    omega
  · intro j hj
    rw [hcalls] at hj
    rw [m.phase, Function.update_of_ne (by omega)]
    exact h.fresh j hj
  · intro c hc
    rw [hcalls]
    by_cases hck : c = k
    · rw [hck]
      exact hk
    · exact h.known c ((m.others c hck).mp hc)
  · intro j
    rw [hbefore, hsend, m.phase]
    by_cases hj : j = k
    · subst hj
      rw [Function.update_self]
      exact m.call
    · rw [Function.update_of_ne hj]
      exact (h.call j).frame m.subset (m.others j hj)
  · intro j
    rw [m.phase]
    by_cases hj : j = k
    · subst hj
      rw [Function.update_self]
      exact m.hold
    · rw [Function.update_of_ne hj]
      exact m.holdOthers j hj
  · -- a context that newly holds the lock found it free
    have hnew : ∀ j, j ≠ k → p.holds = true → (s.phase j).holds = true → False := by
      intro j hj hp hjh
      rcases m.excl hp with hold | hfree
      · exact hj (h.excl j k hjh hold)
      · rw [h.free hfree j] at hjh
        exact Bool.false_ne_true hjh
    intro i j hi hj
    rw [m.phase] at hi hj
    by_cases hik : i = k <;> by_cases hjk : j = k
    · rw [hik, hjk]
    · rw [hik, Function.update_self] at hi
      rw [Function.update_of_ne hjk] at hj
      exact (hnew j hjk hi hj).elim
    · rw [hjk, Function.update_self] at hj
      rw [Function.update_of_ne hik] at hi
      exact (hnew i hik hj hi).elim
    · rw [Function.update_of_ne hik] at hi
      rw [Function.update_of_ne hjk] at hj
      exact h.excl i j hi hj
  · intro q x hx
    rw [hbefore] at hx
    obtain ⟨hs, hp⟩ := h.before q x hx
    have hxk : x ≠ k := by
      rintro rfl
      exact m.live.2 hp
    rw [hsend, m.phase, Function.update_of_ne hxk]
    exact ⟨hs, hp⟩
  · rw [hbefore]
    exact m.order

theorem QueueInv.stay {s t : BklogQueue} (h : QueueInv s) {k : Nat} {p : SendPhase}
    (hphase : t.phase = Function.update s.phase k p)
    (hsame : t.calls = s.calls ∧ t.isSend = s.isSend ∧ t.before = s.before)
    (hlists : t.written = s.written ∧ t.backlog = s.backlog ∧ t.bklogPkts = s.bklogPkts)
    (hlive : s.phase k ≠ .idle ∧ s.phase k ≠ .returned true) (hsent : ∀ c n, s.phase k ≠ .sent c n)
    (hlock : t.bklogQLock + p.weight = s.bklogQLock + (s.phase k).weight)
    (hcall : CallOk s.written s.backlog (s.before k) (s.isSend k) k p)
    (hhold : HoldOk s.written s.backlog p)
    (hexcl : p.holds = true → (s.phase k).holds = true ∨ s.bklogQLock = 1) : QueueInv t := by
  obtain ⟨hw, hb, hn⟩ := hlists
  have hord : sendOrder t = sendOrder s := by rw [sendOrder, hw, hb, sendOrder]
  apply QueueMove.inv h
  refine
    { phase := hphase, same := hsame, live := hlive, pkts := ?_, lock := hlock, once := ?_,
      subset := ?_, others := ?_, call := ?_, hold := ?_, holdOthers := ?_, excl := hexcl,
      waiting := ?_, order := ?_ }
  · rw [hn, hb]
    exact h.pkts
  · rw [hw, hb]
    exact h.once
  · rw [hw]
    exact fun c hc => hc
  · rw [hw, hb]
    exact fun c _ => Iff.rfl
  · rw [hw, hb]
    exact hcall
  · rw [hw, hb]
    exact hhold
  · rw [hw, hb]
    exact fun j _ => h.hold j
  · rw [hw, hb, hphase]
    intro c hc hcw
    obtain ⟨j, next, hj⟩ := h.waiting c hc hcw
    have hjk : j ≠ k := by
      rintro rfl
      exact hsent c next hj
    exact ⟨j, next, by rw [Function.update_of_ne hjk]; exact hj⟩
  · rw [hord]
    exact h.order

theorem HoldOk.of_not_holds {w b : List Nat} {p : SendPhase} (h : p.holds = false) :
    HoldOk w b p := by
  cases p <;> trivial

theorem QueueInv.holdOthers {s : BklogQueue} (h : QueueInv s) {k : Nat}
    (hk : (s.phase k).holds = true) (w b : List Nat) (j : Nat) (hj : j ≠ k) :
    HoldOk w b (s.phase j) := by
  apply HoldOk.of_not_holds
  by_contra hh
  exact hj (h.excl j k (by simpa using hh) hk)

theorem QueueInv.before_mem {s : BklogQueue} (h : QueueInv s) {p q : Nat} (hp : p ∈ s.before q) :
    p ∈ s.written ∨ p ∈ s.backlog := by
  obtain ⟨hs, hr⟩ := h.before q p hp
  have hc := h.call p
  rw [hr] at hc
  exact hc hs

/-- The new last element of the order comes after everything that was accepted before. -/
theorem QueueInv.order_snoc {s : BklogQueue} (h : QueueInv s) {k : Nat} :
    ∀ q ∈ sendOrder s ++ [k], ∀ x ∈ s.before q, [x, q].Sublist (sendOrder s ++ [k]) := by
  intro q hq x hx
  rcases List.mem_append.mp hq with hq | hq
  · exact (h.order q hq x hx).trans (List.sublist_append_left _ _)
  · obtain rfl := List.mem_singleton.mp hq
    have hmem := mem_sendOrder.mpr (h.before_mem hx)
    exact (List.singleton_sublist.mpr hmem).append (List.Sublist.refl [q])

theorem HoldOk.enqueue {w b : List Nat} {p : SendPhase} (h : HoldOk w b p) {k : Nat}
    (hk : k ∉ w) : HoldOk w (b ++ [k]) p := by
  have hwait : ∀ {l}, Waiting w l → Waiting w (l ++ [k]) := by
    intro l hl c hc
    rcases List.mem_append.mp hc with hc | hc
    · exact hl c hc
    · cases List.mem_singleton.mp hc
      exact hk
  have hhead : ∀ {l : List Nat} {c}, l.head? = some c → (l ++ [k]).head? = some c := by
    intro l c hc
    simp [List.head?_append, hc]
  cases p with
  | locked => exact hwait h
  | unlock => exact hwait h
  | iter curr next =>
    refine ⟨hwait h.1, ?_⟩
    intro c hc
    obtain ⟨hb, hn⟩ := h.2 c hc
    refine ⟨hhead hb, ?_⟩
    intro d hd
    cases b with
    | nil => simp at hb
    | cons x b => exact hhead (hn d hd)
  | sent c next =>
    obtain ⟨hc, hw, hb, hn⟩ := h
    cases b with
    | nil => simp at hb
    | cons x b => exact ⟨hc, hwait hw, hhead hb, fun d hd => hhead (hn d hd)⟩
  | move next => exact ⟨hwait h.1, fun d hd => hhead (h.2 d hd)⟩
  | _ => trivial

theorem HoldOk.direct {w b : List Nat} {p : SendPhase} (h : HoldOk w b p) {k : Nat}
    (hk : k ∉ b) : HoldOk (w ++ [k]) b p := by
  have hwait : ∀ {l}, l ⊆ b → Waiting w l → Waiting (w ++ [k]) l := by
    intro l hsub hl c hc hw
    rcases List.mem_append.mp hw with hw | hw
    · exact hl c hc hw
    · cases List.mem_singleton.mp hw
      exact hk (hsub hc)
  have hself : b ⊆ b := List.Subset.refl b
  cases p with
  | locked => exact hwait hself h
  | unlock => exact hwait hself h
  | iter curr next => exact ⟨hwait hself h.1, h.2⟩
  | sent c next =>
    exact ⟨List.mem_append_left _ h.1, hwait (List.tail_subset b) h.2.1, h.2.2⟩
  | move next => exact ⟨hwait hself h.1, h.2⟩
  | _ => trivial

theorem QueueInv.enqueue {s : BklogQueue} (h : QueueInv s) {k : Nat}
    (hk : s.phase k = .enqueue) :
    QueueInv { s.setPhase k .tryLock with
      backlog := s.backlog ++ [k]
      bklogPkts := s.bklogPkts + 1 } := by
  have hc := h.call k
  rw [hk] at hc
  obtain ⟨hw, hb⟩ := hc
  have hord : sendOrder { s.setPhase k .tryLock with
      backlog := s.backlog ++ [k]
      bklogPkts := s.bklogPkts + 1 } = sendOrder s ++ [k] := by
    show s.written ++ ((s.backlog ++ [k]).filter fun c => c ∉ s.written) = _
    rw [List.filter_append, List.filter_singleton, ← List.append_assoc]
    simp only [hw, not_false_eq_true, decide_true, cond_true, sendOrder]
  apply QueueMove.inv h (k := k) (p := .tryLock)
  refine
    { phase := rfl, same := ⟨rfl, rfl, rfl⟩, live := by simp [hk], pkts := ?_, lock := ?_,
      once := ⟨h.once.1, ?_⟩, subset := fun c hc => hc, others := ?_, call := ?_, hold := trivial,
      holdOthers := fun j _ => (h.hold j).enqueue hw, excl := by simp [SendPhase.holds],
      waiting := ?_, order := ?_ }
  · simp [h.pkts]
  · rw [hk]
    rfl
  · exact List.nodup_append.mpr ⟨h.once.2, List.nodup_singleton k, by
      intro c hc d hd heq
      exact hb (List.mem_singleton.mp hd ▸ heq ▸ hc)⟩
  · intro c hck
    simp [BklogQueue.setPhase, hck]
  · intro _
    simp
  · intro c hc hcw
    rcases List.mem_append.mp hc with hc | hc
    · obtain ⟨j, next, hj⟩ := h.waiting c hc hcw
      have hjk : j ≠ k := by
        rintro rfl
        rw [hk] at hj
        cases hj
      exact ⟨j, next, by simp [BklogQueue.setPhase, Function.update_of_ne hjk, hj]⟩
    · cases List.mem_singleton.mp hc
      exact absurd hcw hw
  · rw [hord]
    exact h.order_snoc

theorem QueueInv.direct {s : BklogQueue} (h : QueueInv s) {k : Nat} (hk : s.phase k = .direct) :
    QueueInv { s.setPhase k (.returned true) with written := s.written ++ [k] } := by
  have hc := h.call k
  rw [hk] at hc
  obtain ⟨⟨hw, hb⟩, hbefore⟩ := hc
  have hord : sendOrder { s.setPhase k (.returned true) with written := s.written ++ [k] } =
      s.written ++ [k] ++ s.backlog.filter fun c => c ∉ s.written := by
    have hf : (s.backlog.filter fun c => c ∉ s.written ++ [k]) =
        s.backlog.filter fun c => c ∉ s.written := by
      apply List.filter_congr
      intro c hc
      have hck : c ≠ k := by
        rintro rfl
        exact hb hc
      simp [hck]
    show s.written ++ [k] ++ (s.backlog.filter fun c => c ∉ s.written ++ [k]) = _
    rw [hf]
  apply QueueMove.inv h (k := k) (p := .returned true)
  refine
    { phase := rfl, same := ⟨rfl, rfl, rfl⟩, live := by simp [hk], pkts := h.pkts, lock := ?_,
      once := ⟨?_, h.once.2⟩, subset := fun c hc => List.mem_append_left _ hc, others := ?_,
      call := ?_, hold := trivial, holdOthers := fun j _ => (h.hold j).direct hb,
      excl := by simp [SendPhase.holds], waiting := ?_, order := ?_ }
  · rw [hk]
    rfl
  · exact List.nodup_append.mpr ⟨h.once.1, List.nodup_singleton k, by
      intro c hc d hd heq
      exact hw (List.mem_singleton.mp hd ▸ heq ▸ hc)⟩
  · intro c hck
    simp [BklogQueue.setPhase, hck]
  · intro _
    simp
  · intro c hc hcw
    have hck : c ≠ k := by
      rintro rfl
      exact hb hc
    have hcw : c ∈ s.written := by simpa [hck] using hcw
    obtain ⟨j, next, hj⟩ := h.waiting c hc hcw
    have hjk : j ≠ k := by
      rintro rfl
      rw [hk] at hj
      cases hj
    exact ⟨j, next, by simp [BklogQueue.setPhase, Function.update_of_ne hjk, hj]⟩
  · rw [hord]
    intro q hq x hx
    by_cases hqk : q = k
    · subst hqk
      have hmem := hbefore x hx
      have hpair := (List.singleton_sublist.mpr hmem).append (List.Sublist.refl [q])
      exact hpair.trans (List.sublist_append_left _ _)
    · have hq : q ∈ sendOrder s := by
        simpa [sendOrder, hqk] using hq
      have hsub : (sendOrder s).Sublist
          (s.written ++ [k] ++ s.backlog.filter fun c => c ∉ s.written) :=
        (List.sublist_append_left s.written [k]).append (List.Sublist.refl _)
      exact (h.order q hq x hx).trans hsub

/-- The holder writes the first element of the list, which leaves the order as it is. -/
theorem QueueInv.write {s : BklogQueue} (h : QueueInv s) {k c : Nat} {next : Option Nat}
    (hk : s.phase k = .iter (some c) next) :
    QueueInv { s.setPhase k (.sent c next) with written := s.written ++ [c] } := by
  have hho : (s.phase k).holds = true := by rw [hk]; rfl
  have hh := h.hold k
  rw [hk] at hh
  obtain ⟨hwait, hcurr⟩ := hh
  obtain ⟨hhead, hnext⟩ := hcurr c rfl
  obtain ⟨rest, hb⟩ : ∃ rest, s.backlog = c :: rest := List.head?_eq_some_iff.mp hhead
  have hnd := h.once.2
  rw [hb] at hnd hwait
  obtain ⟨hcr, hnr⟩ := List.nodup_cons.mp hnd
  have hcw : c ∉ s.written := hwait c List.mem_cons_self
  have hrest : Waiting (s.written ++ [c]) rest := by
    intro d hd hw
    rcases List.mem_append.mp hw with hw | hw
    · exact hwait d (List.mem_cons_of_mem c hd) hw
    · cases List.mem_singleton.mp hw
      exact hcr hd
  have hold : sendOrder s = s.written ++ c :: rest := by
    have hf : (c :: rest).filter (fun c => c ∉ s.written) = c :: rest := by
      apply List.filter_eq_self.mpr
      intro d hd
      simpa using hwait d hd
    rw [sendOrder, hb, hf]
  have hord : sendOrder { s.setPhase k (.sent c next) with written := s.written ++ [c] } =
      sendOrder s := by
    have hf : (c :: rest).filter (fun d => d ∉ s.written ++ [c]) = rest := by
      rw [List.filter_cons_of_neg (by simp)]
      apply List.filter_eq_self.mpr
      intro d hd
      simpa using hrest d hd
    show s.written ++ [c] ++ (s.backlog.filter fun d => d ∉ s.written ++ [c]) = _
    rw [hold, hb, hf, List.append_assoc]
    rfl
  have hmem : ∀ d, d ∈ s.written ++ [c] ∨ d ∈ s.backlog ↔ d ∈ s.written ∨ d ∈ s.backlog := by
    intro d
    rw [hb, List.mem_append, List.mem_singleton, List.mem_cons]
    tauto
  apply QueueMove.inv h (k := k) (p := .sent c next)
  refine
    { phase := rfl, same := ⟨rfl, rfl, rfl⟩, live := by simp [hk], pkts := h.pkts, lock := ?_,
      once := ⟨?_, h.once.2⟩, subset := fun c hc => List.mem_append_left _ hc,
      others := fun d _ => hmem d, call := ?_, hold := ?_,
      holdOthers := h.holdOthers hho _ _, excl := fun _ => .inl hho, waiting := ?_, order := ?_ }
  · rw [hk]
    rfl
  · exact List.nodup_append.mpr ⟨h.once.1, List.nodup_singleton c, by
      intro d hd e he heq
      exact hcw (List.mem_singleton.mp he ▸ heq ▸ hd)⟩
  · intro hs
    have hc := h.call k
    rw [hk] at hc
    exact (hmem k).mpr (hc hs)
  · refine ⟨List.mem_append_right _ (List.mem_singleton.mpr rfl), ?_, hhead, hnext⟩
    show Waiting (s.written ++ [c]) s.backlog.tail
    rw [hb]
    exact hrest
  · intro d hd hw
    have hd : d ∈ s.backlog := hd
    rw [hb] at hd
    rcases List.mem_cons.mp hd with rfl | hd
    · exact ⟨k, next, by simp [BklogQueue.setPhase]⟩
    · exact absurd hw (hrest d hd)
  · rw [hord]
    exact h.order

theorem QueueInv.delete {s : BklogQueue} (h : QueueInv s) {k c : Nat} {next : Option Nat}
    (hk : s.phase k = .sent c next) :
    QueueInv { s.setPhase k (.move next) with
      backlog := s.backlog.erase c
      bklogPkts := s.bklogPkts - 1 } := by
  have hho : (s.phase k).holds = true := by rw [hk]; rfl
  have hh := h.hold k
  rw [hk] at hh
  obtain ⟨hcw, hwait, hhead, hnext⟩ := hh
  obtain ⟨rest, hb⟩ : ∃ rest, s.backlog = c :: rest := List.head?_eq_some_iff.mp hhead
  have her : s.backlog.erase c = rest := by rw [hb, List.erase_cons_head]
  rw [hb, List.tail_cons] at hwait hnext
  have hnr := (List.nodup_cons.mp (hb ▸ h.once.2)).2
  have hord : sendOrder { s.setPhase k (.move next) with
      backlog := rest
      bklogPkts := s.bklogPkts - 1 } = sendOrder s := by
    show s.written ++ (rest.filter fun d => d ∉ s.written) = _
    rw [sendOrder, hb, List.filter_cons_of_neg (by simpa using hcw)]
  have hmem : ∀ d, d ∈ s.written ∨ d ∈ rest ↔ d ∈ s.written ∨ d ∈ s.backlog := by
    intro d
    rw [hb, List.mem_cons]
    constructor
    · tauto
    · rintro (hd | rfl | hd)
      · exact .inl hd
      · exact .inl hcw
      · exact .inr hd
  rw [her]
  apply QueueMove.inv h (k := k) (p := .move next)
  refine
    { phase := rfl, same := ⟨rfl, rfl, rfl⟩, live := by simp [hk], pkts := ?_, lock := ?_,
      once := ⟨h.once.1, hnr⟩, subset := fun c hc => hc, others := fun d _ => hmem d, call := ?_,
      hold := ⟨hwait, hnext⟩, holdOthers := h.holdOthers hho _ _, excl := fun _ => .inl hho,
      waiting := ?_, order := ?_ }
  · have hp := h.pkts
    rw [hb, List.length_cons] at hp
    show s.bklogPkts - 1 = rest.length
    omega
  · rw [hk]
    rfl
  · intro hs
    have hc := h.call k
    rw [hk] at hc
    exact (hmem k).mpr (hc hs)
  · intro d hd hw
    exact absurd hw (hwait d hd)
  · rw [hord]
    exact h.order

theorem queueStart_phase_of_ne {s : BklogQueue} {send : Bool} {k : Nat} (hk : k ≠ s.calls) :
    (queueStart s send).phase k = s.phase k :=
  Function.update_of_ne hk _ _

theorem queueStart_phase_self (s : BklogQueue) (send : Bool) :
    (queueStart s send).phase s.calls = if send then .started else .flushStarted :=
  Function.update_self _ _ _

/-- A new call does not hold the lock. -/
theorem queueStart_weights {s : BklogQueue} {send : Bool}
    (h : (if send then SendPhase.started else .flushStarted).weight = 0) :
    ∑ i ∈ Finset.range (s.calls + 1), (((queueStart s send).phase i).weight : Int) =
      ∑ i ∈ Finset.range s.calls, ((s.phase i).weight : Int) := by
  have hsum : ∑ i ∈ Finset.range s.calls, (((queueStart s send).phase i).weight : Int) =
      ∑ i ∈ Finset.range s.calls, ((s.phase i).weight : Int) := by
    apply Finset.sum_congr rfl
    intro i hi
    have hlt := Finset.mem_range.mp hi
    rw [queueStart_phase_of_ne (by omega)]
  rw [Finset.sum_range_succ, hsum, queueStart_phase_self, h]
  exact Int.add_zero _

/-- A new call is not known to any list and inherits the calls that have returned. -/
theorem QueueInv.start {s : BklogQueue} (h : QueueInv s) (send : Bool) :
    QueueInv (queueStart s send) := by
  have hidle := h.fresh s.calls (Nat.le_refl _)
  have hout : s.calls ∉ s.written ∧ s.calls ∉ s.backlog := by
    rw [← not_or]
    intro hm
    have := h.known _ hm
    omega
  have hne : ∀ c, c ∈ s.written ∨ c ∈ s.backlog → c ≠ s.calls := by
    intro c hc
    have := h.known c hc
    omega
  have hnew : (if send then SendPhase.started else .flushStarted).holds = false ∧
      (if send then SendPhase.started else .flushStarted).weight = 0 := by
    cases send <;> decide
  refine
    { pkts := h.pkts, lock := ?_, fresh := ?_, known := ?_, once := h.once, call := ?_, hold := ?_,
      excl := ?_, waiting := ?_, before := ?_, order := ?_ }
  · show s.bklogQLock + ∑ i ∈ Finset.range (s.calls + 1), _ = 1
    rw [queueStart_weights hnew.2]
    exact h.lock
  · intro k hk
    have hk : s.calls + 1 ≤ k := hk
    rw [queueStart_phase_of_ne (by omega)]
    exact h.fresh k (by omega)
  · intro c hc
    have := h.known c hc
    show c < s.calls + 1
    omega
  · intro k
    by_cases hk : k = s.calls
    · subst hk
      simp only [queueStart, Function.update_self]
      cases send with
      | true => exact hout
      | false => rfl
    · simpa only [queueStart, Function.update_of_ne hk] using h.call k
  · intro k
    by_cases hk : k = s.calls
    · subst hk
      simp only [queueStart, Function.update_self]
      exact HoldOk.of_not_holds hnew.1
    · simpa only [queueStart, Function.update_of_ne hk] using h.hold k
  · intro j k hj hk
    have hlive : ∀ i, ((queueStart s send).phase i).holds = true → i ≠ s.calls := by
      rintro i hi rfl
      rw [queueStart_phase_self, hnew.1] at hi
      exact Bool.false_ne_true hi
    have hjc := hlive j hj
    have hkc := hlive k hk
    rw [queueStart_phase_of_ne hjc] at hj
    rw [queueStart_phase_of_ne hkc] at hk
    exact h.excl j k hj hk
  · intro c hc hw
    obtain ⟨k, next, hk⟩ := h.waiting c hc hw
    have hkc : k ≠ s.calls := by
      rintro rfl
      rw [hidle] at hk
      cases hk
    exact ⟨k, next, (queueStart_phase_of_ne hkc).trans hk⟩
  · intro q p hp
    have hret : s.isSend p = true ∧ s.phase p = .returned true := by
      by_cases hq : q = s.calls
      · subst hq
        simp only [queueStart, Function.update_self, queueReturned, List.mem_filter, Bool.and_eq_true,
          beq_iff_eq] at hp
        exact hp.2
      · simp only [queueStart, Function.update_of_ne hq] at hp
        exact h.before q p hp
    have hpc : p ≠ s.calls := by
      rintro rfl
      rw [hidle] at hret
      cases hret.2
    simpa only [queueStart, Function.update_of_ne hpc] using hret
  · intro q hq p hp
    have hqc := hne q (mem_sendOrder.mp hq)
    simp only [queueStart, Function.update_of_ne hqc] at hp
    exact h.order q hq p hp

theorem listNext_head {c : Nat} {l : List Nat} (h : l.head? = some c) :
    listNext c l = l.tail.head? := by
  cases l with
  | nil => simp at h
  | cons x l =>
    have hx : x = c := by simpa using h
    rw [listNext, if_pos hx, List.tail_cons]

theorem QueueInv.tryLock {s : BklogQueue} (h : QueueInv s) {k : Nat} (hk : s.phase k = .tryLock)
    (hfree : s.isSend k = true → s.bklogQLock = 1) :
    QueueInv { s.setPhase k (if s.bklogQLock - 1 = 0 then .locked else .backOff) with
      bklogQLock := s.bklogQLock - 1 } := by
  have hc := h.call k
  rw [hk] at hc
  by_cases hl : s.bklogQLock = 1
  · have hl' : s.bklogQLock - 1 = 0 := by omega
    rw [if_pos hl']
    refine h.stay rfl ⟨rfl, rfl, rfl⟩ ⟨rfl, rfl, rfl⟩ (by simp [hk]) (by simp [hk]) ?_ hc ?_
      (fun _ => .inr hl)
    · rw [hk]
      show s.bklogQLock - 1 + 1 = s.bklogQLock + 0
      omega
    · -- nobody is between the write and the removal of an element
      intro c hb hw
      obtain ⟨j, next, hj⟩ := h.waiting c hb hw
      have hfr := h.free hl j
      rw [hj] at hfr
      cases hfr
  · have hl' : ¬s.bklogQLock - 1 = 0 := by omega
    rw [if_neg hl']
    have hsend : s.isSend k = false := by
      cases hs : s.isSend k with
      | false => rfl
      | true => exact absurd (hfree hs) hl
    refine h.stay rfl ⟨rfl, rfl, rfl⟩ ⟨rfl, rfl, rfl⟩ (by simp [hk]) (by simp [hk]) ?_ hsend trivial
      (by simp [SendPhase.holds])
    rw [hk]
    show s.bklogQLock - 1 + 1 = s.bklogQLock + 0
    omega

/-- The steps of the holder that leave both lists alone and keep the lock. -/
theorem QueueInv.keepLock {s : BklogQueue} (h : QueueInv s) {k : Nat} {p : SendPhase}
    (hk : (s.phase k).holds = true) (hsent : ∀ c n, s.phase k ≠ .sent c n) (hp : p.holds = true)
    (hhold : HoldOk s.written s.backlog p) : QueueInv (s.setPhase k p) := by
  have hin : ∀ {q : SendPhase}, q.holds = true →
      (CallOk s.written s.backlog (s.before k) (s.isSend k) k q ↔
        (s.isSend k = true → k ∈ s.written ∨ k ∈ s.backlog)) := by
    intro q hq
    cases q <;> first | exact Iff.rfl | simp [SendPhase.holds] at hq
  have hlive : s.phase k ≠ .idle ∧ s.phase k ≠ .returned true := by
    constructor <;> intro he <;> rw [he] at hk <;> exact absurd hk (by decide)
  refine h.stay rfl ⟨rfl, rfl, rfl⟩ ⟨rfl, rfl, rfl⟩ hlive hsent ?_ ((hin hp).mpr
    ((hin hk).mp (h.call k))) hhold (fun _ => .inl hk)
  rw [SendPhase.weight, SendPhase.weight, hk, hp]
  rfl

/-- The steps of a context that does not have the lock and leaves it alone. -/
theorem QueueInv.withoutLock {s : BklogQueue} (h : QueueInv s) {k : Nat} {p : SendPhase}
    (hlive : s.phase k ≠ .idle ∧ s.phase k ≠ .returned true) (hk : (s.phase k).weight = 0)
    (hp : p.weight = 0)
    (hcall : CallOk s.written s.backlog (s.before k) (s.isSend k) k p) :
    QueueInv (s.setPhase k p) := by
  have hholds : p.holds = false := by
    cases hpb : p.holds with
    | false => rfl
    | true => simp [SendPhase.weight, hpb] at hp
  have hsent : ∀ c n, s.phase k ≠ .sent c n := by
    intro c n he
    rw [he] at hk
    cases hk
  refine h.stay rfl ⟨rfl, rfl, rfl⟩ ⟨rfl, rfl, rfl⟩ hlive hsent ?_ hcall
    (HoldOk.of_not_holds hholds) ?_
  · rw [hk, hp]
    rfl
  · intro htrue
    rw [hholds] at htrue
    cases htrue

/-- The steps that undo a decrement of the lock and return. -/
theorem QueueInv.giveBack {s : BklogQueue} (h : QueueInv s) {k : Nat} {r : Bool}
    (hlive : s.phase k ≠ .idle ∧ s.phase k ≠ .returned true) (hsent : ∀ c n, s.phase k ≠ .sent c n)
    (hk : (s.phase k).weight = 1)
    (hcall : CallOk s.written s.backlog (s.before k) (s.isSend k) k (.returned r)) :
    QueueInv { s.setPhase k (.returned r) with bklogQLock := s.bklogQLock + 1 } := by
  refine h.stay rfl ⟨rfl, rfl, rfl⟩ ⟨rfl, rfl, rfl⟩ hlive hsent ?_ hcall trivial
    (by simp [SendPhase.holds])
  rw [hk]
  show s.bklogQLock + 1 + 0 = s.bklogQLock + 1
  omega

theorem queueAdvance_inv {s t : BklogQueue} {k : Nat} {ok : Bool} (h : QueueInv s)
    (hfree : s.isSend k = true → s.phase k = .tryLock → s.bklogQLock = 1)
    (hs : queueAdvance s k ok = some t) : QueueInv t := by
  have hc := h.call k
  have hh := h.hold k
  unfold queueAdvance at hs
  cases hk : s.phase k with
  | idle => simp [hk] at hs
  | returned r => simp [hk] at hs
  | started =>
    simp only [hk] at hs hc
    cases Option.some.inj hs
    apply h.withoutLock (by simp [hk]) (by rw [hk]; rfl)
    · split <;> rfl
    · split
      next he =>
        -- with an empty backlog, the accepted packets are in the FIFO
        refine ⟨hc, ?_⟩
        intro p hp
        have hb := List.isEmpty_iff.mp he
        simpa [hb] using h.before_mem hp
      next => exact hc
  | direct =>
    simp only [hk] at hs hc
    cases ok with
    | true =>
      cases Option.some.inj hs
      exact h.direct hk
    | false =>
      cases Option.some.inj hs
      exact h.withoutLock (by simp [hk]) (by rw [hk]; rfl) rfl hc.1
  | enqueue =>
    simp only [hk] at hs hc
    cases ok with
    | true =>
      cases Option.some.inj hs
      exact h.enqueue hk
    | false =>
      cases Option.some.inj hs
      exact h.withoutLock (by simp [hk]) (by rw [hk]; rfl) rfl (fun _ => hc)
  | flushStarted =>
    simp only [hk] at hs hc
    cases Option.some.inj hs
    have hno : s.isSend k = true → k ∈ s.written ∨ k ∈ s.backlog := by
      intro hsend
      have hc : s.isSend k = false := hc
      rw [hc] at hsend
      cases hsend
    apply h.withoutLock (by simp [hk]) (by rw [hk]; rfl)
    · split <;> rfl
    · split <;> exact hno
  | tryLock =>
    simp only [hk] at hs
    cases Option.some.inj hs
    exact h.tryLock hk fun hsend => hfree hsend hk
  | backOff =>
    simp only [hk] at hs hc
    cases Option.some.inj hs
    have hno : s.isSend k = true → k ∉ s.written ∧ k ∉ s.backlog := by
      intro hsend
      have hc : s.isSend k = false := hc
      rw [hc] at hsend
      cases hsend
    exact h.giveBack (by simp [hk]) (by simp [hk]) (by rw [hk]; rfl) hno
  | locked =>
    simp only [hk] at hs hh
    cases Option.some.inj hs
    exact h.keepLock (by rw [hk]; rfl) (by simp [hk]) rfl ⟨hh, fun d hd => hd⟩
  | iter curr next =>
    cases curr with
    | none =>
      simp only [hk] at hs hh
      cases Option.some.inj hs
      exact h.keepLock (by rw [hk]; rfl) (by simp [hk]) rfl hh.1
    | some c =>
      simp only [hk] at hs hh
      cases ok with
      | true =>
        cases Option.some.inj hs
        exact h.write hk
      | false =>
        cases Option.some.inj hs
        exact h.keepLock (by rw [hk]; rfl) (by simp [hk]) rfl hh.1
  | sent c next =>
    simp only [hk] at hs
    cases Option.some.inj hs
    exact h.delete hk
  | move next =>
    simp only [hk] at hs hh
    cases Option.some.inj hs
    refine h.keepLock (by rw [hk]; rfl) (by simp [hk]) rfl ⟨hh.1, ?_⟩
    rintro c rfl
    refine ⟨hh.2 c rfl, ?_⟩
    intro d hd
    rw [Option.bind_some, listNext_head (hh.2 c rfl)] at hd
    exact hd
  | unlock =>
    simp only [hk] at hs hc
    cases Option.some.inj hs
    exact h.giveBack (by simp [hk]) (by simp [hk]) (by rw [hk]; rfl) hc

end DanubeBsp
