import DanubeBsp.Backlog
import DanubeBsp.BacklogQueue

namespace DanubeBsp

/-- The packets in the order in which they leave: those in the FIFO, then those that wait. -/
def BklogState.order (s : BklogState) : List Nat :=
  s.written ++ s.backlog.filter fun c => c ∉ s.written

/-- The context has read a link for an update of the list or has not yet counted the update. -/
def SendPc.updating : SendPc → Bool
  | .addNextPrev _ => true
  | .addNewNext _ => true
  | .addNewPrev _ => true
  | .addPrevNext _ => true
  | .count => true
  | .delEntry _ _ _ => true
  | .delNextPrev _ _ _ _ => true
  | .delPrevNext _ _ _ _ => true
  | .poisonNext _ _ => true
  | .poisonPrev _ _ => true
  | .uncount _ => true
  | _ => false

/-- The next step belongs to an update of the list or of `bklog_pkts`, or reads `bklog_pkts`. -/
def SendPc.touches (p : SendPc) : Bool :=
  p.updating ||
    match p with
    | .addTail => true
    | .del _ _ => true
    | .flushStarted => true
    | _ => false

/-- No other context is in an update. -/
def BklogState.AloneAt (s : BklogState) (k : Nat) : Prop :=
  ∀ j, j ≠ k → (s.pc j).updating = false

/-- An accepted packet is in the FIFO or waits, once; a refused one is in neither; a call that starts
after another one has returned `OK` is written after it; outside of an update the list is sound in
both directions and the counter is exact; nobody goes through `NULL`. -/
structure BacklogOk (s : BklogState) : Prop where
  next : Linked s.links.next .head s.backlog .head
  settled : (∀ k, (s.pc k).updating = false) →
    IsList s.links s.backlog ∧ s.bklogPkts = s.backlog.length
  once : s.written.Nodup ∧ s.backlog.Nodup
  accepted : ∀ k, s.isSend k = true → s.pc k = .returned true → s.order.count k = 1
  refused : ∀ k, s.isSend k = true → s.pc k = .returned false → k ∉ s.written ∧ k ∉ s.backlog
  ordered : ∀ q ∈ s.written, ∀ p ∈ s.before q, [p, q].Sublist s.written
  noNull : ∀ k, (s.pc k).target ≠ .null

/-- A call that has put its packet on the backlog finds the lock free. -/
def LockFree (s : BklogState) : BklogEvent → Prop
  | .advance k _ => s.isSend k = true → s.pc k = .tryLock → s.bklogQLock = 1
  | _ => True

/-- While a context is in an update, no other one updates the list or asks for its length. -/
def UpdatesAlone (s : BklogState) : BklogEvent → Prop
  | .advance k _ =>
    (s.pc k).touches = true → ∀ j < s.calls, j ≠ k → (s.pc j).updating = false
  | _ => True

def BacklogAlone (s : BklogState) (e : BklogEvent) : Prop := LockFree s e ∧ UpdatesAlone s e

instance (s : BklogState) : (e : BklogEvent) → Decidable (LockFree s e)
  | .advance k _ =>
    inferInstanceAs (Decidable (s.isSend k = true → s.pc k = .tryLock → s.bklogQLock = 1))
  | .send => .isTrue trivial
  | .flush => .isTrue trivial

instance (s : BklogState) : (e : BklogEvent) → Decidable (UpdatesAlone s e)
  | .advance k _ =>
    inferInstanceAs (Decidable ((s.pc k).touches = true →
      ∀ j < s.calls, j ≠ k → (s.pc j).updating = false))
  | .send => .isTrue trivial
  | .flush => .isTrue trivial

instance (s : BklogState) (e : BklogEvent) : Decidable (BacklogAlone s e) :=
  inferInstanceAs (Decidable (LockFree s e ∧ UpdatesAlone s e))

/-- Where the queue stands. A packet is appended with the store of `prev->next` in `__list_add` and
removed with the one in `__list_del`. -/
def SendPc.phase : SendPc → SendPhase
  | .idle => .idle
  | .started => .started
  | .direct => .direct
  | .enqueue => .enqueue
  | .addTail => .enqueue
  | .addNextPrev _ => .enqueue
  | .addNewNext _ => .enqueue
  | .addNewPrev _ => .enqueue
  | .addPrevNext _ => .enqueue
  | .count => .tryLock
  | .flushStarted => .flushStarted
  | .tryLock => .tryLock
  | .backOff => .backOff
  | .locked => .locked
  | .load pos => .move pos.elem?
  | .iter (.elem c) next => .iter (some c) next.elem?
  | .iter _ _ => .iter none none
  | .del c next => .sent c next.elem?
  | .delEntry c _ next => .sent c next.elem?
  | .delNextPrev c _ _ next => .sent c next.elem?
  | .delPrevNext c _ _ next => .sent c next.elem?
  | .poisonNext _ next => .move next.elem?
  | .poisonPrev _ next => .move next.elem?
  | .uncount next => .move next.elem?
  | .unlock => .unlock
  | .returned ok => .returned ok

/-- The pointers of `list_for_each_safe` that a context holds. -/
def SendPc.HasPtrs : SendPc → Prop
  | .load pos => pos ≠ .null
  | .iter curr next => curr ≠ .null ∧ next ≠ .null
  | .del _ next => next ≠ .null
  | .delEntry _ entryNext next => entryNext ≠ .null ∧ next ≠ .null
  | .delNextPrev _ _ entryNext next => entryNext ≠ .null ∧ next ≠ .null
  | .delPrevNext _ entryPrev _ next => entryPrev ≠ .null ∧ next ≠ .null
  | .poisonNext _ next => next ≠ .null
  | .poisonPrev _ next => next ≠ .null
  | .uncount next => next ≠ .null
  | .addPrevNext prev => prev ≠ .null
  | _ => True

theorem SendPc.HasPtrs.target {p : SendPc} (h : p.HasPtrs) : p.target ≠ .null := by
  cases p with
  | addPrevNext prev => exact h
  | load pos => exact h
  | iter curr next => exact h.1
  | delNextPrev curr entryPrev entryNext next => exact h.1
  | delPrevNext curr entryPrev entryNext next => exact h.1
  | _ => exact fun hc => by cases hc

/-- What holds of the `prev` links and of the counter while context `k` is at `p`, for a queue with
the packets `l` and the count `n`. -/
def LinksAt (f : Links Nat) (pkts : Int) (l : List Nat) (n : Int) (k : Nat) : SendPc → Prop
  | .addNextPrev p => pkts = n ∧ Linked f.prev .head l.reverse .head ∧ f.prev .head = p
  | .addNewNext p => pkts = n ∧ f.prev .head = .elem k ∧
      Linked (Function.update f.prev .head p) .head l.reverse .head
  | .addNewPrev p => pkts = n ∧ f.prev .head = .elem k ∧
      Linked (Function.update f.prev .head p) .head l.reverse .head ∧ f.next (.elem k) = .head
  | .addPrevNext p => pkts = n ∧ f.prev .head = .elem k ∧
      Linked (Function.update f.prev .head p) .head l.reverse .head ∧ f.next (.elem k) = .head ∧
      f.prev (.elem k) = p
  | .count => pkts + 1 = n ∧ Linked f.prev .head l.reverse .head
  | .delEntry _ a _ => pkts = n ∧ Linked f.prev .head l.reverse .head ∧ a = firstPtr l.tail
  | .delNextPrev _ p a _ => pkts = n ∧ Linked f.prev .head l.reverse .head ∧
      a = firstPtr l.tail ∧ p = .head
  | .delPrevNext _ p a _ => pkts = n ∧ Linked f.prev .head l.tail.reverse .head ∧
      a = firstPtr l.tail ∧ p = .head
  | .poisonNext c _ => pkts = n + 1 ∧ Linked f.prev .head l.reverse .head ∧ c ∉ l
  | .poisonPrev c _ => pkts = n + 1 ∧ Linked f.prev .head l.reverse .head ∧ c ∉ l
  | .uncount _ => pkts = n + 1 ∧ Linked f.prev .head l.reverse .head
  | _ => pkts = n ∧ Linked f.prev .head l.reverse .head

/-- The state of the driver `s` and the queue `q` that it stands for. -/
structure Refines (s : BklogState) (q : BklogQueue) : Prop where
  written : q.written = s.written
  lock : q.bklogQLock = s.bklogQLock
  calls : q.calls = s.calls
  isSend : q.isSend = s.isSend
  before : q.before = s.before
  phase : ∀ k, q.phase k = (s.pc k).phase
  next : Linked s.links.next .head q.backlog .head
  ptrs : ∀ k, (s.pc k).HasPtrs
  alone : ∀ j k, (s.pc j).updating = true → (s.pc k).updating = true → j = k
  window : ∀ k, s.AloneAt k →
    LinksAt s.links s.bklogPkts q.backlog q.bklogPkts k (s.pc k)

theorem linksAt_quiet {f : Links Nat} {pkts n : Int} {l : List Nat} {k : Nat} {p : SendPc}
    (hp : p.updating = false) :
    LinksAt f pkts l n k p ↔ pkts = n ∧ Linked f.prev .head l.reverse .head := by
  cases p <;> first | exact Iff.rfl | cases hp

/-- Stores into an element that another context has not yet added. -/
theorem LinksAt.frame {f g : Links Nat} {pkts n : Int} {l : List Nat} {i k : Nat} {p : SendPc}
    (hik : i ≠ k) (hk : k ∉ l) (hnext : ∀ x, x ≠ .elem k → g.next x = f.next x)
    (hprev : ∀ x, x ≠ .elem k → g.prev x = f.prev x) (h : LinksAt f pkts l n i p) :
    LinksAt g pkts l n i p := by
  have hne : ListPtr.elem i ≠ .elem k := fun he => hik (ListPtr.elem.inj he)
  have hhead : ListPtr.head ≠ .elem k := (elem_ne_head k).symm
  have hmem : ∀ {m : List Nat}, m ⊆ l → ∀ a ∈ m.reverse, ListPtr.elem a ≠ .elem k := by
    intro m hm a ha he
    cases he
    exact hk (hm (List.mem_reverse.mp ha))
  have hlist : ∀ {m : List Nat}, m ⊆ l → Linked f.prev .head m.reverse .head →
      Linked g.prev .head m.reverse .head := by
    intro m hm hl
    exact hl.congr (hprev _ hhead) fun a ha => hprev _ (hmem hm a ha)
  have hself := List.Subset.refl l
  have hold : ∀ {q : ListPtr Nat}, Linked (Function.update f.prev .head q) .head l.reverse .head →
      Linked (Function.update g.prev .head q) .head l.reverse .head := by
    intro q hl
    refine hl.congr ?_ ?_
    · rw [Function.update_self, Function.update_self]
    · intro a ha
      rw [Function.update_of_ne (elem_ne_head a), Function.update_of_ne (elem_ne_head a)]
      exact hprev _ (hmem hself a ha)
  cases p with
  | addNextPrev q => exact ⟨h.1, hlist hself h.2.1, (hprev _ hhead).trans h.2.2⟩
  | addNewNext q => exact ⟨h.1, (hprev _ hhead).trans h.2.1, hold h.2.2⟩
  | addNewPrev q =>
    obtain ⟨hn, hh, hl, hnew⟩ := h
    exact ⟨hn, (hprev _ hhead).trans hh, hold hl, (hnext _ hne).trans hnew⟩
  | addPrevNext q =>
    obtain ⟨hn, hh, hl, hnew, hback⟩ := h
    exact ⟨hn, (hprev _ hhead).trans hh, hold hl, (hnext _ hne).trans hnew,
      (hprev _ hne).trans hback⟩
  | delEntry c a next => exact ⟨h.1, hlist hself h.2.1, h.2.2⟩
  | delNextPrev c q a next => exact ⟨h.1, hlist hself h.2.1, h.2.2⟩
  | delPrevNext c q a next => exact ⟨h.1, hlist (List.tail_subset l) h.2.1, h.2.2⟩
  | poisonNext c next => exact ⟨h.1, hlist hself h.2.1, h.2.2⟩
  | poisonPrev c next => exact ⟨h.1, hlist hself h.2.1, h.2.2⟩
  | _ => exact ⟨h.1, hlist hself h.2⟩

/-- What a step of context `k` to `p` has to show. -/
theorem Refines.move {s t : BklogState} {q r : BklogQueue} {k : Nat} {p : SendPc}
    (h : Refines s q)
    (ht : t.pc = Function.update s.pc k p ∧ t.calls = s.calls ∧ t.isSend = s.isSend ∧
      t.before = s.before)
    (hr : r.phase = Function.update q.phase k p.phase ∧ r.calls = q.calls ∧ r.isSend = q.isSend ∧
      r.before = q.before)
    (hwritten : r.written = t.written) (hlock : r.bklogQLock = t.bklogQLock)
    (hnext : Linked t.links.next .head r.backlog .head) (hptrs : p.HasPtrs)
    (halone : p.updating = true →
      (s.pc k).updating = true ∨ s.AloneAt k)
    (hself : s.AloneAt k →
      LinksAt t.links t.bklogPkts r.backlog r.bklogPkts k p)
    (hothers : ∀ i, i ≠ k → p.updating = false →
      (∀ j, j ≠ i → j ≠ k → (s.pc j).updating = false) →
      LinksAt t.links t.bklogPkts r.backlog r.bklogPkts i (s.pc i)) : Refines t r := by
  obtain ⟨hpc, htcalls, htsend, htbefore⟩ := ht
  obtain ⟨hphase, hrcalls, hrsend, hrbefore⟩ := hr
  have hupd : ∀ j, j ≠ k → t.pc j = s.pc j := by
    intro j hj
    rw [hpc, Function.update_of_ne hj]
  have hupdk : t.pc k = p := by rw [hpc, Function.update_self]
  refine
    { written := hwritten, lock := hlock, calls := ?_, isSend := ?_, before := ?_, phase := ?_,
      next := hnext, ptrs := ?_, alone := ?_, window := ?_ }
  · rw [hrcalls, htcalls, h.calls]
  · rw [hrsend, htsend, h.isSend]
  · rw [hrbefore, htbefore, h.before]
  · intro j
    rw [hphase]
    by_cases hj : j = k
    · subst hj
      rw [Function.update_self, hupdk]
    · rw [Function.update_of_ne hj, hupd j hj, h.phase]
  · intro j
    by_cases hj : j = k
    · subst hj
      rw [hupdk]
      exact hptrs
    · rw [hupd j hj]
      exact h.ptrs j
  · -- a context that begins an update finds no other one in an update
    have hnew : ∀ j, j ≠ k → p.updating = true → (s.pc j).updating = true → False := by
      intro j hj hp hju
      rcases halone hp with hk | hno
      · exact hj (h.alone j k hju hk)
      · rw [hno j hj] at hju
        exact Bool.false_ne_true hju
    intro i j hi hj
    by_cases hik : i = k <;> by_cases hjk : j = k
    · rw [hik, hjk]
    · rw [hik, hupdk] at hi
      rw [hupd j hjk] at hj
      exact (hnew j hjk hi hj).elim
    · rw [hjk, hupdk] at hj
      rw [hupd i hik] at hi
      exact (hnew i hik hj hi).elim
    · rw [hupd i hik] at hi
      rw [hupd j hjk] at hj
      exact h.alone i j hi hj
  · intro i hi
    by_cases hik : i = k
    · subst hik
      rw [hupdk]
      apply hself
      intro j hj
      rw [← hupd j hj]
      exact hi j hj
    · rw [hupd i hik]
      apply hothers i hik
      · rw [← hupdk]
        exact hi k (Ne.symm hik)
      · intro j hji hjk
        rw [← hupd j hjk]
        exact hi j hji

/-- A step of a context that is alone with its update. -/
theorem Refines.touch {s t : BklogState} {q r : BklogQueue} {k : Nat} {p : SendPc}
    (h : Refines s q) (hno : s.AloneAt k)
    (ht : t.pc = Function.update s.pc k p ∧ t.calls = s.calls ∧ t.isSend = s.isSend ∧
      t.before = s.before)
    (hr : r.phase = Function.update q.phase k p.phase ∧ r.calls = q.calls ∧ r.isSend = q.isSend ∧
      r.before = q.before)
    (hwritten : r.written = t.written) (hlock : r.bklogQLock = t.bklogQLock)
    (hnext : Linked t.links.next .head r.backlog .head) (hptrs : p.HasPtrs)
    (hself : LinksAt t.links t.bklogPkts r.backlog r.bklogPkts k p) : Refines t r := by
  refine h.move ht hr hwritten hlock hnext hptrs (fun _ => .inr hno) (fun _ => hself) ?_
  intro i hi hp _
  exact (linksAt_quiet (hno i hi)).mpr ((linksAt_quiet hp).mp hself)

/-- A step that leaves the list and its counter alone. -/
theorem Refines.plain {s t : BklogState} {q r : BklogQueue} {k : Nat} {p : SendPc}
    (h : Refines s q) (hk : (s.pc k).updating = false) (hp : p.updating = false)
    (ht : t.pc = Function.update s.pc k p ∧ t.calls = s.calls ∧ t.isSend = s.isSend ∧
      t.before = s.before)
    (hr : r.phase = Function.update q.phase k p.phase ∧ r.calls = q.calls ∧ r.isSend = q.isSend ∧
      r.before = q.before)
    (hwritten : r.written = t.written) (hlock : r.bklogQLock = t.bklogQLock)
    (hlinks : t.links = s.links ∧ t.bklogPkts = s.bklogPkts)
    (hqueue : r.backlog = q.backlog ∧ r.bklogPkts = q.bklogPkts) (hptrs : p.HasPtrs) :
    Refines t r := by
  refine h.move ht hr hwritten hlock ?_ hptrs ?_ ?_ ?_
  · rw [hlinks.1, hqueue.1]
    exact h.next
  · intro hpt
    rw [hp] at hpt
    cases hpt
  · intro hno
    rw [hlinks.1, hlinks.2, hqueue.1, hqueue.2, linksAt_quiet hp]
    exact (linksAt_quiet hk).mp (h.window k hno)
  · intro i hi _ hno
    rw [hlinks.1, hlinks.2, hqueue.1, hqueue.2]
    apply h.window i
    intro j hj
    by_cases hjk : j = k
    · rw [hjk]
      exact hk
    · exact hno j hj hjk

theorem Refines.same_phase {s : BklogState} {q : BklogQueue} (h : Refines s q) {k : Nat}
    {p : SendPc} (hp : (s.pc k).phase = p.phase) : q.phase = Function.update q.phase k p.phase := by
  rw [← hp, ← h.phase k, Function.update_eq_self]

theorem Refines.not_mem {s : BklogState} {q : BklogQueue} (h : Refines s q) (hi : QueueInv q)
    {k : Nat} (hk : (s.pc k).phase = .enqueue) : k ∉ q.backlog := by
  have hc := hi.call k
  rw [h.phase k, hk] at hc
  exact hc.2

/-- The element that a context has written is the first one. -/
theorem Refines.sent_head {s : BklogState} {q : BklogQueue} (h : Refines s q) (hi : QueueInv q)
    {k c : Nat} {next : Option Nat} (hk : (s.pc k).phase = .sent c next) :
    ∃ rest, q.backlog = c :: rest := by
  have hh := hi.hold k
  rw [h.phase k, hk] at hh
  exact List.head?_eq_some_iff.mp hh.2.2.1

theorem Refines.allocated {s : BklogState} {q : BklogQueue} {k : Nat}
    (h : Refines s q) (hi : QueueInv q) (hk : s.pc k = .enqueue) :
    Refines (((s.setNext (.elem k) (.elem k)).setPrev (.elem k) (.elem k)).goto k .addTail) q := by
  have hout := h.not_mem hi (k := k) (by rw [hk]; rfl)
  have hhead : ListPtr.head ≠ .elem k := (elem_ne_head k).symm
  refine h.move ⟨rfl, rfl, rfl, rfl⟩ ⟨h.same_phase (by rw [hk]; rfl), rfl, rfl, rfl⟩ h.written h.lock
    (h.next.store_out _ hhead hout) trivial (fun hp => by cases hp) ?_ ?_
  · intro hno
    have hl := h.window k hno
    rw [hk] at hl
    exact ⟨hl.1, hl.2.store_out _ hhead fun hr => hout (List.mem_reverse.mp hr)⟩
  · intro i hik _ hno
    have hl : LinksAt s.links s.bklogPkts q.backlog q.bklogPkts i (s.pc i) := by
      apply h.window i
      intro j hj
      by_cases hjk : j = k
      · rw [hjk, hk]
        rfl
      · exact hno j hj hjk
    exact hl.frame hik hout (fun x hx => Function.update_of_ne hx _ _)
      fun x hx => Function.update_of_ne hx _ _

theorem Refines.addTail {s : BklogState} {q : BklogQueue} {k : Nat}
    (h : Refines s q) (hno : s.AloneAt k) (hk : s.pc k = .addTail) :
    Refines (s.goto k (.addNextPrev (s.links.prev .head))) q := by
  have hl := h.window k hno
  rw [hk] at hl
  exact h.touch hno ⟨rfl, rfl, rfl, rfl⟩ ⟨h.same_phase (by rw [hk]; rfl), rfl, rfl, rfl⟩ h.written
    h.lock h.next trivial ⟨hl.1, hl.2, rfl⟩

theorem Refines.addNextPrev {s : BklogState} {q : BklogQueue} {k : Nat} {p : ListPtr Nat}
    (h : Refines s q) (hno : s.AloneAt k) (hk : s.pc k = .addNextPrev p) :
    Refines ((s.setPrev .head (.elem k)).goto k (.addNewNext p)) q := by
  have hl := h.window k hno
  rw [hk] at hl
  obtain ⟨hn, hl, hp⟩ := hl
  refine h.touch hno ⟨rfl, rfl, rfl, rfl⟩ ⟨h.same_phase (by rw [hk]; rfl), rfl, rfl, rfl⟩ h.written
    h.lock h.next trivial ⟨hn, ?_, ?_⟩
  · simp
  · rw [BklogState.goto_links, BklogState.setPrev_prev, Function.update_idem, ← hp,
      Function.update_eq_self]
    exact hl

theorem Refines.addNewNext {s : BklogState} {q : BklogQueue} {k : Nat} {p : ListPtr Nat}
    (h : Refines s q) (hi : QueueInv q) (hno : s.AloneAt k) (hk : s.pc k = .addNewNext p) :
    Refines ((s.setNext (.elem k) .head).goto k (.addNewPrev p)) q := by
  have hl := h.window k hno
  rw [hk] at hl
  obtain ⟨hn, hh, hl⟩ := hl
  have hout := h.not_mem hi (k := k) (by rw [hk]; rfl)
  exact h.touch hno ⟨rfl, rfl, rfl, rfl⟩ ⟨h.same_phase (by rw [hk]; rfl), rfl, rfl, rfl⟩ h.written
    h.lock (h.next.store_out _ (elem_ne_head k).symm hout) trivial ⟨hn, hh, hl, by simp⟩

theorem Refines.addNewPrev {s : BklogState} {q : BklogQueue} {k : Nat} {p : ListPtr Nat}
    (h : Refines s q) (hi : QueueInv q) (hno : s.AloneAt k) (hk : s.pc k = .addNewPrev p) :
    Refines ((s.setPrev (.elem k) p).goto k (.addPrevNext p)) q := by
  have hl := h.window k hno
  rw [hk] at hl
  obtain ⟨hn, hh, hl, hnew⟩ := hl
  have hout := h.not_mem hi (k := k) (by rw [hk]; rfl)
  have hne : ListPtr.head ≠ .elem k := (elem_ne_head k).symm
  have hp : p ≠ .null := by
    have hfirst := hl.first_eq
    rw [Function.update_self] at hfirst
    rw [hfirst]
    exact firstPtr_ne_null _
  refine h.touch hno ⟨rfl, rfl, rfl, rfl⟩ ⟨h.same_phase (by rw [hk]; rfl), rfl, rfl, rfl⟩ h.written
    h.lock h.next hp ⟨hn, ?_, ?_, hnew, by simp⟩
  · rw [BklogState.goto_links, BklogState.setPrev_prev, Function.update_of_ne hne]
    exact hh
  · rw [BklogState.goto_links, BklogState.setPrev_prev, Function.update_comm hne.symm]
    exact hl.store_out _ hne fun hr => hout (List.mem_reverse.mp hr)

/-- The store with which the new element can be reached. -/
theorem Refines.addPrevNext {s : BklogState} {q : BklogQueue} {k : Nat} {p : ListPtr Nat}
    (h : Refines s q) (hi : QueueInv q) (hno : s.AloneAt k) (hk : s.pc k = .addPrevNext p) :
    ∃ r, QueueInv r ∧ Refines ((s.setNext p (.elem k)).goto k .count) r := by
  have hl := h.window k hno
  rw [hk] at hl
  obtain ⟨hn, hh, hl, hnew, hback⟩ := hl
  have hout := h.not_mem hi (k := k) (by rw [hk]; rfl)
  have hlast : p = lastPtr .head q.backlog := by
    have hfirst := hl.first_eq
    rwa [Function.update_self, firstPtr_reverse] at hfirst
  have hph : q.phase k = .enqueue := by rw [h.phase, hk]; rfl
  refine ⟨_, hi.enqueue hph, ?_⟩
  refine h.touch hno ⟨rfl, rfl, rfl, rfl⟩ ⟨rfl, rfl, rfl, rfl⟩ h.written h.lock ?_ trivial ⟨?_, ?_⟩
  · show Linked (Function.update s.links.next p (.elem k)) .head (q.backlog ++ [k]) .head
    rw [hlast]
    exact h.next.add_next hi.once.2 hout hnew
  · show s.bklogPkts + 1 = q.bklogPkts + 1
    rw [hn]
  · exact Linked.add_prev hh hback hl

theorem Refines.count {s : BklogState} {q : BklogQueue} {k : Nat}
    (h : Refines s q) (hno : s.AloneAt k) (hk : s.pc k = .count) :
    Refines { s.goto k .tryLock with bklogPkts := s.bklogPkts + 1 } q := by
  have hl := h.window k hno
  rw [hk] at hl
  exact h.touch hno ⟨rfl, rfl, rfl, rfl⟩ ⟨h.same_phase (by rw [hk]; rfl), rfl, rfl, rfl⟩ h.written
    h.lock h.next trivial hl

theorem Refines.del {s : BklogState} {q : BklogQueue} {k c : Nat} {next : ListPtr Nat}
    (h : Refines s q) (hi : QueueInv q) (hno : s.AloneAt k) (hk : s.pc k = .del c next) :
    Refines (s.goto k (.delEntry c (s.links.next (.elem c)) next)) q := by
  have hl := h.window k hno
  have hptrs := h.ptrs k
  rw [hk] at hl hptrs
  obtain ⟨rest, hb⟩ := h.sent_head hi (k := k) (by rw [hk]; rfl)
  have hfirst : s.links.next (.elem c) = firstPtr q.backlog.tail := by
    have hn := h.next
    rw [hb] at hn ⊢
    exact hn.2.first_eq
  refine h.touch hno ⟨rfl, rfl, rfl, rfl⟩ ⟨h.same_phase (by rw [hk]; rfl), rfl, rfl, rfl⟩ h.written
    h.lock h.next ⟨?_, hptrs⟩ ⟨hl.1, hl.2, hfirst⟩
  rw [hfirst]
  exact firstPtr_ne_null _

theorem Refines.delEntry {s : BklogState} {q : BklogQueue} {k c : Nat} {a next : ListPtr Nat}
    (h : Refines s q) (hi : QueueInv q) (hno : s.AloneAt k) (hk : s.pc k = .delEntry c a next) :
    Refines (s.goto k (.delNextPrev c (s.links.prev (.elem c)) a next)) q := by
  have hl := h.window k hno
  have hptrs := h.ptrs k
  rw [hk] at hl hptrs
  obtain ⟨hn, hl, ha⟩ := hl
  obtain ⟨rest, hb⟩ := h.sent_head hi (k := k) (by rw [hk]; rfl)
  have hnd := hi.once.2
  have hlist : IsList s.links q.backlog := ⟨h.next, hl⟩
  rw [hb] at hnd hlist
  have hprev := (hlist.del_prev (List.nodup_cons.mp hnd).2).2.1
  exact h.touch hno ⟨rfl, rfl, rfl, rfl⟩ ⟨h.same_phase (by rw [hk]; rfl), rfl, rfl, rfl⟩ h.written
    h.lock h.next hptrs ⟨hn, hl, ha, hprev⟩

theorem Refines.delNextPrev {s : BklogState} {q : BklogQueue} {k c : Nat} {p a next : ListPtr Nat}
    (h : Refines s q) (hi : QueueInv q) (hno : s.AloneAt k)
    (hk : s.pc k = .delNextPrev c p a next) :
    Refines ((s.setPrev a p).goto k (.delPrevNext c p a next)) q := by
  have hl := h.window k hno
  have hptrs := h.ptrs k
  rw [hk] at hl hptrs
  obtain ⟨hn, hl, ha, hp⟩ := hl
  obtain ⟨rest, hb⟩ := h.sent_head hi (k := k) (by rw [hk]; rfl)
  have hnd := hi.once.2
  have hlist : IsList s.links q.backlog := ⟨h.next, hl⟩
  rw [hb] at hnd hlist
  have hprev := (hlist.del_prev (List.nodup_cons.mp hnd).2).2.2
  refine h.touch hno ⟨rfl, rfl, rfl, rfl⟩ ⟨h.same_phase (by rw [hk]; rfl), rfl, rfl, rfl⟩ h.written
    h.lock h.next ⟨?_, hptrs.2⟩ ⟨hn, ?_, ha, hp⟩
  · rw [hp]
    exact nofun
  · rw [BklogState.goto_links, BklogState.setPrev_prev, ha, hp, hb]
    exact hprev

/-- The store after which the element cannot be reached. -/
theorem Refines.delPrevNext {s : BklogState} {q : BklogQueue} {k c : Nat} {p a next : ListPtr Nat}
    (h : Refines s q) (hi : QueueInv q) (hno : s.AloneAt k)
    (hk : s.pc k = .delPrevNext c p a next) :
    ∃ r, QueueInv r ∧ Refines ((s.setNext p a).goto k (.poisonNext c next)) r := by
  have hl := h.window k hno
  have hptrs := h.ptrs k
  rw [hk] at hl hptrs
  obtain ⟨hn, hl, ha, hp⟩ := hl
  obtain ⟨rest, hb⟩ := h.sent_head hi (k := k) (by rw [hk]; rfl)
  have hph : q.phase k = .sent c next.elem? := by rw [h.phase, hk]; rfl
  have her : q.backlog.erase c = rest := by rw [hb, List.erase_cons_head]
  have hnd := hi.once.2
  have hnext := h.next
  rw [hb] at hnd hnext hl ha
  refine ⟨_, hi.delete hph, ?_⟩
  refine h.touch hno ⟨rfl, rfl, rfl, rfl⟩ ⟨rfl, rfl, rfl, rfl⟩ h.written h.lock ?_ hptrs.2
    ⟨?_, ?_, ?_⟩
  · show Linked (Function.update s.links.next p a) .head (q.backlog.erase c) .head
    rw [her, hp, ha]
    exact hnext.del_next
  · show s.bklogPkts = q.bklogPkts - 1 + 1
    omega
  · show Linked s.links.prev .head (q.backlog.erase c).reverse .head
    rw [her]
    exact hl
  · show c ∉ q.backlog.erase c
    rw [her]
    exact (List.nodup_cons.mp hnd).1

theorem Refines.poisonNext {s : BklogState} {q : BklogQueue} {k c : Nat} {next : ListPtr Nat}
    (h : Refines s q) (hno : s.AloneAt k) (hk : s.pc k = .poisonNext c next) :
    Refines ((s.setNext (.elem c) .null).goto k (.poisonPrev c next)) q := by
  have hl := h.window k hno
  have hptrs := h.ptrs k
  rw [hk] at hl hptrs
  exact h.touch hno ⟨rfl, rfl, rfl, rfl⟩ ⟨h.same_phase (by rw [hk]; rfl), rfl, rfl, rfl⟩ h.written
    h.lock (h.next.store_out _ (elem_ne_head c).symm hl.2.2) hptrs hl

theorem Refines.poisonPrev {s : BklogState} {q : BklogQueue} {k c : Nat} {next : ListPtr Nat}
    (h : Refines s q) (hno : s.AloneAt k) (hk : s.pc k = .poisonPrev c next) :
    Refines ((s.setPrev (.elem c) .null).goto k (.uncount next)) q := by
  have hl := h.window k hno
  have hptrs := h.ptrs k
  rw [hk] at hl hptrs
  obtain ⟨hn, hl, hc⟩ := hl
  exact h.touch hno ⟨rfl, rfl, rfl, rfl⟩ ⟨h.same_phase (by rw [hk]; rfl), rfl, rfl, rfl⟩ h.written
    h.lock h.next hptrs
    ⟨hn, hl.store_out _ (elem_ne_head c).symm fun hr => hc (List.mem_reverse.mp hr)⟩

theorem Refines.uncount {s : BklogState} {q : BklogQueue} {k : Nat} {next : ListPtr Nat}
    (h : Refines s q) (hno : s.AloneAt k) (hk : s.pc k = .uncount next) :
    Refines { s.goto k (.load next) with bklogPkts := s.bklogPkts - 1 } q := by
  have hl := h.window k hno
  have hptrs := h.ptrs k
  rw [hk] at hl hptrs
  refine h.touch hno ⟨rfl, rfl, rfl, rfl⟩ ⟨h.same_phase (by rw [hk]; rfl), rfl, rfl, rfl⟩ h.written
    h.lock h.next hptrs ⟨?_, hl.2⟩
  have hn := hl.1
  show s.bklogPkts - 1 = q.bklogPkts
  omega

/-- The queue makes the same step. -/
theorem Refines.queue_inv {s : BklogState} {q r : BklogQueue} {k : Nat} {p : SendPhase}
    (h : Refines s q) (hi : QueueInv q) (ok : Bool) (hk : (s.pc k).phase = p)
    (hfree : s.isSend k = true → p = .tryLock → s.bklogQLock = 1)
    (hr : q.phase k = p → queueAdvance q k ok = some r) : QueueInv r := by
  have hph : q.phase k = p := (h.phase k).trans hk
  refine queueAdvance_inv hi ?_ (hr hph)
  intro hsend htry
  rw [h.lock]
  rw [h.isSend] at hsend
  exact hfree hsend (hph.symm.trans htry)

theorem Refines.started {s : BklogState} {q : BklogQueue} {k : Nat} (h : Refines s q)
    (hi : QueueInv q) (hk : s.pc k = .started) :
    ∃ r, QueueInv r ∧
      Refines (s.goto k (if s.links.next .head = .head then .direct else .enqueue)) r := by
  have hu : (s.pc k).updating = false := by rw [hk]; rfl
  refine ⟨q.setPhase k (if q.backlog.isEmpty then .direct else .enqueue), ?_, ?_⟩
  · refine h.queue_inv hi true (k := k) (p := .started) (by rw [hk]; rfl) (by simp) ?_
    intro hph
    simp [queueAdvance, hph]
  · have hiff : s.links.next .head = .head ↔ q.backlog.isEmpty = true := by
      rw [h.next.first_eq, firstPtr_eq_head, List.isEmpty_iff]
    by_cases he : q.backlog.isEmpty = true
    · rw [if_pos he, if_pos (hiff.mpr he)]
      exact h.plain hu rfl ⟨rfl, rfl, rfl, rfl⟩ ⟨rfl, rfl, rfl, rfl⟩ h.written h.lock ⟨rfl, rfl⟩
        ⟨rfl, rfl⟩ trivial
    · rw [if_neg he, if_neg fun hh => he (hiff.mp hh)]
      exact h.plain hu rfl ⟨rfl, rfl, rfl, rfl⟩ ⟨rfl, rfl, rfl, rfl⟩ h.written h.lock ⟨rfl, rfl⟩
        ⟨rfl, rfl⟩ trivial

theorem Refines.flushStarted {s : BklogState} {q : BklogQueue} {k : Nat} (h : Refines s q)
    (hi : QueueInv q) (hno : s.AloneAt k) (hk : s.pc k = .flushStarted) :
    ∃ r, QueueInv r ∧
      Refines (s.goto k (if s.bklogPkts ≠ 0 then .tryLock else .returned true)) r := by
  have hu : (s.pc k).updating = false := by rw [hk]; rfl
  have hl := h.window k hno
  rw [hk] at hl
  refine ⟨q.setPhase k (if q.bklogPkts ≠ 0 then .tryLock else .returned true), ?_, ?_⟩
  · refine h.queue_inv hi true (k := k) (p := .flushStarted) (by rw [hk]; rfl) (by simp) ?_
    intro hph
    simp [queueAdvance, hph]
  · rw [← hl.1]
    split <;>
      exact h.plain hu rfl ⟨rfl, rfl, rfl, rfl⟩ ⟨rfl, rfl, rfl, rfl⟩ h.written h.lock ⟨rfl, rfl⟩
        ⟨rfl, rfl⟩ trivial

theorem Refines.tryLock {s : BklogState} {q : BklogQueue} {k : Nat} (h : Refines s q)
    (hi : QueueInv q) (hfree : s.isSend k = true → s.bklogQLock = 1) (hk : s.pc k = .tryLock) :
    ∃ r, QueueInv r ∧
      Refines { s.goto k (if s.bklogQLock - 1 = 0 then .locked else .backOff) with
        bklogQLock := s.bklogQLock - 1 } r := by
  have hu : (s.pc k).updating = false := by rw [hk]; rfl
  refine ⟨{ q.setPhase k (if q.bklogQLock - 1 = 0 then .locked else .backOff) with
      bklogQLock := q.bklogQLock - 1 }, ?_, ?_⟩
  · refine h.queue_inv hi true (k := k) (p := .tryLock) (by rw [hk]; rfl) (fun hs _ => hfree hs) ?_
    intro hph
    simp [queueAdvance, hph]
  · rw [h.lock]
    split <;>
      exact h.plain hu rfl ⟨rfl, rfl, rfl, rfl⟩ ⟨rfl, rfl, rfl, rfl⟩ h.written rfl ⟨rfl, rfl⟩
        ⟨rfl, rfl⟩ trivial

/-- `pos = next, next = pos->next` of `list_for_each_safe`. -/
theorem Refines.load {s : BklogState} {q : BklogQueue} {k : Nat} {pos : ListPtr Nat}
    (h : Refines s q) (hi : QueueInv q) (hk : s.pc k = .load pos) :
    ∃ r, QueueInv r ∧ Refines (s.goto k (.iter pos (s.links.next pos))) r := by
  have hu : (s.pc k).updating = false := by rw [hk]; rfl
  have hpos := h.ptrs k
  have hhold := hi.hold k
  rw [h.phase, hk] at hhold
  rw [hk] at hpos
  refine ⟨q.setPhase k (.iter pos.elem? (pos.elem?.bind fun c => listNext c q.backlog)), ?_, ?_⟩
  · refine h.queue_inv hi true (k := k) (p := .move pos.elem?) (by rw [hk]; rfl) (by simp) ?_
    intro hph
    simp [queueAdvance, hph]
  · cases pos with
    | null => exact absurd rfl hpos
    | head =>
      refine h.plain hu rfl ⟨rfl, rfl, rfl, rfl⟩ ⟨rfl, rfl, rfl, rfl⟩ h.written h.lock ⟨rfl, rfl⟩
        ⟨rfl, rfl⟩ ⟨nofun, ?_⟩
      rw [h.next.first_eq]
      exact firstPtr_ne_null _
    | elem c =>
      obtain ⟨rest, hb⟩ := List.head?_eq_some_iff.mp (hhold.2 c rfl)
      have hnext := h.next
      rw [hb] at hnext
      have hfirst := hnext.2.first_eq
      have hstep : listNext c q.backlog = (s.links.next (.elem c)).elem? := by
        rw [listNext_head (hhold.2 c rfl), hfirst, firstPtr_elem?, hb, List.tail_cons]
      refine h.plain hu rfl ⟨rfl, rfl, rfl, rfl⟩ ⟨?_, rfl, rfl, rfl⟩ h.written h.lock ⟨rfl, rfl⟩
        ⟨rfl, rfl⟩ ⟨nofun, ?_⟩
      · show Function.update q.phase k (.iter (some c) (listNext c q.backlog)) = _
        rw [hstep]
        rfl
      · rw [hfirst]
        exact firstPtr_ne_null _

/-- The body of the loop: the packet goes out, or the flush ends. -/
theorem Refines.iter {s t : BklogState} {q : BklogQueue} {k : Nat} {ok : Bool}
    {curr next : ListPtr Nat} (h : Refines s q) (hi : QueueInv q) (hk : s.pc k = .iter curr next)
    (hs : advance s k ok = some t) : ∃ r, QueueInv r ∧ Refines t r := by
  have hu : (s.pc k).updating = false := by rw [hk]; rfl
  have hptrs := h.ptrs k
  rw [hk] at hptrs
  cases curr with
  | null => exact absurd rfl hptrs.1
  | head =>
    simp only [advance, hk, SendPc.target, reduceCtorEq, if_false] at hs
    cases Option.some.inj hs
    refine ⟨q.setPhase k .unlock, ?_, ?_⟩
    · refine h.queue_inv hi true (k := k) (p := .iter none none) (by rw [hk]; rfl) (by simp) ?_
      intro hph
      simp [queueAdvance, hph]
    · exact h.plain hu rfl ⟨rfl, rfl, rfl, rfl⟩ ⟨rfl, rfl, rfl, rfl⟩ h.written h.lock ⟨rfl, rfl⟩
        ⟨rfl, rfl⟩ trivial
  | elem c =>
    simp only [advance, hk, SendPc.target, reduceCtorEq, if_false] at hs
    have hph : (s.pc k).phase = .iter (some c) next.elem? := by rw [hk]; rfl
    cases ok with
    | true =>
      cases Option.some.inj hs
      refine ⟨{ q.setPhase k (.sent c next.elem?) with written := q.written ++ [c] }, ?_, ?_⟩
      · refine h.queue_inv hi true hph (by simp) ?_
        intro hph
        simp [queueAdvance, hph]
      · refine h.plain hu rfl ⟨rfl, rfl, rfl, rfl⟩ ⟨rfl, rfl, rfl, rfl⟩ ?_ h.lock ⟨rfl, rfl⟩
          ⟨rfl, rfl⟩ hptrs.2
        show q.written ++ [c] = s.written ++ [c]
        rw [h.written]
    | false =>
      cases Option.some.inj hs
      refine ⟨q.setPhase k .unlock, ?_, ?_⟩
      · refine h.queue_inv hi false hph (by simp) ?_
        intro hph
        simp [queueAdvance, hph]
      · exact h.plain hu rfl ⟨rfl, rfl, rfl, rfl⟩ ⟨rfl, rfl, rfl, rfl⟩ h.written h.lock ⟨rfl, rfl⟩
          ⟨rfl, rfl⟩ trivial

theorem Refines.direct {s : BklogState} {q : BklogQueue} {k : Nat} (h : Refines s q)
    (hi : QueueInv q) (hk : s.pc k = .direct) :
    ∃ r, QueueInv r ∧
      Refines { s.goto k (.returned true) with written := s.written ++ [k] } r := by
  have hu : (s.pc k).updating = false := by rw [hk]; rfl
  refine ⟨{ q.setPhase k (.returned true) with written := q.written ++ [k] }, ?_, ?_⟩
  · refine h.queue_inv hi true (k := k) (p := .direct) (by rw [hk]; rfl) (by simp) ?_
    intro hph
    simp [queueAdvance, hph]
  · refine h.plain hu rfl ⟨rfl, rfl, rfl, rfl⟩ ⟨rfl, rfl, rfl, rfl⟩ ?_ h.lock ⟨rfl, rfl⟩ ⟨rfl, rfl⟩
      trivial
    show q.written ++ [k] = s.written ++ [k]
    rw [h.written]

theorem Refines.locked {s : BklogState} {q : BklogQueue} {k : Nat} (h : Refines s q)
    (hi : QueueInv q) (hk : s.pc k = .locked) :
    ∃ r, QueueInv r ∧ Refines (s.goto k (.load (s.links.next .head))) r := by
  have hu : (s.pc k).updating = false := by rw [hk]; rfl
  have hfirst := h.next.first_eq
  refine ⟨q.setPhase k (.move q.backlog.head?), ?_, ?_⟩
  · refine h.queue_inv hi true (k := k) (p := .locked) (by rw [hk]; rfl) (by simp) ?_
    intro hph
    simp [queueAdvance, hph]
  · refine h.plain hu rfl ⟨rfl, rfl, rfl, rfl⟩ ⟨?_, rfl, rfl, rfl⟩ h.written h.lock ⟨rfl, rfl⟩
      ⟨rfl, rfl⟩ ?_
    · show Function.update q.phase k (.move q.backlog.head?) = _
      rw [SendPc.phase, hfirst, firstPtr_elem?]
    · show s.links.next .head ≠ .null
      rw [hfirst]
      exact firstPtr_ne_null _

/-- The steps that give the lock back and return. -/
theorem Refines.giveBack {s : BklogState} {q : BklogQueue} {k : Nat} (h : Refines s q)
    (hi : QueueInv q) (ok : Bool) (hk : s.pc k = (if ok then .unlock else .backOff)) :
    ∃ r, QueueInv r ∧
      Refines { s.goto k (.returned ok) with bklogQLock := s.bklogQLock + 1 } r := by
  have hu : (s.pc k).updating = false := by rw [hk]; cases ok <;> rfl
  refine ⟨{ q.setPhase k (.returned ok) with bklogQLock := q.bklogQLock + 1 }, ?_, ?_⟩
  · refine h.queue_inv hi true (k := k) (p := if ok then .unlock else .backOff)
      (by rw [hk]; cases ok <;> rfl) (by cases ok <;> simp) ?_
    intro hph
    cases ok <;> simp_all [queueAdvance]
  · refine h.plain hu rfl ⟨rfl, rfl, rfl, rfl⟩ ⟨rfl, rfl, rfl, rfl⟩ h.written ?_ ⟨rfl, rfl⟩
      ⟨rfl, rfl⟩ trivial
    show q.bklogQLock + 1 = s.bklogQLock + 1
    rw [h.lock]

/-- `ifx_mps_data_send2` or `kmalloc` has failed, and the list is as it was. -/
theorem Refines.refused {s : BklogState} {q : BklogQueue} {k : Nat} {p : SendPc} (h : Refines s q)
    (hi : QueueInv q)
    (hk : s.pc k = .direct ∧ p = .enqueue ∨ s.pc k = .enqueue ∧ p = .returned false) :
    ∃ r, QueueInv r ∧ Refines (s.goto k p) r := by
  have hu : (s.pc k).updating = false ∧ p.updating = false ∧ p.HasPtrs := by
    rcases hk with ⟨hk, rfl⟩ | ⟨hk, rfl⟩ <;> rw [hk] <;> exact ⟨rfl, rfl, trivial⟩
  refine ⟨q.setPhase k p.phase, ?_, ?_⟩
  · refine h.queue_inv hi false (k := k) (p := (s.pc k).phase) rfl ?_ ?_
    · rcases hk with ⟨hk, rfl⟩ | ⟨hk, rfl⟩ <;> rw [hk] <;> exact fun _ => nofun
    · intro hph
      rcases hk with ⟨hk, rfl⟩ | ⟨hk, rfl⟩ <;> rw [hk] at hph <;>
        simp [queueAdvance, hph, SendPc.phase]
  · exact h.plain hu.1 hu.2.1 ⟨rfl, rfl, rfl, rfl⟩ ⟨rfl, rfl, rfl, rfl⟩ h.written h.lock ⟨rfl, rfl⟩
      ⟨rfl, rfl⟩ hu.2.2

theorem Refines.aloneAt {s : BklogState} {q : BklogQueue} {k : Nat} {ok : Bool} (h : Refines s q)
    (hi : QueueInv q) (halone : UpdatesAlone s (.advance k ok)) (hk : (s.pc k).touches = true) :
    s.AloneAt k := by
  intro j hj
  by_cases hlt : j < s.calls
  · exact halone hk j hlt hj
  · have hidle := hi.fresh j (by rw [h.calls]; omega)
    rw [h.phase] at hidle
    cases hpc : s.pc j <;> first | rfl | (rw [hpc] at hidle; cases hidle)

theorem advance_refines {s t : BklogState} {q : BklogQueue} {k : Nat} {ok : Bool} (h : Refines s q)
    (hi : QueueInv q) (hok : BacklogAlone s (.advance k ok)) (hs : advance s k ok = some t) :
    ∃ r, QueueInv r ∧ Refines t r := by
  obtain ⟨hfree, halone⟩ := hok
  have hno : (s.pc k).touches = true → s.AloneAt k := h.aloneAt hi halone
  have hstep := hs
  unfold advance at hs
  split at hs
  next => cases hs
  next =>
    cases hk : s.pc k with
    | idle => simp [hk] at hs
    | returned r => simp [hk] at hs
    | started =>
      simp only [hk] at hs
      cases Option.some.inj hs
      exact h.started hi hk
    | direct =>
      cases ok with
      | true =>
        simp only [hk] at hs
        cases Option.some.inj hs
        exact h.direct hi hk
      | false =>
        simp only [hk] at hs
        cases Option.some.inj hs
        exact h.refused hi (.inl ⟨hk, rfl⟩)
    | enqueue =>
      cases ok with
      | true =>
        simp only [hk] at hs
        cases Option.some.inj hs
        exact ⟨q, hi, h.allocated hi hk⟩
      | false =>
        simp only [hk] at hs
        cases Option.some.inj hs
        exact h.refused hi (.inr ⟨hk, rfl⟩)
    | addTail =>
      simp only [hk] at hs
      cases Option.some.inj hs
      exact ⟨q, hi, h.addTail (hno (by rw [hk]; rfl)) hk⟩
    | addNextPrev p =>
      simp only [hk] at hs
      cases Option.some.inj hs
      exact ⟨q, hi, h.addNextPrev (hno (by rw [hk]; rfl)) hk⟩
    | addNewNext p =>
      simp only [hk] at hs
      cases Option.some.inj hs
      exact ⟨q, hi, h.addNewNext hi (hno (by rw [hk]; rfl)) hk⟩
    | addNewPrev p =>
      simp only [hk] at hs
      cases Option.some.inj hs
      exact ⟨q, hi, h.addNewPrev hi (hno (by rw [hk]; rfl)) hk⟩
    | addPrevNext p =>
      simp only [hk] at hs
      cases Option.some.inj hs
      exact h.addPrevNext hi (hno (by rw [hk]; rfl)) hk
    | count =>
      simp only [hk] at hs
      cases Option.some.inj hs
      exact ⟨q, hi, h.count (hno (by rw [hk]; rfl)) hk⟩
    | flushStarted =>
      simp only [hk] at hs
      cases Option.some.inj hs
      exact h.flushStarted hi (hno (by rw [hk]; rfl)) hk
    | tryLock =>
      simp only [hk] at hs
      cases Option.some.inj hs
      exact h.tryLock hi (fun hsend => hfree hsend hk) hk
    | backOff =>
      simp only [hk] at hs
      cases Option.some.inj hs
      exact h.giveBack hi false hk
    | locked =>
      simp only [hk] at hs
      cases Option.some.inj hs
      exact h.locked hi hk
    | load pos =>
      simp only [hk] at hs
      cases Option.some.inj hs
      exact h.load hi hk
    | iter curr next => exact h.iter hi hk hstep
    | del c next =>
      simp only [hk] at hs
      cases Option.some.inj hs
      exact ⟨q, hi, h.del hi (hno (by rw [hk]; rfl)) hk⟩
    | delEntry c a next =>
      simp only [hk] at hs
      cases Option.some.inj hs
      exact ⟨q, hi, h.delEntry hi (hno (by rw [hk]; rfl)) hk⟩
    | delNextPrev c p a next =>
      simp only [hk] at hs
      cases Option.some.inj hs
      exact ⟨q, hi, h.delNextPrev hi (hno (by rw [hk]; rfl)) hk⟩
    | delPrevNext c p a next =>
      simp only [hk] at hs
      cases Option.some.inj hs
      exact h.delPrevNext hi (hno (by rw [hk]; rfl)) hk
    | poisonNext c next =>
      simp only [hk] at hs
      cases Option.some.inj hs
      exact ⟨q, hi, h.poisonNext (hno (by rw [hk]; rfl)) hk⟩
    | poisonPrev c next =>
      simp only [hk] at hs
      cases Option.some.inj hs
      exact ⟨q, hi, h.poisonPrev (hno (by rw [hk]; rfl)) hk⟩
    | uncount next =>
      simp only [hk] at hs
      cases Option.some.inj hs
      exact ⟨q, hi, h.uncount (hno (by rw [hk]; rfl)) hk⟩
    | unlock =>
      simp only [hk] at hs
      cases Option.some.inj hs
      exact h.giveBack hi true hk

theorem SendPc.phase_returned {p : SendPc} {ok : Bool} :
    p.phase = .returned ok ↔ p = .returned ok := by
  constructor
  · intro h
    cases p with
    | returned r => exact congrArg _ (SendPhase.returned.inj h)
    | iter curr next => cases curr <;> cases h
    | _ => cases h
  · rintro rfl
    rfl

theorem Refines.returned {s : BklogState} {q : BklogQueue} (h : Refines s q) :
    queueReturned q = returnedOk s := by
  unfold queueReturned returnedOk
  rw [h.calls, h.isSend]
  apply List.filter_congr
  intro k _
  congr 1
  rw [h.phase, Bool.eq_iff_iff, beq_iff_eq, beq_iff_eq]
  exact SendPc.phase_returned

theorem Refines.start {s : BklogState} {q : BklogQueue} (h : Refines s q) (hi : QueueInv q)
    (send : Bool) : Refines (startCall s send) (queueStart q send) := by
  have hpc : ∀ k, k ≠ s.calls → (startCall s send).pc k = s.pc k :=
    fun k hk => Function.update_of_ne hk _ _
  have hself : (startCall s send).pc s.calls = if send then .started else .flushStarted :=
    Function.update_self _ _ _
  have hidle : (s.pc s.calls).updating = false := by
    have hf := hi.fresh s.calls (by rw [h.calls])
    rw [h.phase] at hf
    cases hp : s.pc s.calls <;> first | rfl | (rw [hp] at hf; cases hf)
  have hnew : ((startCall s send).pc s.calls).updating = false := by
    rw [hself]
    cases send <;> rfl
  have hupd : ∀ k, ((startCall s send).pc k).updating = (s.pc k).updating := by
    intro k
    by_cases hk : k = s.calls
    · rw [hk, hnew, hidle]
    · rw [hpc k hk]
  refine
    { written := h.written, lock := h.lock, calls := ?_, isSend := ?_, before := ?_, phase := ?_,
      next := h.next, ptrs := ?_, alone := ?_, window := ?_ }
  · show q.calls + 1 = s.calls + 1
    rw [h.calls]
  · show Function.update q.isSend q.calls send = Function.update s.isSend s.calls send
    rw [h.calls, h.isSend]
  · show Function.update q.before q.calls (queueReturned q) = _
    rw [h.calls, h.before, h.returned]
    rfl
  · intro k
    show Function.update q.phase q.calls (if send then SendPhase.started else .flushStarted) k = _
    rw [h.calls]
    by_cases hk : k = s.calls
    · rw [hk, Function.update_self, hself]
      cases send <;> rfl
    · rw [Function.update_of_ne hk, hpc k hk, h.phase]
  · intro k
    by_cases hk : k = s.calls
    · rw [hk, hself]
      cases send <;> trivial
    · rw [hpc k hk]
      exact h.ptrs k
  · intro i j hi hj
    rw [hupd] at hi hj
    exact h.alone i j hi hj
  · intro k hno
    have hl := h.window k fun j hj => (hupd j).symm.trans (hno j hj)
    by_cases hk : k = s.calls
    · rw [hk] at hl ⊢
      exact (linksAt_quiet hnew).mpr ((linksAt_quiet hidle).mp hl)
    · rw [hpc k hk]
      exact hl

theorem bklogInit_refines : Refines bklogInit bklogQueueInit where
  written := rfl
  lock := rfl
  calls := rfl
  isSend := rfl
  before := rfl
  phase := fun _ => rfl
  next := rfl
  ptrs := fun _ => trivial
  alone := by intro j k hj; cases hj
  window := fun _ _ => ⟨rfl, rfl⟩

/-- A reachable state of the driver stands for a queue. -/
def BklogState.IsQueue (s : BklogState) : Prop := ∃ q, QueueInv q ∧ Refines s q

theorem bklogStep_isQueue {s t : BklogState} {e : BklogEvent} (h : s.IsQueue)
    (hok : BacklogAlone s e) (hs : bklogStep s e = some t) : t.IsQueue := by
  obtain ⟨q, hi, h⟩ := h
  cases e with
  | send =>
    cases Option.some.inj hs
    exact ⟨_, hi.start true, h.start hi true⟩
  | flush =>
    cases Option.some.inj hs
    exact ⟨_, hi.start false, h.start hi false⟩
  | advance k ok => exact advance_refines h hi hok hs

theorem Refines.backlog_eq {s : BklogState} {q : BklogQueue} (h : Refines s q) (hi : QueueInv q) :
    s.backlog = q.backlog := by
  apply h.next.follow_eq
  have hsub : q.backlog ⊆ List.range s.calls := by
    intro c hc
    rw [← h.calls]
    exact List.mem_range.mpr (hi.known c (.inr hc))
  have hle := (hi.once.2.subperm hsub).length_le
  rwa [List.length_range] at hle

theorem BklogState.IsQueue.ok {s : BklogState} (h : s.IsQueue) : BacklogOk s := by
  obtain ⟨q, hi, h⟩ := h
  have hb := h.backlog_eq hi
  have hord : s.order = sendOrder q := by rw [BklogState.order, sendOrder, hb, h.written]
  have hok := hi.ok
  refine
    { next := ?_, settled := ?_, once := ?_, accepted := ?_, refused := ?_, ordered := ?_,
      noNull := ?_ }
  · rw [hb]
    exact h.next
  · intro hno
    have hl := (linksAt_quiet (hno s.calls)).mp (h.window s.calls fun j _ => hno j)
    rw [hb, hl.1]
    exact ⟨⟨h.next, hl.2⟩, hok.pkts⟩
  · rw [hb, ← h.written]
    exact hok.once
  · intro k hsend hk
    rw [hord]
    refine hok.accepted k (by rw [h.isSend]; exact hsend) ?_
    rw [h.phase]
    exact SendPc.phase_returned.mpr hk
  · intro k hsend hk
    rw [hb, ← h.written]
    refine hok.refused k (by rw [h.isSend]; exact hsend) ?_
    rw [h.phase]
    exact SendPc.phase_returned.mpr hk
  · rw [← h.written, ← h.before]
    exact hok.ordered
  · exact fun k => (h.ptrs k).target

/-- While every call finds the lock free after it has queued its packet, and no context comes into
another one's update, accepted packets are sent once and in order, and refused ones are not sent. -/
theorem backlog_in_order (es : List BklogEvent) (s : BklogState)
    (halone : RunMeets bklogStep BacklogAlone bklogInit es)
    (h : run bklogStep bklogInit es = some s) : BacklogOk s :=
  BklogState.IsQueue.ok
    (run_invariant_of_meets bklogStep_isQueue ⟨_, bklogQueueInit_inv, bklogInit_refines⟩ halone h)

/-- Call `k` sends into a full FIFO and makes `n` steps from the `kmalloc` on. -/
def queued (k n : Nat) : List BklogEvent :=
  [.advance k true, .advance k false] ++ List.replicate n (.advance k true)

/-- The FIFO is full twice, and the packet waits until the timer flushes the backlog. -/
def flushedLater : List BklogEvent :=
  [.send] ++ queued 0 10 ++ [.advance 0 false, .advance 0 true, .flush] ++
    List.replicate 15 (.advance 1 true)

theorem backlog_in_order_small :
    ∃ s, run bklogStep bklogInit flushedLater = some s ∧
      s.pc 0 = .returned true ∧ s.written = [0] ∧ s.backlog = [] ∧ BacklogOk s := by
  obtain ⟨s, hs⟩ := Option.isSome_iff_exists.mp
    (by decide : (run bklogStep bklogInit flushedLater).isSome = true)
  have hend : (run bklogStep bklogInit flushedLater).all (fun s =>
      s.pc 0 = .returned true ∧ s.written = [0] ∧ s.backlog = []) = true := by decide
  rw [hs] at hend
  obtain ⟨hpc, hw, hb⟩ := of_decide_eq_true hend
  exact ⟨s, hs, hpc, hw, hb, backlog_in_order flushedLater s (by decide) hs⟩

/-- The second call queues its packet while the first one holds the lock. -/
def lockTaken : List BklogEvent :=
  [.send] ++ queued 0 8 ++ [.send, .advance 1 true] ++ List.replicate 9 (.advance 1 true) ++
    List.replicate 22 (.advance 0 true)

/-- The second call comes between the first one's read of `head->prev` and the store there. -/
def addInterrupted : List BklogEvent :=
  [.send] ++ queued 0 2 ++ [.send] ++ queued 1 10 ++ [.advance 1 false, .advance 1 true] ++
    List.replicate 8 (.advance 0 true) ++ [.advance 0 false, .advance 0 true]

/-- With the lock taken, the second call returns an error and its packet is sent. With the update
interrupted, every call finds the lock free, and an accepted packet is lost. -/
theorem backlog_refused_packet_is_sent :
    (∃ s, run bklogStep bklogInit lockTaken = some s ∧
      s.pc 1 = .returned false ∧ s.written = [0, 1] ∧ ¬BacklogOk s) ∧
    ∃ s, RunMeets bklogStep LockFree bklogInit addInterrupted ∧
      run bklogStep bklogInit addInterrupted = some s ∧
      s.pc 1 = .returned true ∧ s.order = [0] ∧ s.bklogPkts = 2 ∧ ¬BacklogOk s := by
  constructor
  · obtain ⟨s, hs⟩ := Option.isSome_iff_exists.mp
      (by decide : (run bklogStep bklogInit lockTaken).isSome = true)
    have hend : (run bklogStep bklogInit lockTaken).all (fun s =>
        s.isSend 1 = true ∧ s.pc 1 = .returned false ∧ s.written = [0, 1]) = true := by decide
    rw [hs] at hend
    obtain ⟨hsend, hpc, hw⟩ := of_decide_eq_true hend
    refine ⟨s, hs, hpc, hw, ?_⟩
    intro hok
    exact (hok.refused 1 hsend hpc).1 (by rw [hw]; decide)
  · obtain ⟨s, hs⟩ := Option.isSome_iff_exists.mp
      (by decide : (run bklogStep bklogInit addInterrupted).isSome = true)
    have hend : (run bklogStep bklogInit addInterrupted).all (fun s =>
        s.isSend 1 = true ∧ s.pc 1 = .returned true ∧ s.order = [0] ∧ s.bklogPkts = 2) = true := by
      decide
    rw [hs] at hend
    obtain ⟨hsend, hpc, hord, hpkts⟩ := of_decide_eq_true hend
    refine ⟨s, by decide, hs, hpc, hord, hpkts, ?_⟩
    intro hok
    have hone := hok.accepted 1 hsend hpc
    rw [hord] at hone
    exact absurd hone (by decide)

end DanubeBsp
