import Mathlib.Algebra.BigOperators.Group.List.Basic
import DanubeBsp.MibIntervals

namespace DanubeBsp

/-- The sum of one counter over a list of intervals. -/
def fieldSum (f : MibField) (vs : List MibValues) : Word := (vs.map fun v => v f).sum

@[simp] theorem fieldSum_nil (f : MibField) : fieldSum f [] = 0 := rfl

@[simp] theorem fieldSum_cons (f : MibField) (v : MibValues) (vs : List MibValues) :
    fieldSum f (v :: vs) = v f + fieldSum f vs := by
  simp [fieldSum]

/-- The completed intervals of the current day. -/
def today (vs : List MibValues) : List MibValues := vs.drop (vs.length - vs.length % 96)

/-- The intervals of the day before. -/
def yesterday (vs : List MibValues) : List MibValues :=
  (vs.drop (vs.length - vs.length % 96 - 96)).take 96

/-- The values reported at time `now` are those of the days counted from the initialisation. -/
structure DayWindows (s : MibSys) (now : Nat) : Prop where
  curr : ∀ f, curr1Day s.list f = fieldSum f (today s.done) + s.list.current.field f
  prev : ∀ f, prev1Day s.list f = if 96 ≤ s.done.length then fieldSum f (yesterday s.done) else 0
  elapsed : curr1DayTimeElapsed s.list now =
    900 * (s.done.length % 96) + (now - s.list.current.startTime)

theorem currLoop_late (f : MibField) (xs : List MibIntvl) {i : Nat} (j : Word) (hi : 96 ≤ i) :
    currLoop f xs i j = j + fieldSum f (xs.map MibIntvl.field) := by
  induction xs generalizing i j with
  | nil => simp [currLoop]
  | cons x xs ih =>
    have hne : i + 1 ≠ 96 := by omega
    rw [currLoop, if_neg hne, ih _ (by omega), List.map_cons, fieldSum_cons, add_assoc]

/-- The walk adds up all nodes, or those behind the 96th when it gets there. -/
theorem currLoop_early (f : MibField) (xs : List MibIntvl) {i : Nat} (j : Word) (hi : i < 96) :
    currLoop f xs i j =
      if i + xs.length < 96 then j + fieldSum f (xs.map MibIntvl.field)
      else fieldSum f ((xs.map MibIntvl.field).drop (96 - i)) := by
  induction xs generalizing i j with
  | nil =>
    have hlt : i + ([] : List MibIntvl).length < 96 := by simpa using hi
    rw [if_pos hlt]
    simp [currLoop]
  | cons x xs ih =>
    by_cases he : i + 1 = 96
    · have hge : ¬(i + (x :: xs).length < 96) := by simp only [List.length_cons]; omega
      have hdrop : 96 - i = 1 := by omega
      rw [currLoop, if_pos he, if_neg hge, hdrop, currLoop_late f xs 0 (by omega)]
      simp
    · have hdrop : 96 - i = (96 - (i + 1)) + 1 := by omega
      have hlen : i + (x :: xs).length = i + 1 + xs.length := by simp only [List.length_cons]; omega
      rw [currLoop, if_neg he, ih _ (by omega), hlen, hdrop, List.map_cons, List.drop_succ_cons,
        fieldSum_cons, add_assoc j]

theorem prevLoop_eq (f : MibField) (xs : List MibIntvl) {i : Nat} (j : Word) (hi : i < 96) :
    prevLoop f xs i j =
      if i + xs.length < 96 then (i + xs.length, j + fieldSum f (xs.map MibIntvl.field))
      else (96, j + fieldSum f ((xs.map MibIntvl.field).take (96 - i))) := by
  induction xs generalizing i j with
  | nil =>
    have hlt : i + ([] : List MibIntvl).length < 96 := by simpa using hi
    rw [if_pos hlt]
    simp [prevLoop]
  | cons x xs ih =>
    by_cases he : i + 1 = 96
    · have hge : ¬(i + (x :: xs).length < 96) := by simp only [List.length_cons]; omega
      have htake : 96 - i = 1 := by omega
      rw [prevLoop, if_pos he, if_neg hge, htake, he]
      simp
    · have htake : 96 - i = (96 - (i + 1)) + 1 := by omega
      have hlen : i + (x :: xs).length = i + 1 + xs.length := by simp only [List.length_cons]; omega
      rw [prevLoop, if_neg he, ih _ (by omega), hlen, htake, List.map_cons, List.take_succ_cons,
        fieldSum_cons, fieldSum_cons, add_assoc j, add_assoc j]

theorem foldr_add_const (xs : List MibIntvl) :
    xs.foldr (fun _ i => i + 900) 0 = 900 * xs.length := by
  induction xs with
  | nil => rfl
  | cons x xs ih =>
    rw [List.foldr_cons, ih, List.length_cons]
    omega

/-- The nodes before the current one are the last completed intervals, at most 191 of them, and the
nodes behind it are clear. -/
structure MibInv (s : MibSys) : Prop where
  kept : s.list.before.map MibIntvl.field = s.done.drop (s.done.length - s.list.before.length)
  filled : s.list.before.length = min s.done.length 191
  clear : ∀ x ∈ s.list.after, x.field = fun _ => 0
  started : s.list.current.startTime ≤ s.clock

theorem mibInit_inv (now : Nat) : MibInv (mibInit now) := by
  refine ⟨rfl, rfl, ?_, le_rfl⟩
  intro x hx
  cases List.eq_of_mem_replicate hx
  rfl

/-- A new interval starts: the finished one joins the nodes before it, and the oldest node is dropped
once the list is full. -/
theorem nextInterval_before (l : IntervalList) (now : Nat) :
    (nextInterval l now).before =
      (if l.before.length < 191 then l.before else l.before.tail) ++ [l.current] := by
  have hs := l.size
  unfold nextInterval
  split
  next y ys h =>
    have hlt : l.before.length < 191 := by
      simp only [h, intervalNum, List.length_cons] at hs
      omega
    rw [if_pos hlt]
  next h =>
    have hge : ¬l.before.length < 191 := by
      simp only [h, intervalNum, List.length_nil] at hs
      omega
    rw [if_neg hge]

theorem nextInterval_current (l : IntervalList) (now : Nat)
    (hc : ∀ x ∈ l.after, x.field = fun _ => 0) :
    (nextInterval l now).current = ⟨now, fun _ => 0⟩ := by
  unfold nextInterval
  split
  next y ys h =>
    have hy := hc y (by simp [h])
    simp [hy]
  next => rfl

theorem nextInterval_after (l : IntervalList) (now : Nat) :
    (nextInterval l now).after = l.after.tail := by
  unfold nextInterval
  split
  next y ys h => simp [h]
  next h => simp [h]

theorem MibInv.next {s : MibSys} (h : MibInv s) {now : Nat} :
    MibInv ⟨nextInterval s.list now, now, s.done ++ [s.list.current.field]⟩ := by
  have hf := h.filled
  have hbefore := nextInterval_before s.list now
  have hcur := nextInterval_current s.list now h.clear
  have hlen : (nextInterval s.list now).before.length = min (s.done.length + 1) 191 := by
    rw [hbefore]
    split <;> simp only [List.length_append, List.length_tail, List.length_cons, List.length_nil] <;>
      omega
  refine ⟨?_, ?_, ?_, ?_⟩
  · dsimp only
    rw [hlen, hbefore, List.length_append, List.length_singleton,
      List.drop_append_of_le_length (by omega)]
    split
    next hlt =>
      have hk : s.done.length + 1 - min (s.done.length + 1) 191 =
          s.done.length - s.list.before.length := by omega
      rw [hk, ← h.kept, List.map_append]
      rfl
    next hge =>
      have hk : s.done.length + 1 - min (s.done.length + 1) 191 =
          (s.done.length - s.list.before.length) + 1 := by omega
      rw [hk, List.map_append, List.map_tail, h.kept, ← List.drop_one, List.drop_drop]
      rfl
  · dsimp only
    rw [hlen, List.length_append, List.length_singleton]
  · intro x hx
    rw [nextInterval_after] at hx
    exact h.clear x (List.mem_of_mem_tail hx)
  · dsimp only
    rw [hcur]

theorem mibStep_inv {s t : MibSys} {e : MibEvent} (h : MibInv s) (ht : mibStep s e = some t) :
    MibInv t := by
  cases e with
  | poll now =>
    simp only [mibStep] at ht
    split at ht
    next hclock =>
      cases Option.some.inj ht
      unfold rotateInterval
      split
      · exact h.next
      · exact ⟨h.kept, h.filled, h.clear, h.started.trans hclock⟩
    next => simp at ht
  | count f v =>
    cases Option.some.inj ht
    exact ⟨h.kept, h.filled, h.clear, h.started⟩

theorem MibInv.curr1Day_eq {s : MibSys} (h : MibInv s) (f : MibField) :
    curr1Day s.list f =
      fieldSum f (s.done.drop (if s.done.length < 96 then 0
        else if s.done.length < 192 then 96 else s.done.length - 95)) +
      s.list.current.field f := by
  have hf := h.filled
  unfold curr1Day
  rw [currLoop_early f _ 0 (by omega), h.kept]
  congr 1
  split
  next hlt =>
    have hn : s.done.length < 96 := by omega
    have hz : s.done.length - s.list.before.length = 0 := by omega
    rw [if_pos hn, hz, zero_add]
  next hge =>
    have hn : ¬s.done.length < 96 := by omega
    rw [if_neg hn, List.drop_drop]
    congr 2
    split <;> omega

theorem MibInv.prev1Day_eq {s : MibSys} (h : MibInv s) (f : MibField) :
    prev1Day s.list f =
      if 96 ≤ s.done.length then fieldSum f ((s.done.drop (s.done.length - 191)).take 96)
      else 0 := by
  have hf := h.filled
  unfold prev1Day
  rw [prevLoop_eq f _ 0 (by omega), h.kept]
  by_cases hlt : 0 + s.list.before.length < 96
  · have hn : ¬96 ≤ s.done.length := by omega
    have hne : 0 + s.list.before.length ≠ 96 := by omega
    rw [if_pos hlt, if_neg hn]
    exact if_neg hne
  · have hn : 96 ≤ s.done.length := by omega
    have hk : s.done.length - s.list.before.length = s.done.length - 191 := by omega
    rw [if_neg hlt, if_pos hn, hk]
    simp

theorem MibInv.elapsed_eq {s : MibSys} (h : MibInv s) (now : Nat) :
    curr1DayTimeElapsed s.list now =
      900 * min s.done.length 191 + (now - s.list.current.startTime) -
        (if s.done.length < 96 ∧ 900 * s.done.length + (now - s.list.current.startTime) < 86400
          then 0 else 86400) := by
  have hf := h.filled
  unfold curr1DayTimeElapsed
  rw [foldr_add_const, hf]
  dsimp only
  split <;> split <;> omega

/-- The day windows are right exactly in the first two days and, later, in the last interval of a day,
as long as an interval of the first day does not reach past its end. -/
theorem dayWindows_iff (start : Nat) (es : List MibEvent) (s : MibSys) (now : Nat)
    (h : run mibStep (mibInit start) es = some s) :
    DayWindows s now ↔
      (s.done.length < 192 ∨ s.done.length % 96 = 95) ∧
      (96 ≤ s.done.length ∨
        900 * s.done.length + (now - s.list.current.startTime) < 86400) := by
  have hinv : MibInv s := run_invariant mibStep_inv (mibInit_inv start) h
  constructor
  · intro hd
    have he := hd.elapsed
    rw [hinv.elapsed_eq] at he
    split at he <;> omega
  · rintro ⟨hn, he⟩
    refine ⟨?_, ?_, ?_⟩
    · intro f
      have hk : (if s.done.length < 96 then 0
          else if s.done.length < 192 then 96 else s.done.length - 95) =
          s.done.length - s.done.length % 96 := by
        split
        · omega
        · split <;> omega
      rw [hinv.curr1Day_eq, today, hk]
    · intro f
      rw [hinv.prev1Day_eq]
      split
      next hlen =>
        have hk : s.done.length - 191 = s.done.length - s.done.length % 96 - 96 := by omega
        rw [yesterday, hk]
      next => rfl
    · rw [hinv.elapsed_eq]
      split <;> omega

/-- Three errored seconds in the first interval and five in the second. -/
theorem dayWindows_small :
    ∃ s, run mibStep (mibInit 1000)
        [.count .atucPerfEs 3, .poll 1900, .count .atucPerfEs 5] = some s ∧
      s.done.length = 1 ∧ DayWindows s 1950 := by
  refine ⟨_, rfl, rfl, ?_⟩
  exact (dayWindows_iff 1000 [.count .atucPerfEs 3, .poll 1900, .count .atucPerfEs 5] _ 1950
    rfl).mpr ⟨.inl (by decide), .inr (by decide)⟩

/-- The poll thread runs every 15 minutes. -/
theorem run_fullIntervals (n : Nat) :
    ∃ s, run mibStep (mibInit 0) ((List.range n).map fun k => .poll (900 * (k + 1))) = some s ∧
      s.done.length = n ∧ s.clock = 900 * n ∧ s.list.current.startTime = 900 * n := by
  induction n with
  | zero => exact ⟨mibInit 0, rfl, rfl, rfl, rfl⟩
  | succ n ih =>
    obtain ⟨s, hs, hlen, hclock, hstart⟩ := ih
    have hinv : MibInv s := run_invariant mibStep_inv (mibInit_inv 0) hs
    have hcur := nextInterval_current s.list (900 * (n + 1)) hinv.clear
    have hdue : 900 ≤ 900 * (n + 1) - s.list.current.startTime := by omega
    have hle : s.clock ≤ 900 * (n + 1) := by omega
    refine ⟨⟨nextInterval s.list (900 * (n + 1)), 900 * (n + 1), s.done ++ [s.list.current.field]⟩,
      ?_, ?_, rfl, ?_⟩
    · rw [List.range_succ, List.map_append, run_append, hs]
      simp only [Option.bind_some, List.map_cons, List.map_nil, run, List.foldlM_cons,
        List.foldlM_nil, mibStep, rotateInterval, if_pos hdue, if_pos hle]
      rfl
    · dsimp only
      rw [List.length_append, hlen, List.length_singleton]
    · dsimp only
      rw [hcur]

/-- At the start of the third day, 95 intervals of the current day are reported as over. -/
theorem dayWindows_third_day :
    ∃ s, run mibStep (mibInit 0) ((List.range 192).map fun k => .poll (900 * (k + 1))) = some s ∧
      s.done.length = 192 ∧ curr1DayTimeElapsed s.list (900 * 192) = 900 * 95 ∧
      ¬DayWindows s (900 * 192) := by
  obtain ⟨s, hs, hlen, -, hstart⟩ := run_fullIntervals 192
  have hinv : MibInv s := run_invariant mibStep_inv (mibInit_inv 0) hs
  have he := hinv.elapsed_eq (900 * 192)
  rw [hlen, hstart] at he
  refine ⟨s, hs, hlen, he, ?_⟩
  intro h
  have hc := h.elapsed
  rw [he, hlen, hstart] at hc
  simp at hc

end DanubeBsp
