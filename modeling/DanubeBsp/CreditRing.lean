import DanubeBsp.RingSlice

namespace DanubeBsp

/-- Items go to the free slots of a ring, from position `p` on: every slot adds `share` to the
credit, and an item costs a whole lap. The result is the slots that were taken, `none` where the
rounds run out first. -/
def creditRing (size share : Nat) :
    (rounds : Nat) → (free : Nat → Bool) → (p credit items : Nat) → Option (List Nat)
  | _, _, _, _, 0 => some []
  | 0, _, _, _, _ + 1 => none
  | rounds + 1, free, p, credit, items + 1 =>
    if size ≤ credit ∧ free (p % size) = true then
      (creditRing size share rounds (Function.update free (p % size) false) (p + 1)
        (credit - size + share) items).map (p % size :: ·)
    else creditRing size share rounds free (p + 1) (credit + share) (items + 1)

/-- Different slots of the ring that were free. -/
structure Placed (size : Nat) (free : Nat → Bool) (ps : List Nat) : Prop where
  nodup : ps.Nodup
  free : ∀ q ∈ ps, free q = true
  inside : ∀ q ∈ ps, q < size

section

variable {size share : Nat} {free : Nat → Bool}

theorem placed_nil : Placed size free [] where
  nodup := List.nodup_nil
  free := by simp
  inside := by simp

theorem Placed.cons {p : Nat} {ps : List Nat} (hsize : 0 < size) (hp : free (p % size) = true)
    (h : Placed size (Function.update free (p % size) false) ps) :
    Placed size free (p % size :: ps) := by
  have hrest : ∀ q ∈ ps, q ≠ p % size ∧ free q = true := by
    intro q hq
    have hfree := h.free q hq
    by_cases hqp : q = p % size
    · rw [hqp, Function.update_self] at hfree
      cases hfree
    · rw [Function.update_of_ne hqp] at hfree
      exact ⟨hqp, hfree⟩
  refine ⟨List.nodup_cons.mpr ⟨fun hmem => (hrest _ hmem).1 rfl, h.nodup⟩, ?_, ?_⟩
  · intro q hq
    rcases List.mem_cons.mp hq with hq | hq
    · exact hq ▸ hp
    · exact (hrest q hq).2
  · intro q hq
    rcases List.mem_cons.mp hq with hq | hq
    · exact hq ▸ Nat.mod_lt p hsize
    · exact h.inside q hq

theorem creditRing_none (rounds p credit : Nat) :
    creditRing size share rounds free p credit 0 = some [] := by
  cases rounds <;> rfl

/-- Further rounds change nothing once the items are placed. -/
theorem creditRing_more {m p credit items : Nat} {ps : List Nat}
    (h : creditRing size share m free p credit items = some ps) (k : Nat) :
    creditRing size share (m + k) free p credit items = some ps := by
  induction m generalizing free p credit items ps with
  | zero =>
    cases items with
    | zero => rwa [creditRing_none] at h ⊢
    | succ items => cases h
  | succ m ih =>
    cases items with
    | zero => rwa [creditRing_none] at h ⊢
    | succ items =>
      have hk : m + 1 + k = m + k + 1 := by omega
      unfold creditRing at h
      rw [hk, creditRing]
      split at h
      next htake =>
        obtain ⟨qs, hqs, hps⟩ := Option.map_eq_some_iff.mp h
        rw [if_pos htake, ih hqs, ← hps]
        rfl
      next hskip =>
        rw [if_neg hskip, ih h]

/-- With credit for all items every free slot is taken, by induction on the slots ahead. -/
theorem creditRing_eager (hsize : 0 < size) {m p credit items : Nat} (hm : m ≤ size)
    (hcredit : items * size ≤ credit) (hfree : items ≤ (ringSlice size free p m).count true) :
    ∃ ps, creditRing size share m free p credit items = some ps ∧ ps.length = items ∧
      Placed size free ps := by
  induction m generalizing free p credit items with
  | zero =>
    have hzero : items = 0 := by simpa [ringSlice] using hfree
    subst hzero
    exact ⟨[], rfl, rfl, placed_nil⟩
  | succ m ih =>
    rw [ringSlice_succ] at hfree
    cases items with
    | zero => exact ⟨[], creditRing_none _ _ _, rfl, placed_nil⟩
    | succ items =>
      rw [Nat.succ_mul] at hcredit
      unfold creditRing
      by_cases hslot : free (p % size) = true
      · rw [hslot, List.count_cons_self] at hfree
        obtain ⟨ps, hps, hlen, hplaced⟩ := @ih
          (Function.update free (p % size) false) (p + 1)
          (credit - size + share) items (by omega) (by omega)
          (by rw [ringSlice_update_before (by omega)]; omega)
        rw [if_pos ⟨by omega, hslot⟩, hps]
        exact ⟨p % size :: ps, rfl, by rw [List.length_cons, hlen], hplaced.cons hsize hslot⟩
      · have hcount : (free (p % size) :: ringSlice size free (p + 1) m).count true =
            (ringSlice size free (p + 1) m).count true :=
          List.count_cons_of_ne (fun h => hslot h)
        rw [if_neg fun h => hslot h.2]
        apply ih (by omega)
        · rw [Nat.succ_mul]
          omega
        · omega

/-- The slots that are left once some were taken. -/
def leftFree (free : Nat → Bool) (ps : List Nat) : Nat → Bool := fun q => free q && !ps.contains q

theorem leftFree_nil : leftFree free [] = free := by
  funext q
  simp [leftFree]

theorem leftFree_cons {a : Nat} {ps : List Nat} :
    leftFree (Function.update free a false) ps = leftFree free (a :: ps) := by
  funext q
  by_cases hq : q = a
  · simp [leftFree, hq]
  · simp [leftFree, hq]

/-- Some rounds: either all items are placed, or the rest goes on from where they end. -/
theorem creditRing_walk (hsize : 0 < size) {m p credit items : Nat} :
    (∃ ps, creditRing size share m free p credit items = some ps ∧ ps.length = items ∧
      Placed size free ps) ∨
    ∃ ps, ps.length < items ∧ Placed size free ps ∧ ps.length * size ≤ credit + m * share ∧
      ∀ k, creditRing size share (m + k) free p credit items =
        (creditRing size share k (leftFree free ps) (p + m)
          (credit + m * share - ps.length * size) (items - ps.length)).map (ps ++ ·) := by
  induction m generalizing free p credit items with
  | zero =>
    cases items with
    | zero => exact .inl ⟨[], rfl, rfl, placed_nil⟩
    | succ items =>
      refine .inr ⟨[], Nat.succ_pos items, placed_nil, by simp, ?_⟩
      intro k
      simp [leftFree_nil]
  | succ m ih =>
    cases items with
    | zero => exact .inl ⟨[], creditRing_none _ _ _, rfl, placed_nil⟩
    | succ items =>
      have hmul : (m + 1) * share = m * share + share := Nat.succ_mul m share
      by_cases htake : size ≤ credit ∧ free (p % size) = true
      · rcases @ih (Function.update free (p % size) false) (p + 1)
          (credit - size + share) items with
          ⟨ps, hps, hlen, hplaced⟩ | ⟨ps, hlen, hplaced, hpaid, hrest⟩
        · left
          refine ⟨p % size :: ps, ?_, by rw [List.length_cons, hlen], hplaced.cons hsize htake.2⟩
          unfold creditRing
          rw [if_pos htake, hps]
          rfl
        · right
          have hcons : (p % size :: ps).length * size = ps.length * size + size := by
            rw [List.length_cons, Nat.succ_mul]
          refine ⟨p % size :: ps, by rw [List.length_cons]; omega, hplaced.cons hsize htake.2,
            by omega, ?_⟩
          intro k
          have hk : m + 1 + k = m + k + 1 := by omega
          have hleft : credit - size + share + m * share - ps.length * size =
              credit + (m + 1) * share - (p % size :: ps).length * size := by omega
          have hitems : items + 1 - (p % size :: ps).length = items - ps.length := by
            rw [List.length_cons]
            omega
          have hp : p + 1 + m = p + (m + 1) := by omega
          rw [hk, creditRing, if_pos htake, hrest, leftFree_cons, hleft, hitems, hp,
            Option.map_map]
          rfl
      · rcases @ih free (p + 1) (credit + share) (items + 1) with
          ⟨ps, hps, hlen, hplaced⟩ | ⟨ps, hlen, hplaced, hpaid, hrest⟩
        · left
          refine ⟨ps, ?_, hlen, hplaced⟩
          unfold creditRing
          rw [if_neg htake, hps]
        · right
          refine ⟨ps, hlen, hplaced, by omega, ?_⟩
          intro k
          have hk : m + 1 + k = m + k + 1 := by omega
          have hleft : credit + share + m * share = credit + (m + 1) * share := by omega
          have hp : p + 1 + m = p + (m + 1) := by omega
          rw [hk, creditRing, if_neg htake, hrest, hleft, hp]

theorem Placed.append {ps qs : List Nat} (hp : Placed size free ps)
    (hq : Placed size (leftFree free ps) qs) : Placed size free (ps ++ qs) := by
  have hfresh : ∀ q ∈ qs, free q = true ∧ q ∉ ps := by
    intro q hmem
    simpa [leftFree] using hq.free q hmem
  refine ⟨List.nodup_append'.mpr ⟨hp.nodup, hq.nodup, ?_⟩, ?_, ?_⟩
  · intro q hqp hqq
    exact (hfresh q hqq).2 hqp
  · intro q hmem
    rcases List.mem_append.mp hmem with hmem | hmem
    · exact hp.free q hmem
    · exact (hfresh q hmem).1
  · intro q hmem
    rcases List.mem_append.mp hmem with hmem | hmem
    · exact hp.inside q hmem
    · exact hq.inside q hmem

/-- A lap meets every slot of the ring once. -/
theorem count_ringSlice_lap (free : Nat → Bool) (p : Nat) :
    (ringSlice size free p size).count true = (List.range size).countP free := by
  have hmap : ringSlice size free p size = (ringSlice size id p size).map free := by
    simp [ringSlice, Function.comp_def]
  rw [hmap, ((ringSlice_lap_perm size p).map free).count_eq, List.count, List.countP_map]
  apply List.countP_congr
  intro q _
  simp

theorem Placed.perm {ps : List Nat} (h : Placed size free ps) :
    ((List.range size).filter fun q => ps.contains q).Perm ps := by
  rw [List.perm_ext_iff_of_nodup (List.nodup_range.filter _) h.nodup]
  intro q
  simp only [List.mem_filter, List.mem_range, List.contains_iff_mem]
  exact ⟨fun hq => hq.2, fun hq => ⟨h.inside q hq, hq⟩⟩

theorem Placed.countP_leftFree {ps : List Nat} (h : Placed size free ps) :
    (List.range size).countP (leftFree free ps) + ps.length = (List.range size).countP free := by
  have hsplit := List.countP_eq_countP_filter_add (List.range size) free fun q => ps.contains q
  have htaken : ((List.range size).filter fun q => ps.contains q).countP free = ps.length := by
    rw [h.perm.countP_eq, List.countP_eq_length]
    exact h.free
  have hleft : ((List.range size).filter fun q => !ps.contains q).countP free =
      (List.range size).countP (leftFree free ps) := by
    rw [List.countP_filter]
    rfl
  rw [htaken, hleft] at hsplit
  omega

/-- With as many free slots as items, all items are placed within two laps: after the first the
credit is enough for all that are left. -/
theorem creditRing_spec (hsize : 0 < size) {p : Nat}
    (hfree : share ≤ (List.range size).countP free) :
    ∃ ps, creditRing size share (2 * size) free p size share = some ps ∧ ps.length = share ∧
      Placed size free ps := by
  rw [Nat.two_mul]
  rcases @creditRing_walk size share free hsize size p size share with
    ⟨ps, hps, hlen, hplaced⟩ | ⟨ps, hlen, hplaced, -, hrest⟩
  · exact ⟨ps, creditRing_more hps size, hlen, hplaced⟩
  · have hleft := hplaced.countP_leftFree
    have hcredit : (share - ps.length) * size + ps.length * size = share * size := by
      rw [← Nat.add_mul]
      congr 1
      omega
    have hcomm := Nat.mul_comm size share
    obtain ⟨qs, hqs, hqlen, hqplaced⟩ := @creditRing_eager size share
      (leftFree free ps) hsize size (p + size)
      (size + size * share - ps.length * size) (share - ps.length)
      (Nat.le_refl size) (by omega) (by rw [count_ringSlice_lap]; omega)
    rw [hrest, hqs]
    exact ⟨ps ++ qs, rfl, by rw [List.length_append]; omega, hplaced.append hqplaced⟩

/-- In an empty ring the items are spread evenly: the `j`-th goes to the first slot that is not
before `j` parts in `share` of the lap. Here `t` items are placed before slot `p`. -/
theorem creditRing_even {rounds p t : Nat} (hshare : 0 < share) (hle : share ≤ size)
    (hfree : ∀ q, p ≤ q → q < size → free q = true) (ht : t ≤ share) (hrounds : size ≤ p + rounds)
    (hlate : p * share < t * size + share) (hearly : t * size + share ≤ p * share + size)
    (hp : p ≤ size) :
    creditRing size share rounds free p (size + p * share - t * size) (share - t) =
      some ((List.range' t (share - t)).map fun j => (j * size + (share - 1)) / share) := by
  -- an item that is left is due before the end of the lap
  have hroom : ∀ {p t : Nat}, t < share → p * share < t * size + share → p < size := by
    intro p t hlt hdue
    have hlast : t * size + size ≤ share * size := by
      rw [← Nat.succ_mul]
      exact Nat.mul_le_mul_right size hlt
    have hmul : p * share < size * share := by
      rw [Nat.mul_comm size share]
      omega
    exact Nat.lt_of_mul_lt_mul_right hmul
  generalize hitems : share - t = items
  induction rounds generalizing free p t items with
  | zero =>
    cases items with
    | zero => rfl
    | succ items => exact absurd (hroom (by omega) hlate) (by omega)
  | succ rounds ih =>
    cases items with
    | zero => exact creditRing_none _ _ _
    | succ items =>
      have hlt : p < size := hroom (by omega) hlate
      have hslot : free p = true := hfree p (Nat.le_refl p) hlt
      have hpnext : (p + 1) * share = p * share + share := Nat.succ_mul p share
      have htnext : (t + 1) * size = t * size + size := Nat.succ_mul t size
      have hlist : (List.range' t (items + 1)).map (fun j => (j * size + (share - 1)) / share) =
          (t * size + (share - 1)) / share ::
            (List.range' (t + 1) items).map fun j => (j * size + (share - 1)) / share := rfl
      rw [hlist]
      unfold creditRing
      rw [Nat.mod_eq_of_lt hlt, hslot]
      by_cases hdue : t * size ≤ p * share
      · have hslotIs : (t * size + (share - 1)) / share = p := by
          apply Nat.div_eq_of_lt_le
          · omega
          · omega
        have hfree' : ∀ q, p + 1 ≤ q → q < size → Function.update free p false q = true := by
          intro q hq hq'
          rw [Function.update_of_ne (by omega)]
          exact hfree q (by omega) hq'
        have hcredit : size + p * share - t * size - size + share =
            size + (p + 1) * share - (t + 1) * size := by omega
        rw [if_pos ⟨by omega, rfl⟩, hcredit, ih (t := t + 1) hfree' (by omega) (by omega)
          (by omega) (by omega) (by omega) items (by omega), hslotIs]
        rfl
      · have hcredit : size + p * share - t * size + share =
            size + (p + 1) * share - t * size := by omega
        rw [if_neg (by omega), hcredit, ih (t := t) (fun q hq => hfree q (by omega)) (by omega)
          (by omega) (by omega) (by omega) (by omega) (items + 1) (by omega), hlist]

end

end DanubeBsp
