import Mathlib.Data.List.Perm.Basic
import DanubeBsp.Runs

namespace DanubeBsp

/-- `struct data_list`; pointers are the numbers of the `kmalloc` calls that returned them. -/
structure DataNode where
  data : Option Nat
  len : Nat
  next : Option Nat

/-- The `kmalloc` calls so far, the blocks they gave, the blocks that were freed and the list nodes. -/
structure ListHeap where
  calls : Nat
  obtained : List Nat
  freed : List Nat
  node : Nat → DataNode

/-- `mps_datalist` with the block it lies in. -/
structure MpsDatalist where
  block : Nat
  no : Int
  datalist : Option Nat

namespace ListHeap

/-- `kmalloc`; `ok` says which calls succeed. -/
def kmalloc (h : ListHeap) (ok : Nat → Bool) : Option Nat × ListHeap :=
  if ok h.calls then
    (some h.calls, { h with calls := h.calls + 1, obtained := h.obtained ++ [h.calls] })
  else (none, { h with calls := h.calls + 1 })

/-- `kfree`; a null pointer is ignored. -/
def kfree (h : ListHeap) : Option Nat → ListHeap
  | none => h
  | some b => { h with freed := h.freed ++ [b] }

def setNode (h : ListHeap) (p : Nat) (d : DataNode) : ListHeap :=
  { h with node := Function.update h.node p d }

/-- The node at `p` with another successor. -/
def setNext (h : ListHeap) (p : Nat) (next : Option Nat) : ListHeap :=
  h.setNode p { h.node p with next }

/-- The loop of the allocation with the last node `r`. An error is a store through a null pointer. -/
def allocLoop (ok : Nat → Bool) : Nat → Nat → ListHeap → Except ListHeap (Nat × ListHeap)
  | 0, r, h => .ok (r, h)
  | n + 1, r, h =>
    match h.kmalloc ok with
    | (listPtr, h) =>
      match h.kmalloc ok with
      | (data, h) =>
        match listPtr with
        | none => .error h
        | some p =>
          -- the successor is set in the next round
          let h := h.setNode p { data, len := 0, next := (h.node p).next }
          allocLoop ok n p (h.setNext r (some p))

/-- `ifx_mps_cpu0_datalist_alloc`; no result of `kmalloc` is checked. -/
def ifxMpsCpu0DatalistAlloc (h : ListHeap) (ok : Nat → Bool) (n : Int) :
    Except ListHeap (MpsDatalist × ListHeap) :=
  match h.kmalloc ok with
  | (list, h) =>
    match h.kmalloc ok with
    | (head, h) =>
      match list with
      | none => .error h
      | some block =>
        match h.kmalloc ok with
        | (data, h) =>
          match head with
          | none => .error h
          | some p =>
            let h := h.setNode p { h.node p with data }
            match allocLoop ok n.toNat p h with
            | .error h => .error h
            | .ok (r, h) => .ok ({ block, no := n, datalist := some p }, h.setNext r none)

/-- The loop of the free routine; `none` is a read through a null pointer. -/
def freeLoop : Nat → Option Nat → ListHeap → Option (Option Nat × ListHeap)
  | 0, p, h => some (p, h)
  | _ + 1, none, _ => none
  | n + 1, some p, h =>
    let h := h.kfree (h.node p).data
    let h := h.setNode p { h.node p with len := 0 }
    freeLoop n (h.node p).next h

/-- `ifx_mps_cpu0_datalist_free`. -/
def ifxMpsCpu0DatalistFree (h : ListHeap) (list : MpsDatalist) : Option ListHeap :=
  match freeLoop list.no.toNat list.datalist h with
  | none => none
  | some (_, h) => some (h.kfree (some list.block))

end ListHeap

/-- Nothing allocated yet; the nodes hold what the memory held before. -/
def listHeapStart (junk : Nat → DataNode) : ListHeap :=
  { calls := 0, obtained := [], freed := [], node := junk }

/-- The allocation makes three `kmalloc` calls and two for each entry. -/
def NoFailure (ok : Nat → Bool) (n : Int) : Prop := ∀ k, k < 2 * n.toNat + 3 → ok k = true

/-- The free routine gives back exactly the blocks of the allocation, and an allocation that fails
part-way has given back what it had. -/
structure DatalistUndone (junk : Nat → DataNode) (ok : Nat → Bool) (n : Int) : Prop where
  freed : NoFailure ok n → ∃ list h h',
    (listHeapStart junk).ifxMpsCpu0DatalistAlloc ok n = .ok (list, h) ∧
      h.ifxMpsCpu0DatalistFree list = some h' ∧ h'.freed.Perm h.obtained
  failed : ¬ NoFailure ok n → ∃ list h,
    (listHeapStart junk).ifxMpsCpu0DatalistAlloc ok n = .ok (list, h) ∧ h.freed.Perm h.obtained

/-- The list that the allocation has built when its last node is entry `m`: entry `j` and its data are
the blocks `2 * j + 1` and `2 * j + 2`. -/
structure ListBuilt (m : Nat) (h : ListHeap) : Prop where
  calls : h.calls = 2 * m + 3
  obtained : h.obtained = List.range (2 * m + 3)
  freed : h.freed = []
  data : ∀ j, j ≤ m → (h.node (2 * j + 1)).data = some (2 * j + 2)
  next : ∀ j, j < m → (h.node (2 * j + 1)).next = some (2 * j + 3)

namespace ListHeap

theorem kmalloc_ok (h : ListHeap) {ok : Nat → Bool} (hok : ok h.calls = true) :
    h.kmalloc ok =
      (some h.calls, { h with calls := h.calls + 1, obtained := h.obtained ++ [h.calls] }) :=
  if_pos hok

/-- One more entry behind the last node. -/
def grown (m : Nat) (h : ListHeap) : ListHeap :=
  setNext
    (setNode
      { h with calls := h.calls + 1 + 1, obtained := h.obtained ++ [h.calls] ++ [h.calls + 1] }
      h.calls { data := some (h.calls + 1), len := 0, next := (h.node h.calls).next })
    (2 * m + 1) (some h.calls)

theorem allocLoop_succ {ok : Nat → Bool} {n m : Nat} {h : ListHeap} (hfirst : ok h.calls = true)
    (hsecond : ok (h.calls + 1) = true) :
    allocLoop ok (n + 1) (2 * m + 1) h = allocLoop ok n h.calls (grown m h) := by
  have hk := kmalloc_ok h hfirst
  have hk' := kmalloc_ok { h with calls := h.calls + 1, obtained := h.obtained ++ [h.calls] } hsecond
  rw [allocLoop, hk]
  dsimp only
  rw [hk']
  rfl

theorem grown_built {m : Nat} {h : ListHeap} (hb : ListBuilt m h) : ListBuilt (m + 1) (grown m h) := by
  have hc := hb.calls
  refine ⟨?_, ?_, hb.freed, ?_, ?_⟩
  · change h.calls + 1 + 1 = _
    omega
  · change h.obtained ++ [h.calls] ++ [h.calls + 1] = _
    rw [hb.obtained, hc, ← List.range_succ, ← List.range_succ]
    rfl
  · intro j hj
    by_cases hlast : j = m + 1
    · subst hlast
      have hne : 2 * (m + 1) + 1 ≠ 2 * m + 1 := by omega
      have heq : 2 * (m + 1) + 1 = h.calls := by omega
      simp only [grown, setNext, setNode]
      rw [Function.update_of_ne hne, heq, Function.update_self, hc]
      rfl
    · have hne : 2 * j + 1 ≠ h.calls := by omega
      have hne' : 2 * m + 1 ≠ h.calls := by omega
      have hold := hb.data j (by omega)
      by_cases hm : j = m
      · subst hm
        simpa only [grown, setNext, setNode, Function.update_self, Function.update_of_ne hne] using hold
      · have hne'' : 2 * j + 1 ≠ 2 * m + 1 := by omega
        simpa only [grown, setNext, setNode, Function.update_of_ne hne'',
          Function.update_of_ne hne] using hold
  · intro j hj
    by_cases hm : j = m
    · subst hm
      simp only [grown, setNext, setNode, Function.update_self, hc]
    · have hne : 2 * j + 1 ≠ 2 * m + 1 := by omega
      have hne' : 2 * j + 1 ≠ h.calls := by omega
      have hold := hb.next j (by omega)
      simpa only [grown, setNext, setNode, Function.update_of_ne hne,
        Function.update_of_ne hne'] using hold

theorem allocLoop_built {ok : Nat → Bool} {n m : Nat} {h : ListHeap} (hb : ListBuilt m h)
    (hok : ∀ k, k < 2 * (m + n) + 3 → ok k = true) :
    ∃ h', allocLoop ok n (2 * m + 1) h = .ok (2 * (m + n) + 1, h') ∧ ListBuilt (m + n) h' := by
  induction n generalizing m h with
  | zero => exact ⟨h, rfl, hb⟩
  | succ n ih =>
    have hc := hb.calls
    have hsum : m + 1 + n = m + (n + 1) := by omega
    have hentry : h.calls = 2 * (m + 1) + 1 := by omega
    rw [allocLoop_succ (hok _ (by omega)) (hok _ (by omega)), hentry, ← hsum]
    exact ih (grown_built hb) (fun k hk => hok k (by omega))

theorem setNext_built {m : Nat} {h : ListHeap} (hb : ListBuilt m h) :
    ListBuilt m (h.setNext (2 * m + 1) none) := by
  refine ⟨hb.calls, hb.obtained, hb.freed, ?_, ?_⟩
  · intro j hj
    have hold := hb.data j hj
    by_cases hm : j = m
    · subst hm
      simpa only [setNext, setNode, Function.update_self] using hold
    · have hne : 2 * j + 1 ≠ 2 * m + 1 := by omega
      simpa only [setNext, setNode, Function.update_of_ne hne] using hold
  · intro j hj
    have hne : 2 * j + 1 ≠ 2 * m + 1 := by omega
    simpa only [setNext, setNode, Function.update_of_ne hne] using hb.next j hj

/-- The list before the loop: the struct, the head and its data. -/
def headHeap (junk : Nat → DataNode) : ListHeap :=
  { calls := 3, obtained := [0, 1, 2], freed := []
    node := Function.update junk 1 { junk 1 with data := some 2 } }

theorem headHeap_built (junk : Nat → DataNode) : ListBuilt 0 (headHeap junk) := by
  refine ⟨rfl, rfl, rfl, ?_, ?_⟩
  · intro j hj
    obtain rfl : j = 0 := by omega
    simp [headHeap]
  · intro j hj
    exact absurd hj (Nat.not_lt_zero j)

/-- The whole allocation, when every `kmalloc` succeeds. -/
theorem datalistAlloc_built (junk : Nat → DataNode) {ok : Nat → Bool} {n : Int}
    (hok : NoFailure ok n) :
    ∃ h, (listHeapStart junk).ifxMpsCpu0DatalistAlloc ok n =
        .ok ({ block := 0, no := n, datalist := some 1 }, h) ∧ ListBuilt n.toNat h := by
  have h0 := hok 0 (by omega)
  have h1 := hok 1 (by omega)
  have h2 := hok 2 (by omega)
  have hall : ∀ k, k < 2 * (0 + n.toNat) + 3 → ok k = true := by
    rw [Nat.zero_add]
    exact hok
  obtain ⟨h', hloop, hb⟩ := allocLoop_built (headHeap_built junk) hall
  rw [Nat.zero_add n.toNat] at hloop hb
  refine ⟨h'.setNext (2 * n.toNat + 1) none, ?_, setNext_built hb⟩
  unfold ifxMpsCpu0DatalistAlloc
  simp only [listHeapStart, kmalloc, h0, h1, h2, if_true, List.nil_append, List.singleton_append,
    Nat.zero_add]
  change (match allocLoop ok n.toNat (2 * 0 + 1) (headHeap junk) with
    | .error h => Except.error h
    | .ok (r, h) => _) = _
  rw [hloop]

/-- The free loop from entry `j` on frees one data block for each round. -/
theorem freeLoop_data {m : Nat} {h : ListHeap} {k j : Nat} (hj : j + k = m)
    (hdata : ∀ i, j ≤ i → i < m → (h.node (2 * i + 1)).data = some (2 * i + 2))
    (hnext : ∀ i, j ≤ i → i < m → (h.node (2 * i + 1)).next = some (2 * i + 3)) :
    ∃ p h', freeLoop k (some (2 * j + 1)) h = some (p, h') ∧
      h'.freed = h.freed ++ (List.range k).map (fun i => 2 * (j + i) + 2) ∧
      h'.obtained = h.obtained := by
  induction k generalizing j h with
  | zero => exact ⟨_, h, rfl, by simp, rfl⟩
  | succ k ih =>
    have hd := hdata j (Nat.le_refl j) (by omega)
    have hn := hnext j (Nat.le_refl j) (by omega)
    -- the round changes nothing in the entries behind it
    have hlater : ∀ i, j + 1 ≤ i → 2 * i + 1 ≠ 2 * j + 1 := by
      intro i hi
      omega
    obtain ⟨p, h', hrun, hfreed, hob⟩ := @ih
      ((h.kfree (some (2 * j + 2))).setNode (2 * j + 1)
        { (h.kfree (some (2 * j + 2))).node (2 * j + 1) with len := 0 }) (j + 1) (by omega)
      (fun i hi him => by
        have hold := hdata i (by omega) him
        simpa only [setNode, kfree, Function.update_of_ne (hlater i hi)] using hold)
      (fun i hi him => by
        have hold := hnext i (by omega) him
        simpa only [setNode, kfree, Function.update_of_ne (hlater i hi)] using hold)
    refine ⟨p, h', ?_, ?_, hob⟩
    · rw [freeLoop]
      dsimp only
      rw [hd]
      have hsucc : ((setNode (h.kfree (some (2 * j + 2))) (2 * j + 1)
          { (h.kfree (some (2 * j + 2))).node (2 * j + 1) with len := 0 }).node (2 * j + 1)).next =
          some (2 * (j + 1) + 1) := by
        simp only [setNode, kfree, Function.update_self]
        exact hn
      rw [hsucc]
      exact hrun
    · rw [hfreed, List.range_succ_eq_map]
      simp only [setNode, kfree, List.map_cons, List.map_map, Function.comp_def,
        List.append_assoc, List.singleton_append, Nat.add_zero, Nat.succ_eq_add_one, Nat.add_assoc,
        Nat.add_comm 1]

/-- The free routine gives back the struct and the data of all entries but the last: no node, and not the
data of the last one. -/
theorem datalistFree_built {n : Int} {h : ListHeap} (hb : ListBuilt n.toNat h) :
    ∃ h', h.ifxMpsCpu0DatalistFree { block := 0, no := n, datalist := some 1 } = some h' ∧
      h'.freed = (List.range n.toNat).map (fun i => 2 * i + 2) ++ [0] := by
  obtain ⟨p, h', hrun, hfreed, _⟩ := freeLoop_data (Nat.zero_add n.toNat)
    (fun i _ hi => hb.data i (by omega)) (fun i _ hi => hb.next i hi)
  refine ⟨h'.kfree (some 0), ?_, ?_⟩
  · rw [ifxMpsCpu0DatalistFree, hrun]
  · simp only [kfree, hfreed, hb.freed, List.nil_append, Nat.zero_add]

/-- Nothing was freed and nothing that was obtained is forgotten. -/
structure Grew (h h' : ListHeap) : Prop where
  freed : h'.freed = h.freed
  obtained : h.obtained <+: h'.obtained

theorem Grew.trans {h h' h'' : ListHeap} (hg : Grew h h') (hg' : Grew h' h'') : Grew h h'' :=
  ⟨hg'.freed.trans hg.freed, hg.obtained.trans hg'.obtained⟩

theorem kmalloc_grew (h : ListHeap) (ok : Nat → Bool) : Grew h (h.kmalloc ok).2 := by
  unfold kmalloc
  split
  next => exact ⟨rfl, List.prefix_append _ _⟩
  next => exact ⟨rfl, List.prefix_rfl⟩

theorem kmalloc_mem {h : ListHeap} {ok : Nat → Bool} {b : Nat} (hb : (h.kmalloc ok).1 = some b) :
    b ∈ (h.kmalloc ok).2.obtained := by
  by_cases hcall : ok h.calls = true
  · rw [kmalloc_ok h hcall] at hb ⊢
    obtain rfl := Option.some.inj hb
    exact List.mem_append_right _ List.mem_cons_self
  · rw [kmalloc, if_neg hcall] at hb
    cases hb

theorem allocLoop_grew {ok : Nat → Bool} {n r r' : Nat} {h h' : ListHeap}
    (hrun : allocLoop ok n r h = .ok (r', h')) : Grew h h' := by
  induction n generalizing r h with
  | zero =>
    obtain ⟨rfl, rfl⟩ := Prod.mk.inj (Except.ok.inj hrun)
    exact ⟨rfl, List.prefix_rfl⟩
  | succ n ih =>
    rw [allocLoop] at hrun
    dsimp only at hrun
    split at hrun
    next => cases hrun
    next =>
      have hrest := ih hrun
      have htwo := (kmalloc_grew h ok).trans (kmalloc_grew _ ok)
      exact htwo.trans ⟨hrest.freed, hrest.obtained⟩

/-- An allocation that returns has freed nothing and holds at least its first block. -/
theorem datalistAlloc_holds {h h' : ListHeap} {ok : Nat → Bool} {n : Int} {list : MpsDatalist}
    (hrun : h.ifxMpsCpu0DatalistAlloc ok n = .ok (list, h')) :
    h'.freed = h.freed ∧ list.block ∈ h'.obtained := by
  rw [ifxMpsCpu0DatalistAlloc] at hrun
  dsimp only at hrun
  split at hrun
  next => cases hrun
  next block hfirst =>
    split at hrun
    next => cases hrun
    next p _ =>
      split at hrun
      next => cases hrun
      next r u hloop =>
        obtain ⟨rfl, rfl⟩ := Prod.mk.inj (Except.ok.inj hrun)
        have hloop := allocLoop_grew hloop
        have hone := kmalloc_grew h ok
        have hrest := (kmalloc_grew (h.kmalloc ok).2 ok).trans (kmalloc_grew _ ok)
        have hall : Grew (h.kmalloc ok).2 u := hrest.trans ⟨hloop.freed, hloop.obtained⟩
        exact ⟨hall.freed.trans hone.freed, hall.obtained.subset (kmalloc_mem hfirst)⟩

end ListHeap

theorem datalist_never_undone (junk : Nat → DataNode) (ok : Nat → Bool) (n : Int) :
    ¬ DatalistUndone junk ok n := by
  intro hu
  by_cases hok : NoFailure ok n
  · obtain ⟨list, h, h', halloc, hfree, hperm⟩ := hu.freed hok
    obtain ⟨g, hg, hb⟩ := ListHeap.datalistAlloc_built junk hok
    rw [hg] at halloc
    obtain ⟨rfl, rfl⟩ := Prod.mk.inj (Except.ok.inj halloc)
    obtain ⟨g', hg', hfreed⟩ := ListHeap.datalistFree_built hb
    rw [hg'] at hfree
    obtain rfl := Option.some.inj hfree
    have hlen := hperm.length_eq
    rw [hfreed, hb.obtained] at hlen
    simp only [List.length_append, List.length_map, List.length_range, List.length_singleton] at hlen
    omega
  · obtain ⟨list, h, halloc, hperm⟩ := hu.failed hok
    obtain ⟨hfreed, hblock⟩ := ListHeap.datalistAlloc_holds halloc
    have hmem := hperm.mem_iff.mpr hblock
    rw [hfreed] at hmem
    cases hmem

/-- A list of one entry, every allocation successful. -/
theorem one_entry_not_undone :
    ¬ DatalistUndone (fun _ => { data := none, len := 0, next := none }) (fun _ => true) 1 := by
  intro hu
  obtain ⟨list, h, h', halloc, hfree, hperm⟩ := hu.freed (fun _ _ => rfl)
  obtain ⟨rfl, rfl⟩ := Prod.mk.inj (Except.ok.inj halloc)
  obtain rfl := Option.some.inj hfree
  exact absurd hperm.length_eq (by decide)

end DanubeBsp
