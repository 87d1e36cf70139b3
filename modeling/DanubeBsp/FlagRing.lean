import DanubeBsp.RingSlice

namespace DanubeBsp

/-- A ring whose cells say themselves whether they are vacant: the reader is at `rd`, the writer at
`wr`, and the items between them are `xs`. -/
structure FlagRing {α : Type*} (cap : Nat) (vacant : α → Prop) (buf : Nat → α) (rd wr : Nat)
    (xs : List α) : Prop where
  rd_lt : rd < cap
  slice : ringSlice cap buf rd xs.length = xs
  wr_eq : wr = (rd + xs.length) % cap
  length_le : xs.length ≤ cap
  occupied : ∀ x ∈ xs, ¬vacant x
  rest : ∀ k, xs.length ≤ k → k < cap → vacant (buf ((rd + k) % cap))

namespace FlagRing

variable {α : Type*} {cap : Nat} {vacant : α → Prop} {buf : Nat → α} {rd wr : Nat} {xs : List α}

theorem init (hcap : 0 < cap) (hvacant : ∀ i, vacant (buf i)) : FlagRing cap vacant buf 0 0 [] where
  rd_lt := hcap
  slice := rfl
  wr_eq := (Nat.zero_mod cap).symm
  length_le := Nat.zero_le cap
  occupied := fun _ h => absurd h List.not_mem_nil
  rest := fun _ _ _ => hvacant _

theorem head {x : α} {rest : List α} (h : FlagRing cap vacant buf rd wr (x :: rest)) :
    buf rd = x := by
  have hslice := h.slice
  rw [List.length_cons, ringSlice_succ, Nat.mod_eq_of_lt h.rd_lt] at hslice
  exact (List.cons.inj hslice).1

/-- The reader finds a vacant cell exactly when there is no item. -/
theorem vacant_rd (h : FlagRing cap vacant buf rd wr xs) : vacant (buf rd) ↔ xs = [] := by
  cases xs with
  | nil =>
    have hrest := h.rest 0 (Nat.le_refl 0) (Nat.lt_of_le_of_lt (Nat.zero_le rd) h.rd_lt)
    rw [Nat.add_zero, Nat.mod_eq_of_lt h.rd_lt] at hrest
    exact iff_of_true hrest rfl
  | cons x rest =>
    rw [h.head]
    exact iff_of_false (h.occupied x List.mem_cons_self) (List.cons_ne_nil x rest)

/-- The writer finds a vacant cell exactly when there is room. -/
theorem vacant_wr (h : FlagRing cap vacant buf rd wr xs) : vacant (buf wr) ↔ xs.length < cap := by
  by_cases hroom : xs.length < cap
  · rw [h.wr_eq]
    exact iff_of_true (h.rest _ (Nat.le_refl _) hroom) hroom
  · refine iff_of_false ?_ hroom
    have hfull : xs.length = cap := Nat.le_antisymm h.length_le (Nat.le_of_not_lt hroom)
    have hwr : wr = rd := by
      rw [h.wr_eq, hfull, Nat.add_mod_right, Nat.mod_eq_of_lt h.rd_lt]
    have hne : xs ≠ [] := by
      intro hnil
      have hrd := h.rd_lt
      rw [hnil, List.length_nil] at hfull
      omega
    rw [hwr, h.vacant_rd]
    exact hne

/-- The reader empties its cell and goes on. -/
theorem take {x e : α} {rest : List α} (h : FlagRing cap vacant buf rd wr (x :: rest))
    (he : vacant e) : FlagRing cap vacant (Function.update buf rd e) ((rd + 1) % cap) wr rest := by
  have hcap : 0 < cap := Nat.lt_of_le_of_lt (Nat.zero_le rd) h.rd_lt
  have hlen := h.length_le
  have hwr := h.wr_eq
  rw [List.length_cons] at hlen hwr
  have hrd : rd = rd % cap := (Nat.mod_eq_of_lt h.rd_lt).symm
  constructor
  · exact Nat.mod_lt _ hcap
  · have hslice := h.slice
    rw [List.length_cons, ringSlice_succ] at hslice
    rw [ringSlice_mod]
    nth_rewrite 1 [hrd]
    rw [ringSlice_update_before (by omega)]
    exact (List.cons.inj hslice).2
  · rw [Nat.mod_add_mod, hwr]
    congr 1
    omega
  · omega
  · exact fun y hy => h.occupied y (List.mem_cons_of_mem x hy)
  · intro k hk hlt
    rw [Nat.mod_add_mod]
    by_cases hlast : k + 1 = cap
    · have hslot : (rd + 1 + k) % cap = rd := by
        rw [Nat.add_assoc, Nat.add_comm 1 k, hlast, Nat.add_mod_right, ← hrd]
      rw [hslot, Function.update_self]
      exact he
    · have hne : (rd + 1 + k) % cap ≠ rd := by
        nth_rewrite 2 [hrd]
        exact ringPos_ne (p := rd) (by omega) (by omega) (Nat.le_refl rd) (by omega) (by omega)
      have hslot : rd + 1 + k = rd + (k + 1) := by omega
      rw [Function.update_of_ne hne, hslot]
      exact h.rest (k + 1) (by rw [List.length_cons]; omega) (by omega)

/-- The writer fills its cell and goes on. -/
theorem put {x : α} (h : FlagRing cap vacant buf rd wr xs) (hroom : xs.length < cap)
    (hx : ¬vacant x) :
    FlagRing cap vacant (Function.update buf wr x) rd ((wr + 1) % cap) (xs ++ [x]) := by
  have hwr := h.wr_eq
  constructor
  · exact h.rd_lt
  · rw [List.length_append, List.length_singleton, ringSlice_snoc, hwr,
      ringSlice_update_end hroom, h.slice, Function.update_self]
  · rw [hwr, Nat.mod_add_mod, List.length_append, List.length_singleton, Nat.add_assoc]
  · rw [List.length_append, List.length_singleton]
    omega
  · intro y hy
    rcases List.mem_append.mp hy with hy | hy
    · exact h.occupied y hy
    · rw [List.mem_singleton.mp hy]
      exact hx
  · intro k hk hlt
    rw [List.length_append, List.length_singleton] at hk
    have hne : (rd + k) % cap ≠ wr := by
      rw [hwr]
      exact ringPos_ne (p := rd) (by omega) (by omega) (by omega) (by omega) (by omega)
    rw [Function.update_of_ne hne]
    exact h.rest k (by omega) hlt

/-- The items are what stands in the cells that are not vacant. -/
theorem occupied_perm [DecidablePred vacant] (h : FlagRing cap vacant buf rd wr xs) :
    (((List.range cap).filter fun i => ¬vacant (buf i)).map buf).Perm xs := by
  have hlap : ringSlice cap id rd cap =
      ringSlice cap id rd xs.length ++ ringSlice cap id (rd + xs.length) (cap - xs.length) := by
    rw [← ringSlice_append, Nat.add_sub_cancel' h.length_le]
  have hitems : (ringSlice cap id rd xs.length).map buf = xs := by
    nth_rewrite 2 [← h.slice]
    simp only [ringSlice, List.map_map, Function.comp_def, id_eq]
  have hoccupied : (ringSlice cap id rd xs.length).filter (fun i => ¬vacant (buf i)) =
      ringSlice cap id rd xs.length := by
    refine List.filter_eq_self.mpr ?_
    intro i hi
    refine decide_eq_true (h.occupied _ ?_)
    rw [← hitems]
    exact List.mem_map_of_mem hi
  have hrest : (ringSlice cap id (rd + xs.length) (cap - xs.length)).filter
      (fun i => ¬vacant (buf i)) = [] := by
    refine List.filter_eq_nil_iff.mpr ?_
    intro i hi
    obtain ⟨k, hk, rfl⟩ := List.mem_map.mp hi
    have hk := List.mem_range.mp hk
    have hvacant := h.rest (xs.length + k) (Nat.le_add_right _ _) (by omega)
    rw [← Nat.add_assoc] at hvacant
    simpa using hvacant
  have hperm := ((ringSlice_lap_perm cap rd).symm.filter fun i => ¬vacant (buf i)).map buf
  rw [hlap, List.filter_append, hoccupied, hrest, List.append_nil, hitems] at hperm
  exact hperm

end FlagRing

end DanubeBsp
