import Mathlib.Algebra.BigOperators.Group.Finset.Basic

namespace DanubeBsp

/-- A sum over the entries of a table changes with an updated entry only. -/
theorem sum_table_update {ι β M : Type*} [DecidableEq ι] [AddCommMonoid M] {s : Finset ι} {k : ι}
    (hk : k ∈ s) (f : ι → β) (v : β) (g : ι → β → M) :
    (∑ i ∈ s, g i (Function.update f k v i)) + g k (f k) = (∑ i ∈ s, g i (f i)) + g k v := by
  have hsame : ∑ i ∈ s.erase k, g i (Function.update f k v i) = ∑ i ∈ s.erase k, g i (f i) := by
    apply Finset.sum_congr rfl
    intro i hi
    rw [Function.update_of_ne (Finset.ne_of_mem_erase hi)]
  calc (∑ i ∈ s, g i (Function.update f k v i)) + g k (f k)
      = g k v + (∑ i ∈ s.erase k, g i (f i)) + g k (f k) := by
        rw [← Finset.add_sum_erase _ _ hk, Function.update_self, hsame]
    _ = (∑ i ∈ s, g i (f i)) + g k v := by
        rw [← Finset.add_sum_erase _ (fun i => g i (f i)) hk]
        simp only [add_comm, add_left_comm]

end DanubeBsp
