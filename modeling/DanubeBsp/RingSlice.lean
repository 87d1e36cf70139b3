import Mathlib.Data.Nat.ModEq
import Mathlib.Logic.Function.Basic
import Mathlib.Data.List.Nodup
import Mathlib.Data.List.Perm.Subperm

namespace DanubeBsp

/-- The `n` cells of a ring of `cap` slots from slot `r` on. -/
def ringSlice {α : Type*} (cap : Nat) (buf : Nat → α) (r n : Nat) : List α :=
  (List.range n).map fun k => buf ((r + k) % cap)

/-- The number of slots from `r` forward to `w`. -/
def ringDist (cap r w : Nat) : Nat := (w + cap - r) % cap

@[simp] theorem ringSlice_length {α : Type*} (cap : Nat) (buf : Nat → α) (r n : Nat) :
    (ringSlice cap buf r n).length = n := by simp [ringSlice]

theorem ringSlice_mod {α : Type*} (cap : Nat) (buf : Nat → α) (r n : Nat) :
    ringSlice cap buf (r % cap) n = ringSlice cap buf r n := by simp [ringSlice]

theorem ringSlice_succ {α : Type*} (cap : Nat) (buf : Nat → α) (r n : Nat) :
    ringSlice cap buf r (n + 1) = buf (r % cap) :: ringSlice cap buf (r + 1) n := by
  simp [ringSlice, List.range_succ_eq_map, Function.comp_def, Nat.add_assoc, Nat.add_comm 1]

theorem ringSlice_snoc {α : Type*} (cap : Nat) (buf : Nat → α) (r n : Nat) :
    ringSlice cap buf r (n + 1) = ringSlice cap buf r n ++ [buf ((r + n) % cap)] := by
  simp [ringSlice, List.range_succ]

theorem ringSlice_append {α : Type*} (cap : Nat) (buf : Nat → α) (r m n : Nat) :
    ringSlice cap buf r (m + n) = ringSlice cap buf r m ++ ringSlice cap buf (r + m) n := by
  simp [ringSlice, List.range_add, Function.comp_def, Nat.add_assoc]

theorem ringSlice_congr {α : Type*} {cap : Nat} {buf buf' : Nat → α} {r n : Nat}
    (h : ∀ k, r ≤ k → k < r + n → buf' (k % cap) = buf (k % cap)) :
    ringSlice cap buf' r n = ringSlice cap buf r n := by
  apply List.map_congr_left
  intro k hk
  have hk := List.mem_range.mp hk
  exact h (r + k) (by omega) (by omega)

/-- Absolute positions less than one lap apart share a slot only when they are equal. -/
theorem ringPos_inj {cap r w : Nat} (hle : r ≤ w) (hlap : w < r + cap)
    (heq : r % cap = w % cap) : r = w := by
  obtain ⟨d, rfl⟩ := Nat.exists_eq_add_of_le hle
  have hd : (r + 0) % cap = (r + d) % cap := by simpa using heq
  have hmod : 0 % cap = d % cap := Nat.ModEq.add_left_cancel' r hd
  rw [Nat.mod_eq_of_lt (by omega : d < cap), Nat.zero_mod] at hmod
  omega

theorem ringPos_ne {cap p i j : Nat} (hi : p ≤ i) (hi' : i < p + cap) (hj : p ≤ j)
    (hj' : j < p + cap) (hne : i ≠ j) : i % cap ≠ j % cap := by
  intro heq
  rcases Nat.le_total i j with hle | hle
  · exact hne (ringPos_inj hle (by omega) heq)
  · exact hne (ringPos_inj hle (by omega) heq.symm).symm

theorem ringDist_mod {cap r w : Nat} (hle : r ≤ w) (hlap : w < r + cap) :
    ringDist cap (r % cap) (w % cap) = w - r := by
  have hcap : 0 < cap := by omega
  have hr := Nat.mod_lt r hcap
  have hw := Nat.mod_lt w hcap
  have hdr := Nat.div_add_mod r cap
  have hdw := Nat.div_add_mod w cap
  have hlt : w - r < cap := by omega
  have key : (w % cap + cap - r % cap) % cap = (w - r) % cap := by
    apply Nat.ModEq.add_right_cancel' (r % cap)
    have hl : w % cap + cap - r % cap + r % cap = w % cap + cap := by omega
    rw [hl]
    calc w % cap + cap ≡ w [MOD cap] := by simp [Nat.ModEq]
      _ = w - r + r := by omega
      _ ≡ w - r + r % cap [MOD cap] := by simp [Nat.ModEq]
  rw [ringDist, key, Nat.mod_eq_of_lt hlt]

theorem ringSlice_update {α : Type*} {cap : Nat} {buf : Nat → α} {r n p : Nat} {x : α}
    (hp : ∀ k, r ≤ k → k < r + n → k % cap ≠ p % cap) :
    ringSlice cap (Function.update buf (p % cap) x) r n = ringSlice cap buf r n := by
  apply ringSlice_congr
  intro k hk hlt
  exact Function.update_of_ne (hp k hk hlt) _ _

/-- A store at the position behind the slice does not change it. -/
theorem ringSlice_update_end {α : Type*} {cap : Nat} {buf : Nat → α} {r n : Nat} {x : α}
    (hn : n < cap) :
    ringSlice cap (Function.update buf ((r + n) % cap) x) r n = ringSlice cap buf r n := by
  apply ringSlice_update
  intro k hk hlt heq
  have := ringPos_inj (by omega) (by omega) heq
  omega

/-- A store at the position before the slice does not change it. -/
theorem ringSlice_update_before {α : Type*} {cap : Nat} {buf : Nat → α} {r n : Nat} {x : α}
    (hn : n < cap) :
    ringSlice cap (Function.update buf (r % cap) x) (r + 1) n = ringSlice cap buf (r + 1) n := by
  apply ringSlice_update
  intro k hk hlt heq
  have := ringPos_inj (by omega) (by omega) heq.symm
  omega

theorem ringNext_mod (max r : Nat) :
    (if r % (max + 1) < max then r % (max + 1) + 1 else 0) = (r + 1) % (max + 1) := by
  have hr : r % (max + 1) < max + 1 := Nat.mod_lt r (by omega)
  have hs : (r + 1) % (max + 1) = (r % (max + 1) + 1) % (max + 1) := (Nat.mod_add_mod r _ 1).symm
  rw [hs]
  generalize r % (max + 1) = p at hr
  split
  next h => exact (Nat.mod_eq_of_lt (by omega)).symm
  next h =>
    have he : p = max := by omega
    rw [he, Nat.mod_self]

theorem ringNext_end {cap : Nat} (hcap : 0 < cap) (r : Nat) :
    (if r % cap + 1 = cap then 0 else r % cap + 1) = (r + 1) % cap := by
  have hr := Nat.mod_lt r hcap
  rw [← Nat.mod_add_mod r cap 1]
  generalize r % cap = p at hr
  split
  next h => rw [h, Nat.mod_self]
  next h => exact (Nat.mod_eq_of_lt (by omega)).symm

/-- The fill level by comparison of the two indices. -/
theorem ringCount_mod {max r w : Nat} (hle : r ≤ w) (hlap : w ≤ r + max) :
    (if r % (max + 1) ≤ w % (max + 1) then w % (max + 1) - r % (max + 1)
      else w % (max + 1) + 1 + max - r % (max + 1)) = w - r := by
  have hd := ringDist_mod hle (by omega : w < r + (max + 1))
  have hr : r % (max + 1) < max + 1 := Nat.mod_lt r (by omega)
  have hw : w % (max + 1) < max + 1 := Nat.mod_lt w (by omega)
  rw [← hd, ringDist]
  generalize r % (max + 1) = p at hr
  generalize w % (max + 1) = v at hw
  split
  next h =>
    have he : v + (max + 1) - p = v - p + (max + 1) := by omega
    rw [he, Nat.add_mod_right, Nat.mod_eq_of_lt (by omega)]
  next h =>
    rw [Nat.mod_eq_of_lt (by omega)]
    omega

/-- A slice that holds the images of a list, item by item. -/
theorem ringSlice_eq_map {α β : Type*} {cap : Nat} {buf : Nat → α} {r : Nat} {xs : List β}
    {f : β → α} (h : ∀ k x, xs[k]? = some x → buf ((r + k) % cap) = f x) :
    ringSlice cap buf r xs.length = xs.map f := by
  apply List.ext_getElem
  · simp
  · intro k hk hk'
    simp only [ringSlice_length] at hk
    simpa [ringSlice] using h k _ (List.getElem?_eq_getElem hk)

/-- One lap from any slot on visits every slot once. -/
theorem ringSlice_lap_perm (cap r : Nat) :
    (ringSlice cap id r cap).Perm (List.range cap) := by
  have hnodup : (ringSlice cap id r cap).Nodup := by
    rw [ringSlice, List.nodup_map_iff_inj_on List.nodup_range]
    intro i hi j hj heq
    have hi := List.mem_range.mp hi
    have hj := List.mem_range.mp hj
    by_contra hne
    exact ringPos_ne (p := r) (by omega) (by omega) (by omega) (by omega)
      (by omega : r + i ≠ r + j) heq
  refine (List.subperm_of_subset hnodup ?_).perm_of_length_le (by simp)
  intro i hi
  obtain ⟨k, hk, rfl⟩ := List.mem_map.mp hi
  exact List.mem_range.mpr (Nat.mod_lt _ (by have := List.mem_range.mp hk; omega))

end DanubeBsp
