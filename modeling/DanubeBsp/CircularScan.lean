import Mathlib.Data.Nat.Find
import Mathlib.Tactic

namespace DanubeBsp

/-- The upward loop `do { if (i == n) i = 0; if (hit(i)) return i; } while (++i != start)`. The outer
`none` is a loop that goes on after `fuel` rounds, the inner one a loop that has found nothing. -/
def scanUp (n start : Nat) (hit : Nat → Bool) : Nat → Nat → Option (Option Nat)
  | 0, _ => none
  | fuel + 1, i =>
    let i := if i = n then 0 else i
    if hit i then some (some i)
    else if i + 1 = start then some none
    else scanUp n start hit fuel (i + 1)

/-- The downward loop `do { if (i < 0) i = n - 1; if (hit(i)) return i; } while (--i != start)`. -/
def scanDown (n start : Nat) (hit : Nat → Bool) : Nat → Int → Option (Option Nat)
  | 0, _ => none
  | fuel + 1, i =>
    let i := if i < 0 then n - 1 else i.toNat
    if hit i then some (some i)
    else if (i : Int) - 1 = start then some none
    else scanDown n start hit fuel (i - 1)

section Up

variable {n start : Nat} {hit : Nat → Bool}

theorem scanUp_hit {fuel i j : Nat} (hi : i ≤ n) (hn : 0 < n)
    (h : scanUp n start hit fuel i = some (some j)) : j < n ∧ hit j = true := by
  induction fuel generalizing i with
  | zero => simp [scanUp] at h
  | succ fuel ih =>
    have hlt : (if i = n then 0 else i) < n := by split <;> omega
    unfold scanUp at h
    dsimp only at h
    generalize (if i = n then 0 else i) = k at h hlt
    split at h
    next hk =>
      cases h
      exact ⟨hlt, hk⟩
    next =>
      split at h
      next => simp at h
      next => exact ih hlt h

/-- More rounds do not change the answer of a loop that has ended. -/
theorem scanUp_mono {fuel i : Nat} {r : Option Nat} (h : scanUp n start hit fuel i = some r)
    (more : Nat) : scanUp n start hit (fuel + more) i = some r := by
  induction fuel generalizing i with
  | zero => simp [scanUp] at h
  | succ fuel ih =>
    rw [Nat.add_right_comm]
    unfold scanUp at h ⊢
    dsimp only at h ⊢
    generalize (if i = n then 0 else i) = k at h ⊢
    split at h
    next hk => rw [if_pos hk]; exact h
    next hk =>
      rw [if_neg hk]
      split at h
      next hs => rw [if_pos hs]; exact h
      next hs => rw [if_neg hs]; exact ih h

theorem scanUp_unique {fuel fuel' i : Nat} {r r' : Option Nat}
    (h : scanUp n start hit fuel i = some r) (h' : scanUp n start hit fuel' i = some r') : r = r' := by
  have hr := scanUp_mono h fuel'
  have hr' := scanUp_mono h' fuel
  rw [Nat.add_comm, hr] at hr'
  exact Option.some.inj hr'

/-- A loop without a hit goes on, up to the end of the table or the starting point. -/
theorem scanUp_pass {fuel i k : Nat} (hk : i + k ≤ n)
    (hmiss : ∀ j, i ≤ j → j < i + k → hit j = false)
    (hstop : ∀ j, i < j → j ≤ i + k → j ≠ start) :
    scanUp n start hit (fuel + k) i = scanUp n start hit fuel (i + k) := by
  induction k generalizing i with
  | zero => rfl
  | succ k ih =>
    have hne : i ≠ n := by omega
    have hm : hit i = false := hmiss i le_rfl (by omega)
    have hs : ¬i + 1 = start := hstop (i + 1) (by omega) (by omega)
    rw [← Nat.add_assoc, scanUp]
    simp only [if_neg hne, hm, Bool.false_eq_true, if_false, if_neg hs]
    rw [ih (by omega) (fun j hj hlt => hmiss j (by omega) (by omega))
      (fun j hj hle => hstop j (by omega) (by omega))]
    congr 1
    omega

theorem scanUp_wrap (hn : 0 < n) (fuel : Nat) :
    scanUp n start hit fuel n = scanUp n start hit fuel 0 := by
  have hne : ¬0 = n := by omega
  cases fuel with
  | zero => rfl
  | succ fuel =>
    unfold scanUp
    rw [if_pos rfl, if_neg hne]

/-- The way from the starting point over the end of the table. -/
theorem scanUp_lap {fuel : Nat} (hs : start < n) (hmiss : ∀ j, start ≤ j → j < n → hit j = false) :
    scanUp n start hit (fuel + (n - start)) start = scanUp n start hit fuel 0 := by
  have hend : start + (n - start) = n := by omega
  rw [scanUp_pass (by omega) (fun j hj hlt => hmiss j hj (by omega)) (fun j hj _ => by omega), hend,
    scanUp_wrap (by omega)]

theorem scanUp_first {fuel i j : Nat} (hij : i ≤ j) (hj : j < n) (hhit : hit j = true)
    (hmiss : ∀ k, i ≤ k → k < j → hit k = false) (hstop : ∀ k, i < k → k ≤ j → k ≠ start) :
    scanUp n start hit (fuel + 1 + (j - i)) i = some (some j) := by
  have hend : i + (j - i) = j := by omega
  have hne : j ≠ n := by omega
  rw [scanUp_pass (by omega) (fun k hk hlt => hmiss k hk (by omega))
    (fun k hk hle => hstop k hk (by omega)), hend, scanUp]
  simp only [if_neg hne, hhit, if_true]

/-- What can be found is found in the first lap. -/
theorem scanUp_finds (hs : start < n) (hex : ∃ j < n, hit j = true) :
    ∃ j, scanUp n start hit n start = some (some j) := by
  by_cases hup : ∃ j, start ≤ j ∧ j < n ∧ hit j = true
  · obtain ⟨hge, hlt, hhit⟩ := Nat.find_spec hup
    have hmiss : ∀ k, start ≤ k → k < Nat.find hup → hit k = false := by
      intro k hk hkj
      have hnot := Nat.find_min hup hkj
      by_contra hk'
      exact hnot ⟨hk, by omega, by simpa using hk'⟩
    have hfuel : n = n - (Nat.find hup - start) - 1 + 1 + (Nat.find hup - start) := by omega
    refine ⟨Nat.find hup, ?_⟩
    nth_rewrite 2 [hfuel]
    exact scanUp_first hge hlt hhit hmiss (fun k hk _ => by omega)
  · have hmiss : ∀ j, start ≤ j → j < n → hit j = false := by
      intro j hj hlt
      by_contra hk
      exact hup ⟨j, hj, hlt, by simpa using hk⟩
    obtain ⟨hlt, hhit⟩ := Nat.find_spec hex
    have hbelow : Nat.find hex < start := by
      by_contra hge
      rw [hmiss _ (by omega) hlt] at hhit
      simp at hhit
    have hfirst : ∀ k, 0 ≤ k → k < Nat.find hex → hit k = false := by
      intro k _ hkj
      have hnot := Nat.find_min hex hkj
      by_contra hk'
      exact hnot ⟨by omega, by simpa using hk'⟩
    have hfuel : n = start - Nat.find hex - 1 + 1 + (Nat.find hex - 0) + (n - start) := by omega
    refine ⟨Nat.find hex, ?_⟩
    nth_rewrite 2 [hfuel]
    rw [scanUp_lap hs hmiss]
    exact scanUp_first (Nat.zero_le _) hlt hhit hfirst (fun k _ hk => by omega)

/-- Without a hit the loop ends after one lap, since it comes back to where it has started. -/
theorem scanUp_misses (hs : start < n) (hpos : start ≠ 0) (hmiss : ∀ j < n, hit j = false) :
    scanUp n start hit n start = some none := by
  have hfuel : n = 0 + 1 + (start - 1) + (n - start) := by omega
  have hend : 0 + (start - 1) = start - 1 := by omega
  have hne : start - 1 ≠ n := by omega
  have hlast : start - 1 + 1 = start := by omega
  nth_rewrite 2 [hfuel]
  rw [scanUp_lap hs (fun j _ hlt => hmiss j hlt),
    scanUp_pass (by omega) (fun j _ hlt => hmiss j (by omega)) (fun j _ hle => by omega), hend, scanUp]
  simp only [if_neg hne, hmiss (start - 1) (by omega), Bool.false_eq_true, if_false, if_pos hlast]

/-- From index 0 it never comes back: the end of the table is left for index 0 behind the test. -/
theorem scanUp_forever (hn : 0 < n) (hmiss : ∀ j < n, hit j = false) {fuel i : Nat} (hi : i ≤ n) :
    scanUp n 0 hit fuel i = none := by
  induction fuel generalizing i with
  | zero => rfl
  | succ fuel ih =>
    have hlt : (if i = n then 0 else i) < n := by split <;> omega
    unfold scanUp
    dsimp only
    generalize (if i = n then 0 else i) = k at hlt ⊢
    rw [if_neg (by simp [hmiss k hlt]), if_neg (by omega)]
    exact ih hlt

end Up

section Down

variable {n start : Nat} {hit : Nat → Bool}

/-- Seen from the other end of the table the downward loop is the upward one. -/
theorem scanDown_eq (hs : start < n) (fuel : Nat) {i : Int} (hi : -1 ≤ i) (hlt : i < n) :
    scanDown n start hit fuel i =
      (scanUp n (n - 1 - start) (fun j => hit (n - 1 - j)) fuel (n - 1 - i).toNat).map
        (Option.map (n - 1 - ·)) := by
  induction fuel generalizing i with
  | zero => rfl
  | succ fuel ih =>
    have hk : n - 1 - (if (n - 1 - i).toNat = n then 0 else (n - 1 - i).toNat) =
        if i < 0 then n - 1 else i.toNat := by
      split <;> split <;> omega
    have hkn : (if (n - 1 - i).toNat = n then 0 else (n - 1 - i).toNat) < n := by
      split <;> omega
    unfold scanDown scanUp
    dsimp only
    rw [← hk]
    generalize (if (n - 1 - i).toNat = n then 0 else (n - 1 - i).toNat) = k at hkn ⊢
    by_cases hh : hit (n - 1 - k) = true
    · rw [if_pos hh, if_pos hh]
      rfl
    · rw [if_neg hh, if_neg hh]
      by_cases hstop : k + 1 = n - 1 - start
      · rw [if_pos hstop, if_pos (by omega)]
        rfl
      · rw [if_neg hstop, if_neg (by omega), ih (by omega) (by omega)]
        congr 3
        omega

theorem scanDown_start (hs : start < n) (fuel : Nat) :
    scanDown n start hit fuel start =
      (scanUp n (n - 1 - start) (fun j => hit (n - 1 - j)) fuel (n - 1 - start)).map
        (Option.map (n - 1 - ·)) := by
  have hi : ((n : Int) - 1 - (start : Int)).toNat = n - 1 - start := by omega
  rw [scanDown_eq hs fuel (by omega) (by omega), hi]

theorem scanDown_hit {fuel j : Nat} (hs : start < n)
    (h : scanDown n start hit fuel start = some (some j)) : j < n ∧ hit j = true := by
  rw [scanDown_start hs] at h
  obtain ⟨r, hr, hj⟩ := Option.map_eq_some_iff.mp h
  obtain ⟨k, rfl, rfl⟩ := Option.map_eq_some_iff.mp hj
  obtain ⟨hk, hhit⟩ := scanUp_hit (by omega) (by omega) hr
  exact ⟨by omega, hhit⟩

theorem scanDown_finds (hs : start < n) (hex : ∃ j < n, hit j = true) :
    ∃ j, scanDown n start hit n start = some (some j) := by
  obtain ⟨j, hj, hhit⟩ := hex
  have hback : n - 1 - (n - 1 - j) = j := by omega
  obtain ⟨k, hk⟩ := @scanUp_finds n (n - 1 - start) (fun j => hit (n - 1 - j)) (by omega) ⟨n - 1 - j, by omega, by rw [hback]; exact hhit⟩
  refine ⟨n - 1 - k, ?_⟩
  rw [scanDown_start hs, hk]
  rfl

theorem scanDown_misses (hs : start < n) (hlast : start ≠ n - 1) (hmiss : ∀ j < n, hit j = false) :
    scanDown n start hit n start = some none := by
  rw [scanDown_start hs, scanUp_misses (by omega) (by omega) (fun j _ => hmiss _ (by omega))]
  rfl

theorem scanDown_forever (hn : 0 < n) (hmiss : ∀ j < n, hit j = false) (fuel : Nat) :
    scanDown n (n - 1) hit fuel ((n - 1 : Nat) : Int) = none := by
  rw [scanDown_start (by omega), Nat.sub_self, scanUp_forever hn (fun j _ => hmiss _ (by omega)) hn.le]
  rfl

end Down

end DanubeBsp
