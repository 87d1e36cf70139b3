import Mathlib.Logic.Function.Basic
import Mathlib.Data.List.Count
import DanubeBsp.WordMemory

namespace DanubeBsp

/-- The registered devices, by the pointers to them. -/
structure AtmDevs where
  atmDevs : List Word
  ops : Word → Bool
  number : Word → Int
  refcnt : Word → Int
  dfClose : Word → Bool

namespace AtmDevs

variable {d : AtmDevs} {p q : Word} {n : Int}

def hold (d : AtmDevs) (dev : Word) : AtmDevs :=
  { d with refcnt := Function.update d.refcnt dev (d.refcnt dev + 1) }

/-- The device with a number, as `__atm_dev_lookup` searches for it. -/
def devAt (d : AtmDevs) (number : Int) : Option Word :=
  d.atmDevs.find? fun dev => d.ops dev && d.number dev == number

def lookup (d : AtmDevs) (number : Int) : Option Word × AtmDevs :=
  match d.devAt number with
  | some dev => (some dev, d.hold dev)
  | none => (none, d)

/-- A device that is in use is only marked, and shut down with the last reference but its own. -/
def shutdown (d : AtmDevs) (dev : Word) : AtmDevs :=
  if 1 < d.refcnt dev then { d with dfClose := Function.update d.dfClose dev true }
  else { d with atmDevs := d.atmDevs.erase dev }

def dec (d : AtmDevs) (dev : Word) : AtmDevs :=
  { d with refcnt := Function.update d.refcnt dev (d.refcnt dev - 1) }

def put (d : AtmDevs) (dev : Word) : AtmDevs :=
  let d := d.dec dev
  if d.refcnt dev = 1 ∧ d.dfClose dev then d.shutdown dev else d

/-- A device that is marked is in use. -/
def Closing (d : AtmDevs) : Prop := ∀ dev ∈ d.atmDevs, d.dfClose dev → 1 < d.refcnt dev

theorem devAt_some (h : d.devAt n = some p) : p ∈ d.atmDevs ∧ d.number p = n := by
  have hp := List.find?_some h
  simp only [Bool.and_eq_true, beq_iff_eq] at hp
  exact ⟨List.mem_of_find?_eq_some h, hp.2⟩

theorem refcnt_hold (d : AtmDevs) (dev q : Word) :
    (d.hold dev).refcnt q = d.refcnt q + if dev = q then 1 else 0 := by
  unfold hold
  by_cases h : dev = q
  · subst h
    rw [if_pos rfl]
    exact Function.update_self _ _ _
  · rw [if_neg h, add_zero]
    exact Function.update_of_ne (Ne.symm h) _ _

theorem closing_hold (h : d.Closing) (dev : Word) : (d.hold dev).Closing := by
  intro q hq hclose
  have hlt := h q hq hclose
  rw [refcnt_hold]
  split_ifs <;> omega

theorem closing_shutdown (h : d.Closing) (dev : Word) : (d.shutdown dev).Closing := by
  unfold shutdown
  split_ifs with hlt
  · intro q hq hclose
    by_cases heq : q = dev
    · rw [heq]
      exact hlt
    · exact h q hq ((Function.update_of_ne heq _ _).symm.trans hclose)
  · intro q hq hclose
    exact h q (List.mem_of_mem_erase hq) hclose

theorem refcnt_dec_self (d : AtmDevs) (dev : Word) : (d.dec dev).refcnt dev = d.refcnt dev - 1 :=
  Function.update_self _ _ _

theorem refcnt_dec_of_ne (d : AtmDevs) {dev : Word} (h : q ≠ dev) :
    (d.dec dev).refcnt q = d.refcnt q := Function.update_of_ne h _ _

theorem closing_put (h : d.Closing) (hnodup : d.atmDevs.Nodup) (dev : Word) :
    (d.put dev).Closing := by
  unfold put
  dsimp only
  split_ifs with hlast
  · -- the last reference of a marked device: it is shut down
    unfold shutdown
    rw [if_neg (by omega)]
    intro q hq hclose
    obtain ⟨hne, hmem⟩ := (List.Nodup.mem_erase_iff hnodup).mp hq
    exact (h q hmem hclose).trans_eq (refcnt_dec_of_ne d hne).symm
  · intro q hq hclose
    by_cases heq : q = dev
    · have hlt := h q hq hclose
      subst heq
      have hne : (d.dec q).refcnt q ≠ 1 := fun hone => hlast ⟨hone, hclose⟩
      rw [refcnt_dec_self] at hne ⊢
      omega
    · exact (h q hq hclose).trans_eq (refcnt_dec_of_ne d heq).symm

theorem dec_hold (d : AtmDevs) (dev : Word) : (d.hold dev).dec dev = d := by
  have hback : Function.update (d.hold dev).refcnt dev ((d.hold dev).refcnt dev - 1) = d.refcnt := by
    funext q
    by_cases heq : q = dev
    · subst heq
      rw [Function.update_self, refcnt_hold, if_pos rfl, add_sub_cancel_right]
    · rw [Function.update_of_ne heq, refcnt_hold, if_neg (Ne.symm heq), add_zero]
  unfold dec
  rw [hback]
  rfl

/-- What is held and let go of is as before. -/
theorem put_hold (h : d.Closing) (hp : p ∈ d.atmDevs) : (d.hold p).put p = d := by
  unfold put
  rw [dec_hold]
  refine if_neg ?_
  rintro ⟨hone, hclose⟩
  have hlt := h p hp hclose
  omega

/-- A device that a search by number comes to, from number `n` on and until a number is not
taken. -/
def ReachedFrom (d : AtmDevs) (n : Int) (dev : Word) : Prop :=
  ∃ k, n ≤ k ∧ d.devAt k = some dev ∧ ∀ i, n ≤ i → i ≤ k → (d.devAt i).isSome

theorem reachedFrom_here (h : d.devAt n = some p) : d.ReachedFrom n p := by
  refine ⟨n, le_refl n, h, ?_⟩
  intro i hle hge
  rw [le_antisymm hge hle, h]
  rfl

theorem reachedFrom_next (h : d.devAt n = some p) (hq : d.ReachedFrom (n + 1) q) :
    d.ReachedFrom n q := by
  obtain ⟨k, hle, hk, hall⟩ := hq
  refine ⟨k, by omega, hk, ?_⟩
  intro i hn hik
  by_cases heq : i = n
  · rw [heq, h]
    rfl
  · exact hall i (by omega) hik

theorem reachedFrom_taken (h : d.ReachedFrom n q) : (d.devAt n).isSome := by
  obtain ⟨k, hle, _, hall⟩ := h
  exact hall n (le_refl n) hle

theorem reachedFrom_mem (h : d.ReachedFrom n q) : q ∈ d.atmDevs := by
  obtain ⟨k, _, hk, _⟩ := h
  exact (devAt_some hk).1

theorem reachedFrom_cases (h : d.devAt n = some p) (hq : d.ReachedFrom n q) :
    q = p ∨ d.ReachedFrom (n + 1) q := by
  obtain ⟨k, hle, hk, hall⟩ := hq
  by_cases heq : k = n
  · rw [heq, h] at hk
    exact .inl (Option.some.inj hk).symm
  · refine .inr ⟨k, by omega, hk, ?_⟩
    intro i hn hik
    exact hall i (by omega) hik

/-- The devices that are numbered `n` or more. -/
def above (d : AtmDevs) (n : Int) : Nat := d.atmDevs.countP fun dev => n ≤ d.number dev

theorem above_succ_lt (h : d.devAt n = some p) : d.above (n + 1) < d.above n := by
  obtain ⟨hmem, hnum⟩ := devAt_some h
  have hsplit : d.above n = d.above (n + 1) + d.atmDevs.countP fun dev => d.number dev = n := by
    unfold above
    generalize d.atmDevs = devs
    induction devs with
    | nil => rfl
    | cons dev devs ih =>
      rw [List.countP_cons, List.countP_cons, List.countP_cons, ih]
      simp only [decide_eq_true_eq]
      split_ifs <;> omega
  have hpos : 0 < d.atmDevs.countP fun dev => d.number dev = n :=
    List.countP_pos_iff.mpr ⟨p, hmem, decide_eq_true hnum⟩
  omega

theorem above_le (d : AtmDevs) (n : Int) : d.above n ≤ d.atmDevs.length := List.countP_le_length

end AtmDevs

/-- The devices as the kernel keeps them. -/
structure KeptDevs extends AtmDevs where
  closing : toAtmDevs.Closing

end DanubeBsp
