import Mathlib.Data.List.Basic
import Mathlib.Algebra.Order.Ring.Int

namespace DanubeBsp

/-- What a read gives back: the result, whether it reports the end, and what it put into the page. -/
structure PageReply (α : Type*) where
  ret : Int
  eof : Bool
  page : List α

/-- The reader takes as many characters of the page as the result says. -/
def PageReply.data {α : Type*} (r : PageReply α) : List α := r.page.take r.ret.toNat

def PageReply.Ends {α : Type*} (r : PageReply α) : Prop := r.eof = true ∨ r.ret = 0

instance {α : Type*} (r : PageReply α) : Decidable r.Ends := inferInstanceAs (Decidable (_ ∨ _))

section Reads

variable {α : Type*} (read : Nat → Int → PageReply α) (counts : Nat → Int)

/-- The offset of the `k`-th read of a reader that advances by the results. -/
def offsetAt : Nat → Nat
  | 0 => 0
  | k + 1 => offsetAt k + (read (offsetAt k) (counts k)).ret.toNat

def replyAt (k : Nat) : PageReply α := read (offsetAt read counts k) (counts k)

/-- The reader comes to its `k`-th read: no read before has ended it. -/
def Reached (k : Nat) : Prop := ∀ j < k, ¬(replyAt read counts j).Ends

def taken (k : Nat) : List α := (List.range k).flatMap fun j => (replyAt read counts j).data

/-- Some read ends, no result up to it is negative, and the reader then has the text. -/
def ReadsWhole (text : List α) : Prop :=
  ∃ k, Reached read counts k ∧ (replyAt read counts k).Ends ∧
    (∀ j ≤ k, 0 ≤ (replyAt read counts j).ret) ∧ taken read counts (k + 1) = text

variable {read counts}

theorem taken_succ (k : Nat) :
    taken read counts (k + 1) = taken read counts k ++ (replyAt read counts k).data := by
  rw [taken, List.range_succ, List.flatMap_append, List.flatMap_singleton, taken]

theorem Reached.pred {k : Nat} (h : Reached read counts (k + 1)) : Reached read counts k :=
  fun j hj => h j (Nat.lt_succ_of_lt hj)

theorem reached_succ {k : Nat} (h : Reached read counts k)
    (hk : ¬(replyAt read counts k).Ends) : Reached read counts (k + 1) := by
  intro j hj
  rcases Nat.lt_succ_iff_lt_or_eq.mp hj with hlt | rfl
  · exact h j hlt
  · exact hk

/-- The reads that end a run in one place. -/
theorem end_unique {k l : Nat} (hk : Reached read counts k) (hek : (replyAt read counts k).Ends)
    (hl : Reached read counts l) (hel : (replyAt read counts l).Ends) : k = l := by
  rcases Nat.lt_trichotomy k l with hlt | heq | hgt
  · exact absurd hek (hl k hlt)
  · exact heq
  · exact absurd hel (hk l hgt)

/-- The reads put together the text up to the offset, if each gives the text that it stands at. -/
theorem taken_eq_take {text : List α} {k : Nat}
    (hslice : ∀ j < k, (replyAt read counts j).data =
      (text.drop (offsetAt read counts j)).take (replyAt read counts j).ret.toNat) :
    taken read counts k = text.take (offsetAt read counts k) := by
  induction k with
  | zero => simp [taken, offsetAt]
  | succ k ih =>
    rw [taken_succ, ih fun j hj => hslice j (Nat.lt_succ_of_lt hj), hslice k (Nat.lt_succ_self k),
      offsetAt, List.take_add]
    rfl

/-- How a reader of pages fares at the offsets `At` with the counts that are `Good` for it: a good
read ends with the rest of the text or goes on to a later offset, and any other read fails or ends
too early. -/
structure PageLaw (read : Nat → Int → PageReply α) (counts : Nat → Int) (text : List α)
    (At : Nat → Prop) (Good : Nat → Int → Prop) : Prop where
  start : At 0
  inText : ∀ {off}, At off → off ≤ text.length
  slice : ∀ {off k}, At off → 0 ≤ (read off (counts k)).ret →
    (read off (counts k)).data = (text.drop off).take (read off (counts k)).ret.toNat
  good : ∀ {off k}, At off → Good off (counts k) →
    (read off (counts k)).eof = true ∧ (read off (counts k)).ret = text.length - off ∨
      (read off (counts k)).eof = false ∧ 0 < (read off (counts k)).ret ∧
        At (off + (read off (counts k)).ret.toNat)
  bad : ∀ {off k}, At off → ¬Good off (counts k) →
    (read off (counts k)).ret < 0 ∨
      (read off (counts k)).eof = false ∧ (read off (counts k)).ret = 0 ∧ off < text.length

variable {text : List α} {At : Nat → Prop} {Good : Nat → Int → Prop}

/-- As long as the reads are good, the reader is at an offset of the text and has not failed. -/
theorem PageLaw.at_of_good (law : PageLaw read counts text At Good) {k : Nat}
    (hr : Reached read counts k) (hgood : ∀ j < k, Good (offsetAt read counts j) (counts j)) :
    At (offsetAt read counts k) ∧ k ≤ offsetAt read counts k ∧
      ∀ j < k, At (offsetAt read counts j) ∧ 0 < (replyAt read counts j).ret := by
  induction k with
  | zero => exact ⟨law.start, le_rfl, fun j hj => absurd hj (Nat.not_lt_zero j)⟩
  | succ k ih =>
    obtain ⟨hat, hle, hall⟩ := ih hr.pred fun j hj => hgood j (Nat.lt_succ_of_lt hj)
    have hend := hr k (Nat.lt_succ_self k)
    rcases law.good hat (hgood k (Nat.lt_succ_self k)) with ⟨heof, -⟩ | ⟨-, hpos, hnext⟩
    · exact absurd (Or.inl heof) hend
    · refine ⟨hnext, ?_, ?_⟩
      · have hlt : 0 < (read (offsetAt read counts k) (counts k)).ret.toNat := by omega
        show k + 1 ≤ offsetAt read counts k + _
        omega
      · intro j hj
        rcases Nat.lt_succ_iff_lt_or_eq.mp hj with hlt | rfl
        · exact hall j hlt
        · exact ⟨hat, hpos⟩

/-- After good reads, one more that does not fail still gives the text that it stands at. -/
theorem PageLaw.taken_eq (law : PageLaw read counts text At Good) {k : Nat}
    (hr : Reached read counts k) (hgood : ∀ j < k, Good (offsetAt read counts j) (counts j))
    (hk : 0 ≤ (replyAt read counts k).ret) :
    taken read counts (k + 1) = text.take (offsetAt read counts (k + 1)) := by
  obtain ⟨hat, -, hall⟩ := law.at_of_good hr hgood
  apply taken_eq_take
  intro j hj
  rcases Nat.lt_succ_iff_lt_or_eq.mp hj with hlt | rfl
  · exact law.slice (hall j hlt).1 (hall j hlt).2.le
  · exact law.slice hat hk

theorem PageLaw.exists_end (law : PageLaw read counts text At Good)
    (hgood : ∀ k, Reached read counts k → Good (offsetAt read counts k) (counts k)) :
    ∃ k, Reached read counts k ∧ (replyAt read counts k).Ends := by
  by_contra hno
  have hall : ∀ k, Reached read counts k := by
    intro k
    induction k with
    | zero => exact fun j hj => absurd hj (Nat.not_lt_zero j)
    | succ k ih => exact reached_succ ih fun hend => hno ⟨k, ih, hend⟩
  obtain ⟨hat, hle, -⟩ := law.at_of_good (hall (text.length + 1)) fun j _ => hgood j (hall j)
  have := law.inText hat
  omega

/-- The reader gets the whole text exactly if each read that it comes to is good. -/
theorem PageLaw.readsWhole_iff (law : PageLaw read counts text At Good) :
    ReadsWhole read counts text ↔
      ∀ k, Reached read counts k → Good (offsetAt read counts k) (counts k) := by
  constructor
  · intro ⟨K, hK, hend, hnonneg, htext⟩ k hk
    have hle : k ≤ K := by
      by_contra hlt
      exact hk K (by omega) hend
    induction k using Nat.strong_induction_on with
    | _ k ih =>
      have hbefore : ∀ j < k, Good (offsetAt read counts j) (counts j) := fun j hj =>
        ih j hj (fun i hi => hk i (by omega)) (by omega)
      obtain ⟨hat, -, hall⟩ := law.at_of_good hk hbefore
      by_contra hbad
      rcases law.bad hat hbad with hneg | ⟨-, hzero, hlt⟩
      · exact absurd (hnonneg k hle) (by
          show ¬0 ≤ (read (offsetAt read counts k) (counts k)).ret
          omega)
      · -- the early end is the end of the run, and it is short of the text
        have hends : (replyAt read counts k).Ends := Or.inr hzero
        cases end_unique hk hends hK hend
        rw [law.taken_eq hk hbefore hzero.ge, offsetAt, hzero] at htext
        have hlen := congrArg List.length htext
        rw [List.length_take] at hlen
        simp only [Int.toNat_zero, Nat.add_zero] at hlen
        omega
  · intro hgood
    obtain ⟨k, hk, hend⟩ := law.exists_end hgood
    obtain ⟨hat, -, hall⟩ := law.at_of_good hk fun j hj => hgood j fun i hi => hk i (by omega)
    have hin := law.inText hat
    have hlast : (replyAt read counts k).ret = text.length - offsetAt read counts k := by
      rcases law.good hat (hgood k hk) with ⟨-, hret⟩ | ⟨heof, hpos, -⟩
      · exact hret
      · rcases hend with he | he
        · exact absurd (heof.symm.trans he) Bool.false_ne_true
        · exact absurd he hpos.ne'
    have hnonneg : 0 ≤ (replyAt read counts k).ret := by omega
    refine ⟨k, hk, hend, ?_, ?_⟩
    · intro j hj
      rcases Nat.lt_or_eq_of_le hj with hlt | rfl
      · exact (hall j hlt).2.le
      · exact hnonneg
    · rw [law.taken_eq hk (fun j hj => hgood j fun i hi => hk i (by omega)) hnonneg, offsetAt]
      apply List.take_of_length_le
      show text.length ≤ offsetAt read counts k + (replyAt read counts k).ret.toNat
      omega

end Reads

end DanubeBsp
