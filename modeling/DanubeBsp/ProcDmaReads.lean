import DanubeBsp.ProcDma

namespace DanubeBsp

/-- The reader asks for more than the line that its offset is the start of, and `off + count` is an
`int`. -/
def AsksEnough (lines : List (List Char)) (off : Nat) (count : Int) : Prop :=
  off + count ≤ intMax ∧
    ∀ i, ∀ hi : i < lines.length, lineStart lines i = off → (lines[i].length : Int) < count

def AtLine (lines : List (List Char)) (off : Nat) : Prop :=
  ∃ i ≤ lines.length, lineStart lines i = off

theorem lineStart_lt_succ {lines : List (List Char)} (hne : ∀ l ∈ lines, l ≠ []) {i : Nat}
    (hi : i < lines.length) : lineStart lines i < lineStart lines (i + 1) := by
  have hpos := List.length_pos_iff.mpr (hne _ (List.getElem_mem hi))
  rw [lineStart_succ hi]
  omega

/-- A line that stops a read with room for one character ends behind the offset. -/
theorem StopsAt.at_le {lines : List (List Char)} {off i m : Nat} {count : Int}
    {r : PageReply Char} (hc : 1 ≤ count) (hoff : lineStart lines i = off)
    (h : StopsAt lines off (off + count) r m) : i ≤ m := by
  by_contra hlt
  have hmono : lineStart lines (m + 1) ≤ lineStart lines i := lineStart_mono (by omega)
  have hmax := h.2.1
  omega

theorem procReadDma_law (d : EthDma) {counts : Nat → Int}
    (hc : ∀ k, 1 ≤ counts k ∧ counts k ≤ intMax) :
    PageLaw (procReadDma d) counts (dmaText d) (AtLine (dmaLines d)) (AsksEnough (dmaLines d)) where
  start := ⟨0, Nat.zero_le _, rfl⟩
  inText := by
    rintro off ⟨i, hi, rfl⟩
    rw [dmaText, ← lineStart_length]
    exact lineStart_mono hi
  slice := fun _ h => procReadDma_data h
  good := by
    rintro off k ⟨i, hi, hoff⟩ ⟨hfits, hasks⟩
    have hreply := procReadDma_reply d off (counts k)
    rw [lenMax_eq (hc k).1 hfits] at hreply
    rcases hreply with ⟨m, hstop, hall⟩ | ⟨hout, -⟩
    · right
      have him := hstop.at_le (hc k).1 hoff
      have hne : i ≠ m := by
        rintro rfl
        have hlen := hasks i hstop.1 hoff
        have hmax := hstop.2.1
        rw [lineStart_succ hstop.1] at hmax
        omega
      have hlt : off < lineStart (dmaLines d) m := by
        calc off = lineStart (dmaLines d) i := hoff.symm
          _ < lineStart (dmaLines d) (i + 1) :=
              lineStart_lt_succ (fun l hl => (dmaLines_fit d l hl).1) (by have := hstop.1; omega)
          _ ≤ lineStart (dmaLines d) m := lineStart_mono (by omega)
      rw [hstop.2.2]
      refine ⟨rfl, by show (0 : Int) < _ - _; omega, m, hstop.1.le, ?_⟩
      show _ = off + ((lineStart (dmaLines d) m : Int) - off).toNat
      omega
    · left
      rw [hout]
      exact ⟨rfl, rfl⟩
  bad := by
    rintro off k ⟨i, hi, hoff⟩ hbad
    have htext : off ≤ (dmaText d).length := by
      rw [← hoff, dmaText, ← lineStart_length]
      exact lineStart_mono hi
    have hsize := length_dmaText_le d
    have hlt : ∀ {j}, j < (dmaLines d).length →
        lineStart (dmaLines d) j < (dmaText d).length := by
      intro j hj
      calc lineStart (dmaLines d) j < lineStart (dmaLines d) (j + 1) :=
            lineStart_lt_succ (fun l hl => (dmaLines_fit d l hl).1) hj
        _ ≤ (dmaText d).length := by
            rw [dmaText, ← lineStart_length]
            exact lineStart_mono hj
    by_cases hfits : off + counts k ≤ intMax
    · -- some line that starts at the offset is too long, and the read stops there
      right
      have hlong : ∃ j, ∃ hj : j < (dmaLines d).length, lineStart (dmaLines d) j = off ∧
          counts k ≤ (dmaLines d)[j].length := by
        by_contra hno
        refine hbad ⟨hfits, fun j hj hjoff => ?_⟩
        by_contra hge
        exact hno ⟨j, hj, hjoff, not_lt.mp hge⟩
      obtain ⟨j, hj, hjoff, hge⟩ := hlong
      have hreply := procReadDma_reply d off (counts k)
      rw [lenMax_eq (hc k).1 hfits] at hreply
      have hover : (off : Int) + counts k ≤ lineStart (dmaLines d) (j + 1) := by
        rw [lineStart_succ hj]
        omega
      rcases hreply with ⟨m, hstop, hall⟩ | ⟨-, hall⟩
      · have hjm := hstop.at_le (hc k).1 hjoff
        have heq : m = j := by
          by_contra hne
          have := hall (j + 1) (Nat.succ_pos j) (by omega)
          omega
        rw [hstop.2.2, heq, hjoff]
        exact ⟨rfl, Int.sub_self _, hjoff ▸ hlt hj⟩
      · have := hall (j + 1) (Nat.succ_pos j) hj
        omega
    · -- `len_max` is negative, and the read stops at the first line
      left
      have hcount := (hc k).2
      have hneg : lenMax off (counts k) < 0 :=
        lenMax_neg (by rw [intMax]; omega) hcount (not_le.mp hfits)
      have hpos : 0 < off := by omega
      have hlines : 0 < (dmaLines d).length := by
        by_contra hzero
        have hnil : dmaLines d = [] := List.length_eq_zero_iff.mp (by omega)
        rw [dmaText, hnil] at htext
        simp at htext
        omega
      rcases procReadDma_reply d off (counts k) with ⟨m, hstop, hall⟩ | ⟨-, hall⟩
      · have hm : m = 0 := by
          by_contra hne
          have := hall 1 Nat.one_pos (by omega)
          omega
        rw [hstop.2.2, hm, lineStart_zero]
        show (0 : Nat) - (off : Int) < 0
        omega
      · have := hall 1 Nat.one_pos hlines
        omega

/-- Pages with room for any line give the whole text. -/
theorem readDma_large_counts (d : EthDma) {counts : Nat → Int}
    (hc : ∀ k, 128 < counts k ∧ counts k ≤ 2 ^ 30) :
    ReadsWhole (procReadDma d) counts (dmaText d) := by
  have hvalid : ∀ k, 1 ≤ counts k ∧ counts k ≤ intMax := by
    intro k
    have := hc k
    rw [intMax]
    omega
  have law := procReadDma_law d hvalid
  refine law.readsWhole_iff.mpr fun k hk => ?_
  induction k using Nat.strong_induction_on with
  | _ k ih =>
    obtain ⟨hat, -, -⟩ := law.at_of_good hk fun j hj => ih j hj fun i hi => hk i (by omega)
    have hin := law.inText hat
    have hsize := length_dmaText_le d
    have hcount := hc k
    refine ⟨by rw [intMax]; omega, fun i hi _ => ?_⟩
    have hline := (dmaLines_fit d _ (List.getElem_mem hi)).2
    omega

/-- The reader gets the whole text exactly if each read that it comes to asks for more than the line
that it stands at, and does not go past the end of an `int`. -/
theorem readDma_whole_iff (d : EthDma) (counts : Nat → Int)
    (hc : ∀ k, 1 ≤ counts k ∧ counts k ≤ intMax) :
    ReadsWhole (procReadDma d) counts (dmaText d) ↔
      ∀ k, Reached (procReadDma d) counts k →
        AsksEnough (dmaLines d) (offsetAt (procReadDma d) counts k) (counts k) :=
  (procReadDma_law d hc).readsWhole_iff

theorem readDma_whole_iff_blocks :
    AsksEnough (dmaLines ⟨fun _ => 0, 3⟩)
      (offsetAt (procReadDma ⟨fun _ => 0, 3⟩) (fun _ => 3072) 0) 3072 :=
  (readDma_whole_iff ⟨fun _ => 0, 3⟩ (fun _ => 3072) fun _ => by decide).mp
    (readDma_large_counts _ fun _ => by decide) 0 fun _ hj => absurd hj (Nat.not_lt_zero _)

/-- All rings at zero. The reader asks for five characters at a time. -/
theorem readDma_short_count_gets_nothing :
    ¬∀ (d : EthDma) (counts : Nat → Int), (∀ k, 1 ≤ counts k ∧ counts k ≤ intMax) →
      ReadsWhole (procReadDma d) counts (dmaText d) := by
  intro h
  obtain ⟨k, hk, -, -, htext⟩ := h ⟨fun _ => 0, 3⟩ (fun _ => 5) fun _ => by decide
  have hfirst : procReadDma ⟨fun _ => 0, 3⟩ 0 5 = ⟨0, false, "DMA (eth0 -> eth1)\n".toList⟩ := rfl
  have hzero : k = 0 := by
    by_contra hne
    refine hk 0 (Nat.pos_of_ne_zero hne) (Or.inr ?_)
    show (procReadDma ⟨fun _ => 0, 3⟩ 0 5).ret = 0
    rw [hfirst]
  subst hzero
  rw [taken_succ] at htext
  change [] ++ (procReadDma ⟨fun _ => 0, 3⟩ 0 5).data = _ at htext
  rw [hfirst] at htext
  exact List.cons_ne_nil _ _ htext.symm

end DanubeBsp
