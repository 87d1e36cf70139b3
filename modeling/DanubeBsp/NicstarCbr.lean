import DanubeBsp.NicstarTst

namespace DanubeBsp

section

variable {card : NsCard} {s : NsTst} {conn : Nat} {ps : List Nat}

/-- The entries of the table that a cell rate comes to. -/
def rateShare (card : NsCard) (tp : TrafParm) : Nat :=
  let tcr := (atmPcrGoal tp).toInt
  if 0 < tcr then (tcr.natAbs * card.tstNum + (card.maxPcr - 1)) / card.maxPcr
  else tcr.natAbs * card.tstNum / card.maxPcr

/-- Every open channel that transmits has the entries that it was given, which are those of its rate
if it asked for one, and no other connection has any. -/
structure EntriesRight (card : NsCard) (s : NsTst) : Prop where
  given : ∀ g ∈ s.vccs, g.1.tx = true → (s.entries card g.1.conn : Int) = g.2
  share : ∀ g ∈ s.vccs, g.1.tx = true → atmPcrGoal g.1.tp ≠ 0#32 → g.2 = rateShare card g.1.tp
  others : ∀ conn, (∀ g ∈ s.vccs, g.1.tx = true → g.1.conn ≠ conn) → s.entries card conn = 0

def RateFits (card : NsCard) (tp : TrafParm) : Prop :=
  (atmPcrGoal tp).toInt.natAbs * card.tstNum < 2 ^ 32

/-- A channel that is not refused transmits, and its rate does not overflow in the computation of the
entries. -/
def OpenRight (card : NsCard) (s : NsTst) : NsEvent → Prop
  | .opened v scqOk => (∃ t e, nsOpen card s v scqOk = some (t, e) ∧ e ≠ 0) ∨
      v.tx = true ∧ RateFits card v.tp
  | .closed _ => True

theorem NsCard.maxPcr_bounds (card : NsCard) : 0 < card.maxPcr ∧ card.maxPcr ≤ 353207 := by
  unfold NsCard.maxPcr
  split <;> omega

theorem cbrEntries_eq {tstFree : Int} {tp : TrafParm} (hfits : RateFits card tp)
    (hgoal : atmPcrGoal tp ≠ 0#32) : cbrEntries card tstFree tp = rateShare card tp := by
  have htcr : (atmPcrGoal tp).toInt ≠ 0 := fun h => hgoal (BitVec.eq_of_toInt_eq h)
  have hpos := card.maxPcr_bounds.1
  unfold cbrEntries rateShare
  simp only [Nat.mod_eq_of_lt hfits, if_neg htcr]
  generalize (atmPcrGoal tp).toInt.natAbs * card.tstNum = product
  split
  · -- rounded up, by the remainder here and by the addend there
    have hsplit := Nat.div_add_mod product card.maxPcr
    have hmod := Nat.mod_lt product hpos
    split
    next hrest =>
      have hup : (product + (card.maxPcr - 1)) / card.maxPcr = product / card.maxPcr + 1 := by
        apply Nat.div_eq_of_lt_le
        · rw [Nat.succ_mul, Nat.mul_comm]
          omega
        · rw [Nat.succ_mul, Nat.succ_mul, Nat.mul_comm]
          omega
      rw [hup]
      push_cast
      rfl
    next hrest =>
      have hup : (product + (card.maxPcr - 1)) / card.maxPcr = product / card.maxPcr := by
        apply Nat.div_eq_of_lt_le
        · rw [Nat.mul_comm]
          omega
        · rw [Nat.succ_mul, Nat.mul_comm]
          omega
      rw [hup]
  · rfl

/-- A rate that overflows asks for more entries than there are. -/
theorem rateShare_overflow {tp : TrafParm} (h : ¬RateFits card tp) : 4095 < rateShare card tp := by
  obtain ⟨hpos, hsmall⟩ := card.maxPcr_bounds
  unfold RateFits at h
  have hquot : 4096 ≤ (atmPcrGoal tp).toInt.natAbs * card.tstNum / card.maxPcr := by
    rw [Nat.le_div_iff_mul_le hpos]
    omega
  unfold rateShare
  simp only []
  split
  · have hmono := Nat.div_le_div_right (c := card.maxPcr)
      (show (atmPcrGoal tp).toInt.natAbs * card.tstNum ≤
        (atmPcrGoal tp).toInt.natAbs * card.tstNum + (card.maxPcr - 1) by omega)
    omega
  · omega

theorem place_entries (hplaced : Placed card.tstNum s.free ps) (c : Nat) :
    (s.place conn ps).entries card c = s.entries card c + if c = conn then ps.length else 0 := by
  by_cases hc : c = conn
  · subst hc
    have hboth : (List.range card.tstNum).countP (fun e => (s.place c ps).tste2vc e == some c) =
        (List.range card.tstNum).countP
          fun e => ps.contains e || s.tste2vc e == some c := by
      apply List.countP_congr
      intro e _
      by_cases hmem : e ∈ ps
      · simp [NsTst.place, hmem]
      · simp [NsTst.place, hmem]
    have hin : (List.range card.tstNum).countP (fun e => ps.contains e) = ps.length := by
      rw [List.countP_eq_length_filter]
      exact hplaced.perm.length_eq
    rw [if_pos rfl]
    unfold NsTst.entries
    rw [hboth, countP_or_of_disjoint, hin, Nat.add_comm]
    intro e he
    have hfree := hplaced.free e (List.contains_iff_mem.mp he)
    rw [NsTst.free, Option.isNone_iff_eq_none] at hfree
    rw [hfree]
    rfl
  · rw [if_neg hc, Nat.add_zero]
    apply List.countP_congr
    intro e _
    by_cases hmem : e ∈ ps
    · have hfree := hplaced.free e hmem
      rw [NsTst.free, Option.isNone_iff_eq_none] at hfree
      simp [NsTst.place, hmem, hfree, Ne.symm hc]
    · simp [NsTst.place, hmem]

theorem freeEntries_entries (c : Nat) :
    (s.freeEntries card conn).entries card c = if c = conn then 0 else s.entries card c := by
  by_cases hc : c = conn
  · rw [if_pos hc, NsTst.entries, List.countP_eq_zero]
    intro e he
    have hin := List.mem_range.mp he
    by_cases hown : s.tste2vc e = some conn
    · simp [NsTst.freeEntries, hin, hown]
    · simp [NsTst.freeEntries, hown, hc]
  · rw [if_neg hc]
    apply List.countP_congr
    intro e he
    by_cases hown : s.tste2vc e = some conn
    · simp [NsTst.freeEntries, List.mem_range.mp he, hown, Ne.symm hc]
    · simp [NsTst.freeEntries, hown]

/-- As long as only transmitting channels were opened: one for a connection, with its flag set. -/
structure TstInv (card : NsCard) (s : NsTst) : Prop where
  books : TstBooks card s
  right : EntriesRight card s
  sending : ∀ g ∈ s.vccs, g.1.tx = true ∧ s.tx g.1.conn = true
  apart : (s.vccs.map fun g => g.1.conn).Nodup

theorem tstInv_init : TstInv card (nsTstInit card) := by
  refine ⟨tstBooks_init, ⟨?_, ?_, ?_⟩, ?_, ?_⟩
  · simp [nsTstInit]
  · simp [nsTstInit]
  · intro conn _
    simp [NsTst.entries, nsTstInit]
  · simp [nsTstInit]
  · simp [nsTstInit]

/-- What opening a channel gives it, by the number of its entries. -/
theorem TstGranted.entries {tp : TrafParm} {t : NsTst} (hg : TstGranted card s conn tp t) :
    ∃ n : Nat, (n : Int) = cbrEntries card s.tstFree tp ∧ 0 < n ∧
      n ≤ s.tstFree - nsTstReserved ∧ s.tstFree - t.tstFree = n ∧ t.vccs = s.vccs ∧ t.tx = s.tx ∧
      ∀ c, t.entries card c = s.entries card c + if c = conn then n else 0 := by
  obtain ⟨scdi, ps, hplaced, hn, hpos, hroom, ht⟩ := hg.scdi
  subst ht
  refine ⟨ps.length, hn, hpos, hroom, ?_, rfl, rfl, ?_⟩
  · show s.tstFree - (s.tstFree - ps.length) = ps.length
    omega
  · intro c
    exact place_entries (s := { s with
      tstFree := s.tstFree - ps.length
      scd2vc := Function.update s.scd2vc scdi (some conn)
      scd := Function.update s.scd conn scdi }) hplaced c

theorem TstInv.refused (h : TstInv card s) (scd : Nat → Nat) : TstInv card { s with scd := scd } :=
  ⟨⟨h.books.counted, h.books.reserve, h.books.words⟩, ⟨h.right.given, h.right.share, h.right.others⟩,
    h.sending, h.apart⟩

theorem TstInv.accepted {v : NsVcc} {t : NsTst} {rx : Nat → Bool} (h : TstInv card s)
    (hg : TstGranted card s v.conn v.tp t) (htx : v.tx = true) (hflag : s.tx v.conn = false)
    (hfits : RateFits card v.tp) :
    TstInv card { t with
      tx := Function.update t.tx v.conn true
      rx := rx
      vccs := (v, s.tstFree - t.tstFree) :: t.vccs } := by
  have hbooks := hg.books h.books
  obtain ⟨n, hn, -, -, hgiven, hvccs, hsame, hentries⟩ := hg.entries
  -- a connection whose flag is clear has no channel that transmits
  have hfresh : ∀ g ∈ s.vccs, g.1.conn ≠ v.conn := by
    intro g hmem heq
    have hset := (h.sending g hmem).2
    rw [heq, hflag] at hset
    cases hset
  have hzero : s.entries card v.conn = 0 := h.right.others v.conn fun g hmem _ => hfresh g hmem
  have hold : ∀ c, c ≠ v.conn → t.entries card c = s.entries card c := by
    intro c hc
    rw [hentries, if_neg hc, Nat.add_zero]
  refine ⟨⟨hbooks.counted, hbooks.reserve, hbooks.words⟩, ⟨?_, ?_, ?_⟩, ?_, ?_⟩
  · intro g hmem hgtx
    rw [hvccs] at hmem
    rcases List.mem_cons.mp hmem with hg | hmem
    · subst hg
      show (t.entries card v.conn : Int) = s.tstFree - t.tstFree
      rw [hgiven, hentries, hzero, if_pos rfl, Nat.zero_add]
    · show (t.entries card g.1.conn : Int) = g.2
      rw [hold _ (hfresh g hmem)]
      exact h.right.given g hmem hgtx
  · intro g hmem hgtx hgoal
    rw [hvccs] at hmem
    rcases List.mem_cons.mp hmem with hg | hmem
    · subst hg
      show s.tstFree - t.tstFree = rateShare card v.tp
      rw [hgiven, hn, cbrEntries_eq hfits hgoal]
    · exact h.right.share g hmem hgtx hgoal
  · intro c hc
    rw [hvccs] at hc
    have hne := hc _ List.mem_cons_self htx
    show t.entries card c = 0
    rw [hold c (Ne.symm hne)]
    exact h.right.others c fun g hmem hgtx => hc g (List.mem_cons_of_mem _ hmem) hgtx
  · intro g hmem
    rw [hvccs] at hmem
    rcases List.mem_cons.mp hmem with hg | hmem
    · subst hg
      exact ⟨htx, Function.update_self _ _ _⟩
    · refine ⟨(h.sending g hmem).1, ?_⟩
      show Function.update t.tx v.conn true g.1.conn = true
      rw [Function.update_of_ne (hfresh g hmem), hsame]
      exact (h.sending g hmem).2
  · rw [hvccs]
    refine List.nodup_cons.mpr ⟨?_, h.apart⟩
    intro hmem
    obtain ⟨g, hg, hconn⟩ := List.mem_map.mp hmem
    exact hfresh g hg hconn

theorem TstInv.closed {g : NsVcc × Int} (h : TstInv card s) (hmem : g ∈ s.vccs) :
    TstInv card (nsClose card s g) := by
  have htx := (h.sending g hmem).1
  have hbooks := nsClose_books (g := g) h.books
  have hother : ∀ g' ∈ s.vccs.erase g, g' ∈ s.vccs ∧ g'.1.conn ≠ g.1.conn := by
    intro g' hg'
    have hin := List.mem_of_mem_erase hg'
    refine ⟨hin, ?_⟩
    intro hconn
    have hsame := List.inj_on_of_nodup_map h.apart hin hmem hconn
    rw [hsame] at hg'
    exact (List.Nodup.not_mem_erase (List.Nodup.of_map _ h.apart)) hg'
  have hentries : ∀ c, (nsClose card s g).entries card c =
      if c = g.1.conn then 0 else s.entries card c := by
    intro c
    unfold nsClose
    simp only [htx, if_true]
    exact freeEntries_entries c
  have hvccs : (nsClose card s g).vccs = s.vccs.erase g := by
    unfold nsClose
    simp only [htx, if_true]
    rfl
  refine ⟨hbooks, ⟨?_, ?_, ?_⟩, ?_, ?_⟩
  · intro g' hg' hgtx
    rw [hvccs] at hg'
    obtain ⟨hin, hne⟩ := hother g' hg'
    rw [hentries, if_neg hne]
    exact h.right.given g' hin hgtx
  · intro g' hg' hgtx hgoal
    rw [hvccs] at hg'
    exact h.right.share g' (hother g' hg').1 hgtx hgoal
  · intro c hc
    rw [hvccs] at hc
    rw [hentries]
    split
    next => rfl
    next hne =>
      apply h.right.others
      intro g' hg' hgtx hconn
      have hne' : g' ≠ g := by
        intro heq
        exact hne (by rw [← hconn, heq])
      exact hc g' ((List.mem_erase_of_ne hne').mpr hg') hgtx hconn
  · intro g' hg'
    rw [hvccs] at hg'
    obtain ⟨hin, hne⟩ := hother g' hg'
    refine ⟨(h.sending g' hin).1, ?_⟩
    unfold nsClose
    simp only [htx, if_true]
    show Function.update s.tx g.1.conn false g'.1.conn = true
    rw [Function.update_of_ne hne]
    exact (h.sending g' hin).2
  · rw [hvccs]
    exact h.apart.sublist ((List.erase_sublist).map _)

/-- A channel that is accepted and leaves the entries right transmits, and its rate fits. -/
theorem openRight_of_right {v : NsVcc} {t : NsTst} {tx rx : Nat → Bool} (h : TstInv card s)
    (hg : TstGranted card s v.conn v.tp t)
    (hright : EntriesRight card { t with
      tx := tx
      rx := rx
      vccs := (v, s.tstFree - t.tstFree) :: t.vccs }) : v.tx = true ∧ RateFits card v.tp := by
  obtain ⟨n, hn, hpos, hroom, hgiven, hvccs, -, hentries⟩ := hg.entries
  have hmore : t.entries card v.conn = s.entries card v.conn + n := by
    rw [hentries, if_pos rfl]
  have htx : v.tx = true := by
    by_contra hrx
    by_cases hmem : ∃ g ∈ s.vccs, g.1.conn = v.conn
    · obtain ⟨g, hin, hconn⟩ := hmem
      have hbefore := h.right.given g hin (h.sending g hin).1
      have hafter := hright.given g (List.mem_cons_of_mem _ (hvccs ▸ hin)) (h.sending g hin).1
      have hafter : (t.entries card g.1.conn : Int) = g.2 := hafter
      rw [hconn] at hbefore hafter
      omega
    · have hnone := hright.others v.conn (by
        intro g hin hgtx hconn
        rcases List.mem_cons.mp hin with hg | hin
        · subst hg
          exact hrx hgtx
        · exact hmem ⟨g, hvccs ▸ hin, hconn⟩)
      have hnone : t.entries card v.conn = 0 := hnone
      omega
  refine ⟨htx, ?_⟩
  by_contra hover
  have hgoal : atmPcrGoal v.tp ≠ 0#32 := by
    intro hzero
    apply hover
    unfold RateFits
    rw [hzero]
    simp
  have hshare := hright.share (v, s.tstFree - t.tstFree) List.mem_cons_self htx hgoal
  have hshare : s.tstFree - t.tstFree = rateShare card v.tp := hshare
  have hlarge := rateShare_overflow hover
  have hcounted := h.books.counted
  have hle : (List.range card.tstNum).countP s.free ≤ card.tstNum := by
    simpa using List.countP_le_length (p := s.free) (l := List.range card.tstNum)
  have hhigh := card.tstNum_bounds.2
  unfold nsTstReserved at hroom
  omega

theorem TstInv.step {t : NsTst} {e : NsEvent} (h : TstInv card s) (hok : OpenRight card s e)
    (hstep : nsStep card s e = some t) : TstInv card t := by
  cases e with
  | opened v scqOk =>
    obtain ⟨r, hr, ht⟩ := Option.map_eq_some_iff.mp hstep
    subst ht
    rcases nsOpen_cases h.books v scqOk with ⟨scd, e, hopen, -⟩ | ⟨t, hgranted, hflag, hopen⟩
    · cases Option.some.inj (hr.symm.trans hopen)
      exact h.refused scd
    · cases Option.some.inj (hr.symm.trans hopen)
      rcases hok with ⟨t', e, hrefused, hne⟩ | ⟨htx, hfits⟩
      · have hzero := congrArg Prod.snd (Option.some.inj (hr.symm.trans hrefused))
        exact absurd hzero.symm hne
      · simp only [htx, if_true]
        exact h.accepted hgranted htx (hflag htx) hfits
  | closed g =>
    unfold nsStep at hstep
    simp only [] at hstep
    split at hstep
    next hmem =>
      cases Option.some.inj hstep
      exact h.closed hmem
    next => cases hstep

theorem TstInv.broken {t : NsTst} {e : NsEvent} (h : TstInv card s)
    (hstep : nsStep card s e = some t) (hright : EntriesRight card t) : OpenRight card s e := by
  cases e with
  | opened v scqOk =>
    obtain ⟨r, hr, ht⟩ := Option.map_eq_some_iff.mp hstep
    subst ht
    rcases nsOpen_cases h.books v scqOk with ⟨scd, e, hopen, hne⟩ | ⟨t, hgranted, -, hopen⟩
    · exact .inl ⟨_, e, hopen, hne⟩
    · cases Option.some.inj (hr.symm.trans hopen)
      exact .inr (openRight_of_right h hgranted hright)
  | closed g => trivial

theorem nsStep_opened (h : TstBooks card s) (v : NsVcc) (scqOk : Bool) :
    ∃ t, nsStep card s (.opened v scqOk) = some t := by
  rcases nsOpen_cases h v scqOk with ⟨scd, e, hopen, -⟩ | ⟨t, -, -, hopen⟩
  · exact ⟨_, congrArg (Option.map Prod.fst) hopen⟩
  · exact ⟨_, congrArg (Option.map Prod.fst) hopen⟩

end

/-- Whatever CBR channels are opened and closed, in any order: `fill_tst` ends, the free entries are
counted, the reserved ones are kept and the SRAM has the owner of every entry. The entries are those
of the rates of the open channels, and of no others, in every state of a run, exactly when no channel
that only receives is accepted and no rate that is accepted overflows. -/
theorem nsTst_books_exact (card : NsCard) {s : NsTst} {es : List NsEvent}
    (h : run (nsStep card) (nsTstInit card) es = some s) :
    TstBooks card s ∧ (∀ v scqOk, ∃ t, nsStep card s (.opened v scqOk) = some t) ∧
      (RunMeets (nsStep card) (OpenRight card) (nsTstInit card) es ↔
        ∀ pre t, pre <+: es → run (nsStep card) (nsTstInit card) pre = some t →
          EntriesRight card t) := by
  have hbooks : TstBooks card s := run_invariant nsStep_books tstBooks_init h
  refine ⟨hbooks, nsStep_opened hbooks, ?_⟩
  refine runMeets_iff_states TstInv.right TstInv.step TstInv.broken ?_ tstInv_init es
  intro s e hinv hnone
  cases e with
  | opened v scqOk =>
    obtain ⟨t, ht⟩ := nsStep_opened hinv.books v scqOk
    rw [hnone] at ht
    cases ht
  | closed g => trivial

/-- A channel for 6100 cells a second, which are 35 entries of the smaller table. -/
def cbrVcc : NsVcc where
  conn := 33
  tx := true
  rx := false
  tp := ⟨1000, 6100, 0⟩
  used := rfl

theorem nsTst_books_exact_opened :
    ∃ s, run (nsStep ⟨false, true⟩) (nsTstInit ⟨false, true⟩) [.opened cbrVcc true] = some s ∧
      TstBooks ⟨false, true⟩ s ∧ EntriesRight ⟨false, true⟩ s := by
  obtain ⟨-, hopen, -⟩ := nsTst_books_exact ⟨false, true⟩
    (show run (nsStep ⟨false, true⟩) (nsTstInit ⟨false, true⟩) [] = some _ from rfl)
  obtain ⟨s, hs⟩ := hopen cbrVcc true
  have hrun : run (nsStep ⟨false, true⟩) (nsTstInit ⟨false, true⟩) [.opened cbrVcc true] = some s := by
    simpa [run] using hs
  obtain ⟨hbooks, -, hright⟩ := nsTst_books_exact ⟨false, true⟩ hrun
  have hmeets : RunMeets (nsStep ⟨false, true⟩) (OpenRight ⟨false, true⟩)
      (nsTstInit ⟨false, true⟩) [.opened cbrVcc true] :=
    ⟨.inr ⟨rfl, show (6100 : Nat) * 2047 < 2 ^ 32 by decide⟩, fun _ _ => trivial⟩
  exact ⟨s, hrun, hbooks, hright.mp hmeets [.opened cbrVcc true] s (List.prefix_refl _) hrun⟩

/-- Into a table without CBR channels the entries go evenly: the `j`-th of `n` is the first that is
not before `j / n` of the table, so that two that follow each other are `tst_num / n` entries apart,
rounded down or up. -/
theorem fillTst_even (card : NsCard) (s : NsTst) (conn n : Nat)
    (hfree : ∀ e, e < card.tstNum → s.tste2vc e = none) (hn : 0 < n) (hle : n ≤ card.tstNum) :
    ∃ t, fillTst card s n conn = some t ∧
      (∀ e, e < card.tstNum →
        (t.tste2vc e = some conn ↔ ∃ j, j < n ∧ e = (j * card.tstNum + (n - 1)) / n)) ∧
      ∀ j, let gap := ((j + 1) * card.tstNum + (n - 1)) / n - (j * card.tstNum + (n - 1)) / n
        card.tstNum / n ≤ gap ∧ gap ≤ card.tstNum / n + 1 := by
  obtain ⟨hlow, hhigh⟩ := card.tstNum_bounds
  have hall : ∀ q, 0 ≤ q → q < card.tstNum → s.free q = true := by
    intro q _ hq
    rw [NsTst.free, hfree q hq]
    rfl
  have hfirst : ((List.range card.tstNum).find? fun e => (s.tste2vc e).isNone) = some 0 := by
    obtain ⟨k, hk⟩ : ∃ k, card.tstNum = k + 1 := ⟨card.tstNum - 1, by omega⟩
    rw [hk, List.range_succ_eq_map, List.find?_cons_of_pos]
    rw [hfree 0 (by omega)]
    rfl
  have hcredit : 2 * card.tstNum * n ≤ 2 * 4095 * 4095 := Nat.mul_le_mul (by omega) (by omega)
  have hring := creditRing_even (t := 0) hn hle hall (Nat.zero_le n)
    (show card.tstNum ≤ 0 + 2 * card.tstNum by omega) (by omega) (by omega) (Nat.zero_le _)
  simp only [Nat.zero_mul, Nat.add_zero, Nat.sub_zero, ← List.range_eq_range'] at hring
  have hfill : fillTst card s n conn = some (s.place conn
      ((List.range n).map fun j => (j * card.tstNum + (n - 1)) / n)) := by
    unfold fillTst
    rw [hfirst]
    show fillLoop card n conn (2 * card.tstNum) 0 card.tstNum n s = _
    rw [fillLoop_eq (p := 0) (Nat.zero_mod _).symm (by omega), hring]
    rfl
  refine ⟨_, hfill, ?_, ?_⟩
  · intro e he
    unfold NsTst.place
    simp only [List.mem_map, List.mem_range]
    constructor
    · intro hown
      split at hown
      next hmem =>
        obtain ⟨j, hj, hpos⟩ := hmem
        exact ⟨j, hj, hpos.symm⟩
      next =>
        rw [hfree e he] at hown
        cases hown
    · rintro ⟨j, hj, hpos⟩
      rw [if_pos ⟨j, hj, hpos.symm⟩]
  · intro j
    have hnext : (j + 1) * card.tstNum + (n - 1) = j * card.tstNum + (n - 1) + card.tstNum := by
      rw [Nat.succ_mul]
      omega
    simp only [hnext]
    generalize j * card.tstNum + (n - 1) = before
    rw [Nat.add_div hn]
    generalize before / n = passed
    generalize card.tstNum / n = whole
    split <;> omega

/-- Three entries in the smaller table. -/
theorem fillTst_even_three :
    ∃ t, fillTst ⟨false, true⟩ (nsTstInit ⟨false, true⟩) 3 33 = some t ∧
      t.tste2vc 683 = some 33 ∧ t.tste2vc 684 ≠ some 33 := by
  obtain ⟨t, ht, hplaces, -⟩ := fillTst_even ⟨false, true⟩ (nsTstInit ⟨false, true⟩) 33 3
    (fun _ _ => rfl) (by decide) (by decide)
  refine ⟨t, ht, (hplaces 683 (by decide)).mpr ⟨1, by decide, by decide⟩, ?_⟩
  intro h
  obtain ⟨j, hj, hpos⟩ := (hplaces 684 (by decide)).mp h
  revert hpos
  revert j
  decide

end DanubeBsp
