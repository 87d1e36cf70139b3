import DanubeBsp.NicstarTxExact

namespace DanubeBsp

section

variable {vcc : Nat → NsTxVcc} {rctSize : Nat} {s t : NsTx} {q v : Nat} {g : NsTxGrant}

/-- Every clean step keeps the invariant. -/
theorem NsTxInv.step {e : NsTxEvent} (h : NsTxInv vcc s) (hok : TxClean vcc s e)
    (hstep : nsTxStep vcc rctSize s e = some t) : NsTxInv vcc t := by
  cases e with
  | opened v admitted memory stale =>
    unfold nsTxStep at hstep
    dsimp only at hstep
    split at hstep
    next hdev =>
      cases Option.some.inj hstep
      exact h.opened hok hdev
    next => cases hstep
  | send v b frags =>
    obtain ⟨u, r, hsend, hinv⟩ := nsSend_spec h v b frags
    have hu : nsTxStep vcc rctSize s (.send v b frags) = some u := congrArg (Option.map Prod.fst) hsend
    cases Option.some.inj (hu.symm.trans hstep)
    exact hinv
  | card q time lost => exact h.card hstep
  | status word1 time idle lost =>
    cases Option.some.inj hstep
    exact h.status word1 time idle lost
  | interrupt =>
    obtain ⟨u, hu, hinv⟩ := @NsTxInv.interrupt vcc rctSize s h
    cases Option.some.inj (hu.symm.trans hstep)
    exact hinv
  | close v =>
    unfold nsTxStep at hstep
    cases hdev : s.devData v with
    | none =>
      simp only [hdev] at hstep
      cases hstep
    | some g =>
      simp only [hdev] at hstep
      split at hstep
      next =>
        cases Option.some.inj hstep
        exact h.close (devData_some hdev).1
      next => cases hstep
  | closeRound v =>
    unfold nsTxStep at hstep
    cases hdev : s.devData v with
    | none =>
      simp only [hdev] at hstep
      cases hstep
    | some g =>
      simp only [hdev] at hstep
      obtain ⟨q, hclosing, ht⟩ := Option.map_eq_some_iff.mp hstep
      rw [← ht]
      exact nsCloseRound_spec h hdev hclosing hok

/-- The packets that a socket leaves in `scq0` lose it, or keep a socket that is closed. -/
theorem closeRound_dangling (h : NsTxInv vcc s) (hdev : s.devData v = some g)
    (hclosing : g.closing = some 0) (ht : TxSound vcc (nsCloseRound vcc s g 0)) :
    ∀ p, (s.scqs 0).Has p → p.vcc ≠ some v := by
  obtain ⟨hg, rfl⟩ := devData_some hdev
  obtain ⟨tsis, -, hq⟩ := h.books
  have hzero : g.scq = 0 := (hq.grants.closing g hg 0 hclosing).symm
  have hvc : (s.vcmap (vcc g.vcc).conn).scq = 0 := (hq.grants.scq g hg).trans hzero
  have hnot : ¬((0 : Nat) ≠ 0 ∧ scqBefore (s.scqs 0).next ≠ (s.scqs 0).tail) := fun hc => hc.1 rfl
  have hgone : ∀ g' ∈ s.vccs.erase g, g'.vcc ≠ g.vcc := by
    intro g' hg' heq
    obtain ⟨hne, hmem⟩ := hq.grants.nodup.of_map.mem_erase_iff.mp hg'
    exact hne (List.inj_on_of_nodup_map hq.grants.nodup hmem hg heq)
  have hvccs : (nsCloseRound vcc s g 0).vccs = s.vccs.erase g := by
    unfold nsCloseRound
    dsimp only
    rw [if_neg hnot, hvc, if_neg (not_not.mpr rfl)]
    split <;> rfl
  have hqueue : (nsCloseRound vcc s g 0).scqs 0 =
      if (vcc g.vcc).tx = true then (s.scqs 0).forget g.vcc else s.scqs 0 := by
    unfold nsCloseRound
    dsimp only
    rw [if_neg hnot, hvc, if_neg (not_not.mpr rfl)]
    split
    · exact setScq_self s 0 _
    · rfl
  intro p hp hvcc
  have hlost : ∃ p', ((nsCloseRound vcc s g 0).scqs 0).Has p' ∧
      (p'.vcc = none ∨ p'.vcc = some g.vcc) := by
    rw [hqueue]
    by_cases htx : (vcc g.vcc).tx = true
    · rw [if_pos htx]
      rcases hp with hwait | ⟨i, hi, hskb⟩
      · exact ⟨p, .inl hwait, .inr hvcc⟩
      · refine ⟨{ p with vcc := none }, .inr ⟨i, hi, ?_⟩, .inl rfl⟩
        unfold NsScq.forget
        simp only [hskb, Option.map_some]
        rw [if_pos ⟨hi, hvcc⟩]
    · rw [if_neg htx]
      exact ⟨p, hp, .inr hvcc⟩
  obtain ⟨p', hhas, hcase⟩ := hlost
  obtain ⟨g', hg', hvcc', -⟩ := ht.packets 0 p' hhas
  rw [hvccs] at hg'
  rcases hcase with hnone | hsame
  · rw [hnone] at hvcc'
    cases hvcc'
  · exact hgone g' hg' (Option.some.inj (hvcc'.symm.trans hsame))

/-- A step to a sound state is clean. -/
theorem NsTxInv.clean_of_sound {e : NsTxEvent} (h : NsTxInv vcc s)
    (hstep : nsTxStep vcc rctSize s e = some t) (ht : TxSound vcc t) : TxClean vcc s e := by
  obtain ⟨tsis, -, hq⟩ := h.books
  cases e with
  | opened v admitted memory stale =>
    intro hdev hadmits hreach g hg hconn
    have hopen : nsOpenTx vcc s v admitted memory stale = t := by
      unfold nsTxStep at hstep
      dsimp only at hstep
      rw [if_pos hdev] at hstep
      exact Option.some.inj hstep
    rcases nsOpenTx_cases v admitted memory stale with ⟨hrefused, -⟩ |
      ⟨-, ⟨hshared, heq⟩ | ⟨-, scdi, -, hfree, ⟨-, heq⟩ | ⟨hmemory, heq⟩⟩⟩
    · exact absurd ⟨hadmits, hreach⟩ hrefused
    · rw [← hopen, heq] at ht
      have hscq := ht.scq g (List.mem_cons_of_mem _ hg)
      rw [hconn] at hscq
      refine ⟨?_, .inl hshared⟩
      rw [← hscq]
      show (Function.update s.vcmap (vcc v).conn _ (vcc v).conn).scq = 0
      rw [Function.update_self]
    · rw [← hopen, heq] at ht
      have hscq := ht.scq g (List.mem_cons_of_mem _ hg)
      rw [hconn] at hscq
      have hmade : (Function.update s.vcmap (vcc v).conn
          { tx := (s.vcmap (vcc v).conn).tx || (vcc v).tx
            rx := (s.vcmap (vcc v).conn).rx || (vcc v).rx
            active := if (vcc v).tx ∧ (vcc v).type = .cbr then (s.vcmap (vcc v).conn).active else true
            scq := s.made
            scd := scdi } (vcc v).conn).scq = g.scq := hscq
      rw [Function.update_self] at hmade
      exact absurd hmade.symm (Nat.ne_of_lt (hq.grants.made g hg))
    · rw [← hopen, heq] at ht
      refine ⟨?_, .inr hmemory⟩
      by_contra hne
      have hscd := ht.scd g hg hne
      rw [hconn] at hscd
      have hindex : (Function.update s.vcmap (vcc v).conn
          { s.vcmap (vcc v).conn with scd := scdi } (vcc v).conn).scd = g.scd := hscd
      rw [Function.update_self] at hindex
      have hlisted := hq.grants.listed g hg hne
      rw [← hindex, hfree] at hlisted
      cases hlisted
  | send v b frags => trivial
  | card q time lost => trivial
  | status word1 time idle lost => trivial
  | interrupt => trivial
  | close v => trivial
  | closeRound v =>
    intro g hdev hclosing
    unfold nsTxStep at hstep
    simp only [hdev, hclosing] at hstep
    cases Option.some.inj hstep
    exact closeRound_dangling h hdev hclosing ht

/-- What the card and the sockets see of a queue: the card takes the descriptors of the accepted
packets in their order, and a packet is given back, once and in its order, only after the card has
taken it. At most 31 packets are in the queue, and packets wait only while it is full. -/
structure NsScq.Delivers (vcc : Nat → NsTxVcc) (sq : NsScq) : Prop where
  sent : sq.sent.map some =
    (sq.accepted.take sq.sent.length).map (NsTxSkb.tbd fun v => (vcc v).addr)
  popped : sq.popped = sq.accepted.take sq.popped.length
  order : sq.popped.length ≤ sq.sent.length ∧ sq.sent.length + sq.waiting.length ≤ sq.accepted.length
  room : sq.accepted.length ≤ sq.popped.length + 31 + sq.waiting.length
  settled : sq.waiting ≠ [] → sq.accepted.length = sq.popped.length + 31 + sq.waiting.length

theorem NsTxInv.delivers (h : NsTxInv vcc s) (q : Nat) : (s.scqs q).Delivers vcc := by
  obtain ⟨tsis, -, hq⟩ := h.books
  obtain ⟨held, hheld⟩ := hq.queue q
  obtain ⟨taken, reports, hring, -, -⟩ := hheld.ring
  have hlow := hring.takenLow
  have hhigh := hring.takenHigh
  have hroom := hring.room
  have hlen := congrArg List.length hring.sent
  have hacc := congrArg List.length hheld.accepted
  simp only [List.length_map, List.length_take, List.length_append] at hlen hacc
  have hcount : (s.scqs q).sent.length = (taken + 1) / 2 := by omega
  constructor
  · rw [hcount, hheld.accepted, List.take_append_of_le_length]
    · exact hring.sent
    · rw [List.length_append]
      omega
  · rw [hheld.accepted, List.append_assoc, List.take_left]
  · omega
  · omega
  · exact h.settled q

/-- Once the card has taken all entries and the driver has seen all reports, and none is lost, every
packet that was accepted has been given back. -/
theorem NsTxInv.finished (h : NsTxInv vcc s) (hlost : s.lost = 0)
    (htsq : (s.tsq s.tsqNext).IsEmpty) (hidle : (s.scqs q).cardTakes = none) :
    (s.scqs q).popped = (s.scqs q).accepted := by
  obtain ⟨tsis, hflag, hq⟩ := h.books
  obtain rfl := hflag.vacant_rd.mp htsq
  obtain ⟨held, hheld⟩ := hq.queue q
  obtain ⟨taken, reports, hring, hreports, hcomplete⟩ := hheld.ring
  have hall : taken = 2 * ((s.scqs q).popped.length + held.length) := by
    rcases cardTakes_cases hring with ⟨hdone, -⟩ | ⟨q', htakes, -⟩ | ⟨q', r, htakes, -⟩
    · exact hdone
    · rw [hidle] at htakes
      cases htakes
    · rw [hidle] at htakes
      cases htakes
  have hnone : held = [] := by
    by_contra hne
    have hpos := List.length_pos_iff.mpr hne
    have hin := hcomplete hlost (s.scqs q).popped.length (Nat.le_refl _) (by omega)
    have hempty : reports = [] := List.map_eq_nil_iff.mp hreports.symm
    rw [hempty] at hin
    exact List.not_mem_nil hin
  have hwaiting : (s.scqs q).waiting = [] := by
    by_contra hne
    have hcount := h.settled q hne
    rw [hheld.accepted, hnone, List.append_nil, List.length_append] at hcount
    omega
  rw [hheld.accepted, hnone, hwaiting, List.append_nil, List.append_nil]

end

/-- The states of a run are all sound exactly when its steps are clean. -/
theorem nsTx_sound_exact (vcc : Nat → NsTxVcc) (rctSize : Nat) (stale : Nat → NsScqe)
    (es : List NsTxEvent) :
    RunMeets (nsTxStep vcc rctSize) (TxClean vcc) (nsTxInit stale) es ↔
      ∀ pre t, pre <+: es → run (nsTxStep vcc rctSize) (nsTxInit stale) pre = some t →
        TxSound vcc t := by
  refine runMeets_iff_states NsTxInv.sound NsTxInv.step NsTxInv.clean_of_sound ?_ (nsTxInv_init stale) es
  intro s e hinv hnone
  cases e with
  | opened v admitted memory stale =>
    intro hdev
    unfold nsTxStep at hnone
    dsimp only at hnone
    rw [if_pos hdev] at hnone
    cases hnone
  | send v b frags => trivial
  | card q time lost => trivial
  | status word1 time idle lost => trivial
  | interrupt => trivial
  | close v => trivial
  | closeRound v =>
    intro g hdev hclosing
    unfold nsTxStep at hnone
    simp only [hdev, hclosing] at hnone
    cases hnone

/-- Along every run of opens, sends, closes, interrupts and steps of the card in which the steps are
clean, no null pointer is used, the packets of every queue are sent in their order, and each is given
back once, in its order and after the card has taken it; when the card has taken all entries and the
driver has seen all reports, none of which is lost, all packets have been given back. -/
theorem nsTx_delivers (vcc : Nat → NsTxVcc) (rctSize : Nat) (stale : Nat → NsScqe)
    {es : List NsTxEvent} {s : NsTx}
    (hmeets : RunMeets (nsTxStep vcc rctSize) (TxClean vcc) (nsTxInit stale) es)
    (hrun : run (nsTxStep vcc rctSize) (nsTxInit stale) es = some s) :
    (∀ v b frags, nsSend vcc s v b frags ≠ none) ∧ processTsq vcc rctSize s ≠ none ∧
      ∀ q, (s.scqs q).Delivers vcc ∧
        (s.lost = 0 → (s.tsq s.tsqNext).IsEmpty → (s.scqs q).cardTakes = none →
          (s.scqs q).popped = (s.scqs q).accepted) := by
  have hinv : NsTxInv vcc s := run_invariant_of_meets NsTxInv.step (nsTxInv_init stale) hmeets hrun
  refine ⟨?_, ?_, fun q => ⟨hinv.delivers q, hinv.finished⟩⟩
  · intro v b frags hnone
    obtain ⟨t, r, hsend, -⟩ := nsSend_spec hinv v b frags
    rw [hnone] at hsend
    cases hsend
  · intro hnone
    obtain ⟨t, ht, -⟩ := @NsTxInv.interrupt vcc rctSize s hinv
    rw [hnone] at ht
    cases ht

/-- A socket of the class UBR, and a packet of 60 bytes. -/
def ubrVcc : NsTxVcc where
  conn := 33
  addr := ⟨true, 0#32, 33#32, 0#32⟩
  type := .ubr
  shared := true
  tx := true
  rx := true
  used := rfl

def ubrBuf : NsTxBuf := ⟨0x00123450#32, 60, 0xAAAA0300#32, false, false, by decide⟩

theorem nsTx_delivers_one :
    ∃ s, run (nsTxStep (fun _ => ubrVcc) 1024) (nsTxInit fun _ => nsTsr .ubr 0 0)
        [.opened 0 true true fun _ => nsTsr .ubr 0 0, .send 0 ubrBuf false, .card 0 0#32 false,
          .card 0 1#32 false, .interrupt] = some s ∧
      (s.scqs 0).popped = (s.scqs 0).accepted ∧ (s.scqs 0).accepted.length = 1 := by
  generalize hes : ([.opened 0 true true fun _ => nsTsr .ubr 0 0, .send 0 ubrBuf false,
    .card 0 0#32 false, .card 0 1#32 false, .interrupt] : List NsTxEvent) = es
  have hmeets : RunMeets (nsTxStep (fun _ => ubrVcc) 1024) (TxClean fun _ => ubrVcc)
      (nsTxInit fun _ => nsTsr .ubr 0 0) es := by
    rw [← hes]
    exact ⟨fun _ _ _ g hg => absurd hg List.not_mem_nil, fun _ _ => ⟨trivial, fun _ _ => ⟨trivial,
      fun _ _ => ⟨trivial, fun _ _ => ⟨trivial, fun _ _ => trivial⟩⟩⟩⟩⟩
  have hend : (run (nsTxStep (fun _ => ubrVcc) 1024) (nsTxInit fun _ => nsTsr .ubr 0 0) es).any
      (fun s => s.lost == 0 && decide (s.tsq s.tsqNext).IsEmpty && (s.scqs 0).cardTakes.isNone &&
        (s.scqs 0).accepted.length == 1) = true := by
    rw [← hes]
    decide +kernel
  cases hrun : run (nsTxStep (fun _ => ubrVcc) 1024) (nsTxInit fun _ => nsTsr .ubr 0 0) es with
  | none =>
    rw [hrun] at hend
    cases hend
  | some s =>
    rw [hrun] at hend
    simp only [Option.any_some, Bool.and_eq_true, beq_iff_eq, decide_eq_true_eq,
      Option.isNone_iff_eq_none] at hend
    obtain ⟨⟨⟨hlost, htsq⟩, hidle⟩, hone⟩ := hend
    exact ⟨s, rfl, ((nsTx_delivers _ _ _ hmeets hrun).2.2 0).2 hlost htsq hidle, hone⟩

end DanubeBsp
