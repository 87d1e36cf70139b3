import Mathlib.Algebra.Order.BigOperators.Group.List
import Mathlib.Algebra.Order.Ring.Nat
import DanubeBsp.NicstarTx

namespace DanubeBsp

/-- The position that a report has for a queue. -/
def NsTx.requestOf (s : NsTx) (q : Nat) (t : NsTsi) : Option Nat :=
  if t.type = 0x20000000#32 ∧ s.queueOf (nsTsiScdIndex t.word1) = some q then
    some (nsTsiScqPos t.word1)
  else none

/-- The index that the requests of a queue have. -/
def NsTx.scdiOf (s : NsTx) (q : Nat) : Nat := if q = 0 then nsTsrScdIsUbr0 else (s.scqs q).scd

/-- The sockets still have what they were given: those with a queue of their own are alone on their
connection, and the table of SCDs has these and no others. -/
structure TxGrants (vcc : Nat → NsTxVcc) (s : NsTx) : Prop where
  nodup : (s.vccs.map NsTxGrant.vcc).Nodup
  some_made : 0 < s.made
  scq : ∀ g ∈ s.vccs, (s.vcmap (vcc g.vcc).conn).scq = g.scq
  made : ∀ g ∈ s.vccs, g.scq < s.made
  closing : ∀ g ∈ s.vccs, ∀ q, g.closing = some q → q = g.scq
  scd : ∀ g ∈ s.vccs, g.scq ≠ 0 → (s.vcmap (vcc g.vcc).conn).scd = g.scd
  request : ∀ g ∈ s.vccs, g.scq ≠ 0 → (s.scqs g.scq).scd = g.scd
  listed : ∀ g ∈ s.vccs, g.scq ≠ 0 → s.scd2vc g.scd = some (vcc g.vcc).conn
  inTable : ∀ g ∈ s.vccs, g.scq ≠ 0 → g.scd < nsScdNum
  alone : ∀ g ∈ s.vccs, ∀ g' ∈ s.vccs, (vcc g.vcc).conn = (vcc g'.vcc).conn → g.scq ≠ 0 → g = g'
  owner : ∀ g ∈ s.vccs, ∀ g' ∈ s.vccs, g.scq = g'.scq → g.scq ≠ 0 → g = g'
  granted : ∀ i c, s.scd2vc i = some c →
    ∃ g ∈ s.vccs, (vcc g.vcc).conn = c ∧ g.scq ≠ 0 ∧ g.scd = i

/-- The packets of a queue belong to sockets that are open and have it, and the reports `tsis` that the
driver has not seen yet are those of requests that the card has taken, all of them if none is lost. -/
structure TxQueueHolds (vcc : Nat → NsTxVcc) (s : NsTx) (tsis : List NsTsi) (q : Nat)
    (held : List NsTxSkb) : Prop where
  ring : ∃ taken reports,
    ScqRing (fun v => (vcc v).addr) (s.scdiOf q) (s.scqs q) held taken reports ∧
      tsis.filterMap (s.requestOf q) = reports.map (fun r => (2 * r + 1) % 64) ∧
      (s.lost = 0 → ∀ r, (s.scqs q).popped.length ≤ r → 2 * r + 1 < taken → r ∈ reports)
  accepted : (s.scqs q).accepted = (s.scqs q).popped ++ held ++ (s.scqs q).waiting
  owned : ∀ p ∈ held ++ (s.scqs q).waiting, ∃ g ∈ s.vccs, p.vcc = some g.vcc ∧ g.scq = q

structure TxQueues (vcc : Nat → NsTxVcc) (s : NsTx) (tsis : List NsTsi) : Prop where
  grants : TxGrants vcc s
  queue : ∀ q, ∃ held, TxQueueHolds vcc s tsis q held
  known : ∀ t ∈ tsis, t.type = 0x20000000#32 → ∃ q, s.queueOf (nsTsiScdIndex t.word1) = some q

/-- Packets wait only for a queue that is full. -/
def NsScq.Settled (sq : NsScq) : Prop :=
  sq.waiting ≠ [] → sq.accepted.length = sq.popped.length + 31 + sq.waiting.length

section Step

variable {vcc : Nat → NsTxVcc} {s t : NsTx} {tsis : List NsTsi} {q v : Nat} {g : NsTxGrant}
  {held : List NsTxSkb}

theorem setScq_self (s : NsTx) (q : Nat) (sq : NsScq) : (s.setScq q sq).scqs q = sq := by
  unfold NsTx.setScq
  simp only [Function.update_self]

theorem setScq_ne {q' : Nat} (hq : q' ≠ q) {sq : NsScq} :
    (s.setScq q sq).scqs q' = s.scqs q' := by
  unfold NsTx.setScq
  simp only [Function.update_of_ne hq]

theorem devData_some (h : s.devData v = some g) : g ∈ s.vccs ∧ g.vcc = v :=
  ⟨List.mem_of_find?_eq_some h, by simpa using List.find?_some h⟩

theorem devData_mem (hnodup : (s.vccs.map NsTxGrant.vcc).Nodup) (hg : g ∈ s.vccs) :
    s.devData g.vcc = some g := by
  have hsome : (s.vccs.find? fun h => h.vcc = g.vcc).isSome = true :=
    List.find?_isSome.mpr ⟨g, hg, decide_eq_true rfl⟩
  obtain ⟨g', hg'⟩ := Option.isSome_iff_exists.mp hsome
  obtain ⟨hmem, hvcc⟩ := devData_some hg'
  rw [NsTx.devData, hg']
  exact congrArg some (List.inj_on_of_nodup_map hnodup hmem hg hvcc)

theorem TxGrants.queueOf_grant (h : TxGrants vcc s) (hg : g ∈ s.vccs) :
    s.queueOf (s.scdiOf g.scq) = some g.scq := by
  unfold NsTx.scdiOf NsTx.queueOf
  by_cases hzero : g.scq = 0
  · rw [if_pos hzero, if_pos rfl, hzero]
  · have hin := h.inTable g hg hzero
    have hne : ¬(s.scqs g.scq).scd = nsTsrScdIsUbr0 := by
      rw [h.request g hg hzero]
      unfold nsTsrScdIsUbr0
      unfold nsScdNum at hin
      omega
    rw [if_neg hzero, if_neg hne, h.request g hg hzero, h.listed g hg hzero, Option.map_some,
      h.scq g hg]

theorem TxGrants.scdiOf_lt (h : TxGrants vcc s) (hg : g ∈ s.vccs) : s.scdiOf g.scq < 65536 := by
  unfold NsTx.scdiOf
  by_cases hzero : g.scq = 0
  · rw [if_pos hzero]
    decide
  · have hin := h.inTable g hg hzero
    rw [if_neg hzero, h.request g hg hzero]
    unfold nsScdNum at hin
    omega

theorem TxGrants.requestScd_eq (h : TxGrants vcc s) (hg : g ∈ s.vccs) :
    s.requestScd g.scq (vcc g.vcc).conn = s.scdiOf g.scq := by
  unfold NsTx.requestScd NsTx.scdiOf
  by_cases hzero : g.scq = 0
  · rw [if_pos hzero, if_pos hzero]
  · rw [if_neg hzero, if_neg hzero, h.scd g hg hzero, h.request g hg hzero]

/-- A queue that no open socket has holds nothing. -/
theorem TxQueueHolds.unowned (h : TxQueueHolds vcc s tsis q held) (hq : ∀ g ∈ s.vccs, g.scq ≠ q) :
    held = [] ∧ (s.scqs q).waiting = [] ∧ tsis.filterMap (s.requestOf q) = [] := by
  have hnone : held ++ (s.scqs q).waiting = [] := by
    rw [List.eq_nil_iff_forall_not_mem]
    intro p hp
    obtain ⟨g, hg, -, hscq⟩ := h.owned p hp
    exact hq g hg hscq
  obtain ⟨hheld, hwaiting⟩ := List.append_eq_nil_iff.mp hnone
  refine ⟨hheld, hwaiting, ?_⟩
  obtain ⟨taken, reports, hring, hreports, -⟩ := h.ring
  have hempty : reports = [] := by
    rw [List.eq_nil_iff_forall_not_mem]
    intro r hr
    obtain ⟨hlow, hdone⟩ := hring.reported r hr
    have hhigh := hring.takenHigh
    rw [hheld, List.length_nil] at hhigh
    omega
  rw [hreports, hempty]
  rfl

/-- A queue that a step does not concern. -/
theorem TxQueueHolds.congr {tsis' : List NsTsi} (h : TxQueueHolds vcc s tsis q held)
    (hscq : t.scqs q = s.scqs q)
    (hreports : tsis'.filterMap (t.requestOf q) = tsis.filterMap (s.requestOf q))
    (hlost : t.lost = 0 → s.lost = 0)
    (howned : ∀ g ∈ s.vccs, g.scq = q → ∃ g' ∈ t.vccs, g'.vcc = g.vcc ∧ g'.scq = q) :
    TxQueueHolds vcc t tsis' q held := by
  obtain ⟨taken, reports, hring, hreq, hcomplete⟩ := h.ring
  have hscdi : t.scdiOf q = s.scdiOf q := by
    unfold NsTx.scdiOf
    rw [hscq]
  refine ⟨⟨taken, reports, ?_, hreports.trans hreq, ?_⟩, ?_, ?_⟩
  · rw [hscdi, hscq]
    exact hring
  · rw [hscq]
    exact fun h => hcomplete (hlost h)
  · rw [hscq]
    exact h.accepted
  · rw [hscq]
    intro p hp
    obtain ⟨g, hg, hvcc, hgq⟩ := h.owned p hp
    obtain ⟨g', hg', hsame, hgq'⟩ := howned g hg hgq
    exact ⟨g', hg', by rw [hvcc, hsame], hgq'⟩

/-- A step that changes one queue. -/
theorem TxQueues.setScq {sq : NsScq} {starts : List Nat} {tsis' : List NsTsi}
    (h : TxQueues vcc s tsis) (hscd : sq.scd = (s.scqs q).scd)
    (hknown : ∀ x ∈ tsis', x.type = 0x20000000#32 →
      ∃ q, s.queueOf (nsTsiScdIndex x.word1) = some q)
    (hother : ∀ q', q' ≠ q →
      tsis'.filterMap (s.requestOf q') = tsis.filterMap (s.requestOf q'))
    (hq : TxQueueHolds vcc { s.setScq q sq with starts := starts } tsis' q held) :
    TxQueues vcc { s.setScq q sq with starts := starts } tsis' := by
  have hscds : ∀ q', (Function.update s.scqs q sq q').scd = (s.scqs q').scd := by
    intro q'
    by_cases hq' : q' = q
    · rw [hq', Function.update_self, hscd]
    · rw [Function.update_of_ne hq']
  refine ⟨?_, ?_, hknown⟩
  · have hg := h.grants
    exact { hg with request := fun g hmem hne => (hscds g.scq).trans (hg.request g hmem hne) }
  · intro q'
    by_cases hq' : q' = q
    · exact ⟨held, hq' ▸ hq⟩
    · obtain ⟨held', hheld⟩ := h.queue q'
      exact ⟨held', hheld.congr (Function.update_of_ne hq' _ _) (hother q' hq') id
        fun g hg hgq => ⟨g, hg, rfl, hgq⟩⟩

theorem ScqRing.withWaiting {addr : Nat → NsTxAddress} {scdi taken : Nat} {sq : NsScq}
    {reports : List Nat} (h : ScqRing addr scdi sq held taken reports)
    (waiting accepted : List NsTxSkb) :
    ScqRing addr scdi { sq with waiting := waiting, accepted := accepted } held taken reports :=
  ⟨h.next, h.tail, h.tailPtr, h.head, h.room, h.skb, h.tbd, h.tsr, h.takenLow, h.takenHigh, h.sent,
    h.ordered, h.reported⟩

theorem setScq_same (s : NsTx) (q : Nat) : { s.setScq q (s.scqs q) with starts := s.starts } = s := by
  unfold NsTx.setScq
  rw [Function.update_eq_self]

/-- One round of `ns_push_on_scq`, for a packet whose socket has the queue. -/
theorem nsPushOnScq_cons {rounds : Nat} {p : NsTxSkb} {rest : List NsTxSkb}
    (hwaiting : (s.scqs q).waiting = p :: rest) (hvcc : p.vcc = some v)
    (hdev : s.devData v = some g) (hscq : (s.vcmap (vcc v).conn).scq = q) :
    nsPushOnScq vcc (rounds + 1) s q =
      match pushScqe { s.scqs q with waiting := rest } (s.requestScd q (vcc v).conn)
        (nsTbd (vcc v).addr p.buf) p with
      | none => some s
      | some sq =>
        nsPushOnScq vcc rounds { s.setScq q sq with
          starts := if (s.vcmap (vcc v).conn).active then s.starts
            else s.starts ++ [(vcc v).conn] } q := by
  have hdev' : ∀ sq, (s.setScq q sq).devData v = some g := fun _ => hdev
  have hvc : ∀ sq, (s.setScq q sq).vcmap = s.vcmap := fun _ => rfl
  have hscd : ∀ sq, (s.setScq q sq).requestScd q (vcc v).conn = s.requestScd q (vcc v).conn :=
    fun _ => rfl
  have hself : ∀ sq, (s.setScq q sq).scqs q = sq := setScq_self s q
  have htwice : ∀ sq sq', (s.setScq q sq).setScq q sq' = s.setScq q sq' := by
    intro sq sq'
    unfold NsTx.setScq
    simp only [Function.update_idem]
  have hback : s.setScq q { s.scqs q with waiting := p :: rest } = s := by
    rw [← hwaiting]
    exact setScq_same s q
  rw [nsPushOnScq]
  simp only [hwaiting, hvcc, hdev', hvc, hscq, hscd, hself, htwice, hback]
  rfl

/-- `ns_push_on_scq` ends, and the queue is settled: packets that are left wait for room. -/
theorem nsPushOnScq_spec {rounds : Nat} (h : TxQueues vcc s tsis)
    (hrounds : (s.scqs q).waiting.length < rounds) :
    ∃ sq starts, nsPushOnScq vcc rounds s q = some { s.setScq q sq with starts := starts } ∧
      TxQueues vcc { s.setScq q sq with starts := starts } tsis ∧ sq.Settled ∧
      sq.popped = (s.scqs q).popped ∧ sq.accepted = (s.scqs q).accepted := by
  generalize hwaiting : (s.scqs q).waiting = waiting at hrounds
  induction waiting generalizing s rounds with
  | nil =>
    obtain ⟨r, rfl⟩ : ∃ r, rounds = r + 1 := ⟨rounds - 1, by omega⟩
    refine ⟨s.scqs q, s.starts, ?_, ?_, fun hne => absurd hwaiting hne, rfl, rfl⟩
    · unfold nsPushOnScq
      rw [hwaiting, setScq_same]
    · rw [setScq_same]
      exact h
  | cons p rest ih =>
    obtain ⟨r, rfl⟩ : ∃ r, rounds = r + 1 := ⟨rounds - 1, by omega⟩
    rw [List.length_cons] at hrounds
    obtain ⟨held, hholds⟩ := h.queue q
    obtain ⟨taken, reports, hring, hreports, hcomplete⟩ := hholds.ring
    obtain ⟨g, hg, hvcc, hgq⟩ := hholds.owned p (by rw [hwaiting]; simp)
    have hdev := devData_mem h.grants.nodup hg
    have hscq : (s.vcmap (vcc g.vcc).conn).scq = q := (h.grants.scq g hg).trans hgq
    have hscd : s.requestScd q (vcc g.vcc).conn = s.scdiOf q := by
      rw [← hgq]
      exact h.grants.requestScd_eq hg
    have hring' := hring.withWaiting rest (s.scqs q).accepted
    have htbd : p.tbd (fun v => (vcc v).addr) = some (nsTbd (vcc g.vcc).addr p.buf) := by
      rw [NsTxSkb.tbd, hvcc]
      rfl
    rw [nsPushOnScq_cons hwaiting hvcc hdev hscq, hscd]
    by_cases hroom : held.length < 31
    · obtain ⟨sq, hpush, hnew, hpopped, hwait, hacc, hscd'⟩ := pushScqe_room hring' hroom htbd
      rw [hpush]
      dsimp only
      generalize hstarts : (if (s.vcmap (vcc g.vcc).conn).active then s.starts
        else s.starts ++ [(vcc g.vcc).conn]) = starts
      have hself : ({ s.setScq q sq with starts := starts } : NsTx).scqs q = sq :=
        setScq_self s q sq
      have hscdi : ({ s.setScq q sq with starts := starts } : NsTx).scdiOf q = s.scdiOf q := by
        unfold NsTx.scdiOf
        rw [hself, hscd']
      have hqueue : TxQueueHolds vcc { s.setScq q sq with starts := starts } tsis q
          (held ++ [p]) := by
        refine ⟨⟨taken, reports, ?_, hreports, ?_⟩, ?_, ?_⟩
        · rw [hself, hscdi]
          exact hnew
        · rw [hself, hpopped]
          exact hcomplete
        · rw [hself, hpopped, hwait, hacc, List.append_assoc, List.append_assoc]
          show (s.scqs q).accepted = (s.scqs q).popped ++ (held ++ (p :: rest))
          rw [hholds.accepted, hwaiting, List.append_assoc]
        · rw [hself, hwait]
          intro p' hp'
          refine hholds.owned p' ?_
          rw [hwaiting]
          simpa using hp'
      have hnext := h.setScq hscd' h.known (fun _ _ => rfl) hqueue
      obtain ⟨sq', starts', hgo, hqueues, hsettled, hpopped', hacc'⟩ :=
        @ih _ r hnext (by rw [hself, hwait]) (by omega)
      have htwice : ∀ starts', ({ ({ s.setScq q sq with starts := starts } : NsTx).setScq q sq'
          with starts := starts' } : NsTx) = { s.setScq q sq' with starts := starts' } := by
        intro starts'
        unfold NsTx.setScq
        simp only [Function.update_idem]
      rw [htwice] at hgo hqueues
      rw [hself] at hpopped' hacc'
      exact ⟨sq', starts', hgo, hqueues, hsettled, hpopped'.trans hpopped, hacc'.trans hacc⟩
    · have hfull : held.length = 31 := by
        have hle := hring.room
        omega
      rw [pushScqe_full hring' hfull]
      refine ⟨s.scqs q, s.starts, ?_, ?_, ?_, rfl, rfl⟩
      · rw [setScq_same]
      · rw [setScq_same]
        exact h
      · intro _
        rw [hholds.accepted, List.length_append, List.length_append, hfull]

/-- The two states have the same sockets and queues. -/
structure NsTx.Same (s t : NsTx) : Prop where
  vccs : t.vccs = s.vccs
  scq : ∀ c, (t.vcmap c).scq = (s.vcmap c).scq
  scd : ∀ c, (t.vcmap c).scd = (s.vcmap c).scd
  scd2vc : t.scd2vc = s.scd2vc
  scqs : t.scqs = s.scqs
  made : t.made = s.made
  lost : t.lost = s.lost

theorem NsTx.Same.requestOf (h : s.Same t) : t.requestOf = s.requestOf := by
  have hqueueOf : t.queueOf = s.queueOf := by
    funext i
    unfold NsTx.queueOf
    simp only [h.scd2vc, h.scq]
  funext q x
  unfold NsTx.requestOf
  rw [hqueueOf]

/-- A connection whose queue and SCD stay. -/
theorem setVc_same {conn : Nat} {m : NsVcMap} (hscq : m.scq = (s.vcmap conn).scq)
    (hscd : m.scd = (s.vcmap conn).scd) : s.Same (s.setVc conn m) := by
  refine ⟨rfl, ?_, ?_, rfl, rfl, rfl, rfl⟩
  · intro c
    show (Function.update s.vcmap conn m c).scq = (s.vcmap c).scq
    by_cases hc : c = conn
    · rw [hc, Function.update_self, hscq]
    · rw [Function.update_of_ne hc]
  · intro c
    show (Function.update s.vcmap conn m c).scd = (s.vcmap c).scd
    by_cases hc : c = conn
    · rw [hc, Function.update_self, hscd]
    · rw [Function.update_of_ne hc]

theorem TxQueues.same (h : TxQueues vcc s tsis) (hsame : s.Same t) : TxQueues vcc t tsis := by
  have hg := h.grants
  refine ⟨?_, ?_, ?_⟩
  · constructor
    · rw [hsame.vccs]
      exact hg.nodup
    · rw [hsame.made]
      exact hg.some_made
    · rw [hsame.vccs]
      exact fun g hmem => (hsame.scq _).trans (hg.scq g hmem)
    · rw [hsame.vccs, hsame.made]
      exact hg.made
    · rw [hsame.vccs]
      exact hg.closing
    · rw [hsame.vccs]
      exact fun g hmem hne => (hsame.scd _).trans (hg.scd g hmem hne)
    · rw [hsame.vccs, hsame.scqs]
      exact hg.request
    · rw [hsame.vccs, hsame.scd2vc]
      exact hg.listed
    · rw [hsame.vccs]
      exact hg.inTable
    · rw [hsame.vccs]
      exact hg.alone
    · rw [hsame.vccs]
      exact hg.owner
    · rw [hsame.vccs, hsame.scd2vc]
      exact hg.granted
  · intro q
    obtain ⟨held, hheld⟩ := h.queue q
    refine ⟨held, hheld.congr (congrFun hsame.scqs q) (by rw [hsame.requestOf]) ?_ ?_⟩
    · rw [hsame.lost]
      exact id
    · rw [hsame.vccs]
      exact fun g hmem hgq => ⟨g, hmem, rfl, hgq⟩
  · intro x hx htype
    obtain ⟨q, hq⟩ := h.known x hx htype
    refine ⟨q, ?_⟩
    rw [← hq]
    unfold NsTx.queueOf
    simp only [hsame.scd2vc, hsame.scq]

theorem TxQueues.waiting_le (h : TxQueues vcc s tsis) (q : Nat) :
    (s.scqs q).waiting.length ≤ s.queued := by
  by_cases hq : q < s.made
  · unfold NsTx.queued
    exact List.le_sum_of_mem (List.mem_map.mpr ⟨q, List.mem_range.mpr hq, rfl⟩)
  · obtain ⟨held, hheld⟩ := h.queue q
    obtain ⟨-, hwaiting, -⟩ := hheld.unowned fun g hg hgq => hq (hgq ▸ h.grants.made g hg)
    rw [hwaiting]
    exact Nat.zero_le _

theorem nsTsi_init_isEmpty (x : NsTsi) : x.init.IsEmpty := by
  show (0x80000000#32 : Word) &&& 0x80000000#32 ≠ 0#32
  decide

/-- What the driver does with the first report. -/
theorem drain_report {x : NsTsi} (h : TxQueues vcc s (x :: tsis)) (htype : x.type = 0x20000000#32)
    (hq : s.queueOf (nsTsiScdIndex x.word1) = some q) :
    ∃ sq, drainScq (s.scqs q) (nsTsiScqPos x.word1) = some sq ∧
      TxQueues vcc (s.setScq q sq) tsis ∧ sq.accepted = (s.scqs q).accepted ∧
      (s.scqs q).popped <+: sq.popped := by
  obtain ⟨held, hholds⟩ := h.queue q
  obtain ⟨taken, reports, hring, hreports, hcomplete⟩ := hholds.ring
  have hthis : s.requestOf q x = some (nsTsiScqPos x.word1) := if_pos ⟨htype, hq⟩
  rw [List.filterMap_cons_some hthis] at hreports
  cases reports with
  | nil => cases hreports
  | cons r reports =>
    obtain ⟨hpos, hrest⟩ := List.cons.inj hreports
    have hpos : nsTsiScqPos x.word1 = (2 * r + 1) % 64 := hpos
    obtain ⟨sq, n, hdrain, hn, hr, hnew, hpopped, hwaiting, hacc, hscd⟩ := drainScq_report hring
    rw [← hpos] at hdrain
    refine ⟨sq, hdrain, ?_, hacc, ⟨_, hpopped.symm⟩⟩
    have hself := setScq_self s q sq
    have hscdi : (s.setScq q sq).scdiOf q = s.scdiOf q := by
      unfold NsTx.scdiOf
      rw [hself, hscd]
    have hcount : sq.popped.length = r + 1 := by
      rw [hpopped, List.length_append, List.length_take]
      omega
    have hother : ∀ q', q' ≠ q → tsis.filterMap (s.requestOf q') =
        (x :: tsis).filterMap (s.requestOf q') := by
      intro q' hq'
      have hnot : s.requestOf q' x = none := by
        refine if_neg fun hc => hq' ?_
        exact Option.some.inj (hc.2.symm.trans hq)
      rw [List.filterMap_cons_none hnot]
    have hqueue : TxQueueHolds vcc { s.setScq q sq with starts := s.starts } tsis q
        (held.drop (n + 1)) := by
      refine ⟨⟨taken, reports, ?_, hrest, ?_⟩, ?_, ?_⟩
      · show ScqRing _ ((s.setScq q sq).scdiOf q) ((s.setScq q sq).scqs q) _ _ _
        rw [hself, hscdi]
        exact hnew
      · show s.lost = 0 → ∀ r', ((s.setScq q sq).scqs q).popped.length ≤ r' → _
        rw [hself]
        intro hlost r' hlow hdone
        have hin := hcomplete hlost r' (by omega) hdone
        rcases List.mem_cons.mp hin with heq | hmem
        · omega
        · exact hmem
      · show ((s.setScq q sq).scqs q).accepted =
          ((s.setScq q sq).scqs q).popped ++ _ ++ ((s.setScq q sq).scqs q).waiting
        rw [hself, hacc, hpopped, hwaiting, hholds.accepted, List.append_assoc _ _ (held.drop _),
          List.take_append_drop]
      · show ∀ p ∈ held.drop (n + 1) ++ ((s.setScq q sq).scqs q).waiting, _
        rw [hself, hwaiting]
        intro p hp
        refine hholds.owned p ?_
        rcases List.mem_append.mp hp with hp | hp
        · exact List.mem_append_left _ (List.mem_of_mem_drop hp)
        · exact List.mem_append_right _ hp
    exact h.setScq hscd (fun y hy => h.known y (List.mem_cons_of_mem x hy)) hother hqueue

/-- A report that is none of a request. -/
theorem TxQueues.skip {x : NsTsi} (h : TxQueues vcc s (x :: tsis))
    (htype : x.type ≠ 0x20000000#32) : TxQueues vcc s tsis := by
  refine ⟨h.grants, ?_, fun y hy => h.known y (List.mem_cons_of_mem x hy)⟩
  intro q
  obtain ⟨held, hheld⟩ := h.queue q
  have hnot : s.requestOf q x = none := if_neg fun hc => htype hc.1
  refine ⟨held, hheld.congr rfl ?_ id fun g hg hgq => ⟨g, hg, rfl, hgq⟩⟩
  rw [List.filterMap_cons_none hnot]

/-- `process_tsq` ends with all reports seen and every queue settled. -/
theorem tsqLoop_spec {rctSize rounds : Nat}
    (hring : FlagRing nsTsqNumEntries NsTsi.IsEmpty s.tsq s.tsqNext s.tsqWr tsis)
    (h : TxQueues vcc s tsis) (hsettled : ∀ q, (s.scqs q).Settled) (hrounds : tsis.length < rounds) :
    ∃ t, tsqLoop vcc rctSize rounds s = some t ∧
      FlagRing nsTsqNumEntries NsTsi.IsEmpty t.tsq t.tsqNext t.tsqWr [] ∧ TxQueues vcc t [] ∧
      (∀ q, (t.scqs q).Settled) ∧ t.lost = s.lost ∧
      ∀ q, (t.scqs q).accepted = (s.scqs q).accepted ∧
        (s.scqs q).popped <+: (t.scqs q).popped := by
  induction tsis generalizing s rounds with
  | nil =>
    obtain ⟨r, rfl⟩ : ∃ r, rounds = r + 1 := ⟨rounds - 1, by omega⟩
    refine ⟨s, ?_, hring, h, hsettled, rfl, fun q => ⟨rfl, List.prefix_refl _⟩⟩
    unfold tsqLoop
    exact if_pos (hring.vacant_rd.mpr rfl)
  | cons x tsis ih =>
    obtain ⟨r, rfl⟩ : ∃ r, rounds = r + 1 := ⟨rounds - 1, by omega⟩
    rw [List.length_cons] at hrounds
    have hhead := hring.head
    have hfull : ¬x.IsEmpty := hring.occupied x List.mem_cons_self
    have htake := hring.take (nsTsi_init_isEmpty x)
    -- the entry is emptied and the next one is looked at, whatever was done with it
    have hgo : ∀ u : NsTx, s.tsq = u.tsq → s.tsqNext = u.tsqNext → s.tsqWr = u.tsqWr →
        TxQueues vcc u tsis → (∀ q, (u.scqs q).Settled) → u.lost = s.lost →
        (∀ q, (u.scqs q).accepted = (s.scqs q).accepted ∧
          (s.scqs q).popped <+: (u.scqs q).popped) →
        ∃ t, tsqLoop vcc rctSize r { u.clearTsi with
            tsqNext := if u.tsqNext + 1 = nsTsqNumEntries then 0 else u.tsqNext + 1 } = some t ∧
          FlagRing nsTsqNumEntries NsTsi.IsEmpty t.tsq t.tsqNext t.tsqWr [] ∧ TxQueues vcc t [] ∧
          (∀ q, (t.scqs q).Settled) ∧ t.lost = s.lost ∧
          ∀ q, (t.scqs q).accepted = (s.scqs q).accepted ∧
            (s.scqs q).popped <+: (t.scqs q).popped := by
      intro u htsq hnext hwr hu hset hlost hlogs
      have hnext' : (if u.tsqNext + 1 = nsTsqNumEntries then 0 else u.tsqNext + 1) =
          (u.tsqNext + 1) % nsTsqNumEntries := by
        rw [← hnext, ← Nat.mod_eq_of_lt hring.rd_lt, ringNext_end (by decide), Nat.mod_add_mod]
      have hring' : FlagRing nsTsqNumEntries NsTsi.IsEmpty u.clearTsi.tsq
          (if u.tsqNext + 1 = nsTsqNumEntries then 0 else u.tsqNext + 1) u.tsqWr tsis := by
        rw [hnext']
        unfold NsTx.clearTsi
        rw [← htsq, ← hnext, ← hwr, hhead]
        exact htake
      obtain ⟨t, hloop, hr, hq, hs, hl, hlog⟩ := @ih { u.clearTsi with
        tsqNext := if u.tsqNext + 1 = nsTsqNumEntries then 0 else u.tsqNext + 1 } r hring'
        (hu.same ⟨rfl, fun _ => rfl, fun _ => rfl, rfl, rfl, rfl, rfl⟩) hset (by omega)
      refine ⟨t, hloop, hr, hq, hs, hl.trans hlost, ?_⟩
      intro q
      obtain ⟨hacc, hpopped⟩ := hlog q
      exact ⟨hacc.trans (hlogs q).1, (hlogs q).2.trans hpopped⟩
    unfold tsqLoop
    simp only [hhead, if_neg hfull]
    by_cases htype : x.type = 0x20000000#32
    · rw [if_pos htype]
      obtain ⟨q, hq⟩ := h.known x List.mem_cons_self htype
      obtain ⟨sq, hdrain, hqueues, hacc, hpopped⟩ := drain_report h htype hq
      obtain ⟨sq', starts, hpush, hqueues', hset, hpopped', hacc'⟩ :=
        nsPushOnScq_spec hqueues (Nat.lt_succ_of_le (hqueues.waiting_le q))
      rw [hq]
      simp only [hdrain]
      rw [hpush]
      have hself := setScq_self (s.setScq q sq) q sq'
      rw [setScq_self] at hpopped' hacc'
      have hother : ∀ q', q' ≠ q → ((s.setScq q sq).setScq q sq').scqs q' = s.scqs q' := by
        intro q' hq'
        rw [setScq_ne hq', setScq_ne hq']
      refine hgo _ rfl rfl rfl hqueues' ?_ rfl ?_
      · intro q'
        show (((s.setScq q sq).setScq q sq').scqs q').Settled
        by_cases hq' : q' = q
        · rw [hq', hself]
          exact hset
        · rw [hother q' hq']
          exact hsettled q'
      · intro q'
        show (((s.setScq q sq).setScq q sq').scqs q').accepted = _ ∧
          _ <+: (((s.setScq q sq).setScq q sq').scqs q').popped
        by_cases hq' : q' = q
        · rw [hq', hself, hacc', hpopped']
          exact ⟨hacc, hpopped⟩
        · rw [hother q' hq']
          exact ⟨rfl, List.prefix_refl _⟩
    · rw [if_neg htype]
      have hskip := h.skip htype
      by_cases hidle : x.type = 0x40000000#32
      · rw [if_pos hidle]
        by_cases hconn : (x.word1 &&& 0x3fff#32).toNat < rctSize
        · rw [if_pos hconn]
          refine hgo _ rfl rfl rfl (hskip.same (setVc_same ?_ ?_)) hsettled rfl
            fun q => ⟨rfl, List.prefix_refl _⟩
          · rfl
          · rfl
        · rw [if_neg hconn]
          exact hgo s rfl rfl rfl hskip hsettled rfl fun q => ⟨rfl, List.prefix_refl _⟩
      · rw [if_neg hidle]
        exact hgo s rfl rfl rfl hskip hsettled rfl fun q => ⟨rfl, List.prefix_refl _⟩

end Step

end DanubeBsp
