import DanubeBsp.NicstarTxRuns

namespace DanubeBsp

/-- A packet waits for the queue or is in it. -/
def NsScq.Has (sq : NsScq) (p : NsTxSkb) : Prop :=
  p ∈ sq.waiting ∨ ∃ i < scqNumEntries, sq.skb i = some p

/-- Every open socket has what it was given, and every packet that the driver still has belongs to an
open socket that has the queue of the packet. -/
structure TxSound (vcc : Nat → NsTxVcc) (s : NsTx) : Prop where
  scq : ∀ g ∈ s.vccs, (s.vcmap (vcc g.vcc).conn).scq = g.scq
  scd : ∀ g ∈ s.vccs, g.scq ≠ 0 → (s.vcmap (vcc g.vcc).conn).scd = g.scd
  packets : ∀ q p, (s.scqs q).Has p → ∃ g ∈ s.vccs, p.vcc = some g.vcc ∧ g.scq = q

/-- A socket that comes to a queue or to an SCD has its connection for itself, or shares it with
sockets that use `scq0`, which it uses too unless it is refused for want of memory. A socket that uses
`scq0` has no packet there when its `ns_close` ends. -/
def TxClean (vcc : Nat → NsTxVcc) (s : NsTx) : NsTxEvent → Prop
  | .opened v admitted memory _ =>
    s.devData v = none → nsOpenAdmits vcc s v admitted = true →
      ((vcc v).shared = true ∨ ∃ i < nsScdNum, s.scd2vc i = none) →
      ∀ g ∈ s.vccs, (vcc g.vcc).conn = (vcc v).conn →
        g.scq = 0 ∧ ((vcc v).shared = true ∨ memory = false)
  | .closeRound v =>
    ∀ g, s.devData v = some g → g.closing = some 0 → ∀ p, (s.scqs 0).Has p → p.vcc ≠ some v
  | _ => True

structure NsTxInv (vcc : Nat → NsTxVcc) (s : NsTx) : Prop where
  books : ∃ tsis, FlagRing nsTsqNumEntries NsTsi.IsEmpty s.tsq s.tsqNext s.tsqWr tsis ∧
    TxQueues vcc s tsis
  settled : ∀ q, (s.scqs q).Settled

section

variable {vcc : Nat → NsTxVcc} {rctSize : Nat} {s t : NsTx} {tsis : List NsTsi} {q v : Nat}
  {g : NsTxGrant} {held : List NsTxSkb}

theorem ScqRing.has_iff {addr : Nat → NsTxAddress} {scdi taken : Nat} {sq : NsScq}
    {reports : List Nat} (h : ScqRing addr scdi sq held taken reports) (p : NsTxSkb) :
    sq.Has p ↔ p ∈ held ++ sq.waiting := by
  have hring : (∃ i < scqNumEntries, sq.skb i = some p) ↔ p ∈ held := by
    constructor
    · rintro ⟨i, hi, hp⟩
      unfold scqNumEntries at hi
      obtain ⟨k, hk, hslot⟩ : ∃ k < 64, (2 * sq.popped.length + k) % 64 = i :=
        ⟨(i + 64 - 2 * sq.popped.length % 64) % 64, by omega, by omega⟩
      rw [← hslot, h.skb k hk] at hp
      by_cases heven : k % 2 = 0
      · rw [if_pos heven] at hp
        exact List.mem_of_getElem? hp
      · rw [if_neg heven] at hp
        cases hp
    · intro hp
      obtain ⟨j, hj⟩ := List.mem_iff_getElem?.mp hp
      have hlt := (List.getElem?_eq_some_iff.mp hj).1
      have hroom := h.room
      have heven : 2 * j % 2 = 0 := by omega
      have hhalf : 2 * j / 2 = j := by omega
      refine ⟨(2 * sq.popped.length + 2 * j) % 64, Nat.mod_lt _ (by decide), ?_⟩
      rw [h.skb (2 * j) (by omega), if_pos heven, hhalf, hj]
  unfold NsScq.Has
  rw [hring, List.mem_append]
  exact or_comm

theorem TxQueueHolds.has_iff (h : TxQueueHolds vcc s tsis q held) (p : NsTxSkb) :
    (s.scqs q).Has p ↔ p ∈ held ++ (s.scqs q).waiting := by
  obtain ⟨taken, reports, hring, -⟩ := h.ring
  exact hring.has_iff p

theorem NsTxInv.sound (h : NsTxInv vcc s) : TxSound vcc s := by
  obtain ⟨tsis, -, hq⟩ := h.books
  refine ⟨hq.grants.scq, hq.grants.scd, ?_⟩
  intro q p hp
  obtain ⟨held, hheld⟩ := hq.queue q
  exact hheld.owned p ((hheld.has_iff p).mp hp)

theorem nsTxInv_init (stale : Nat → NsScqe) : NsTxInv vcc (nsTxInit stale) := by
  refine ⟨⟨[], FlagRing.init (by decide) (fun _ => ?_), ?_⟩, fun _ hne => absurd rfl hne⟩
  · show (0x80000000#32 : Word) &&& 0x80000000#32 ≠ 0#32
    decide
  · have hnone : ∀ {p : NsTxGrant → Prop}, ∀ g ∈ (nsTxInit stale).vccs, p g :=
      fun g hg => absurd hg List.not_mem_nil
    refine ⟨?_, ?_, fun x hx => absurd hx List.not_mem_nil⟩
    · refine ⟨List.nodup_nil, Nat.one_pos, hnone, hnone, hnone, hnone, hnone, hnone, hnone, hnone,
        hnone, ?_⟩
      intro i c hc
      cases hc
    · intro q
      refine ⟨[], ⟨⟨0, [], ?_, rfl, ?_⟩, rfl, fun p hp => absurd hp List.not_mem_nil⟩⟩
      · exact getScq_ring _ _ _
      · intro _ r _ hr
        omega

/-- What the checks of `ns_open` let pass is not open. -/
theorem vcc_fresh (h : s.devData v = none) : ∀ g ∈ s.vccs, g.vcc ≠ v := by
  intro g hg hv
  have hnot := List.find?_eq_none.mp h g hg
  exact hnot (decide_eq_true hv)

/-- A socket is let in that uses `scq0`. -/
theorem openShared_queues (h : TxQueues vcc s tsis) (hdev : s.devData v = none)
    (hconn : ∀ g ∈ s.vccs, (vcc g.vcc).conn = (vcc v).conn → g.scq = 0) (scd : Nat) :
    TxQueues vcc (nsOpenGrant vcc s v 0 scd) tsis := by
  have hg := h.grants
  have hvc : ∀ c, c ≠ (vcc v).conn → (nsOpenGrant vcc s v 0 scd).vcmap c = s.vcmap c :=
    fun c hc => Function.update_of_ne hc _ _
  have hself : ((nsOpenGrant vcc s v 0 scd).vcmap (vcc v).conn).scq = 0 := by
    show (Function.update s.vcmap (vcc v).conn _ (vcc v).conn).scq = 0
    rw [Function.update_self]
  have hqueueOf : ∀ i, (nsOpenGrant vcc s v 0 scd).queueOf i = s.queueOf i := by
    intro i
    unfold NsTx.queueOf
    by_cases hzero : i = nsTsrScdIsUbr0
    · rw [if_pos hzero, if_pos hzero]
    · rw [if_neg hzero, if_neg hzero]
      show (s.scd2vc i).map _ = _
      cases hc : s.scd2vc i with
      | none => rfl
      | some c =>
        obtain ⟨g, hmem, hgc, hne, -⟩ := hg.granted i c hc
        have hother : c ≠ (vcc v).conn := fun hc => hne (hconn g hmem (hgc.trans hc))
        rw [Option.map_some, Option.map_some, hvc c hother]
  have hreq : (nsOpenGrant vcc s v 0 scd).requestOf = s.requestOf := by
    funext q x
    unfold NsTx.requestOf
    rw [hqueueOf]
  have hold : ∀ g, g ∈ (nsOpenGrant vcc s v 0 scd).vccs → g.scq ≠ 0 →
      g ∈ s.vccs ∧ (vcc g.vcc).conn ≠ (vcc v).conn := by
    intro g hmem hne
    rcases List.mem_cons.mp hmem with rfl | hmem
    · exact absurd rfl hne
    · exact ⟨hmem, fun hc => hne (hconn g hmem hc)⟩
  refine ⟨?_, ?_, ?_⟩
  · constructor
    · refine List.nodup_cons.mpr ⟨?_, hg.nodup⟩
      intro hmem
      obtain ⟨g, hmem, hgv⟩ := List.mem_map.mp hmem
      exact vcc_fresh hdev g hmem hgv
    · exact hg.some_made
    · intro g hmem
      rcases List.mem_cons.mp hmem with rfl | hmem
      · exact hself
      · by_cases hc : (vcc g.vcc).conn = (vcc v).conn
        · rw [hc, hself, hconn g hmem hc]
        · rw [hvc _ hc]
          exact hg.scq g hmem
    · intro g hmem
      rcases List.mem_cons.mp hmem with rfl | hmem
      · exact hg.some_made
      · exact hg.made g hmem
    · intro g hmem
      rcases List.mem_cons.mp hmem with rfl | hmem
      · intro q hq
        cases hq
      · exact hg.closing g hmem
    · intro g hmem hne
      obtain ⟨hmem, hc⟩ := hold g hmem hne
      rw [hvc _ hc]
      exact hg.scd g hmem hne
    · exact fun g hmem hne => hg.request g (hold g hmem hne).1 hne
    · exact fun g hmem hne => hg.listed g (hold g hmem hne).1 hne
    · exact fun g hmem hne => hg.inTable g (hold g hmem hne).1 hne
    · intro g hmem g' hmem' hc hne
      obtain ⟨hmem, hother⟩ := hold g hmem hne
      rcases List.mem_cons.mp hmem' with rfl | hmem'
      · exact absurd hc hother
      · exact hg.alone g hmem g' hmem' hc hne
    · intro g hmem g' hmem' hq hne
      exact hg.owner g (hold g hmem hne).1 g' (hold g' hmem' (hq ▸ hne)).1 hq hne
    · intro i c hc
      obtain ⟨g, hmem, hrest⟩ := hg.granted i c hc
      exact ⟨g, List.mem_cons_of_mem _ hmem, hrest⟩
  · intro q
    obtain ⟨held, hheld⟩ := h.queue q
    exact ⟨held, hheld.congr rfl (by rw [hreq]) id
      fun g hmem hgq => ⟨g, List.mem_cons_of_mem _ hmem, rfl, hgq⟩⟩
  · intro x hx htype
    rw [hqueueOf]
    exact h.known x hx htype

/-- Reports of queues that stay where they are name the same requests. -/
theorem requests_congr (h : ∀ x ∈ tsis, x.type = 0x20000000#32 →
    t.queueOf (nsTsiScdIndex x.word1) = s.queueOf (nsTsiScdIndex x.word1)) (q : Nat) :
    tsis.filterMap (t.requestOf q) = tsis.filterMap (s.requestOf q) := by
  apply List.filterMap_congr
  intro x hx
  unfold NsTx.requestOf
  by_cases htype : x.type = 0x20000000#32
  · rw [h x hx htype]
  · rw [if_neg fun hc => htype hc.1, if_neg fun hc => htype hc.1]

/-- The socket `v` has been let in, with the new queue `sq` and the SCD `scdi`. -/
structure OwnGranted (vcc : Nat → NsTxVcc) (s t : NsTx) (v scdi : Nat) (sq : NsScq) : Prop where
  vccs : t.vccs = ⟨v, s.made, scdi, none⟩ :: s.vccs
  made : t.made = s.made + 1
  lost : t.lost = s.lost
  vcmap : ∀ c, c ≠ (vcc v).conn → t.vcmap c = s.vcmap c
  self : (t.vcmap (vcc v).conn).scq = s.made ∧ (t.vcmap (vcc v).conn).scd = scdi
  scqs : ∀ q, q ≠ s.made → t.scqs q = s.scqs q
  new : t.scqs s.made = sq
  scd2vc : t.scd2vc = Function.update s.scd2vc scdi (some (vcc v).conn)

theorem nsOpenGrant_own (vcc : Nat → NsTxVcc) (s : NsTx) (v scdi : Nat) (sq : NsScq) :
    OwnGranted vcc s (nsOpenGrant vcc { s.setScq s.made sq with
      scd2vc := Function.update s.scd2vc scdi (some (vcc v).conn)
      made := s.made + 1 } v s.made scdi) v scdi sq where
  vccs := rfl
  made := rfl
  lost := rfl
  vcmap _ hc := Function.update_of_ne hc _ _
  self := by
    show (Function.update s.vcmap (vcc v).conn _ (vcc v).conn).scq = s.made ∧
      (Function.update s.vcmap (vcc v).conn _ (vcc v).conn).scd = scdi
    rw [Function.update_self]
    exact ⟨rfl, rfl⟩
  scqs _ hq := Function.update_of_ne hq _ _
  new := setScq_self s s.made _
  scd2vc := rfl

/-- A new queue belongs to the socket that it was made for. -/
theorem OwnGranted.grants {scdi : Nat} {sq : NsScq} (h : OwnGranted vcc s t v scdi sq)
    (hg : TxGrants vcc s) (hdev : s.devData v = none) (hscdi : scdi < nsScdNum)
    (hfree : s.scd2vc scdi = none) (hconn : ∀ g ∈ s.vccs, (vcc g.vcc).conn ≠ (vcc v).conn)
    (hsq : sq.scd = scdi) : TxGrants vcc t := by
  have hother : ∀ g ∈ s.vccs, g.scq ≠ s.made := fun g hmem => Nat.ne_of_lt (hg.made g hmem)
  constructor
  · rw [h.vccs]
    refine List.nodup_cons.mpr ⟨?_, hg.nodup⟩
    intro hmem
    obtain ⟨g, hmem, hgv⟩ := List.mem_map.mp hmem
    exact vcc_fresh hdev g hmem hgv
  · rw [h.made]
    exact Nat.succ_pos _
  · rw [h.vccs]
    intro g hmem
    rcases List.mem_cons.mp hmem with rfl | hmem
    · exact h.self.1
    · rw [h.vcmap _ (hconn g hmem)]
      exact hg.scq g hmem
  · rw [h.vccs, h.made]
    intro g hmem
    rcases List.mem_cons.mp hmem with rfl | hmem
    · exact Nat.lt_succ_self _
    · exact Nat.lt_succ_of_lt (hg.made g hmem)
  · rw [h.vccs]
    intro g hmem
    rcases List.mem_cons.mp hmem with rfl | hmem
    · intro q hq
      cases hq
    · exact hg.closing g hmem
  · rw [h.vccs]
    intro g hmem hne
    rcases List.mem_cons.mp hmem with rfl | hmem
    · exact h.self.2
    · rw [h.vcmap _ (hconn g hmem)]
      exact hg.scd g hmem hne
  · rw [h.vccs]
    intro g hmem hne
    rcases List.mem_cons.mp hmem with rfl | hmem
    · show (t.scqs s.made).scd = scdi
      rw [h.new, hsq]
    · rw [h.scqs _ (hother g hmem)]
      exact hg.request g hmem hne
  · rw [h.vccs, h.scd2vc]
    intro g hmem hne
    rcases List.mem_cons.mp hmem with rfl | hmem
    · exact Function.update_self _ _ _
    · have hlisted := hg.listed g hmem hne
      rw [Function.update_of_ne, hlisted]
      intro heq
      rw [heq, hfree] at hlisted
      cases hlisted
  · rw [h.vccs]
    intro g hmem hne
    rcases List.mem_cons.mp hmem with rfl | hmem
    · exact hscdi
    · exact hg.inTable g hmem hne
  · rw [h.vccs]
    intro g hmem g' hmem' hc hne
    rcases List.mem_cons.mp hmem with rfl | hmem
    · rcases List.mem_cons.mp hmem' with rfl | hmem'
      · rfl
      · exact absurd hc.symm (hconn g' hmem')
    · rcases List.mem_cons.mp hmem' with rfl | hmem'
      · exact absurd hc (hconn g hmem)
      · exact hg.alone g hmem g' hmem' hc hne
  · rw [h.vccs]
    intro g hmem g' hmem' hq hne
    rcases List.mem_cons.mp hmem with rfl | hmem
    · rcases List.mem_cons.mp hmem' with rfl | hmem'
      · rfl
      · exact absurd hq.symm (hother g' hmem')
    · rcases List.mem_cons.mp hmem' with rfl | hmem'
      · exact absurd hq (hother g hmem)
      · exact hg.owner g hmem g' hmem' hq hne
  · rw [h.vccs, h.scd2vc]
    intro i c hc
    by_cases hi : i = scdi
    · rw [hi, Function.update_self] at hc
      exact ⟨_, List.mem_cons_self, Option.some.inj hc, Nat.ne_of_gt hg.some_made, hi.symm⟩
    · rw [Function.update_of_ne hi] at hc
      obtain ⟨g, hmem, hrest⟩ := hg.granted i c hc
      exact ⟨g, List.mem_cons_of_mem _ hmem, hrest⟩

/-- Reports that are under way are of older queues. -/
theorem OwnGranted.queueOf {scdi : Nat} {sq : NsScq} (h : OwnGranted vcc s t v scdi sq)
    (hq : TxQueues vcc s tsis) (hscdi : scdi < nsScdNum) (hfree : s.scd2vc scdi = none)
    (hconn : ∀ g ∈ s.vccs, (vcc g.vcc).conn ≠ (vcc v).conn) {x : NsTsi} (hx : x ∈ tsis)
    (htype : x.type = 0x20000000#32) :
    t.queueOf (nsTsiScdIndex x.word1) = s.queueOf (nsTsiScdIndex x.word1) := by
  have hne : nsTsiScdIndex x.word1 ≠ scdi := by
    intro heq
    obtain ⟨q, hq⟩ := hq.known x hx htype
    have hne : ¬scdi = nsTsrScdIsUbr0 := by
      unfold nsTsrScdIsUbr0
      unfold nsScdNum at hscdi
      omega
    rw [heq, NsTx.queueOf, if_neg hne, hfree] at hq
    cases hq
  unfold NsTx.queueOf
  by_cases hzero : nsTsiScdIndex x.word1 = nsTsrScdIsUbr0
  · rw [if_pos hzero, if_pos hzero]
  · rw [if_neg hzero, if_neg hzero, h.scd2vc, Function.update_of_ne hne]
    cases hc : s.scd2vc (nsTsiScdIndex x.word1) with
    | none => rfl
    | some c =>
      obtain ⟨g, hmem, hgc, -, -⟩ := hq.grants.granted _ c hc
      have hother : c ≠ (vcc v).conn := fun hc => hconn g hmem (hgc.trans hc)
      rw [Option.map_some, Option.map_some, h.vcmap c hother]

/-- A socket is let in that gets a queue of its own. -/
theorem openOwn_queues (h : TxQueues vcc s tsis) (hdev : s.devData v = none) {scdi : Nat}
    (hscdi : scdi < nsScdNum) (hfree : s.scd2vc scdi = none)
    (hconn : ∀ g ∈ s.vccs, (vcc g.vcc).conn ≠ (vcc v).conn) (type : ScqType)
    (stale : Nat → NsScqe) :
    TxQueues vcc (nsOpenGrant vcc { s.setScq s.made (getScq type scdi stale) with
      scd2vc := Function.update s.scd2vc scdi (some (vcc v).conn)
      made := s.made + 1 } v s.made scdi) tsis := by
  have hown := nsOpenGrant_own vcc s v scdi (getScq type scdi stale)
  generalize nsOpenGrant vcc { s.setScq s.made (getScq type scdi stale) with
      scd2vc := Function.update s.scd2vc scdi (some (vcc v).conn)
      made := s.made + 1 } v s.made scdi = t at hown ⊢
  have hother : ∀ g ∈ s.vccs, g.scq ≠ s.made :=
    fun g hmem => Nat.ne_of_lt (h.grants.made g hmem)
  have hqueueOf : ∀ x ∈ tsis, x.type = 0x20000000#32 →
      t.queueOf (nsTsiScdIndex x.word1) = s.queueOf (nsTsiScdIndex x.word1) :=
    fun x hx htype => hown.queueOf h hscdi hfree hconn hx htype
  have hreq := requests_congr hqueueOf
  refine ⟨hown.grants h.grants hdev hscdi hfree hconn rfl, ?_, ?_⟩
  · intro q
    obtain ⟨held, hheld⟩ := h.queue q
    by_cases hq : q = s.made
    · subst hq
      obtain ⟨-, -, hnone⟩ := hheld.unowned hother
      refine ⟨[], ⟨⟨0, [], ?_, ?_, ?_⟩, ?_, ?_⟩⟩
      · rw [hown.new]
        exact getScq_ring _ _ _
      · rw [hreq]
        exact hnone
      · intro _ r _ hr
        omega
      · rw [hown.new]
        rfl
      · rw [hown.new]
        exact fun p hp => absurd hp List.not_mem_nil
    · refine ⟨held, hheld.congr (hown.scqs q hq) (hreq q) ?_ ?_⟩
      · rw [hown.lost]
        exact id
      · rw [hown.vccs]
        exact fun g hmem hgq => ⟨g, List.mem_cons_of_mem _ hmem, rfl, hgq⟩
  · intro x hx htype
    rw [hqueueOf x hx htype]
    exact h.known x hx htype

/-- The index in `adr_scd` changes where only sockets that use `scq0` are. -/
theorem adrScd_queues (h : TxQueues vcc s tsis) {conn : Nat}
    (hconn : ∀ g ∈ s.vccs, (vcc g.vcc).conn = conn → g.scq = 0) (scd : Nat) :
    TxQueues vcc (s.setVc conn { s.vcmap conn with scd := scd }) tsis := by
  have hscq : ∀ c, ((s.setVc conn { s.vcmap conn with scd := scd }).vcmap c).scq =
      (s.vcmap c).scq := by
    intro c
    show (Function.update s.vcmap conn _ c).scq = _
    by_cases hc : c = conn
    · rw [hc, Function.update_self]
    · rw [Function.update_of_ne hc]
  have hqueueOf : (s.setVc conn { s.vcmap conn with scd := scd }).queueOf = s.queueOf := by
    funext i
    unfold NsTx.queueOf
    simp only [hscq]
    rfl
  have hreq : (s.setVc conn { s.vcmap conn with scd := scd }).requestOf = s.requestOf := by
    funext q x
    unfold NsTx.requestOf
    rw [hqueueOf]
  have hg := h.grants
  refine ⟨?_, ?_, ?_⟩
  · refine { hg with scq := fun g hmem => (hscq _).trans (hg.scq g hmem), scd := ?_ }
    intro g hmem hne
    show (Function.update s.vcmap conn _ _).scd = g.scd
    rw [Function.update_of_ne fun hc => hne (hconn g hmem hc)]
    exact hg.scd g hmem hne
  · intro q
    obtain ⟨held, hheld⟩ := h.queue q
    exact ⟨held, hheld.congr rfl (by rw [hreq]) id fun g hmem hgq => ⟨g, hmem, rfl, hgq⟩⟩
  · intro x hx htype
    rw [hqueueOf]
    exact h.known x hx htype

/-- All that `ns_open` does. -/
theorem nsOpenTx_cases (v : Nat) (admitted memory : Bool) (stale : Nat → NsScqe) :
    (¬(nsOpenAdmits vcc s v admitted = true ∧
          ((vcc v).shared = true ∨ ∃ i < nsScdNum, s.scd2vc i = none)) ∧
        nsOpenTx vcc s v admitted memory stale = s) ∨
      nsOpenAdmits vcc s v admitted = true ∧
        (((vcc v).shared = true ∧
            nsOpenTx vcc s v admitted memory stale = nsOpenGrant vcc s v 0 nsTsrScdIsUbr0) ∨
          ((vcc v).shared = false ∧ ∃ scdi < nsScdNum, s.scd2vc scdi = none ∧
            (memory = true ∧ nsOpenTx vcc s v admitted memory stale =
                nsOpenGrant vcc { s.setScq s.made (getScq (vcc v).type scdi stale) with
                  scd2vc := Function.update s.scd2vc scdi (some (vcc v).conn)
                  made := s.made + 1 } v s.made scdi ∨
              memory = false ∧ nsOpenTx vcc s v admitted memory stale =
                s.setVc (vcc v).conn { s.vcmap (vcc v).conn with scd := scdi }))) := by
  unfold nsOpenTx
  dsimp only
  split
  next hadmits =>
    split
    next hshared => exact .inr ⟨hadmits, .inl ⟨hshared, rfl⟩⟩
    next hshared =>
      split
      next hbusy =>
        refine .inl ⟨?_, rfl⟩
        rintro ⟨-, hsh | ⟨i, hi, hfree⟩⟩
        · exact hshared hsh
        · have hnot := List.find?_eq_none.mp hbusy i (List.mem_range.mpr hi)
          rw [hfree] at hnot
          exact hnot rfl
      next scdi hfind =>
        have hlt := List.mem_range.mp (List.mem_of_find?_eq_some hfind)
        have hfree : s.scd2vc scdi = none := by simpa using List.find?_some hfind
        refine .inr ⟨hadmits, .inr ⟨Bool.eq_false_iff.mpr hshared, scdi, hlt, hfree, ?_⟩⟩
        split
        next hmemory => exact .inl ⟨hmemory, rfl⟩
        next hmemory => exact .inr ⟨Bool.eq_false_iff.mpr hmemory, rfl⟩
  next hrefused => exact .inl ⟨fun hc => hrefused hc.1, rfl⟩

theorem NsTxInv.opened (h : NsTxInv vcc s) {admitted memory : Bool} {stale : Nat → NsScqe}
    (hok : TxClean vcc s (.opened v admitted memory stale)) (hdev : s.devData v = none) :
    NsTxInv vcc (nsOpenTx vcc s v admitted memory stale) := by
  obtain ⟨tsis, hring, hq⟩ := h.books
  rcases nsOpenTx_cases v admitted memory stale with ⟨-, heq⟩ | ⟨hadmits, hcase⟩
  · rw [heq]
    exact h
  · rcases hcase with ⟨hshared, heq⟩ | ⟨hown, scdi, hscdi, hfree, hcase⟩
    · have hconn := hok hdev hadmits (.inl hshared)
      rw [heq]
      exact ⟨⟨tsis, hring, openShared_queues hq hdev (fun g hg hc => (hconn g hg hc).1) _⟩,
        h.settled⟩
    · have hconn := hok hdev hadmits (.inr ⟨scdi, hscdi, hfree⟩)
      rcases hcase with ⟨hmemory, heq⟩ | ⟨-, heq⟩
      · rw [heq]
        have hnone : ∀ g ∈ s.vccs, (vcc g.vcc).conn ≠ (vcc v).conn := by
          intro g hg hc
          rcases (hconn g hg hc).2 with hsh | hmem
          · rw [hown] at hsh
            cases hsh
          · rw [hmemory] at hmem
            cases hmem
        refine ⟨⟨tsis, hring, openOwn_queues hq hdev hscdi hfree hnone _ stale⟩, ?_⟩
        intro q
        show (Function.update s.scqs s.made (getScq (vcc v).type scdi stale) q).Settled
        by_cases hmade : q = s.made
        · rw [hmade, Function.update_self]
          exact fun hne => absurd rfl hne
        · rw [Function.update_of_ne hmade]
          exact h.settled q
      · rw [heq]
        exact ⟨⟨tsis, hring, adrScd_queues hq (fun g hg hc => (hconn g hg hc).1) scdi⟩, h.settled⟩

/-- `ns_send` ends, and keeps the invariant; it changes at most one queue. -/
theorem nsSend_spec (h : NsTxInv vcc s) (v : Nat) (b : NsTxBuf) (frags : Bool) :
    ∃ t r, nsSend vcc s v b frags = some (t, r) ∧ NsTxInv vcc t := by
  obtain ⟨tsis, hring, hq⟩ := h.books
  unfold nsSend
  cases hdev : s.devData v with
  | none => exact ⟨s, eInval, rfl, h⟩
  | some g =>
    obtain ⟨hg, hgv⟩ := devData_some hdev
    dsimp only
    split
    next => exact ⟨s, eInval, rfl, h⟩
    next =>
      split
      next => exact ⟨s, eInval, rfl, h⟩
      next =>
        have hscq : (s.vcmap (vcc v).conn).scq = g.scq := by
          rw [← hgv]
          exact hq.grants.scq g hg
        rw [hscq]
        generalize hsq : ({ s.scqs g.scq with
          waiting := (s.scqs g.scq).waiting ++ [⟨some v, b⟩]
          accepted := (s.scqs g.scq).accepted ++ [⟨some v, b⟩] } : NsScq) = sq
        obtain ⟨held, hheld⟩ := hq.queue g.scq
        obtain ⟨taken, reports, hscqring, hreq, hcomplete⟩ := hheld.ring
        have hself := setScq_self s g.scq sq
        have hqueue : TxQueueHolds vcc { s.setScq g.scq sq with starts := s.starts } tsis g.scq
            held := by
          have hscdi : (s.setScq g.scq sq).scdiOf g.scq = s.scdiOf g.scq := by
            unfold NsTx.scdiOf
            rw [hself, ← hsq]
          refine ⟨⟨taken, reports, ?_, hreq, ?_⟩, ?_, ?_⟩
          · show ScqRing _ ((s.setScq g.scq sq).scdiOf g.scq) ((s.setScq g.scq sq).scqs g.scq) _ _ _
            rw [hself, hscdi, ← hsq]
            exact hscqring.withWaiting _ _
          · show s.lost = 0 → ∀ r, ((s.setScq g.scq sq).scqs g.scq).popped.length ≤ r → _
            rw [hself, ← hsq]
            exact hcomplete
          · show ((s.setScq g.scq sq).scqs g.scq).accepted = ((s.setScq g.scq sq).scqs g.scq).popped ++
              held ++ ((s.setScq g.scq sq).scqs g.scq).waiting
            rw [hself, ← hsq, ← List.append_assoc, ← hheld.accepted]
          · show ∀ p ∈ held ++ ((s.setScq g.scq sq).scqs g.scq).waiting, _
            rw [hself, ← hsq, ← List.append_assoc]
            intro p hp
            rcases List.mem_append.mp hp with hp | hp
            · exact hheld.owned p hp
            · rw [List.mem_singleton.mp hp]
              exact ⟨g, hg, by rw [hgv], rfl⟩
        have hqueues : TxQueues vcc (s.setScq g.scq sq) tsis :=
          hq.setScq (by rw [← hsq]) hq.known (fun _ _ => rfl) hqueue
        obtain ⟨sq', starts, hpush, hqueues', hset, -⟩ :=
          nsPushOnScq_spec hqueues (Nat.lt_succ_of_le (hqueues.waiting_le g.scq))
        rw [hpush]
        refine ⟨_, 0, rfl, ⟨⟨tsis, hring, hqueues'⟩, ?_⟩⟩
        intro q
        show (((s.setScq g.scq sq).setScq g.scq sq').scqs q).Settled
        by_cases hgq : q = g.scq
        · rw [hgq, setScq_self]
          exact hset
        · rw [setScq_ne hgq, setScq_ne hgq]
          exact h.settled q

theorem nsTsiStamp_type {type : Word} (htype : type &&& 0x60000000#32 = type) (time : Word) :
    nsTsiStamp type time &&& 0x60000000#32 = type := by
  unfold nsTsiStamp
  rw [BitVec.and_comm, BitVec.and_or_distrib_left, BitVec.and_comm, htype, BitVec.and_comm,
    BitVec.and_assoc]
  show type ||| (time &&& 0#32) = type
  rw [BitVec.and_zero, BitVec.or_zero]

theorem nsTsiStamp_full {type : Word} (htype : type &&& 0x80000000#32 = 0#32) (time : Word) :
    nsTsiStamp type time &&& 0x80000000#32 = 0#32 := by
  unfold nsTsiStamp
  rw [BitVec.and_comm, BitVec.and_or_distrib_left, BitVec.and_comm, htype, BitVec.and_comm,
    BitVec.and_assoc]
  show 0#32 ||| (time &&& 0#32) = 0#32
  rw [BitVec.and_zero, BitVec.or_zero]

/-- A report is put behind the others, or lost. -/
theorem report_cases {x : NsTsi} (lost : Bool)
    (hring : FlagRing nsTsqNumEntries NsTsi.IsEmpty s.tsq s.tsqNext s.tsqWr tsis)
    (hx : ¬x.IsEmpty) :
    s.report x lost = { s with lost := s.lost + 1 } ∨
      s.report x lost = { s with
        tsq := Function.update s.tsq s.tsqWr x
        tsqWr := (s.tsqWr + 1) % nsTsqNumEntries } ∧
      FlagRing nsTsqNumEntries NsTsi.IsEmpty (Function.update s.tsq s.tsqWr x) s.tsqNext
        ((s.tsqWr + 1) % nsTsqNumEntries) (tsis ++ [x]) := by
  unfold NsTx.report
  by_cases hlost : lost = true ∨ ¬(s.tsq s.tsqWr).IsEmpty
  · rw [if_pos hlost]
    exact .inl rfl
  · rw [if_neg hlost]
    refine .inr ⟨rfl, hring.put (hring.vacant_wr.mp ?_) hx⟩
    by_contra hfull
    exact hlost (.inr hfull)

/-- Reports are lost for all queues. -/
theorem TxQueues.lose (h : TxQueues vcc s tsis) :
    TxQueues vcc { s with lost := s.lost + 1 } tsis := by
  refine ⟨{ h.grants with }, ?_, h.known⟩
  intro q
  obtain ⟨held, hheld⟩ := h.queue q
  exact ⟨held, hheld.congr rfl rfl (fun hzero => absurd hzero (Nat.succ_ne_zero _))
    fun g hg hgq => ⟨g, hg, rfl, hgq⟩⟩

/-- A status that is no report of a request. -/
theorem NsTxInv.status (h : NsTxInv vcc s) (word1 time : Word) (idle lost : Bool) :
    NsTxInv vcc (s.report ⟨word1, nsTsiStamp (if idle then 0x40000000#32 else 0#32) time⟩ lost) := by
  obtain ⟨tsis, hring, hq⟩ := h.books
  generalize hx : (⟨word1, nsTsiStamp (if idle then 0x40000000#32 else 0#32) time⟩ : NsTsi) = x
  have hfull : ¬x.IsEmpty := by
    rw [← hx]
    refine not_not.mpr (nsTsiStamp_full ?_ time)
    cases idle <;> rfl
  have htype : x.type ≠ 0x20000000#32 := by
    have hword : x.type = if idle then 0x40000000#32 else 0#32 := by
      rw [← hx]
      refine nsTsiStamp_type ?_ time
      cases idle <;> rfl
    rw [hword]
    cases idle <;> simp
  rcases report_cases lost hring hfull with heq | ⟨heq, hring'⟩
  · rw [heq]
    exact ⟨⟨tsis, hring, hq.lose⟩, h.settled⟩
  · rw [heq]
    refine ⟨⟨tsis ++ [x], hring', ⟨{ hq.grants with }, ?_, ?_⟩⟩, h.settled⟩
    · intro q
      obtain ⟨held, hheld⟩ := hq.queue q
      have hnot : s.requestOf q x = none := if_neg fun hc => htype hc.1
      refine ⟨held, hheld.congr rfl ?_ id fun g hg hgq => ⟨g, hg, rfl, hgq⟩⟩
      show (tsis ++ [x]).filterMap (s.requestOf q) = _
      rw [List.filterMap_append, List.filterMap_cons_none hnot, List.filterMap_nil, List.append_nil]
    · intro y hy hytype
      rcases List.mem_append.mp hy with hy | hy
      · exact hq.known y hy hytype
      · rw [List.mem_singleton.mp hy] at hytype
        exact absurd hytype htype

/-- The card has taken an entry, and may have reported it. -/
theorem card_queues {tsis' : List NsTsi} (h : TxQueues vcc s tsis) {sq : NsScq} {taken : Nat}
    {reports : List Nat} (hheld : TxQueueHolds vcc s tsis q held)
    (hknown : ∀ x ∈ tsis', x.type = 0x20000000#32 →
      ∃ q, s.queueOf (nsTsiScdIndex x.word1) = some q)
    (hother : ∀ q', q' ≠ q →
      tsis'.filterMap (s.requestOf q') = tsis.filterMap (s.requestOf q'))
    (hreq : tsis'.filterMap (s.requestOf q) = reports.map fun r => (2 * r + 1) % 64)
    (hring : ScqRing (fun v => (vcc v).addr) (s.scdiOf q) sq held taken reports)
    (hcomplete : s.lost = 0 → ∀ r, sq.popped.length ≤ r → 2 * r + 1 < taken → r ∈ reports)
    (hpopped : sq.popped = (s.scqs q).popped) (hwaiting : sq.waiting = (s.scqs q).waiting)
    (hacc : sq.accepted = (s.scqs q).accepted) (hscd : sq.scd = (s.scqs q).scd) :
    TxQueues vcc (s.setScq q sq) tsis' := by
  have hself := setScq_self s q sq
  have hscdi : (s.setScq q sq).scdiOf q = s.scdiOf q := by
    unfold NsTx.scdiOf
    rw [hself, hscd]
  have hqueue : TxQueueHolds vcc { s.setScq q sq with starts := s.starts } tsis' q held := by
    refine ⟨⟨taken, reports, ?_, hreq, ?_⟩, ?_, ?_⟩
    · show ScqRing _ ((s.setScq q sq).scdiOf q) ((s.setScq q sq).scqs q) _ _ _
      rw [hself, hscdi]
      exact hring
    · show s.lost = 0 → ∀ r, ((s.setScq q sq).scqs q).popped.length ≤ r → _
      rw [hself]
      exact hcomplete
    · show ((s.setScq q sq).scqs q).accepted = ((s.setScq q sq).scqs q).popped ++ held ++
        ((s.setScq q sq).scqs q).waiting
      rw [hself, hacc, hpopped, hwaiting]
      exact hheld.accepted
    · show ∀ p ∈ held ++ ((s.setScq q sq).scqs q).waiting, _
      rw [hself, hwaiting]
      exact hheld.owned
  exact h.setScq hscd hknown hother hqueue

theorem settled_setScq (h : ∀ q, (s.scqs q).Settled) {sq : NsScq} (hsq : sq.Settled) :
    ∀ q', ((s.setScq q sq).scqs q').Settled := by
  intro q'
  by_cases hq : q' = q
  · rw [hq, setScq_self]
    exact hsq
  · rw [setScq_ne hq]
    exact h q'

/-- The card takes an entry and reports it if it is a request. -/
theorem NsTxInv.card (h : NsTxInv vcc s) {time : Word} {lost : Bool}
    (hstep : nsTxStep vcc rctSize s (.card q time lost) = some t) : NsTxInv vcc t := by
  obtain ⟨tsis, htsq, hq⟩ := h.books
  obtain ⟨held, hheld⟩ := hq.queue q
  obtain ⟨taken, reports, hring, hreq, hcomplete⟩ := hheld.ring
  have hsettled : ∀ {sq : NsScq}, sq.popped = (s.scqs q).popped →
      sq.waiting = (s.scqs q).waiting → sq.accepted = (s.scqs q).accepted →
      ∀ q', ((s.setScq q sq).scqs q').Settled := by
    intro sq hpopped hwaiting hacc
    refine settled_setScq h.settled ?_
    unfold NsScq.Settled
    rw [hpopped, hwaiting, hacc]
    exact h.settled q
  unfold nsTxStep at hstep
  rcases cardTakes_cases hring with ⟨-, htakes⟩ |
    ⟨sq, htakes, heven, hnew, hpopped, hwait, hacc, hscd⟩ |
    ⟨sq, r, htakes, htaken, hlate, hnow, hpopped, hwait, hacc, hscd⟩
  · simp only [htakes] at hstep
    cases hstep
  · simp only [htakes] at hstep
    cases Option.some.inj hstep
    refine ⟨⟨tsis, htsq, card_queues hq hheld hq.known (fun _ _ => rfl) hreq hnew ?_ hpopped hwait
      hacc hscd⟩, hsettled hpopped hwait hacc⟩
    rw [hpopped]
    exact fun hlost r hlow hr => hcomplete hlost r hlow (by omega)
  · simp only [htakes] at hstep
    cases Option.some.inj hstep
    generalize hx : (⟨(nsTsr (s.scqs q).type (s.scdiOf q) ((2 * r + 1) % 64)).word2,
      nsTsiStamp 0x20000000#32 time⟩ : NsTsi) = x
    have hfull : ¬x.IsEmpty := by
      rw [← hx]
      exact not_not.mpr (nsTsiStamp_full rfl time)
    have htype : x.type = 0x20000000#32 := by
      rw [← hx]
      exact nsTsiStamp_type rfl time
    obtain ⟨g, hg, hgq⟩ : ∃ g ∈ s.vccs, g.scq = q := by
      have hlow := hring.takenLow
      have hhigh := hring.takenHigh
      have hpos : 0 < held.length := by omega
      obtain ⟨g, hg, -, hgq⟩ := hheld.owned held[0] (List.mem_append_left _ (List.getElem_mem hpos))
      exact ⟨g, hg, hgq⟩
    have hword : nsTsiScdIndex (nsTsr (s.scqs q).type (s.scdiOf q) ((2 * r + 1) % 64)).word2 =
          s.scdiOf q ∧
        nsTsiScqPos (nsTsr (s.scqs q).type (s.scdiOf q) ((2 * r + 1) % 64)).word2 =
          (2 * r + 1) % 64 :=
      nsTsr_word2 (hgq ▸ hq.grants.scdiOf_lt hg) (show (2 * r + 1) % 64 < 32768 by omega)
    have hindex : nsTsiScdIndex x.word1 = s.scdiOf q := by
      rw [← hx]
      exact hword.1
    have hpos : nsTsiScqPos x.word1 = (2 * r + 1) % 64 := by
      rw [← hx]
      exact hword.2
    have hqueueOf : s.queueOf (nsTsiScdIndex x.word1) = some q := by
      rw [hindex, ← hgq]
      exact hq.grants.queueOf_grant hg
    have hthis : s.requestOf q x = some ((2 * r + 1) % 64) := by
      rw [← hpos]
      exact if_pos ⟨htype, hqueueOf⟩
    rcases report_cases (s := s.setScq q sq) lost htsq hfull with heq | ⟨heq, hring'⟩
    · rw [heq]
      have hheld' : TxQueueHolds vcc { s with lost := s.lost + 1 } tsis q held :=
        hheld.congr rfl rfl (fun hzero => absurd hzero (Nat.succ_ne_zero _))
          fun g hg hgq => ⟨g, hg, rfl, hgq⟩
      exact ⟨⟨tsis, htsq, card_queues hq.lose hheld' hq.known (fun _ _ => rfl) hreq hlate
        (fun hzero => absurd hzero (Nat.succ_ne_zero _)) hpopped hwait hacc hscd⟩,
        hsettled hpopped hwait hacc⟩
    · rw [heq]
      have hknown : ∀ y ∈ tsis ++ [x], y.type = 0x20000000#32 →
          ∃ q, s.queueOf (nsTsiScdIndex y.word1) = some q := by
        intro y hy hytype
        rcases List.mem_append.mp hy with hy | hy
        · exact hq.known y hy hytype
        · rw [List.mem_singleton.mp hy]
          exact ⟨q, hqueueOf⟩
      have hother : ∀ q', q' ≠ q → (tsis ++ [x]).filterMap (s.requestOf q') =
          tsis.filterMap (s.requestOf q') := by
        intro q' hq'
        have hnot : s.requestOf q' x = none :=
          if_neg fun hc => hq' (Option.some.inj (hc.2.symm.trans hqueueOf))
        rw [List.filterMap_append, List.filterMap_cons_none hnot, List.filterMap_nil,
          List.append_nil]
      have hreq' : (tsis ++ [x]).filterMap (s.requestOf q) =
          (reports ++ [r]).map fun r => (2 * r + 1) % 64 := by
        rw [List.filterMap_append, List.filterMap_cons_some hthis, List.filterMap_nil, hreq,
          List.map_append]
        rfl
      have hall : s.lost = 0 → ∀ r', sq.popped.length ≤ r' → 2 * r' + 1 < taken + 1 →
          r' ∈ reports ++ [r] := by
        intro hlost r' hlow hr'
        rw [hpopped] at hlow
        by_cases hlast : r' = r
        · exact List.mem_append_right _ (List.mem_singleton.mpr hlast)
        · exact List.mem_append_left _ (hcomplete hlost r' hlow (by omega))
      have hqueues := card_queues hq hheld hknown hother hreq' hnow hall hpopped hwait hacc hscd
      exact ⟨⟨tsis ++ [x], hring',
        hqueues.same ⟨rfl, fun _ => rfl, fun _ => rfl, rfl, rfl, rfl, rfl⟩⟩,
        hsettled hpopped hwait hacc⟩

theorem NsTxInv.interrupt (h : NsTxInv vcc s) :
    ∃ t, processTsq vcc rctSize s = some t ∧ NsTxInv vcc t := by
  obtain ⟨tsis, hring, hq⟩ := h.books
  obtain ⟨t, ht, hring', hq', hset, -⟩ :=
    tsqLoop_spec hring hq h.settled (Nat.lt_succ_of_le hring.length_le)
  exact ⟨t, ht, ⟨[], hring', hq'⟩, hset⟩

/-- The sockets are marked. -/
theorem TxQueues.mapGrants (h : TxQueues vcc s tsis) {f : NsTxGrant → NsTxGrant}
    (hvcc : ∀ g, (f g).vcc = g.vcc) (hscq : ∀ g, (f g).scq = g.scq) (hscd : ∀ g, (f g).scd = g.scd)
    (hclosing : ∀ g ∈ s.vccs, ∀ q, (f g).closing = some q → q = g.scq) :
    TxQueues vcc { s with vccs := s.vccs.map f } tsis := by
  have hg := h.grants
  refine ⟨?_, ?_, h.known⟩
  · constructor
    · show ((s.vccs.map f).map NsTxGrant.vcc).Nodup
      rw [List.map_map, show NsTxGrant.vcc ∘ f = NsTxGrant.vcc from funext hvcc]
      exact hg.nodup
    · exact hg.some_made
    · rw [List.forall_mem_map]
      intro g hmem
      rw [hvcc, hscq]
      exact hg.scq g hmem
    · rw [List.forall_mem_map]
      intro g hmem
      rw [hscq]
      exact hg.made g hmem
    · rw [List.forall_mem_map]
      intro g hmem
      rw [hscq]
      exact hclosing g hmem
    · rw [List.forall_mem_map]
      intro g hmem
      rw [hvcc, hscq, hscd]
      exact hg.scd g hmem
    · rw [List.forall_mem_map]
      intro g hmem
      rw [hscq, hscd]
      exact hg.request g hmem
    · rw [List.forall_mem_map]
      intro g hmem
      rw [hvcc, hscq, hscd]
      exact hg.listed g hmem
    · rw [List.forall_mem_map]
      intro g hmem
      rw [hscq, hscd]
      exact hg.inTable g hmem
    · rw [List.forall_mem_map]
      intro g hmem
      rw [List.forall_mem_map]
      intro g' hmem'
      rw [hvcc, hvcc, hscq]
      exact fun hc hne => congrArg f (hg.alone g hmem g' hmem' hc hne)
    · rw [List.forall_mem_map]
      intro g hmem
      rw [List.forall_mem_map]
      intro g' hmem'
      rw [hscq, hscq]
      exact fun hq hne => congrArg f (hg.owner g hmem g' hmem' hq hne)
    · intro i c hc
      obtain ⟨g, hmem, hconn, hne, hi⟩ := hg.granted i c hc
      refine ⟨f g, List.mem_map_of_mem hmem, ?_⟩
      rw [hvcc, hscq, hscd]
      exact ⟨hconn, hne, hi⟩
  · intro q
    obtain ⟨held, hheld⟩ := h.queue q
    refine ⟨held, hheld.congr rfl rfl id ?_⟩
    intro g hmem hgq
    exact ⟨f g, List.mem_map_of_mem hmem, hvcc g, (hscq g).trans hgq⟩

/-- `ns_close` begins. -/
theorem NsTxInv.close (h : NsTxInv vcc s) (hg : g ∈ s.vccs) : NsTxInv vcc (nsCloseBegin vcc s g) := by
  obtain ⟨tsis, hring, hq⟩ := h.books
  have hmark := hq.mapGrants (f := fun h => if h = g then
      { g with closing := some (s.vcmap (vcc g.vcc).conn).scq } else h) ?_ ?_ ?_ ?_
  · refine ⟨⟨tsis, hring, hmark.same (setVc_same rfl rfl)⟩, h.settled⟩
  · intro h
    by_cases hh : h = g
    · rw [if_pos hh, hh]
    · rw [if_neg hh]
  · intro h
    by_cases hh : h = g
    · rw [if_pos hh, hh]
    · rw [if_neg hh]
  · intro h
    by_cases hh : h = g
    · rw [if_pos hh, hh]
    · rw [if_neg hh]
  · intro h hmem q
    by_cases hh : h = g
    · rw [if_pos hh, hh]
      intro hsome
      rw [← Option.some.inj hsome]
      exact hq.grants.scq g hg
    · rw [if_neg hh]
      exact hq.grants.closing h hmem q

theorem forget_eq {sq : NsScq} (h : ∀ p, sq.Has p → p.vcc ≠ some v) : sq.forget v = sq := by
  have hskb : (fun i => (sq.skb i).map fun p =>
      if i < scqNumEntries ∧ p.vcc = some v then { p with vcc := none } else p) = sq.skb := by
    funext i
    cases hp : sq.skb i with
    | none => rfl
    | some p =>
      have hnot : ¬(i < scqNumEntries ∧ p.vcc = some v) :=
        fun hc => h p (.inr ⟨i, hc.1, hp⟩) hc.2
      rw [Option.map_some, if_neg hnot]
  unfold NsScq.forget
  rw [hskb]

/-- What `ns_close` leaves of an empty queue of its own. -/
theorem freeScq_empty {addr : Nat → NsTxAddress} {scdi taken : Nat} {sq : NsScq}
    {reports : List Nat} (h : ScqRing addr scdi sq [] taken reports) (hwaiting : sq.waiting = []) :
    ScqRing addr scdi (freeScq sq) [] taken reports ∧ (freeScq sq).popped = sq.popped ∧
      (freeScq sq).waiting = sq.waiting := by
  have hnone : ∀ i < scqNumEntries, sq.skb i = none := by
    intro i hi
    cases hp : sq.skb i with
    | none => rfl
    | some p =>
      have hhas := (h.has_iff p).mp (.inr ⟨i, hi, hp⟩)
      rw [hwaiting] at hhas
      exact absurd hhas List.not_mem_nil
  have hempty : (List.range scqNumEntries).filterMap sq.skb = [] := by
    rw [List.filterMap_eq_nil_iff]
    exact fun i hi => hnone i (List.mem_range.mp hi)
  have hpopped : (freeScq sq).popped = sq.popped := by
    show sq.popped ++ (List.range scqNumEntries).filterMap sq.skb = sq.popped
    rw [hempty, List.append_nil]
  refine ⟨?_, hpopped, hwaiting.symm⟩
  have hfields : freeScq sq = { sq with waiting := [], skb := fun _ => none } := by
    unfold freeScq
    rw [hempty, List.append_nil]
  rw [hfields]
  refine ⟨h.next, h.tail, h.tailPtr, h.head, h.room, ?_, h.tbd, h.tsr, h.takenLow, h.takenHigh,
    h.sent, h.ordered, h.reported⟩
  intro k _
  split <;> rfl

/-- The grant `g` has been taken out, with its queue if it was its own; no packet of it was left. -/
structure GrantGone (s t : NsTx) (g : NsTxGrant) : Prop where
  vccs : t.vccs = s.vccs.erase g
  vcmap : t.vcmap = s.vcmap
  made : t.made = s.made
  lost : t.lost = s.lost
  scd2vc : ∀ i, t.scd2vc i = if g.scq ≠ 0 ∧ i = g.scd then none else s.scd2vc i
  other : ∀ q, q ≠ g.scq → t.scqs q = s.scqs q
  shared : g.scq = 0 → t.scqs 0 = s.scqs 0 ∧ ∀ p, (s.scqs 0).Has p → p.vcc ≠ some g.vcc
  own : g.scq ≠ 0 → t.scqs g.scq = freeScq (s.scqs g.scq) ∧ ∀ p, ¬(s.scqs g.scq).Has p

theorem GrantGone.mem (h : GrantGone s t g) (hg : TxGrants vcc s) (g' : NsTxGrant) :
    g' ∈ t.vccs ↔ g' ≠ g ∧ g' ∈ s.vccs := by
  rw [h.vccs]
  exact hg.nodup.of_map.mem_erase_iff

theorem GrantGone.scd (h : GrantGone s t g) (q : Nat) : (t.scqs q).scd = (s.scqs q).scd := by
  by_cases hq : q = g.scq
  · by_cases hzero : g.scq = 0
    · rw [hq, hzero, (h.shared hzero).1]
    · rw [hq, (h.own hzero).1]
      rfl
  · rw [h.other q hq]

theorem GrantGone.scdiOf (h : GrantGone s t g) (q : Nat) : t.scdiOf q = s.scdiOf q := by
  unfold NsTx.scdiOf
  rw [h.scd]

theorem GrantGone.kept (h : GrantGone s t g) (hq : ¬(q = g.scq ∧ g.scq ≠ 0)) :
    t.scqs q = s.scqs q := by
  by_cases hgq : q = g.scq
  · have hzero : g.scq = 0 := by
      by_contra hne
      exact hq ⟨hgq, hne⟩
    rw [hgq, hzero, (h.shared hzero).1]
  · exact h.other q hgq

/-- The grants that stay are as they were. -/
theorem GrantGone.grants (h : GrantGone s t g) (hgr : TxGrants vcc s) (hg : g ∈ s.vccs) :
    TxGrants vcc t := by
  have hold : ∀ g' ∈ t.vccs, g' ∈ s.vccs := fun g' hg' => ((h.mem hgr g').mp hg').2
  constructor
  · rw [h.vccs]
    exact hgr.nodup.sublist (List.erase_sublist.map _)
  · rw [h.made]
    exact hgr.some_made
  · intro g' hg'
    rw [h.vcmap]
    exact hgr.scq g' (hold g' hg')
  · intro g' hg'
    rw [h.made]
    exact hgr.made g' (hold g' hg')
  · exact fun g' hg' => hgr.closing g' (hold g' hg')
  · intro g' hg'
    rw [h.vcmap]
    exact hgr.scd g' (hold g' hg')
  · intro g' hg'
    rw [h.scd]
    exact hgr.request g' (hold g' hg')
  · intro g' hg' hne
    obtain ⟨hdiff, hmem⟩ := (h.mem hgr g').mp hg'
    rw [h.scd2vc, if_neg]
    · exact hgr.listed g' hmem hne
    · rintro ⟨hgne, heq⟩
      have hconn := hgr.listed g' hmem hne
      rw [heq, hgr.listed g hg hgne] at hconn
      exact hdiff (hgr.alone g' hmem g hg (Option.some.inj hconn).symm hne)
  · exact fun g' hg' => hgr.inTable g' (hold g' hg')
  · exact fun g₁ h₁ g₂ h₂ => hgr.alone g₁ (hold g₁ h₁) g₂ (hold g₂ h₂)
  · exact fun g₁ h₁ g₂ h₂ => hgr.owner g₁ (hold g₁ h₁) g₂ (hold g₂ h₂)
  · intro i c hc
    rw [h.scd2vc] at hc
    split at hc
    next => cases hc
    next hnot =>
      obtain ⟨g', hg', hconn, hne, hi⟩ := hgr.granted i c hc
      refine ⟨g', (h.mem hgr g').mpr ⟨?_, hg'⟩, hconn, hne, hi⟩
      rintro rfl
      exact hnot ⟨hne, hi.symm⟩

/-- No report of a queue that is freed is under way. -/
theorem GrantGone.unreported (h : GrantGone s t g) (hq : TxQueues vcc s tsis) (hg : g ∈ s.vccs)
    {x : NsTsi} (hx : x ∈ tsis) (htype : x.type = 0x20000000#32) (hne : g.scq ≠ 0) :
    nsTsiScdIndex x.word1 ≠ g.scd := by
  intro heq
  obtain ⟨held, hheld⟩ := hq.queue g.scq
  have hqueueOf : s.queueOf (nsTsiScdIndex x.word1) = some g.scq := by
    have hgrant := hq.grants.queueOf_grant hg
    rw [NsTx.scdiOf, if_neg hne, hq.grants.request g hg hne] at hgrant
    rw [heq]
    exact hgrant
  have hnone : held = [] := by
    rw [List.eq_nil_iff_forall_not_mem]
    intro p hp
    exact (h.own hne).2 p ((hheld.has_iff p).mpr (List.mem_append_left _ hp))
  obtain ⟨taken, reports, hring, hreports, -⟩ := hheld.ring
  have hin : nsTsiScqPos x.word1 ∈ tsis.filterMap (s.requestOf g.scq) :=
    List.mem_filterMap.mpr ⟨x, hx, if_pos ⟨htype, hqueueOf⟩⟩
  rw [hreports] at hin
  obtain ⟨r, hr, -⟩ := List.mem_map.mp hin
  obtain ⟨hlow, hdone⟩ := hring.reported r hr
  have hhigh := hring.takenHigh
  rw [hnone, List.length_nil] at hhigh
  omega

theorem GrantGone.queueOf (h : GrantGone s t g) (hq : TxQueues vcc s tsis) (hg : g ∈ s.vccs)
    {x : NsTsi} (hx : x ∈ tsis) (htype : x.type = 0x20000000#32) :
    t.queueOf (nsTsiScdIndex x.word1) = s.queueOf (nsTsiScdIndex x.word1) := by
  have hsame : t.scd2vc (nsTsiScdIndex x.word1) = s.scd2vc (nsTsiScdIndex x.word1) := by
    rw [h.scd2vc, if_neg fun hc => h.unreported hq hg hx htype hc.1 hc.2]
  unfold NsTx.queueOf
  rw [hsame, h.vcmap]

/-- The queue of the socket alone was empty, and `free_scq` finds nothing in it. -/
theorem GrantGone.queue_own (h : GrantGone s t g)
    (hreq : tsis.filterMap (t.requestOf g.scq) = tsis.filterMap (s.requestOf g.scq))
    (hheld : TxQueueHolds vcc s tsis g.scq held) (hne : g.scq ≠ 0) :
    TxQueueHolds vcc t tsis g.scq [] := by
  obtain ⟨hfree, hempty⟩ := h.own hne
  have hnone : held ++ (s.scqs g.scq).waiting = [] := by
    rw [List.eq_nil_iff_forall_not_mem]
    exact fun p hp => hempty p ((hheld.has_iff p).mpr hp)
  obtain ⟨rfl, hwaiting⟩ := List.append_eq_nil_iff.mp hnone
  obtain ⟨taken, reports, hring, hreports, hcomplete⟩ := hheld.ring
  obtain ⟨hring', hpopped, hwaiting'⟩ := freeScq_empty hring hwaiting
  refine ⟨⟨taken, reports, ?_, hreq.trans hreports, ?_⟩, ?_, ?_⟩
  · rw [h.scdiOf, hfree]
    exact hring'
  · rw [hfree, hpopped, h.lost]
    exact hcomplete
  · rw [hfree, hpopped, hwaiting']
    exact hheld.accepted
  · rw [hfree, hwaiting', hwaiting]
    exact fun p hp => absurd hp List.not_mem_nil

/-- What another queue holds belongs to sockets that stay. -/
theorem GrantGone.queue_kept (h : GrantGone s t g) (hgr : TxGrants vcc s) (hg : g ∈ s.vccs)
    (hreq : tsis.filterMap (t.requestOf q) = tsis.filterMap (s.requestOf q))
    (hheld : TxQueueHolds vcc s tsis q held) (hq : ¬(q = g.scq ∧ g.scq ≠ 0)) :
    TxQueueHolds vcc t tsis q held := by
  have hsame := h.kept hq
  have hothers : ∀ p ∈ held ++ (s.scqs q).waiting, p.vcc ≠ some g.vcc := by
    intro p hp hvcc
    obtain ⟨g', hg', hvcc', hgq⟩ := hheld.owned p hp
    have hsamevcc : g'.vcc = g.vcc := Option.some.inj (hvcc'.symm.trans hvcc)
    have heq : g' = g := List.inj_on_of_nodup_map hgr.nodup hg' hg hsamevcc
    rw [heq] at hgq
    have hzero : g.scq = 0 := by
      by_contra hne
      exact hq ⟨hgq.symm, hne⟩
    rw [hzero] at hgq
    refine (h.shared hzero).2 p ?_ hvcc
    rw [hgq]
    exact (hheld.has_iff p).mpr hp
  obtain ⟨taken, reports, hring, hreports, hcomplete⟩ := hheld.ring
  refine ⟨⟨taken, reports, ?_, hreq.trans hreports, ?_⟩, ?_, ?_⟩
  · rw [h.scdiOf, hsame]
    exact hring
  · rw [hsame, h.lost]
    exact hcomplete
  · rw [hsame]
    exact hheld.accepted
  · rw [hsame]
    intro p hp
    obtain ⟨g', hg', hvcc, hgq⟩ := hheld.owned p hp
    refine ⟨g', (h.mem hgr g').mpr ⟨?_, hg'⟩, hvcc, hgq⟩
    rintro rfl
    exact hothers p hp hvcc

theorem TxQueues.gone (h : TxQueues vcc s tsis) (hg : g ∈ s.vccs) (hgone : GrantGone s t g) :
    TxQueues vcc t tsis := by
  have hqueueOf : ∀ x ∈ tsis, x.type = 0x20000000#32 →
      t.queueOf (nsTsiScdIndex x.word1) = s.queueOf (nsTsiScdIndex x.word1) :=
    fun x hx htype => hgone.queueOf h hg hx htype
  have hreq := requests_congr hqueueOf
  refine ⟨hgone.grants h.grants hg, ?_, ?_⟩
  · intro q
    obtain ⟨held, hheld⟩ := h.queue q
    by_cases hq : q = g.scq ∧ g.scq ≠ 0
    · obtain ⟨rfl, hne⟩ := hq
      exact ⟨[], hgone.queue_own (hreq _) hheld hne⟩
    · exact ⟨held, hgone.queue_kept h.grants hg (hreq q) hheld hq⟩
  · intro x hx htype
    rw [hqueueOf x hx htype]
    exact h.known x hx htype

theorem nsCloseRound_spec (h : NsTxInv vcc s) (hdev : s.devData v = some g)
    (hclosing : g.closing = some q) (hok : TxClean vcc s (.closeRound v)) :
    NsTxInv vcc (nsCloseRound vcc s g q) := by
  obtain ⟨hg, rfl⟩ := devData_some hdev
  obtain ⟨tsis, hring, hq⟩ := h.books
  obtain rfl := hq.grants.closing g hg q hclosing
  obtain ⟨held, hheld⟩ := hq.queue g.scq
  obtain ⟨taken, reports, hscq, -, -⟩ := hheld.ring
  have hvc : (s.vcmap (vcc g.vcc).conn).scq = g.scq := hq.grants.scq g hg
  -- packets of the socket are in its own queue only
  have hforget : g.scq ≠ 0 ∨ (∀ p, (s.scqs 0).Has p → p.vcc ≠ some g.vcc) →
      (s.scqs 0).forget g.vcc = s.scqs 0 := by
    intro hcase
    refine forget_eq fun p hp hvcc => ?_
    rcases hcase with hne | hnone
    · obtain ⟨g', hg', hvcc', hzero⟩ := h.sound.packets 0 p hp
      have hsame : g' = g :=
        List.inj_on_of_nodup_map hq.grants.nodup hg' hg (Option.some.inj (hvcc'.symm.trans hvcc))
      rw [hsame] at hzero
      exact hne hzero
    · exact hnone p hp hvcc
  unfold nsCloseRound
  dsimp only
  rw [hvc]
  by_cases hwait : g.scq ≠ 0 ∧ scqBefore (s.scqs g.scq).next ≠ (s.scqs g.scq).tail
  · have htsr := scqBefore_isTsr hscq fun hnil => hwait.2 ((scqBefore_next hscq).mpr hnil)
    rw [if_pos hwait, if_neg]
    · exact h
    · rw [htsr]
      exact fun hc => Bool.noConfusion hc.1
  · rw [if_neg hwait]
    by_cases hzero : g.scq = 0
    · have hnone := hok g hdev (hzero ▸ hclosing)
      have hstay : ∀ u : NsTx, u = s → (if (vcc g.vcc).tx = true then
          u.setScq 0 ((u.scqs 0).forget g.vcc) else u) = s := by
        rintro u rfl
        rw [hforget (.inr hnone)]
        split
        · exact setScq_same u 0
        · rfl
      rw [if_neg (not_not.mpr hzero), hstay s rfl]
      refine ⟨⟨tsis, hring, hq.gone hg ⟨rfl, rfl, rfl, rfl, ?_, fun _ _ => rfl,
        fun _ => ⟨rfl, hnone⟩, fun hne => absurd hzero hne⟩⟩, h.settled⟩
      intro i
      rw [if_neg fun hc => hc.1 hzero]
    · have hheldNil : held = [] := by
        by_contra hne
        exact hwait ⟨hzero, fun heq => hne ((scqBefore_next hscq).mp heq)⟩
      have hwaiting : (s.scqs g.scq).waiting = [] := by
        by_contra hne
        have hcount := h.settled g.scq hne
        rw [hheld.accepted, hheldNil, List.append_nil, List.length_append] at hcount
        omega
      have hempty : ∀ p, ¬(s.scqs g.scq).Has p := by
        intro p hp
        have hin := (hheld.has_iff p).mp hp
        rw [hheldNil, hwaiting] at hin
        exact absurd hin List.not_mem_nil
      have hscd := hq.grants.scd g hg hzero
      have hstay : ∀ u : NsTx, u.scqs 0 = s.scqs 0 → (if (vcc g.vcc).tx = true then
          u.setScq 0 ((u.scqs 0).forget g.vcc) else u) = u := by
        intro u hu
        rw [hu, hforget (.inl hzero), ← hu]
        split
        · exact setScq_same u 0
        · rfl
      rw [if_pos hzero, hscd, hstay { s.setScq g.scq (freeScq (s.scqs g.scq)) with
        scd2vc := Function.update s.scd2vc g.scd none } (setScq_ne (Ne.symm hzero))]
      refine ⟨⟨tsis, hring, hq.gone hg ⟨rfl, rfl, rfl, rfl, ?_, fun _ hne => setScq_ne hne,
        fun hc => absurd hc hzero, fun _ => ⟨setScq_self s _ _, hempty⟩⟩⟩, ?_⟩
      · intro i
        show Function.update s.scd2vc g.scd none i = _
        by_cases hi : i = g.scd
        · rw [hi, Function.update_self, if_pos ⟨hzero, rfl⟩]
        · rw [Function.update_of_ne hi, if_neg fun hc => hi hc.2]
      · exact settled_setScq h.settled fun hne => absurd rfl hne

end

end DanubeBsp
