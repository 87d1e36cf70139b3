import DanubeBsp.NicstarRxRuns

namespace DanubeBsp

/-- The driver and the connection: what is pending for it, what the driver keeps, what its socket
was given since `start`, and the drops that were counted. -/
structure LineRx (c v : Nat) (a : NsRxVcc) (start : NsRxLog) (s : NsRx) (cur : Option NsLineBuf)
    (pending : List NsRsqe) (g : NsLineData) (got : List (List Byte)) (owed : Nat) : Prop where
  told : List.Forall₂ NsRsqe.Tells (pending.filter fun e => e.For a) g.reps
  cur_ok : ∀ b ∈ cur, b.handle ∈ s.taken ∧ b.Stored s
  stored : ∀ b ∈ g.live (s.drv.vcmap c).rxIov, b.Stored s
  kept : Kept (s.drv.vcmap c).rxIov g.held owed
  sdus : s.drv.log.sdus v = start.sdus v ++ got
  sub : got.Sublist (g.done.filterMap cellSdu)
  count : (g.done.filterMap cellSdu).length + owed + start.dropped v ≤
    got.length + s.drv.log.dropped v

/-- The state of a connection that was opened when the statistics were `start`. -/
def LineHolds (card : NsVcBits) (vcc : Nat → NsRxVcc) (v : Nat) (start : NsRxLog)
    (l : NsRxLine) : Prop :=
  ∃ pending g got owed, NsRxInv card.conns l.rx pending ∧ LineOpen card vcc v l.rx.drv ∧
    LineShape l.fresh l.cur l.cells g ∧
    LineRx ((vcc v).conn card) v (vcc v) start l.rx l.cur pending g got owed

/-- No interrupt of the receiver comes between the test and the stores of a push by a process or
between the stores of `ns_open`. -/
def LineAlone (l : NsRxLine) : NsLineEvent → Prop
  | .other e => StoresAlone l.rx e
  | _ => True

instance (l : NsRxLine) : (e : NsLineEvent) → Decidable (LineAlone l e)
  | .other _ => inferInstanceAs (Decidable (StoresAlone _ _))
  | .buffer => .isTrue trivial
  | .cell _ => .isTrue trivial
  | .report _ _ => .isTrue trivial

/-- The status queue holds a report for the address of the socket. -/
def NsRx.Reports (s : NsRx) (a : NsRxVcc) : Prop :=
  ∃ i ∈ List.range nsRsqNumEntries, (s.rsq i).Valid ∧ (s.rsq i).For a

instance (s : NsRx) (a : NsRxVcc) : Decidable (s.Reports a) :=
  inferInstanceAs (Decidable (∃ i ∈ List.range nsRsqNumEntries, _ ∧ _))

section Live

variable {conns c v : Nat} {a : NsRxVcc} {start : NsRxLog} {s t : NsRx}
  {cur cur' : Option NsLineBuf} {pending pending' : List NsRsqe} {g : NsLineData}
  {got : List (List Byte)} {owed : Nat} {x : Word}

theorem told_mem {es : List NsRsqe} {bs : List NsLineBuf}
    (h : List.Forall₂ NsRsqe.Tells es bs) : ∀ b ∈ bs, ∃ e ∈ es, e.Tells b := by
  induction h with
  | nil => exact fun b hb => absurd hb List.not_mem_nil
  | @cons e b es bs hfirst _ ih =>
    intro b' hb'
    rcases List.mem_cons.mp hb' with rfl | hb'
    · exact ⟨e, List.mem_cons_self, hfirst⟩
    · obtain ⟨e', he', htells⟩ := ih b' hb'
      exact ⟨e', List.mem_cons_of_mem e he', htells⟩

/-- The buffers that the driver will read are held or reported. -/
theorem live_held (hinv : NsRxInv conns s pending)
    (htold : List.Forall₂ NsRsqe.Tells (pending.filter fun e => e.For a) g.reps)
    (hkept : Kept (s.drv.vcmap c).rxIov g.held owed) :
    ∀ b ∈ g.live (s.drv.vcmap c).rxIov,
      b.handle ∈ s.drv.held conns ∨ b.handle ∈ pending.map NsRsqe.bufferHandle := by
  intro b hb
  rcases List.mem_append.mp hb with hb | hb
  · left
    cases hiov : (s.drv.vcmap c).rxIov with
    | none =>
      rw [hiov] at hb
      exact absurd hb List.not_mem_nil
    | some iov =>
      rw [hiov] at hb hkept
      refine (iov_mem_held hinv.drv hiov).2 b.iov ?_
      rw [hkept.2]
      exact List.mem_map_of_mem hb
  · right
    obtain ⟨e, he, htells⟩ := told_mem htold b hb
    rw [← htells.1]
    exact List.mem_map_of_mem (List.mem_of_mem_filter he)

/-- The buffers that the card has taken are not among them. -/
theorem live_not_taken (hinv : NsRxInv conns s pending)
    (h : LineRx c v a start s cur pending g got owed) (hx : x ∈ s.taken) :
    ∀ b ∈ g.live (s.drv.vcmap c).rxIov, b.handle ≠ x := by
  have hnodup := hinv.drv.books.nodup
  rw [hinv.drv.books.total] at hnodup
  obtain ⟨-, hout, -⟩ := Multiset.nodup_add.mp hnodup
  obtain ⟨-, hbeside, hheld⟩ := Multiset.nodup_add.mp hout
  obtain ⟨-, htaken, -⟩ := Multiset.nodup_add.mp hbeside
  obtain ⟨-, -, hpending⟩ := Multiset.nodup_add.mp htaken
  rintro b hb rfl
  rcases live_held hinv h.told h.kept b hb with hb | hb
  · exact Multiset.disjoint_left.mp hheld hb (Multiset.mem_add.mpr (.inr
      (Multiset.mem_add.mpr (.inl (Multiset.mem_coe.mpr hx)))))
  · exact Multiset.disjoint_left.mp hpending (Multiset.mem_coe.mpr hx) (Multiset.mem_coe.mpr hb)

/-- The buffers that the driver will read keep what is in them. -/
theorem live_stored (hinv : NsRxInv conns t pending')
    (hkeeps : NsRxKeeps conns s t pending')
    (htold : List.Forall₂ NsRsqe.Tells (pending'.filter fun e => e.For a) g.reps)
    (hkept : Kept (t.drv.vcmap c).rxIov g.held owed)
    (hstored : ∀ b ∈ g.live (t.drv.vcmap c).rxIov, b.Stored s ∧ t.mem b.handle = s.mem b.handle) :
    ∀ b ∈ g.live (t.drv.vcmap c).rxIov, b.Stored t := by
  intro b hb
  obtain ⟨hs, hmem⟩ := hstored b hb
  refine hs.keep hmem (hkeeps.size b.handle ?_)
  rcases live_held hinv htold hkept b hb with hb | hb
  · exact Multiset.mem_add.mpr (.inl hb)
  · exact Multiset.mem_add.mpr (.inr (Multiset.mem_add.mpr (.inr (Multiset.mem_coe.mpr hb))))

/-- The buffer that the card fills keeps what is in it. -/
theorem cur_stored {b : NsLineBuf} (hkeeps : NsRxKeeps conns s t pending') (hs : b.Stored s)
    (htaken : b.handle ∈ t.taken) (hmem : t.mem b.handle = s.mem b.handle) : b.Stored t :=
  hs.keep hmem (hkeeps.size b.handle (Multiset.mem_add.mpr (.inr (Multiset.mem_add.mpr
    (.inl (Multiset.mem_coe.mpr htaken))))))

/-- A step that does nothing for the connection. -/
theorem LineRx.frame (h : LineRx c v a start s cur pending g got owed)
    (hkeeps : NsRxKeeps conns s t pending')
    (hfilter : (pending'.filter fun e => e.For a) = pending.filter fun e => e.For a)
    (hvc : t.drv.vcmap c = s.drv.vcmap c)
    (hmem : ∀ b ∈ g.live (s.drv.vcmap c).rxIov, t.mem b.handle = s.mem b.handle)
    (hcur : ∀ b ∈ cur', b.handle ∈ t.taken ∧ b.Stored t)
    (hsdus : t.drv.log.sdus v = s.drv.log.sdus v)
    (hdropped : s.drv.log.dropped v ≤ t.drv.log.dropped v) :
    LineRx c v a start t cur' pending' g got owed := by
  have htold : List.Forall₂ NsRsqe.Tells (pending'.filter fun e => e.For a) g.reps := by
    rw [hfilter]
    exact h.told
  have hkept : Kept (t.drv.vcmap c).rxIov g.held owed := by
    rw [hvc]
    exact h.kept
  refine ⟨htold, hcur, ?_, hkept, hsdus.trans h.sdus, h.sub, Nat.le_trans h.count ?_⟩
  · refine live_stored hkeeps.inv hkeeps htold hkept ?_
    intro b hb
    rw [hvc] at hb
    exact ⟨h.stored b hb, hmem b hb⟩
  · omega

/-- What the driver does with the buffer of the first report. -/
theorem LineRx.outcome {e : NsRsqe} {rest : List NsRsqe} {fresh : Bool} {cells : List NsCell}
    {done : List (List NsCell)} {held reps : List NsLineBuf} {b : NsLineBuf} {bufs : NsRxBufs}
    (hinv : NsRxInv conns s (e :: rest))
    (hshape : LineShape fresh cur cells ⟨done, held, b :: reps⟩)
    (hrx : LineRx c v a start s cur (e :: rest) ⟨done, held, b :: reps⟩ got owed)
    (hc : c < conns) (htells : e.Tells b) (hread : SameRxbufs s.drv.bufs bufs) (log : NsRxLog) :
    BufOutcome v (s.drv.vcmap c).rxIov held owed b log
      (dequeueAal5 s.mem v e (s.drv.vcmap c).rxIov bufs log) := by
  have hshapes : ∀ y ∈ held ++ [b], y.Shape := by
    intro y hy
    refine hshape.shape y ?_
    rw [List.append_cons]
    exact List.mem_append_left _ hy
  have hchain : Chained true (held ++ [b]) := by
    have hall := hshape.chain
    rw [List.append_cons, chained_append] at hall
    exact hall.1
  have hbooks := hinv.drv.books
  rw [held_split hc, List.map_cons, ← Multiset.cons_coe, Multiset.add_cons, Multiset.add_cons,
    Multiset.add_cons, add_assoc] at hbooks
  have hb : b.Stored s := hrx.stored b (List.mem_append_right _ List.mem_cons_self)
  have hqueue : b.handle ∈ (bufs.pool (nsBufType b.fresh)).queue := by
    rw [(hread _).1]
    exact hb.queue
  have hok : ∀ iov, (s.drv.vcmap c).rxIov = some iov → IovOk bufs iov := by
    intro iov hiov
    exact (hinv.drv.ok _ iov hiov).step (hinv.drv.books.step_same hread) fun x hx =>
      Multiset.mem_add.mpr (.inl ((iov_mem_held hinv.drv hiov).2 x hx))
  have hbytes : held = [] ∨ (s.drv.vcmap c).rxIov.isSome = true →
      iovBytes s.mem ((held ++ [b]).map NsLineBuf.iov) = cellBytes (bufCells (held ++ [b])) := by
    intro hkeep
    refine iovBytes_stored ?_
    intro y hy
    rcases List.mem_append.mp hy with hy | hy
    · rcases hkeep with hnil | hsome
      · rw [hnil] at hy
        exact absurd hy List.not_mem_nil
      · refine hrx.stored y (List.mem_append_left _ ?_)
        rw [if_pos hsome]
        exact hy
    · rw [List.mem_singleton.mp hy]
      exact hb
  exact dequeueAal5_line (hbooks.same hread) hok htells hshapes hchain hshape.opened hqueue hbytes
    hrx.kept

end Live

section Steps

variable {card : NsVcBits} {vcc : Nat → NsRxVcc} {v : Nat} {start : NsRxLog} {l : NsRxLine}
  {t : NsRx} {pending : List NsRsqe} {g : NsLineData} {got : List (List Byte)} {owed : Nat}

/-- A step that is not about the connection and sees no report. -/
theorem LineHolds.quiet {e : NsRxEvent} (halone : StoresAlone l.rx e) (hinv : NsRxInv card.conns l.rx pending)
    (hopen : LineOpen card vcc v l.rx.drv)
    (hshape : LineShape l.fresh l.cur l.cells g)
    (hrx : LineRx ((vcc v).conn card) v (vcc v) start l.rx l.cur pending g got owed)
    (hstep : nsRxStep card vcc l.rx e = some t)
    (hfilter : ((pendingAfter pending e).filter fun e => e.For (vcc v)) =
      pending.filter fun e => e.For (vcc v))
    (hvc : t.drv.vcmap ((vcc v).conn card) = l.rx.drv.vcmap ((vcc v).conn card))
    (hmem : ∀ x, x ∉ l.rx.taken ∨ x ∈ l.cur.map NsLineBuf.handle → t.mem x = l.rx.mem x)
    (htaken : ∀ x ∈ l.rx.taken, x ∈ l.cur.map NsLineBuf.handle → x ∈ t.taken)
    (hlog : t.drv.log = l.rx.drv.log) :
    LineHolds card vcc v start { l with rx := t } := by
  have hkeeps := hinv.step halone hstep
  have hopened : (t.drv.vcmap ((vcc v).conn card)).vcc = some v := by
    rw [hvc]
    exact hopen.opened
  refine ⟨_, g, got, owed, hkeeps.inv, ⟨hopened, hopen.placed.step hstep⟩, hshape, ?_⟩
  refine hrx.frame hkeeps hfilter hvc ?_ ?_ (by rw [hlog]) (by rw [hlog])
  · intro b hb
    exact hmem b.handle (.inl fun hx => live_not_taken hinv hrx hx b hb rfl)
  · intro b hb
    obtain ⟨hin, hs⟩ := hrx.cur_ok b hb
    have hhandle : b.handle ∈ l.cur.map NsLineBuf.handle := Option.mem_map_of_mem _ hb
    have ht := htaken b.handle hin hhandle
    exact ⟨ht, cur_stored hkeeps hs ht (hmem b.handle (.inr hhandle))⟩

/-- A step that changes no connection and none of the buffers that the card has. -/
theorem LineHolds.unmoved {e : NsRxEvent} (h : LineHolds card vcc v start l)
    (halone : StoresAlone l.rx e) (hstep : nsRxStep card vcc l.rx e = some t)
    (hpending : ∀ pending, pendingAfter pending e = pending) (hunmoved : l.rx.Unmoved t) :
    LineHolds card vcc v start { l with rx := t } := by
  obtain ⟨pending, g, got, owed, hinv, hopen, hshape, hrx⟩ := h
  refine LineHolds.quiet halone hinv hopen hshape hrx hstep ?_ ?_ ?_ ?_ hunmoved.log
  · rw [hpending]
  · rw [hunmoved.vcmap]
  · exact fun _ _ => by rw [hunmoved.mem]
  · intro x hx _
    rw [hunmoved.taken]
    exact hx

theorem filterMap_concat {α β : Type*} (f : α → Option β) (xs : List α) (x : α) :
    (xs ++ [x]).filterMap f = xs.filterMap f ++ (f x).toList := by
  rw [List.filterMap_append]
  cases hx : f x with
  | none => rw [List.filterMap_cons_none hx, List.filterMap_nil, Option.toList_none]
  | some y => rw [List.filterMap_cons_some hx, List.filterMap_nil, Option.toList_some]

/-- An entry of the connection: the driver adds its buffer to the PDU. -/
theorem LineHolds.entry {e : NsRsqe} {rest : List NsRsqe}
    (hinv : NsRxInv card.conns l.rx (e :: rest)) (hopen : LineOpen card vcc v l.rx.drv)
    (hshape : LineShape l.fresh l.cur l.cells g)
    (hrx : LineRx ((vcc v).conn card) v (vcc v) start l.rx l.cur (e :: rest) g got owed)
    (haal : (vcc v).aal = .aal5) (hcheck : nsCheckVc card (vcc v).vpi (vcc v).vci = true)
    (hzero : ¬((vcc v).vpi = 0 ∧ (vcc v).vci = 0)) (hfor : e.For (vcc v))
    (hkeeps : NsRxKeeps card.conns l.rx t rest) (d : NsRxDrv)
    (hsame : SameRxbufs l.rx.drv.bufs d.bufs) (hvcmap : d.vcmap = l.rx.drv.vcmap)
    (hpushed : d.log.pushed = l.rx.drv.log.pushed)
    (hdropped : d.log.dropped v = l.rx.drv.log.dropped v)
    (hdrv : t.drv = dequeueRx card vcc l.rx.mem d e) (hmem : t.mem = l.rx.mem)
    (htaken : t.taken = l.rx.taken) :
    LineHolds card vcc v start { l with rx := t } := by
  obtain ⟨done, held, reps⟩ := g
  have hconn : (vcc v).conn card < card.conns := nsFindConn_lt card (vcc v).vpi (vcc v).vci
  have hopenD : LineOpen card vcc v d := hopen.congr fun c => by rw [hvcmap]
  have hopenT : LineOpen card vcc v t.drv := hopenD.congr fun c => by rw [hdrv, dequeueRx_vcc]
  obtain ⟨hr, hlog⟩ := @dequeueRx_for card vcc v d e l.rx.mem hopenD haal hcheck hzero hfor
  rw [← hdrv] at hr hlog
  rw [hvcmap] at hr hlog
  -- the report is that of the first buffer
  have htold := hrx.told
  rw [List.filter_cons_of_pos (by simpa using hfor)] at htold
  cases htold with
  | @cons _ b _ reps htells hrest =>
    have hout := LineRx.outcome hinv hshape hrx hconn htells
      (hsame.trans (sameRxbufs_readFbqcs d.bufs)) d.log
    have hstored := hrx.stored
    have hb : b.Stored l.rx := hstored b (List.mem_append_right _ List.mem_cons_self)
    generalize dequeueAal5 l.rx.mem v e (l.rx.drv.vcmap ((vcc v).conn card)).rxIov
      d.bufs.readFbqcs d.log = r at hr hlog hout
    have hcur : ∀ y ∈ l.cur, y.handle ∈ t.taken ∧ y.Stored t := by
      intro y hy
      obtain ⟨hin, hs⟩ := hrx.cur_ok y hy
      rw [← htaken] at hin
      exact ⟨hin, cur_stored hkeeps hs hin (by rw [hmem])⟩
    have hsdus := hrx.sdus
    have hcounted := hrx.count
    rw [← hdropped] at hcounted
    rw [← @sdus_congr _ _ v hpushed] at hsdus
    cases hends : endsPdu b.cells with
    | true =>
      obtain ⟨hnone, new, hnew, hsub, hcount⟩ := hout.last hends
      have hkept : Kept (t.drv.vcmap ((vcc v).conn card)).rxIov [] 0 := by
        rw [hr, hnone]
        exact fun h => absurd rfl h
      refine ⟨rest, ⟨done ++ [bufCells (held ++ [b])], [], reps⟩, got ++ new, 0, hkeeps.inv, hopenT,
        hshape.ended hends, hrest, hcur, ?_, hkept, ?_, ?_, ?_⟩
      · refine live_stored hkeeps.inv hkeeps hrest hkept ?_
        intro y hy
        rw [hr, hnone] at hy
        exact ⟨hstored y (List.mem_append_right _ (List.mem_cons_of_mem b hy)), by rw [hmem]⟩
      · rw [hlog, hnew, hsdus, List.append_assoc]
      · rw [filterMap_concat]
        exact hrx.sub.append hsub
      · rw [filterMap_concat, List.length_append, List.length_append, hlog]
        dsimp only at hcounted
        omega
    | false =>
      obtain ⟨hsame', hkeep, owed', hcount, hkept⟩ := hout.more hends
      rw [← hr] at hkeep hkept
      refine ⟨rest, ⟨done, held ++ [b], reps⟩, got, owed', hkeeps.inv, hopenT, hshape.kept hends,
        hrest, hcur, ?_, hkept, ?_, hrx.sub, ?_⟩
      · refine live_stored hkeeps.inv hkeeps hrest hkept ?_
        intro y hy
        refine ⟨?_, by rw [hmem]⟩
        rcases List.mem_append.mp hy with hy | hy
        · split at hy
          next hsome =>
            rcases List.mem_append.mp hy with hy | hy
            · rcases hkeep hsome with hnil | hbefore
              · rw [hnil] at hy
                exact absurd hy List.not_mem_nil
              · refine hstored y (List.mem_append_left _ ?_)
                rw [if_pos hbefore]
                exact hy
            · rw [List.mem_singleton.mp hy]
              exact hb
          next => exact absurd hy List.not_mem_nil
        · exact hstored y (List.mem_append_right _ (List.mem_cons_of_mem b hy))
      · rw [hlog, hsame', hsdus]
      · rw [hlog]
        dsimp only at hcounted ⊢
        omega

/-- A round of `process_rsq`. -/
theorem LineHolds.round (hinv : NsRxInv card.conns l.rx pending)
    (hopen : LineOpen card vcc v l.rx.drv) (hshape : LineShape l.fresh l.cur l.cells g)
    (hrx : LineRx ((vcc v).conn card) v (vcc v) start l.rx l.cur pending g got owed)
    (haal : (vcc v).aal = .aal5) (hcheck : nsCheckVc card (vcc v).vpi (vcc v).vci = true)
    (hzero : ¬((vcc v).vpi = 0 ∧ (vcc v).vci = 0)) {allocs : List (Option Word)}
    {charges : List Bool} (halone : StoresAlone l.rx (.round allocs charges))
    (hstep : nsRxStep card vcc l.rx (.round allocs charges) = some t) :
    LineHolds card vcc v start { l with rx := t } := by
  have hkeeps := hinv.step halone hstep
  unfold nsRxStep processRsqRound at hstep
  dsimp only at hstep
  split at hstep
  next hvalid =>
    cases pending with
    | nil => exact absurd hvalid (hinv.ring.vacant_rd.mpr rfl)
    | cons e rest =>
      rw [hinv.ring.head] at hstep
      cases Option.some.inj hstep
      let d : NsRxDrv := { l.rx.drv with
        bufs := { l.rx.drv.bufs with allocs := allocs }
        log := { l.rx.drv.log with charges := charges } }
      by_cases hfor : e.For (vcc v)
      · exact LineHolds.entry hinv hopen hshape hrx haal hcheck hzero hfor hkeeps d
          (setAllocs_same l.rx.drv.bufs allocs) rfl rfl rfl rfl rfl rfl
      · have hopenD : LineOpen card vcc v d := hopen.congr fun _ => rfl
        obtain ⟨hvc, hsdus, hdropped⟩ :=
          @dequeueRx_apart card vcc v _ e l.rx.mem hopenD hcheck hfor
        refine ⟨rest, g, got, owed, hkeeps.inv, hopenD.congr fun c => dequeueRx_vcc _ _ _ c, hshape,
          hrx.frame hkeeps ?_ hvc (fun _ _ => rfl) ?_ hsdus hdropped⟩
        · show _ = (e :: rest).filter fun e => e.For (vcc v)
          rw [List.filter_cons_of_neg (by simpa using hfor)]
        · intro b hb
          obtain ⟨hin, hs⟩ := hrx.cur_ok b hb
          exact ⟨hin, cur_stored hkeeps hs hin rfl⟩
  next => cases hstep

theorem apart_cur {x : Word} (hapart : (l.cur.all fun b => x != b.handle) = true)
    (hcur : x ∈ l.cur.map NsLineBuf.handle) : False := by
  obtain ⟨b, hb, rfl⟩ := Option.mem_map.mp hcur
  rw [Option.mem_def.mp hb] at hapart
  exact bne_iff_ne.mp hapart rfl

/-- Anything that is not about the connection. -/
theorem LineHolds.other (h : LineHolds card vcc v start l) (haal : (vcc v).aal = .aal5)
    (hcheck : nsCheckVc card (vcc v).vpi (vcc v).vci = true)
    (hzero : ¬((vcc v).vpi = 0 ∧ (vcc v).vci = 0)) {e : NsRxEvent}
    (halone : StoresAlone l.rx e) (hapart : l.apart vcc v e = true)
    (hstep : nsRxStep card vcc l.rx e = some t) :
    LineHolds card vcc v start { l with rx := t } := by
  have hline := h
  obtain ⟨pending, g, got, owed, hinv, hopen, hshape, hrx⟩ := h
  cases e with
  | opened w =>
    have hquiet := @LineHolds.quiet _ _ _ _ _ _ _ _ _ _ _ halone hinv hopen hshape hrx hstep rfl
    obtain ⟨-, ht⟩ := Option.ite_none_right_eq_some.mp hstep
    cases Option.some.inj ht
    obtain ⟨hvc, hlog⟩ := nsOpenRx_apart hopen w
    exact hquiet hvc (fun _ _ => rfl) (fun _ hx _ => hx) hlog
  | closed w =>
    have hquiet := @LineHolds.quiet _ _ _ _ _ _ _ _ _ _ _ halone hinv hopen hshape hrx hstep rfl
    obtain ⟨hw, ht⟩ := Option.ite_none_right_eq_some.mp hstep
    cases Option.some.inj ht
    obtain ⟨hvc, hlog⟩ := nsCloseRx_apart hopen (bne_iff_ne.mp hapart) hw.2
    exact hquiet hvc (fun _ _ => rfl) (fun _ hx _ => hx) hlog
  | round allocs charges =>
    exact LineHolds.round hinv hopen hshape hrx haal hcheck hzero halone hstep
  | attention y allocs =>
    have hunmoved := @LineHolds.unmoved _ _ _ _ _ _ _ hline halone hstep fun _ => rfl
    cases Option.some.inj hstep
    exact hunmoved ⟨rfl, rfl, rfl, rfl⟩
  | setLevel y nr =>
    have hunmoved := @LineHolds.unmoved _ _ _ _ _ _ _ hline halone hstep fun _ => rfl
    obtain ⟨-, ht⟩ := Option.ite_none_right_eq_some.mp hstep
    cases Option.some.inj ht
    exact hunmoved (setLevel_unmoved l.rx y nr)
  | adjust y =>
    have hunmoved := @LineHolds.unmoved _ _ _ _ _ _ _ hline halone hstep fun _ => rfl
    obtain ⟨-, ht⟩ := Option.ite_none_right_eq_some.mp hstep
    cases Option.some.inj ht
    exact hunmoved (adjustTest_unmoved l.rx y)
  | filled y alloc =>
    have hunmoved := @LineHolds.unmoved _ _ _ _ _ _ _ hline halone hstep fun _ => rfl
    obtain ⟨-, ht⟩ := Option.ite_none_right_eq_some.mp hstep
    cases Option.some.inj ht
    exact hunmoved (adjustFilled_unmoved l.rx y alloc)
  | process => exact hline.unmoved halone hstep (fun _ => rfl) (nsProcess_unmoved hinv.task hstep)
  | take y =>
    have hquiet := @LineHolds.quiet _ _ _ _ _ _ _ _ _ _ _ halone hinv hopen hshape hrx hstep rfl
    unfold nsRxStep at hstep
    dsimp only at hstep
    split at hstep
    next => cases hstep
    next x rest hfbq =>
      cases Option.some.inj hstep
      exact hquiet rfl (fun _ _ => rfl)
        (fun _ hx _ => List.mem_cons_of_mem x hx) rfl
  | write x data =>
    have hquiet := @LineHolds.quiet _ _ _ _ _ _ _ _ _ _ _ halone hinv hopen hshape hrx hstep rfl
    unfold nsRxStep at hstep
    dsimp only at hstep
    split at hstep
    next hx =>
      cases Option.some.inj hstep
      refine hquiet rfl ?_ (fun _ hx _ => hx) rfl
      intro z hz
      refine Function.update_of_ne ?_ _ _
      rintro rfl
      rcases hz with hz | hz
      · exact hz hx
      · exact apart_cur hapart hz
    next => cases hstep
  | report x word1 word4 =>
    obtain ⟨hcur, hfor⟩ := Bool.and_eq_true_iff.mp hapart
    have hsame : ¬NsRsqe.For ⟨word1, x, word4⟩ (vcc v) := by
      simpa using hfor
    have hno : ¬NsRsqe.For ⟨word1, x, word4 ||| 0x80000000#32⟩ (vcc v) := hsame
    have hfilter : ((pendingAfter pending (.report x word1 word4)).filter
        fun e => e.For (vcc v)) = pending.filter fun e => e.For (vcc v) := by
      rw [pendingAfter, List.filter_append, List.filter_cons_of_neg (by simpa using hno),
        List.filter_nil, List.append_nil]
    have hquiet := @LineHolds.quiet _ _ _ _ _ _ _ _ _ _ _ halone hinv hopen hshape hrx hstep hfilter
    unfold nsRxStep at hstep
    dsimp only at hstep
    split at hstep
    next hreport =>
      cases Option.some.inj hstep
      refine hquiet rfl (fun _ _ => rfl) ?_ rfl
      intro z hz hzcur
      refine (List.mem_erase_of_ne ?_).mpr hz
      rintro rfl
      exact apart_cur hcur hzcur
    next => cases hstep

/-- The card takes a buffer for the connection. -/
theorem LineHolds.buffer (h : LineHolds card vcc v start l) {l' : NsRxLine}
    (hstep : nsLineStep card vcc v l .buffer = some l') : LineHolds card vcc v start l' := by
  obtain ⟨pending, g, got, owed, hinv, hopen, hshape, hrx⟩ := h
  unfold nsLineStep at hstep
  dsimp only at hstep
  split at hstep
  next => cases hstep
  next hnone =>
    obtain ⟨s, hs, rfl⟩ := Option.map_eq_some_iff.mp hstep
    have hkeeps := @NsRxInv.step _ _ _ _ _ hinv (.take _) trivial hs
    have hplaced := hopen.placed.step hs
    rw [hnone] at hshape
    unfold nsRxStep at hs
    dsimp only at hs
    split at hs
    next => cases hs
    next x rest hfbq =>
      cases Option.some.inj hs
      have hidle : x ∈ (l.rx.drv.bufs.pool (nsBufType l.fresh)).idle := by
        rw [NsRxPool.idle, hfbq]
        exact List.mem_append_left _ List.mem_cons_self
      have hqueue := hinv.drv.books.idle _ x hidle
      refine ⟨_, g, got, owed, hkeeps.inv, ⟨hopen.opened, hplaced⟩, hshape.buffer x,
        hrx.frame hkeeps rfl rfl (fun _ _ => rfl) ?_ rfl (Nat.le_refl _)⟩
      intro b hb
      cases Option.some.inj hb
      have hin : x ∈ x :: l.rx.taken := List.mem_cons_self
      exact ⟨hin, cur_stored hkeeps ⟨hqueue, rfl⟩ hin rfl⟩

theorem memBytes_self (xs : List Byte) : memBytes (fun i => xs.getD i 0) xs.length = xs := by
  refine List.ext_getElem (memBytes_length _ _) ?_
  intro i hi hi'
  simp [memBytes, hi']

/-- A cell is added to those in a buffer. -/
theorem writeCell_bytes {mem : Nat → Byte} {pos : Nat} {x : NsCell} :
    memBytes (writeCell mem pos x) (pos + 48) = memBytes mem pos ++ x.payload := by
  rw [memBytes_add]
  congr 1
  · refine memBytes_congr ?_
    intro k hk
    exact if_neg fun h => absurd h.1 (Nat.not_le_of_lt hk)
  · have hpayload := memBytes_self x.payload
    rw [x.full] at hpayload
    refine (memBytes_congr ?_).trans hpayload
    intro k hk
    unfold writeCell
    rw [if_pos ⟨Nat.le_add_right pos k, Nat.add_lt_add_left hk pos⟩, Nat.add_sub_cancel_left]

/-- The card receives a cell of the connection. -/
theorem LineHolds.cell (h : LineHolds card vcc v start l) {x : NsCell} {l' : NsRxLine}
    (hstep : nsLineStep card vcc v l (.cell x) = some l') : LineHolds card vcc v start l' := by
  obtain ⟨pending, g, got, owed, hinv, hopen, hshape, hrx⟩ := h
  unfold nsLineStep at hstep
  dsimp only at hstep
  split at hstep
  next => cases hstep
  next b hcur =>
    split at hstep
    next => cases hstep
    next hroom =>
      obtain ⟨s, hs, rfl⟩ := Option.map_eq_some_iff.mp hstep
      have hkeeps := @NsRxInv.step _ _ _ _ _ hinv (.write _ _) trivial hs
      rw [hcur] at hshape
      obtain ⟨hin, hstored⟩ := hrx.cur_ok b hcur
      unfold nsRxStep at hs
      dsimp only at hs
      split at hs
      next =>
        cases Option.some.inj hs
        refine ⟨pending, g, got, owed, hkeeps.inv, ⟨hopen.opened, hopen.placed⟩,
          hshape.cell (Bool.eq_false_of_not_eq_true hroom) x,
          hrx.frame hkeeps rfl rfl ?_ ?_ rfl (Nat.le_refl _)⟩
        · intro y hy
          exact Function.update_of_ne (live_not_taken hinv hrx hin y hy) _ _
        · intro y hy
          cases Option.some.inj hy
          refine ⟨hin, hstored.queue, ?_⟩
          dsimp only
          rw [Function.update_self, List.length_append, List.length_singleton, Nat.add_mul,
            Nat.one_mul, writeCell_bytes, hstored.bytes, cellBytes_append]
          exact congrArg (cellBytes b.cells ++ ·) (List.append_nil _).symm
      next => cases hs

/-- The card reports a buffer of the connection. -/
theorem LineHolds.report (h : LineHolds card vcc v start l) {word1 word4 : Word} {l' : NsRxLine}
    (hstep : nsLineStep card vcc v l (.report word1 word4) = some l') :
    LineHolds card vcc v start l' := by
  obtain ⟨pending, g, got, owed, hinv, hopen, hshape, hrx⟩ := h
  unfold nsLineStep at hstep
  dsimp only at hstep
  split at hstep
  next => cases hstep
  next b hcur =>
    split at hstep
    next hreport =>
      obtain ⟨hcomplete, hfor, htells⟩ := hreport
      obtain ⟨s, hs, rfl⟩ := Option.map_eq_some_iff.mp hstep
      have hkeeps := @NsRxInv.step _ _ _ _ _ hinv (.report _ _ _) trivial hs
      have hplaced := hopen.placed.step hs
      rw [hcur] at hshape
      obtain ⟨hin, hstored⟩ := hrx.cur_ok b hcur
      have htold : List.Forall₂ NsRsqe.Tells
          ((pendingAfter pending (.report b.handle word1 word4)).filter fun e => e.For (vcc v))
          (g.reps ++ [b]) := by
        rw [pendingAfter, List.filter_append, List.filter_cons_of_pos (by simpa using hfor),
          List.filter_nil]
        exact List.rel_append hrx.told (.cons htells .nil)
      unfold nsRxStep at hs
      dsimp only at hs
      split at hs
      next =>
        cases Option.some.inj hs
        refine ⟨_, { g with reps := g.reps ++ [b] }, got, owed, hkeeps.inv,
          ⟨hopen.opened, hplaced⟩, hshape.report hcomplete, htold, (fun y hy => by cases hy), ?_,
          hrx.kept, hrx.sdus, hrx.sub, hrx.count⟩
        refine live_stored hkeeps.inv hkeeps htold hrx.kept ?_
        intro y hy
        refine ⟨?_, rfl⟩
        rcases List.mem_append.mp hy with hy | hy
        · exact hrx.stored y (List.mem_append_left _ hy)
        · rcases List.mem_append.mp hy with hy | hy
          · exact hrx.stored y (List.mem_append_right _ hy)
          · rw [List.mem_singleton.mp hy]
            exact hstored
      next => cases hs
    next => cases hstep

/-- Every step keeps the cells of the connection at their places. -/
theorem LineHolds.step (haal : (vcc v).aal = .aal5)
    (hcheck : nsCheckVc card (vcc v).vpi (vcc v).vci = true)
    (hzero : ¬((vcc v).vpi = 0 ∧ (vcc v).vci = 0)) {l l' : NsRxLine} {e : NsLineEvent}
    (h : LineHolds card vcc v start l) (halone : LineAlone l e)
    (hstep : nsLineStep card vcc v l e = some l') : LineHolds card vcc v start l' := by
  cases e with
  | other e =>
    unfold nsLineStep at hstep
    dsimp only at hstep
    split at hstep
    next hapart =>
      obtain ⟨s, hs, rfl⟩ := Option.map_eq_some_iff.mp hstep
      exact h.other haal hcheck hzero halone hapart hs
    next => cases hstep
  | buffer => exact h.buffer hstep
  | cell x => exact h.cell hstep
  | report word1 word4 => exact h.report hstep

/-- The history of the drops agrees with `rx_drop` after every step. -/
theorem NsRxLog.DropsTold.line {l l' : NsRxLine} {e : NsLineEvent} (h : l.rx.drv.log.DropsTold)
    (hstep : nsLineStep card vcc v l e = some l') : l'.rx.drv.log.DropsTold := by
  cases e with
  | other e =>
    obtain ⟨-, hmap⟩ := Option.ite_none_right_eq_some.mp hstep
    obtain ⟨s, hs, rfl⟩ := Option.map_eq_some_iff.mp hmap
    exact h.step hs
  | buffer =>
    unfold nsLineStep at hstep
    dsimp only at hstep
    split at hstep
    · cases hstep
    · obtain ⟨s, hs, rfl⟩ := Option.map_eq_some_iff.mp hstep
      exact h.step hs
  | cell x =>
    unfold nsLineStep at hstep
    dsimp only at hstep
    split at hstep
    · cases hstep
    · split at hstep
      · cases hstep
      · obtain ⟨s, hs, rfl⟩ := Option.map_eq_some_iff.mp hstep
        exact h.step hs
  | report word1 word4 =>
    unfold nsLineStep at hstep
    dsimp only at hstep
    split at hstep
    · cases hstep
    · split at hstep
      · obtain ⟨s, hs, rfl⟩ := Option.map_eq_some_iff.mp hstep
        exact h.step hs
      · cases hstep

/-- A connection that has just been opened. -/
theorem LineHolds.init {s : NsRx} (hinv : NsRxInv card.conns s pending)
    (hplaced : SocketsPlaced card vcc s.drv)
    (hvcc : (s.drv.vcmap ((vcc v).conn card)).vcc = some v)
    (hiov : (s.drv.vcmap ((vcc v).conn card)).rxIov = none)
    (hstale : (pending.filter fun e => e.For (vcc v)) = []) :
    LineHolds card vcc v s.drv.log ⟨s, true, none, []⟩ := by
  refine ⟨pending, ⟨[], [], []⟩, [], 0, hinv, ⟨hvcc, hplaced⟩, ?_, ?_⟩
  · constructor
    · rfl
    · exact fun c hc => absurd hc List.not_mem_nil
    · trivial
    · rfl
    · exact fun b hb => absurd hb List.not_mem_nil
    · exact fun b hb => absurd hb List.not_mem_nil
    · exact fun b hb => by cases hb
    · exact fun b hb => by cases hb
  · constructor
    · rw [hstale]
      exact .nil
    · exact fun b hb => by cases hb
    · intro b hb
      rw [hiov] at hb
      exact absurd hb List.not_mem_nil
    · rw [hiov]
      exact fun hne => absurd rfl hne
    · exact (List.append_nil _).symm
    · exact List.nil_sublist _
    · exact Nat.le_of_eq (by simp)

theorem NsRxInv.no_report {s : NsRx} {a : NsRxVcc} (h : NsRxInv card.conns s pending)
    (hno : ¬s.Reports a) : (pending.filter fun e => e.For a) = [] := by
  refine List.filter_eq_nil_iff.mpr ?_
  intro e he hfor
  obtain ⟨i, hi, rfl⟩ := List.mem_map.mp (h.ring.occupied_perm.mem_iff.mpr he)
  obtain ⟨hrange, hvalid⟩ := List.mem_filter.mp hi
  exact hno ⟨i, hrange, not_not.mp (of_decide_eq_true hvalid), of_decide_eq_true hfor⟩

/-- From the opening of a connection of AAL5 on, whatever the other connections, the interrupts and
the levels of the buffers do and whichever `alloc_skb` and `atm_charge` fail, the socket is given
SDUs that arrived intact, in their order and each at most once. When the card has reported all
buffers of the connection and the driver has seen the reports, each intact SDU that is missing was
counted as a drop for this socket. No interrupt of the receiver may come between the test and the
stores of a push by a process or between the stores of `ns_open`. -/
theorem nsRx_delivers (card : NsVcBits) (vcc : Nat → NsRxVcc) (v : Nat)
    (haal : (vcc v).aal = .aal5) (hcheck : nsCheckVc card (vcc v).vpi (vcc v).vci = true)
    (hzero : ¬((vcc v).vpi = 0 ∧ (vcc v).vci = 0)) (large small : List (Option Word))
    (hb iov : Nat) (mem : Word → Nat → Byte) {es : List NsRxEvent} {fs : List NsLineEvent}
    {s : NsRx} {l : NsRxLine}
    (halone : RunMeets (nsRxStep card vcc) StoresAlone (nsRxInit large small hb iov mem) es)
    (hrun : run (nsRxStep card vcc) (nsRxInit large small hb iov mem) es = some s)
    (hvcc : (s.drv.vcmap ((vcc v).conn card)).vcc = some v)
    (hiov : (s.drv.vcmap ((vcc v).conn card)).rxIov = none) (hstale : ¬s.Reports (vcc v))
    (hlineAlone : RunMeets (nsLineStep card vcc v) LineAlone ⟨s, true, none, []⟩ fs)
    (hline : run (nsLineStep card vcc v) ⟨s, true, none, []⟩ fs = some l) :
    l.rx.drv.log.DropsTold ∧
      ∃ got, l.rx.drv.log.sdus v = s.drv.log.sdus v ++ got ∧ got.Sublist (intactSdus l.cells) ∧
        (l.cur = none → ¬l.rx.Reports (vcc v) →
          (intactSdus l.cells).length + s.drv.log.dropped v ≤
            got.length + l.rx.drv.log.dropped v) := by
  obtain ⟨pending, hinv⟩ := (nsRxInit_inv card.conns large small hb iov mem).run halone hrun
  have hplaced : SocketsPlaced card vcc s.drv :=
    @run_invariant _ _ (nsRxStep card vcc) (fun s => SocketsPlaced card vcc s.drv)
      SocketsPlaced.step _ _ _ (fun c w h => by cases h) hrun
  have htold : s.drv.log.DropsTold :=
    @run_invariant _ _ (nsRxStep card vcc) (fun s => s.drv.log.DropsTold)
      NsRxLog.DropsTold.step _ _ _ (fun _ => rfl) hrun
  have htold' : l.rx.drv.log.DropsTold :=
    @run_invariant _ _ (nsLineStep card vcc v) (fun l => l.rx.drv.log.DropsTold)
      NsRxLog.DropsTold.line _ _ _ htold hline
  have hinit := LineHolds.init hinv hplaced hvcc hiov (hinv.no_report hstale)
  obtain ⟨pending', g, got, owed, hinv', hopen, hshape, hrx⟩ :=
    @run_invariant_of_meets _ _ (nsLineStep card vcc v) LineAlone
      (LineHolds card vcc v s.drv.log) (LineHolds.step haal hcheck hzero) _ _ _ hinit hlineAlone
      hline
  have hintact : intactSdus l.cells = g.done.filterMap cellSdu ++
      (closedGroups NsCell.eopdu [] (bufCells (g.held ++ g.reps ++ l.cur.toList))).filterMap
        cellSdu := by
    rw [intactSdus, hshape.cells_eq, closedGroups_flatten hshape.groups, List.filterMap_append]
  refine ⟨htold', got, hrx.sdus, ?_, ?_⟩
  · rw [hintact]
    exact hrx.sub.trans (List.sublist_append_left _ _)
  · intro hcur hno
    have htold := hrx.told
    rw [hinv'.no_report hno] at htold
    have hreps : g.reps = [] := List.forall₂_nil_left_iff.mp htold
    have hheld := held_open hshape.opened fun b hb => hshape.shape b (List.mem_append_left _ hb)
    have hcount := hrx.count
    rw [hintact, hreps, hcur, Option.toList_none, List.append_nil, List.append_nil,
      closedGroups_open hheld, List.filterMap_nil, List.append_nil]
    omega

/-- A PDU of one cell, with an SDU of 40 octets. -/
def pduCell : NsCell := ⟨List.replicate 40 7 ++ [0, 0, 0, 40, 0, 0, 0, 0], rfl, true, false⟩

theorem nsRx_delivers_pdu :
    ∃ s l, run (nsRxStep rxBits fun _ => rxSocket)
        (nsRxInit [some 0x1000#32, some 0x2000#32] [some 0x3000#32, some 0x4000#32] 4 128
          fun _ _ => 0) [.opened 0, .process] = some s ∧
      run (nsLineStep rxBits (fun _ => rxSocket) 0) ⟨s, true, none, []⟩
        [.buffer, .cell pduCell, .report 33#32 0x2001#32, .other (.round [] [])] = some l ∧
      ∃ got, l.rx.drv.log.sdus 0 = s.drv.log.sdus 0 ++ got ∧ got.Sublist (intactSdus l.cells) ∧
        (intactSdus l.cells).length + s.drv.log.dropped 0 ≤
          got.length + l.rx.drv.log.dropped 0 := by
  generalize hes : ([.opened 0, .process] : List NsRxEvent) = es
  generalize hfs : ([.buffer, .cell pduCell, .report 33#32 0x2001#32, .other (.round [] [])] :
    List NsLineEvent) = fs
  have hend : (run (nsRxStep rxBits fun _ => rxSocket)
      (nsRxInit [some 0x1000#32, some 0x2000#32] [some 0x3000#32, some 0x4000#32] 4 128
        fun _ _ => 0) es).any (fun s =>
      (s.drv.vcmap (rxSocket.conn rxBits)).vcc == some 0 &&
        (s.drv.vcmap (rxSocket.conn rxBits)).rxIov.isNone && !decide (s.Reports rxSocket) &&
        decide (RunMeets (nsLineStep rxBits (fun _ => rxSocket) 0) LineAlone
          ⟨s, true, none, []⟩ fs) &&
        (run (nsLineStep rxBits (fun _ => rxSocket) 0) ⟨s, true, none, []⟩ fs).any fun l =>
          l.cur.isNone && !decide (l.rx.Reports rxSocket)) = true := by
    rw [← hes, ← hfs]
    decide +kernel
  have halone : RunMeets (nsRxStep rxBits fun _ => rxSocket) StoresAlone
      (nsRxInit [some 0x1000#32, some 0x2000#32] [some 0x3000#32, some 0x4000#32] 4 128
        fun _ _ => 0) es := by
    rw [← hes]
    decide +kernel
  obtain ⟨s, hs, hgood⟩ := (Option.any_eq_true _ _).mp hend
  simp only [Bool.and_eq_true, Bool.not_eq_true', decide_eq_false_iff_not, beq_iff_eq,
    Option.isNone_iff_eq_none, decide_eq_true_eq] at hgood
  obtain ⟨⟨⟨⟨hvcc, hiov⟩, hstale⟩, hlineAlone⟩, hline⟩ := hgood
  obtain ⟨l, hl, hseen⟩ := (Option.any_eq_true _ _).mp hline
  simp only [Bool.and_eq_true, Bool.not_eq_true', decide_eq_false_iff_not,
    Option.isNone_iff_eq_none] at hseen
  obtain ⟨-, got, hgot, hsub, hcount⟩ :=
    nsRx_delivers rxBits (fun _ => rxSocket) 0 rfl rfl (by decide) _ _ 4 128 (fun _ _ => 0) halone
      hs hvcc hiov hstale hlineAlone hl
  exact ⟨s, l, hs, hl, got, hgot, hsub, hcount hseen.1 hseen.2⟩

end Steps

end DanubeBsp
