import DanubeBsp.NicstarRxLine

namespace DanubeBsp

/-- What a socket was given. -/
def NsRxLog.sdus (l : NsRxLog) (v : Nat) : List (List Byte) :=
  (l.pushed.filter fun d => d.vcc = v).map NsSdu.data

/-- Only the socket `w` is given something, and drops are counted for it alone. -/
structure LogFor (w : Nat) (l l' : NsRxLog) : Prop where
  pushed : ∃ ds, l'.pushed = l.pushed ++ ds ∧ ∀ d ∈ ds, d.vcc = w
  drops : ∀ a, ∃ n, l'.drops a = l.drops a ++ List.replicate n w ∧
    (l'.stats a).rxDrop = (l.stats a).rxDrop + n

/-- The history agrees with the counters. -/
def NsRxLog.DropsTold (l : NsRxLog) : Prop := ∀ a, (l.drops a).length = (l.stats a).rxDrop

section Log

variable {l l' l'' : NsRxLog} {w v : Nat} {a : NsAal} {mem : Word → Nat → Byte} {e : NsRsqe}

theorem LogFor.quiet (hpushed : l'.pushed = l.pushed) (hdrops : l'.drops = l.drops)
    (hstats : ∀ a, (l'.stats a).rxDrop = (l.stats a).rxDrop) : LogFor w l l' where
  pushed := ⟨[], by rw [hpushed, List.append_nil], fun d h => absurd h List.not_mem_nil⟩
  drops a := ⟨0, by rw [hdrops, List.replicate_zero, List.append_nil], hstats a⟩

theorem LogFor.refl (w : Nat) (l : NsRxLog) : LogFor w l l := LogFor.quiet rfl rfl fun _ => rfl

theorem LogFor.trans (h : LogFor w l l') (h' : LogFor w l' l'') : LogFor w l l'' := by
  obtain ⟨ds, hds, hw⟩ := h.pushed
  obtain ⟨es, hes, hw'⟩ := h'.pushed
  constructor
  · refine ⟨ds ++ es, ?_, ?_⟩
    · rw [hes, hds, List.append_assoc]
    · intro d hd
      rcases List.mem_append.mp hd with hd | hd
      · exact hw d hd
      · exact hw' d hd
  · intro a
    obtain ⟨n, hn, hcount⟩ := h.drops a
    obtain ⟨m, hm, hcount'⟩ := h'.drops a
    refine ⟨n + m, ?_, ?_⟩
    · rw [hm, hn, List.append_assoc, List.replicate_append_replicate]
    · rw [hcount', hcount, Nat.add_assoc]

/-- Drops of every socket stay counted. -/
theorem LogFor.dropped (h : LogFor w l l') (v : Nat) : l.dropped v ≤ l'.dropped v := by
  obtain ⟨n, hn, -⟩ := h.drops .aal5
  rw [NsRxLog.dropped, NsRxLog.dropped, hn, List.count_append]
  exact Nat.le_add_right _ _

theorem LogFor.told (h : LogFor w l l') (htold : l.DropsTold) : l'.DropsTold := by
  intro a
  obtain ⟨n, hn, hcount⟩ := h.drops a
  rw [hn, hcount, List.length_append, List.length_replicate, htold a]

theorem logFor_drop (w : Nat) (l : NsRxLog) (a : NsAal) (n : Nat) :
    LogFor w l (l.drop a w n) where
  pushed := (LogFor.refl w l).pushed
  drops b := by
    by_cases hb : b = a
    · rw [hb]
      refine ⟨n, Function.update_self _ _ _, ?_⟩
      dsimp only [NsRxLog.drop]
      rw [Function.update_self]
    · obtain ⟨m, hm, hcount⟩ := (LogFor.refl w l).drops b
      exact ⟨m, (Function.update_of_ne hb _ _).trans hm,
        (congrArg NsRxStats.rxDrop (Function.update_of_ne hb _ _)).trans hcount⟩

/-- A statistic other than `rx_drop`. -/
theorem rxDrop_update {f : NsAal → NsRxStats} {c : NsRxStats} (h : c.rxDrop = (f a).rxDrop)
    (b : NsAal) : (Function.update f a c b).rxDrop = (f b).rxDrop := by
  by_cases hb : b = a
  · rw [hb, Function.update_self, h]
  · rw [Function.update_of_ne hb]

theorem logFor_err (w : Nat) (l : NsRxLog) : LogFor w l l.err :=
  LogFor.quiet rfl rfl (rxDrop_update rfl)

theorem logFor_push (w : Nat) (l : NsRxLog) (a : NsAal) (header : Option Word) (data : List Byte) :
    LogFor w l (l.push a ⟨w, header, data⟩) where
  pushed := ⟨[⟨w, header, data⟩], rfl, fun x hx => by rw [List.mem_singleton.mp hx]⟩
  drops := by
    have hquiet : LogFor w l { l.push a ⟨w, header, data⟩ with pushed := l.pushed } :=
      LogFor.quiet rfl rfl (rxDrop_update rfl)
    exact hquiet.drops

theorem logFor_charge (w : Nat) (l : NsRxLog) (a : NsAal) : LogFor w l (l.charge a w).2 := by
  unfold NsRxLog.charge
  split
  · exact LogFor.refl w l
  · exact LogFor.quiet rfl rfl fun _ => rfl
  next rest _ =>
    have hcharged : LogFor w l { l with charges := rest } := LogFor.quiet rfl rfl fun _ => rfl
    exact hcharged.trans (logFor_drop w _ a 1)

theorem aal0Loop_log (mem : Word → Nat → Byte) (v : Nat) (e : NsRsqe) (i cell : Nat)
    (s : NsRxBufs) (l : NsRxLog) : LogFor v l (aal0Loop mem v e i cell s l).2 := by
  induction i generalizing cell s l with
  | zero => exact LogFor.refl v l
  | succ i ih =>
    unfold aal0Loop
    rcases s.allocSkb with ⟨a, s'⟩
    cases a with
    | none => exact logFor_drop v l .aal0 (i + 1)
    | some b =>
      have hcharge := logFor_charge v l .aal0
      dsimp only
      generalize l.charge .aal0 v = c at hcharge ⊢
      obtain ⟨ok, l'⟩ := c
      cases ok with
      | false => exact hcharge.trans (logFor_drop v l' .aal0 i)
      | true => exact (hcharge.trans (logFor_push v l' .aal0 _ _)).trans (ih _ _ _)

theorem deliverPdu_logFor (mem : Word → Nat → Byte) (v : Nat) (iov : List NsIov) (len : Nat)
    (s : NsRxBufs) (l : NsRxLog) : LogFor v l (deliverPdu mem v iov len s l).2 := by
  have hcharge := logFor_charge v l .aal5
  unfold deliverPdu
  split
  · exact LogFor.refl v l
  · generalize l.charge .aal5 v = c at hcharge ⊢
    obtain ⟨ok, l'⟩ := c
    cases ok with
    | false => exact hcharge
    | true => exact hcharge.trans (logFor_push v l' .aal5 none _)
  · generalize l.charge .aal5 v = c at hcharge ⊢
    obtain ⟨ok, l'⟩ := c
    cases ok with
    | false => split <;> exact hcharge
    | true => split <;> exact hcharge.trans (logFor_push v l' .aal5 none _)
  · rcases takeHugeBuf s with ⟨ok, s'⟩
    cases ok with
    | false => exact logFor_drop v l .aal5 1
    | true =>
      dsimp only
      generalize l.charge .aal5 v = c at hcharge ⊢
      obtain ⟨ok, l'⟩ := c
      cases ok with
      | false => exact hcharge
      | true => exact hcharge.trans (logFor_push v l' .aal5 none _)

theorem openIov_logFor (v : Nat) (rxIov : Option (List NsIov)) (s : NsRxBufs) (l : NsRxLog) :
    LogFor v l (openIov v rxIov s l).2.2 := by
  unfold openIov
  cases rxIov with
  | none =>
    dsimp only
    rcases takeIovBuf s with ⟨ok, s'⟩
    cases ok with
    | false => exact logFor_drop v l .aal5 1
    | true => exact LogFor.refl v l
  | some iov =>
    dsimp only
    split
    · exact logFor_err v l
    · exact LogFor.refl v l

theorem dequeueAal5_logFor (mem : Word → Nat → Byte) (v : Nat) (e : NsRsqe)
    (rxIov : Option (List NsIov)) (s : NsRxBufs) (l : NsRxLog) :
    LogFor v l (dequeueAal5 mem v e rxIov s l).2.2 := by
  have hopen := openIov_logFor v rxIov s l
  unfold dequeueAal5
  generalize openIov v rxIov s l = opened at hopen ⊢
  obtain ⟨r, s', l'⟩ := opened
  cases r with
  | none => exact hopen
  | some iov =>
    dsimp only at hopen ⊢
    split
    · exact hopen.trans (logFor_err v l')
    · split
      · exact hopen.trans (logFor_err v l')
      · split
        · refine hopen.trans ?_
          unfold endPdu
          dsimp only
          split
          · exact logFor_err v l'
          · exact deliverPdu_logFor mem v _ _ _ l'
        · exact hopen

/-- What another socket is given. -/
theorem LogFor.sdus (h : LogFor w l l') (hne : w ≠ v) : l'.sdus v = l.sdus v := by
  obtain ⟨ds, hds, hw⟩ := h.pushed
  have hnone : ds.filter (fun d => d.vcc = v) = [] := by
    refine List.filter_eq_nil_iff.mpr ?_
    intro d hd heq
    exact hne ((hw d hd).symm.trans (of_decide_eq_true heq))
  rw [NsRxLog.sdus, NsRxLog.sdus, hds, List.filter_append, hnone, List.append_nil]

theorem sdus_congr (h : l'.pushed = l.pushed) : l'.sdus v = l.sdus v := by
  rw [NsRxLog.sdus, NsRxLog.sdus, h]

/-- The outcome of a PDU for its socket. -/
theorem PduOutcome.sdus {r : Option (List Byte)} (h : PduOutcome v r l l') :
    ∃ new, l'.sdus v = l.sdus v ++ new ∧ new.Sublist r.toList ∧
      r.toList.length + l.dropped v ≤ new.length + l'.dropped v := by
  rcases h with ⟨hpushed, hdropped⟩ | ⟨d, rfl, hpushed, hdropped⟩
  · refine ⟨[], ?_, List.nil_sublist _, ?_⟩
    · rw [sdus_congr hpushed, List.append_nil]
    · rw [List.length_nil]
      omega
  · refine ⟨[d], ?_, List.Sublist.refl _, ?_⟩
    · rw [NsRxLog.sdus, hpushed, List.filter_append, List.map_append, ← NsRxLog.sdus]
      simp
    · rw [hdropped]
      exact Nat.le_refl _

end Log

section Apart

variable {card : NsVcBits} {vcc : Nat → NsRxVcc} {v : Nat} {d : NsRxDrv} {e : NsRsqe}
  {mem : Word → Nat → Byte}

/-- Addresses that the card can have differ in their numbers. -/
theorem nsFindConn_inj {a b a' b' : Nat} (h : nsCheckVc card a b = true)
    (h' : nsCheckVc card a' b' = true) (heq : nsFindConn card a b = nsFindConn card a' b') :
    a = a' ∧ b = b' := by
  have hsplit : ∀ x y : Nat, nsFindConn card x y =
      (x % 2 ^ card.vpibits) * 2 ^ card.vcibits + y % 2 ^ card.vcibits := by
    intro x y
    unfold nsFindConn
    rw [Nat.and_two_pow_sub_one_eq_mod, Nat.and_two_pow_sub_one_eq_mod,
      ← Nat.shiftLeft_add_eq_or_of_lt (Nat.mod_lt _ (Nat.two_pow_pos _)), Nat.shiftLeft_eq]
  have hpos : 0 < 2 ^ card.vcibits := Nat.two_pow_pos _
  have hb : b % 2 ^ card.vcibits = b' % 2 ^ card.vcibits := by
    have hmod := congrArg (· % 2 ^ card.vcibits) heq
    simpa [hsplit, Nat.add_mod] using hmod
  have ha : a % 2 ^ card.vpibits = a' % 2 ^ card.vpibits := by
    have hdiv := heq
    rw [hsplit, hsplit, hb] at hdiv
    exact Nat.eq_of_mul_eq_mul_right hpos (Nat.add_right_cancel hdiv)
  have hc := of_decide_eq_true h
  have hc' := of_decide_eq_true h'
  have hbHigh : b / 2 ^ card.vcibits = b' / 2 ^ card.vcibits := by
    rw [← Nat.shiftRight_eq_div_pow, ← Nat.shiftRight_eq_div_pow, hc.1, hc'.1]
  have haHigh : a / 2 ^ card.vpibits = a' / 2 ^ card.vpibits := by
    rw [← Nat.shiftRight_eq_div_pow, ← Nat.shiftRight_eq_div_pow, hc.2, hc'.2]
  constructor
  · rw [← Nat.div_add_mod a (2 ^ card.vpibits), haHigh, ha, Nat.div_add_mod]
  · rw [← Nat.div_add_mod b (2 ^ card.vcibits), hbHigh, hb, Nat.div_add_mod]

/-- Sockets are at their numbers. -/
def SocketsPlaced (card : NsVcBits) (vcc : Nat → NsRxVcc) (d : NsRxDrv) : Prop :=
  ∀ c w, (d.vcmap c).vcc = some w → (vcc w).conn card = c

theorem SocketsPlaced.congr {d' : NsRxDrv} (h : SocketsPlaced card vcc d)
    (heq : ∀ c, (d'.vcmap c).vcc = (d.vcmap c).vcc) : SocketsPlaced card vcc d' := by
  intro c w hw
  rw [heq] at hw
  exact h c w hw

theorem nsOpenRx_placed (h : SocketsPlaced card vcc d) (w : Nat) :
    SocketsPlaced card vcc (nsOpenRx card vcc d w).1 := by
  unfold nsOpenRx
  dsimp only
  split
  next =>
    intro c x hx
    by_cases hc : c = (vcc w).conn card
    · rw [hc] at hx ⊢
      rw [vcmap_update_self] at hx
      rw [Option.some.inj hx]
    · rw [vcmap_update_ne hc] at hx
      exact h c x hx
  next => exact h

theorem nsCloseRx_placed (h : SocketsPlaced card vcc d) (w : Nat) :
    SocketsPlaced card vcc (nsCloseRx card vcc d w).1 := by
  have hupdate : ∀ bufs log, SocketsPlaced card vcc
      ⟨bufs, Function.update d.vcmap ((vcc w).conn card) ⟨none, none⟩, log⟩ := by
    intro bufs log c x hx
    by_cases hc : c = (vcc w).conn card
    · rw [hc, vcmap_update_self] at hx
      cases hx
    · rw [vcmap_update_ne hc] at hx
      exact h c x hx
  unfold nsCloseRx
  dsimp only
  split
  · exact hupdate _ _
  · exact hupdate _ _

/-- The connection of the socket is open. -/
structure LineOpen (card : NsVcBits) (vcc : Nat → NsRxVcc) (v : Nat) (d : NsRxDrv) : Prop where
  opened : (d.vcmap ((vcc v).conn card)).vcc = some v
  placed : SocketsPlaced card vcc d

theorem LineOpen.congr {d' : NsRxDrv} (h : LineOpen card vcc v d)
    (heq : ∀ c, (d'.vcmap c).vcc = (d.vcmap c).vcc) : LineOpen card vcc v d' where
  opened := by
    rw [heq]
    exact h.opened
  placed := h.placed.congr heq

theorem dequeueRx_vcc (mem : Word → Nat → Byte) (d : NsRxDrv) (e : NsRsqe) (c : Nat) :
    ((dequeueRx card vcc mem d e).vcmap c).vcc = (d.vcmap c).vcc := by
  unfold dequeueRx
  dsimp only
  split
  · rfl
  · split
    · rfl
    · split
      · rfl
      · split
        · rfl
        · by_cases hc : c = nsFindConn card e.vpi e.vci
          · rw [hc, vcmap_update_self]
          · rw [vcmap_update_ne hc]

/-- An entry of another connection. -/
theorem dequeueRx_apart (h : LineOpen card vcc v d)
    (hcheck : nsCheckVc card (vcc v).vpi (vcc v).vci = true) (hfor : ¬e.For (vcc v)) :
    (dequeueRx card vcc mem d e).vcmap ((vcc v).conn card) = d.vcmap ((vcc v).conn card) ∧
      (dequeueRx card vcc mem d e).log.sdus v = d.log.sdus v ∧
      d.log.dropped v ≤ (dequeueRx card vcc mem d e).log.dropped v := by
  unfold dequeueRx
  dsimp only
  split
  · exact ⟨rfl, rfl, Nat.le_refl _⟩
  · split
    · exact ⟨rfl, rfl, Nat.le_refl _⟩
    next hchecked =>
      have hne : nsFindConn card e.vpi e.vci ≠ (vcc v).conn card := by
        intro heq
        exact hfor (nsFindConn_inj (Bool.of_not_eq_false hchecked) hcheck heq)
      split
      · exact ⟨rfl, rfl, Nat.le_refl _⟩
      next w hw =>
        have hother : w ≠ v := by
          intro heq
          have hconn := h.placed _ _ hw
          rw [heq] at hconn
          exact hne hconn.symm
        split
        · have hlog := aal0Loop_log mem w e e.cellcount 0 d.bufs.readFbqcs d.log
          exact ⟨rfl, hlog.sdus hother, hlog.dropped v⟩
        · have hlog := dequeueAal5_logFor mem w e
            (d.vcmap (nsFindConn card e.vpi e.vci)).rxIov d.bufs.readFbqcs d.log
          exact ⟨Function.update_of_ne hne.symm _ _, hlog.sdus hother, hlog.dropped v⟩

/-- An entry of the connection. -/
theorem dequeueRx_for (h : LineOpen card vcc v d) (haal : (vcc v).aal = .aal5)
    (hcheck : nsCheckVc card (vcc v).vpi (vcc v).vci = true)
    (hzero : ¬((vcc v).vpi = 0 ∧ (vcc v).vci = 0)) (hfor : e.For (vcc v)) :
    ((dequeueRx card vcc mem d e).vcmap ((vcc v).conn card)).rxIov =
        (dequeueAal5 mem v e (d.vcmap ((vcc v).conn card)).rxIov d.bufs.readFbqcs d.log).1 ∧
      (dequeueRx card vcc mem d e).log =
        (dequeueAal5 mem v e (d.vcmap ((vcc v).conn card)).rxIov d.bufs.readFbqcs d.log).2.2 := by
  have hconn : nsFindConn card e.vpi e.vci = (vcc v).conn card := by
    rw [hfor.1, hfor.2]
    rfl
  have hvcc := h.opened
  unfold dequeueRx
  dsimp only
  rw [hconn, hfor.1, hfor.2, if_neg hzero, if_neg (by simp [hcheck])]
  split
  next hnone =>
    rw [hvcc] at hnone
    cases hnone
  next w hw =>
    have heq : w = v := by
      rw [hvcc] at hw
      exact (Option.some.inj hw).symm
    rw [heq]
    split
    next haal0 =>
      rw [haal] at haal0
      cases haal0
    next => exact ⟨by rw [vcmap_update_self], rfl⟩

theorem nsOpenRx_apart (h : LineOpen card vcc v d) (w : Nat) :
    (nsOpenRx card vcc d w).1.vcmap ((vcc v).conn card) = d.vcmap ((vcc v).conn card) ∧
      (nsOpenRx card vcc d w).1.log = d.log := by
  unfold nsOpenRx
  dsimp only
  split
  next hopen =>
    have hne : (vcc v).conn card ≠ (vcc w).conn card := by
      intro heq
      have hnone := hopen.2
      rw [← heq, h.opened] at hnone
      cases hnone
    exact ⟨Function.update_of_ne hne _ _, rfl⟩
  next => exact ⟨rfl, rfl⟩

theorem nsCloseRx_apart (h : LineOpen card vcc v d) {w : Nat} (hne : w ≠ v)
    (hw : (d.vcmap ((vcc w).conn card)).vcc = some w) :
    (nsCloseRx card vcc d w).1.vcmap ((vcc v).conn card) = d.vcmap ((vcc v).conn card) ∧
      (nsCloseRx card vcc d w).1.log = d.log := by
  have hconn : (vcc v).conn card ≠ (vcc w).conn card := by
    intro heq
    rw [← heq, h.opened] at hw
    exact hne (Option.some.inj hw).symm
  unfold nsCloseRx
  dsimp only
  split
  · exact ⟨Function.update_of_ne hconn _ _, rfl⟩
  · exact ⟨Function.update_of_ne hconn _ _, rfl⟩

/-- A step that changes no connection and none of the buffers that the card has. -/
structure NsRx.Unmoved (s t : NsRx) : Prop where
  vcmap : t.drv.vcmap = s.drv.vcmap
  log : t.drv.log = s.drv.log
  mem : t.mem = s.mem
  taken : t.taken = s.taken

theorem adjustTest_unmoved (s : NsRx) (y : NsBufType) : s.Unmoved (adjustTest s y) := by
  unfold adjustTest
  split <;> exact ⟨rfl, rfl, rfl, rfl⟩

theorem adjustFilled_unmoved (s : NsRx) (y : NsBufType) (alloc : Option Word) :
    s.Unmoved (adjustFilled s y alloc) := by
  unfold adjustFilled
  dsimp only
  split <;> exact ⟨rfl, rfl, rfl, rfl⟩

/-- A step of the process changes no connection, or it is `ns_open` that clears `rx_iov`. -/
theorem nsProcess_moves {s t : NsRx} (h : nsProcess s = some t) :
    s.Unmoved t ∨ ∃ conn, s.task = .opening conn ∧
      t = { s with drv := nsOpenRxIov s.drv conn, task := .idle } := by
  unfold nsProcess at h
  dsimp only at h
  split at h
  · cases Option.some.inj h
    exact .inl ⟨rfl, rfl, rfl, rfl⟩
  · split at h
    · cases h
    next conn htask => exact .inr ⟨conn, htask, (Option.some.inj h).symm⟩
    · cases Option.some.inj h
      exact .inl ⟨rfl, rfl, rfl, rfl⟩
    · cases Option.some.inj h
      exact .inl ⟨rfl, rfl, rfl, rfl⟩
    next y _ =>
      cases Option.some.inj h
      exact .inl (adjustTest_unmoved s y)
    · cases Option.some.inj h
      exact .inl ⟨rfl, rfl, rfl, rfl⟩

theorem nsProcess_unmoved {s t : NsRx} (hok : s.task.Ok s.drv.vcmap) (h : nsProcess s = some t) :
    s.Unmoved t := by
  rcases nsProcess_moves h with hunmoved | ⟨conn, htask, rfl⟩
  · exact hunmoved
  · rw [htask] at hok
    rw [nsOpenRxIov_of_none hok]
    exact ⟨rfl, rfl, rfl, rfl⟩

/-- The sockets stay where they are. -/
theorem nsProcess_vcc {s t : NsRx} (h : nsProcess s = some t) :
    (∀ c, (t.drv.vcmap c).vcc = (s.drv.vcmap c).vcc) ∧ t.drv.log = s.drv.log := by
  rcases nsProcess_moves h with hunmoved | ⟨conn, -, rfl⟩
  · exact ⟨fun c => by rw [hunmoved.vcmap], hunmoved.log⟩
  · refine ⟨fun c => ?_, rfl⟩
    by_cases hc : c = conn
    · rw [hc, nsOpenRxIov, vcmap_update_self]
    · rw [nsOpenRxIov, vcmap_update_ne hc]

theorem setLevel_unmoved (s : NsRx) (y : NsBufType) (nr : NsBufNr) :
    s.Unmoved (if h : bufLevAdmits nr topB then { s with task := .setLevel y ⟨nr, h⟩ .min }
      else s) := by
  split <;> exact ⟨rfl, rfl, rfl, rfl⟩

/-- What a step does to the connections and the statistics: it opens or closes one, sees a report,
or leaves the sockets and the statistics as they are. -/
theorem nsRxStep_drv {s t : NsRx} {e : NsRxEvent} (h : nsRxStep card vcc s e = some t) :
    (∃ w, t.drv = (nsOpenRx card vcc s.drv w).1) ∨ (∃ w, t.drv = (nsCloseRx card vcc s.drv w).1) ∨
      (∃ allocs charges e', t.drv = dequeueRx card vcc s.mem
        { s.drv with
          bufs := { s.drv.bufs with allocs := allocs }
          log := { s.drv.log with charges := charges } } e') ∨
      (∀ c, (t.drv.vcmap c).vcc = (s.drv.vcmap c).vcc) ∧ t.drv.log = s.drv.log := by
  have hunmoved : s.Unmoved t →
      (∀ c, (t.drv.vcmap c).vcc = (s.drv.vcmap c).vcc) ∧ t.drv.log = s.drv.log :=
    fun h => ⟨fun c => by rw [h.vcmap], h.log⟩
  cases e with
  | opened w =>
    obtain ⟨-, ht⟩ := Option.ite_none_right_eq_some.mp h
    cases Option.some.inj ht
    exact .inl ⟨w, rfl⟩
  | closed w =>
    obtain ⟨-, ht⟩ := Option.ite_none_right_eq_some.mp h
    cases Option.some.inj ht
    exact .inr (.inl ⟨w, rfl⟩)
  | round allocs charges =>
    obtain ⟨-, ht⟩ := Option.ite_none_right_eq_some.mp h
    cases Option.some.inj ht
    exact .inr (.inr (.inl ⟨allocs, charges, _, rfl⟩))
  | attention y allocs =>
    cases Option.some.inj h
    exact .inr (.inr (.inr ⟨fun _ => rfl, rfl⟩))
  | setLevel y nr =>
    obtain ⟨-, ht⟩ := Option.ite_none_right_eq_some.mp h
    cases Option.some.inj ht
    exact .inr (.inr (.inr (hunmoved (setLevel_unmoved s y nr))))
  | adjust y =>
    obtain ⟨-, ht⟩ := Option.ite_none_right_eq_some.mp h
    cases Option.some.inj ht
    exact .inr (.inr (.inr (hunmoved (adjustTest_unmoved s y))))
  | filled y alloc =>
    obtain ⟨-, ht⟩ := Option.ite_none_right_eq_some.mp h
    cases Option.some.inj ht
    exact .inr (.inr (.inr (hunmoved (adjustFilled_unmoved s y alloc))))
  | process => exact .inr (.inr (.inr (nsProcess_vcc h)))
  | take y =>
    unfold nsRxStep at h
    dsimp only at h
    split at h
    · cases h
    · cases Option.some.inj h
      exact .inr (.inr (.inr ⟨fun _ => rfl, rfl⟩))
  | write x data =>
    obtain ⟨-, ht⟩ := Option.ite_none_right_eq_some.mp h
    cases Option.some.inj ht
    exact .inr (.inr (.inr ⟨fun _ => rfl, rfl⟩))
  | report x word1 word4 =>
    obtain ⟨-, ht⟩ := Option.ite_none_right_eq_some.mp h
    cases Option.some.inj ht
    exact .inr (.inr (.inr ⟨fun _ => rfl, rfl⟩))

/-- Sockets are at their numbers after every step. -/
theorem SocketsPlaced.step {s t : NsRx} {e : NsRxEvent} (h : SocketsPlaced card vcc s.drv)
    (hstep : nsRxStep card vcc s e = some t) : SocketsPlaced card vcc t.drv := by
  rcases nsRxStep_drv hstep with ⟨w, ht⟩ | ⟨w, ht⟩ | ⟨allocs, charges, e', ht⟩ | ⟨hvcc, -⟩
  · rw [ht]
    exact nsOpenRx_placed h w
  · rw [ht]
    exact nsCloseRx_placed h w
  · rw [ht]
    exact h.congr fun c => dequeueRx_vcc _ _ _ c
  · exact h.congr hvcc

theorem dequeueRx_logFor (mem : Word → Nat → Byte) (d : NsRxDrv) (e : NsRsqe) :
    ∃ w, LogFor w d.log (dequeueRx card vcc mem d e).log := by
  unfold dequeueRx
  dsimp only
  split
  · exact ⟨0, LogFor.refl 0 d.log⟩
  · split
    · exact ⟨0, LogFor.refl 0 d.log⟩
    · split
      · exact ⟨0, LogFor.refl 0 d.log⟩
      next w _ =>
        split
        · exact ⟨w, aal0Loop_log mem w e e.cellcount 0 d.bufs.readFbqcs d.log⟩
        · exact ⟨w, dequeueAal5_logFor mem w e _ d.bufs.readFbqcs d.log⟩

/-- The history of the drops agrees with `rx_drop` after every step. -/
theorem NsRxLog.DropsTold.step {s t : NsRx} {e : NsRxEvent} (h : s.drv.log.DropsTold)
    (hstep : nsRxStep card vcc s e = some t) : t.drv.log.DropsTold := by
  rcases nsRxStep_drv hstep with ⟨w, ht⟩ | ⟨w, ht⟩ | ⟨allocs, charges, e', ht⟩ | ⟨-, hlog⟩
  · rw [ht, nsOpenRx]
    split <;> exact h
  · rw [ht, nsCloseRx]
    split <;> exact h
  · obtain ⟨w, hw⟩ := @dequeueRx_logFor card vcc s.mem { s.drv with
      bufs := { s.drv.bufs with allocs := allocs }
      log := { s.drv.log with charges := charges } } e'
    rw [ht]
    exact hw.told h
  · rw [hlog]
    exact h

end Apart

end DanubeBsp
