import DanubeBsp.NicstarRx

namespace DanubeBsp

/-- The buffers in an iovec. -/
def iovHandles : Option (List NsIov) → Multiset Word
  | none => 0
  | some iov => ↑(iov.map NsIov.base)

/-- An iovec begins with a small buffer, and the others are large. -/
structure IovOk (s : NsRxBufs) (iov : List NsIov) : Prop where
  ne_nil : iov ≠ []
  length_le : iov.length ≤ nsMaxIovecs
  first : ∀ x ∈ iov.head?, x.base ∈ s.b0.queue
  rest : ∀ x ∈ iov.tail, x.base ∈ s.b1.queue

section Dequeue

variable {s s' : NsRxBufs} {l : NsRxLog} {mem : Word → Nat → Byte} {v len : Nat} {e : NsRsqe}
  {iov : List NsIov} {rxIov : Option (List NsIov)} {rest out : Multiset Word}

theorem iov_cons (x : NsIov) (iov : List NsIov) (rest : Multiset Word) :
    (↑((x :: iov).map NsIov.base) + rest : Multiset Word) =
      x.base ::ₘ (↑(iov.map NsIov.base) + rest) := by
  rw [List.map_cons, ← Multiset.cons_coe, Multiset.cons_add]

theorem iov_snoc (x : NsIov) (iov : List NsIov) (rest : Multiset Word) :
    (↑((iov ++ [x]).map NsIov.base) + rest : Multiset Word) =
      x.base ::ₘ (↑(iov.map NsIov.base) + rest) := by
  rw [List.map_append, ← Multiset.coe_add, add_assoc, add_left_comm, List.map_singleton,
    Multiset.coe_singleton, Multiset.singleton_add]

theorem IovOk.keep (h : IovOk s iov)
    (hsize : ∀ x ∈ iov, ∀ t, x.base ∈ (s.pool t).queue → x.base ∈ (s'.pool t).queue) :
    IovOk s' iov where
  ne_nil := h.ne_nil
  length_le := h.length_le
  first x hx := hsize x (List.mem_of_mem_head? hx) .b0 (h.first x hx)
  rest x hx := hsize x (List.mem_of_mem_tail hx) .b1 (h.rest x hx)

theorem IovOk.step (h : IovOk s iov) (hstep : RxBooksStep s s' out)
    (hin : ∀ x ∈ iov, x.base ∈ out) : IovOk s' iov :=
  h.keep fun x hx => hstep.size _ (hin x hx)

/-- A buffer of the right size is added. -/
theorem IovOk.snoc {x : NsIov} (h : IovOk s iov) (hlt : iov.length < nsMaxIovecs)
    (hx : x.base ∈ s.b1.queue) : IovOk s (iov ++ [x]) := by
  constructor
  · exact List.append_ne_nil_of_left_ne_nil h.ne_nil _
  · rw [List.length_append, List.length_singleton]
    exact hlt
  · intro y hy
    rw [List.head?_append_of_ne_nil _ h.ne_nil] at hy
    exact h.first y hy
  · intro y hy
    rw [List.tail_append_of_ne_nil h.ne_nil] at hy
    rcases List.mem_append.mp hy with hy | hy
    · exact h.rest y hy
    · rw [List.mem_singleton.mp hy]
      exact hx

theorem IovOk.single {x : NsIov} (hx : x.base ∈ s.b0.queue) : IovOk s [x] where
  ne_nil := List.cons_ne_nil x []
  length_le := show 1 ≤ 5 by omega
  first y hy := by
    rw [← Option.some.inj (Option.mem_def.mp hy)]
    exact hx
  rest y hy := absurd hy List.not_mem_nil

theorem aal0Loop_same (mem : Word → Nat → Byte) (v : Nat) (e : NsRsqe) (i cell : Nat)
    (s : NsRxBufs) (l : NsRxLog) :
    SameRxbufs s (aal0Loop mem v e i cell s l).1 := by
  induction i generalizing cell s l with
  | zero => exact sameRxbufs_of_pools rfl rfl
  | succ i ih =>
    have hsame := sameRxbufs_allocSkb s
    unfold aal0Loop
    rcases halloc : s.allocSkb with ⟨a, s'⟩
    rw [halloc] at hsame
    cases a with
    | none => exact hsame
    | some b =>
      dsimp only
      rcases hcharge : l.charge .aal0 v with ⟨ok, l'⟩
      cases ok with
      | false => exact hsame
      | true => exact hsame.trans (ih _ _ _)

/-- A buffer that is still in use is pushed after the others. -/
theorem RxBooksStep.push {t : NsBufType} {skb : Word} (h : RxBooksStep s s' (skb ::ₘ rest))
    (hmem : skb ∈ (s.pool t).queue) : RxBooksStep s (pushRxbufs s' t skb) rest :=
  h.trans (pushRxbufs_books h.books (h.size _ (Multiset.mem_cons_self _ _) t hmem))
    (Multiset.le_cons_self _ _)

/-- The large buffers of a PDU are pushed. -/
theorem pushLarge_books {lbs : List NsIov} (hs : NsRxBooks s (↑(lbs.map NsIov.base) + rest))
    (hmem : ∀ x ∈ lbs, x.base ∈ s.b1.queue) :
    RxBooksStep s (lbs.foldl (fun s lb => pushRxbufs s .b1 lb.base) s) rest := by
  induction lbs generalizing s with
  | nil =>
    rw [List.map_nil, Multiset.coe_nil, zero_add] at hs
    exact hs.step_same (sameRxbufs_of_pools rfl rfl)
  | cons x lbs ih =>
    rw [iov_cons] at hs
    have hpush := pushRxbufs_books (t := .b1) hs (hmem x List.mem_cons_self)
    refine hpush.trans (ih hpush.books ?_) (Multiset.le_add_left _ _)
    intro y hy
    have hin : y.base ∈ (↑(lbs.map NsIov.base) + rest : Multiset Word) :=
      Multiset.mem_add.mpr (.inl (Multiset.mem_coe.mpr (List.mem_map_of_mem hy)))
    exact hpush.size _ hin .b1 (hmem y (List.mem_cons_of_mem x hy))

/-- A PDU gives its buffers back, or they go to the socket. -/
theorem deliverPdu_books (hs : NsRxBooks s (↑(iov.map NsIov.base) + rest)) (hok : IovOk s iov) :
    RxBooksStep s (deliverPdu mem v iov len s l).1 rest := by
  cases iov with
  | nil => exact absurd rfl hok.ne_nil
  | cons sb lbs =>
    have hsb : sb.base ∈ (s.pool .b0).queue := hok.first sb rfl
    have hlbs : ∀ x ∈ lbs, x.base ∈ s.b1.queue := hok.rest
    have hall := hs
    rw [iov_cons] at hs
    cases lbs with
    | nil =>
      rw [List.map_nil, Multiset.coe_nil, zero_add] at hs
      unfold deliverPdu
      dsimp only
      rcases hcharge : l.charge .aal5 v with ⟨ok, l'⟩
      cases ok with
      | false => exact pushRxbufs_books hs hsb
      | true => exact dequeueBuf_books hs hsb
    | cons lb lbs =>
      have hlb : lb.base ∈ (s.pool .b1).queue := hlbs lb List.mem_cons_self
      rw [iov_cons] at hs
      cases lbs with
      | nil =>
        rw [List.map_nil, Multiset.coe_nil, zero_add] at hs
        have hswap := hs
        rw [Multiset.cons_swap] at hswap
        unfold deliverPdu
        dsimp only
        split
        · rcases hcharge : l.charge .aal5 v with ⟨ok, l'⟩
          cases ok with
          | false => exact (pushRxbufs_books hs hsb).push hlb
          | true => exact (dequeueBuf_books hs hsb).push hlb
        · rcases hcharge : l.charge .aal5 v with ⟨ok, l'⟩
          cases ok with
          | false => exact (pushRxbufs_books hswap hlb).push hsb
          | true => exact (dequeueBuf_books hswap hlb).push hsb
      | cons lb2 lbs =>
        have hsame := sameRxbufs_takeHugeBuf s
        unfold deliverPdu
        dsimp only
        rcases htake : takeHugeBuf s with ⟨ok, s'⟩
        rw [htake] at hsame
        have htaken := hall.step_same hsame
        cases ok with
        | false =>
          exact htaken.trans (recycleIovecRxBufs_books htaken.books) (Multiset.le_add_left _ _)
        | true =>
          dsimp only
          rcases hcharge : l.charge .aal5 v with ⟨ok, l'⟩
          cases ok with
          | false =>
            have hback := recycleIovecRxBufs_books htaken.books
            exact (htaken.trans hback (Multiset.le_add_left _ _)).then_same
              (sameRxbufs_recycleHugeBuf _)
          | true =>
            have hbooks := htaken.books
            rw [iov_cons] at hbooks
            have hsb' : sb.base ∈ (s'.pool .b0).queue := by
              rw [(hsame .b0).1]
              exact hsb
            have hpush := pushRxbufs_books hbooks hsb'
            have hlarge : ∀ x ∈ lb :: lb2 :: lbs,
                x.base ∈ (pushRxbufs s' .b0 sb.base).b1.queue := by
              intro x hx
              have hin : x.base ∈ (↑((lb :: lb2 :: lbs).map NsIov.base) + rest : Multiset Word) :=
                Multiset.mem_add.mpr (.inl (Multiset.mem_coe.mpr (List.mem_map_of_mem hx)))
              refine hpush.size _ hin .b1 ?_
              rw [(hsame .b1).1]
              exact hlbs x hx
            have hlarger := pushLarge_books hpush.books hlarge
            exact htaken.trans (hpush.trans hlarger (Multiset.le_add_left _ _))
              (Multiset.le_add_left _ _)

/-- The iovec to which a buffer is added is empty, or it is right and has room. -/
theorem openIov_books {skb : Word} (hs : NsRxBooks s (skb ::ₘ (iovHandles rxIov + rest)))
    (hok : ∀ iov, rxIov = some iov → IovOk s iov) :
    RxBooksStep s (openIov v rxIov s l).2.1
        (skb ::ₘ (iovHandles (openIov v rxIov s l).1 + rest)) ∧
      ∀ iov, (openIov v rxIov s l).1 = some iov →
        iov = [] ∨ IovOk (openIov v rxIov s l).2.1 iov ∧ iov.length < nsMaxIovecs := by
  unfold openIov
  cases rxIov with
  | none =>
    have hsame := sameRxbufs_takeIovBuf s
    dsimp only
    rcases htake : takeIovBuf s with ⟨ok, s'⟩
    rw [htake] at hsame
    cases ok with
    | false => exact ⟨hs.step_same hsame, fun iov h => by cases h⟩
    | true => exact ⟨hs.step_same hsame, fun iov h => .inl (Option.some.inj h).symm⟩
  | some iov =>
    have hiov := hok iov rfl
    dsimp only
    split
    next hfull =>
      have htake : iov.take nsMaxIovecs = iov := List.take_of_length_le hiov.length_le
      have hswap : (skb ::ₘ (iovHandles (some iov) + rest) : Multiset Word) =
          ↑(iov.map NsIov.base) + (skb ::ₘ rest) := (Multiset.add_cons skb _ _).symm
      rw [hswap] at hs
      have hback := recycleIovecRxBufs_books hs
      have hempty : (skb ::ₘ (iovHandles (some []) + rest) : Multiset Word) = skb ::ₘ rest := by
        rw [iovHandles, List.map_nil, Multiset.coe_nil, zero_add]
      rw [htake, hempty]
      exact ⟨hback, fun iov h => .inl (Option.some.inj h).symm⟩
    next hroom =>
      refine ⟨hs.step_same (sameRxbufs_of_pools rfl rfl), ?_⟩
      intro iov' h
      cases Option.some.inj h
      exact .inr ⟨hiov, Nat.lt_of_not_le hroom⟩

theorem endPdu_books (hs : NsRxBooks s (↑(iov.map NsIov.base) + rest)) (hok : IovOk s iov) :
    RxBooksStep s (endPdu mem v e iov s l).1 rest := by
  unfold endPdu
  dsimp only
  split
  · exact (recycleIovecRxBufs_books hs).then_same (sameRxbufs_recycleIovBuf _)
  · exact (deliverPdu_books hs hok).then_same (sameRxbufs_recycleIovBuf _)

theorem dequeueAal5_books (mem : Word → Nat → Byte) (v : Nat) (l : NsRxLog)
    (hs : NsRxBooks s (e.bufferHandle ::ₘ (iovHandles rxIov + rest)))
    (hok : ∀ iov, rxIov = some iov → IovOk s iov) :
    RxBooksStep s (dequeueAal5 mem v e rxIov s l).2.1
        (iovHandles (dequeueAal5 mem v e rxIov s l).1 + rest) ∧
      ∀ iov, (dequeueAal5 mem v e rxIov s l).1 = some iov →
        IovOk (dequeueAal5 mem v e rxIov s l).2.1 iov := by
  obtain ⟨hopen, hiov⟩ := openIov_books (l := l) hs hok
  unfold dequeueAal5
  generalize openIov v rxIov s l = opened at hopen hiov ⊢
  obtain ⟨r, s', l'⟩ := opened
  dsimp only at hopen hiov ⊢
  -- the buffer and those of the iovec go back, and none is kept
  have hnone : ∀ {t : NsRxBufs}, RxBooksStep s t rest →
      RxBooksStep s t (iovHandles none + rest) := by
    intro t ht
    rw [iovHandles, zero_add]
    exact ht
  cases r with
  | none =>
    rw [iovHandles, zero_add] at hopen
    have hback := recycleRxBuf_books hopen.books
    exact ⟨hnone (hopen.trans hback (Multiset.le_cons_self _ _)), fun iov h => by cases h⟩
  | some iov =>
    have hboth := hopen.books
    rw [iovHandles, ← iov_snoc ⟨e.bufferHandle, e.cellcount * 48⟩] at hboth
    have hle : rest ≤ e.bufferHandle ::ₘ (iovHandles (some iov) + rest) :=
      le_trans (Multiset.le_add_left _ _) (Multiset.le_cons_self _ _)
    dsimp only
    split
    next hfirst =>
      have hnil : iov = [] := by
        have hlen := hfirst.1
        rw [List.length_append, List.length_singleton] at hlen
        exact List.length_eq_zero_iff.mp (by omega)
      have hsingle := hopen.books
      rw [hnil, iovHandles, List.map_nil, Multiset.coe_nil, zero_add] at hsingle
      have hback := (recycleRxBuf_books hsingle).then_same (sameRxbufs_recycleIovBuf _)
      exact ⟨hnone (hopen.trans hback hle), fun iov h => by cases h⟩
    next hfirst =>
      split
      next hrest =>
        have hback := (recycleIovecRxBufs_books hboth).then_same (sameRxbufs_recycleIovBuf _)
        exact ⟨hnone (hopen.trans hback hle), fun iov h => by cases h⟩
      next hrest =>
        have hadded : IovOk s' (iov ++ [⟨e.bufferHandle, e.cellcount * 48⟩]) := by
          rcases hiov iov rfl with hnil | ⟨hiovOk, hlt⟩
          · rw [hnil] at hfirst ⊢
            refine IovOk.single ?_
            by_contra hno
            exact hfirst ⟨rfl, hno⟩
          · refine hiovOk.snoc hlt ?_
            by_contra hno
            refine hrest ⟨?_, hno⟩
            have hpos := List.length_pos_iff.mpr hiovOk.ne_nil
            rw [List.length_append, List.length_singleton]
            omega
        split
        · exact ⟨hnone (hopen.trans (endPdu_books hboth hadded) hle), fun iov h => by cases h⟩
        · refine ⟨?_, ?_⟩
          · rw [iovHandles, iov_snoc]
            exact hopen
          · intro iov' h
            cases Option.some.inj h
            exact hadded

end Dequeue

/-- The buffers that connections hold. -/
def NsRxDrv.held (d : NsRxDrv) (conns : Nat) : Multiset Word :=
  ∑ c ∈ Finset.range conns, iovHandles (d.vcmap c).rxIov

/-- The buffers are at their places, `out` beside those of the driver; iovecs are right, and only
open connections have one. -/
structure NsRxDrvInv (conns : Nat) (d : NsRxDrv) (out : Multiset Word) : Prop where
  books : NsRxBooks d.bufs (d.held conns + out)
  ok : ∀ c iov, (d.vcmap c).rxIov = some iov → IovOk d.bufs iov
  closed : ∀ c, (d.vcmap c).vcc = none → (d.vcmap c).rxIov = none
  bound : ∀ c, conns ≤ c → (d.vcmap c).vcc = none

/-- An operation after which the buffers are at their places, those in use of their size still. -/
structure NsRxDrvStep (conns : Nat) (d d' : NsRxDrv) (out : Multiset Word) : Prop where
  inv : NsRxDrvInv conns d' out
  size : ∀ x ∈ d'.held conns + out, ∀ t, x ∈ (d.bufs.pool t).queue → x ∈ (d'.bufs.pool t).queue
  fbq : ∀ t, FbqKeeps (d.bufs.pool t) (d'.bufs.pool t)

section Driver

variable {card : NsVcBits} {vcc : Nat → NsRxVcc} {conns c : Nat} {d : NsRxDrv}
  {out out' : Multiset Word} {bufs : NsRxBufs} {log : NsRxLog} {vc : NsRxVc}
  {mem : Word → Nat → Byte} {e : NsRsqe}

/-- The buffers that the other connections hold. -/
def NsRxDrv.others (d : NsRxDrv) (conns c : Nat) : Multiset Word :=
  ∑ c' ∈ (Finset.range conns).erase c, iovHandles (d.vcmap c').rxIov

theorem held_split (hc : c < conns) :
    d.held conns = iovHandles (d.vcmap c).rxIov + d.others conns c :=
  (Finset.add_sum_erase _ _ (Finset.mem_range.mpr hc)).symm

theorem vcmap_update_self : (NsRxDrv.mk bufs (Function.update d.vcmap c vc) log).vcmap c = vc :=
  Function.update_self _ _ _

theorem vcmap_update_ne {c' : Nat} (hne : c' ≠ c) :
    (NsRxDrv.mk bufs (Function.update d.vcmap c vc) log).vcmap c' = d.vcmap c' :=
  Function.update_of_ne hne _ _

theorem held_update (hc : c < conns) :
    NsRxDrv.held ⟨bufs, Function.update d.vcmap c vc, log⟩ conns =
      iovHandles vc.rxIov + d.others conns c := by
  rw [held_split hc]
  congr 1
  · rw [vcmap_update_self]
  · refine Finset.sum_congr rfl ?_
    intro c' hc'
    rw [vcmap_update_ne (Finset.ne_of_mem_erase hc')]

theorem iov_mem_held (hd : NsRxDrvInv conns d out) {iov : List NsIov}
    (hiov : (d.vcmap c).rxIov = some iov) : c < conns ∧ ∀ x ∈ iov, x.base ∈ d.held conns := by
  have hc : c < conns := by
    by_contra hno
    have hnone := hd.closed c (hd.bound c (Nat.le_of_not_lt hno))
    rw [hiov] at hnone
    cases hnone
  refine ⟨hc, ?_⟩
  intro x hx
  rw [held_split hc, hiov]
  exact Multiset.mem_add.mpr (.inl (Multiset.mem_coe.mpr (List.mem_map_of_mem hx)))

/-- The rule for an operation on a connection. -/
theorem NsRxDrvInv.update (hd : NsRxDrvInv conns d out) (hc : c < conns)
    (hstep : RxBooksStep d.bufs bufs (iovHandles vc.rxIov + (d.others conns c + out')))
    (hok : ∀ iov, vc.rxIov = some iov → IovOk bufs iov)
    (hclosed : vc.vcc = none → vc.rxIov = none) :
    NsRxDrvStep conns d ⟨bufs, Function.update d.vcmap c vc, log⟩ out' := by
  refine ⟨⟨?_, ?_, ?_, ?_⟩, ?_, hstep.fbq⟩
  · rw [held_update hc, add_assoc]
    exact hstep.books
  · intro c' iov hiov
    by_cases heq : c' = c
    · rw [heq, vcmap_update_self] at hiov
      exact hok iov hiov
    · rw [vcmap_update_ne heq] at hiov
      refine (hd.ok c' iov hiov).step hstep ?_
      intro x hx
      have hc' := (iov_mem_held hd hiov).1
      refine Multiset.mem_add.mpr (.inr (Multiset.mem_add.mpr (.inl ?_)))
      refine Multiset.mem_sum.mpr ⟨c', Finset.mem_erase.mpr ⟨heq, Finset.mem_range.mpr hc'⟩, ?_⟩
      rw [hiov]
      exact Multiset.mem_coe.mpr (List.mem_map_of_mem hx)
  · intro c'
    by_cases heq : c' = c
    · rw [heq, vcmap_update_self]
      exact hclosed
    · rw [vcmap_update_ne heq]
      exact hd.closed c'
  · intro c' hle
    have hne : c' ≠ c := by omega
    rw [vcmap_update_ne hne]
    exact hd.bound c' hle
  · rw [held_update hc, add_assoc]
    exact hstep.size

/-- The rule for an operation on the buffers alone. -/
theorem NsRxDrvInv.withBufs (hd : NsRxDrvInv conns d out)
    (hbooks : NsRxBooks bufs (d.held conns + out'))
    (hsize : ∀ x ∈ d.held conns + out', ∀ t,
      x ∈ (d.bufs.pool t).queue → x ∈ (bufs.pool t).queue) :
    NsRxDrvInv conns ⟨bufs, d.vcmap, log⟩ out' where
  books := hbooks
  ok := fun c iov hiov => (hd.ok c iov hiov).keep fun x hx =>
    hsize _ (Multiset.mem_add.mpr (.inl ((iov_mem_held hd hiov).2 x hx)))
  closed := hd.closed
  bound := hd.bound

theorem NsRxDrvInv.setBufs (hd : NsRxDrvInv conns d out)
    (hstep : RxBooksStep d.bufs bufs (d.held conns + out')) :
    NsRxDrvStep conns d ⟨bufs, d.vcmap, log⟩ out' where
  inv := hd.withBufs hstep.books hstep.size
  size := hstep.size
  fbq := hstep.fbq

theorem NsRxDrvInv.same (hd : NsRxDrvInv conns d out) (hsame : SameRxbufs d.bufs bufs) :
    NsRxDrvInv conns ⟨bufs, d.vcmap, log⟩ out := (hd.setBufs (hd.books.step_same hsame)).inv

theorem NsRxDrvInv.stay (hd : NsRxDrvInv conns d out) : NsRxDrvStep conns d d out :=
  ⟨hd, fun _ _ _ hx => hx, fun _ => FbqKeeps.refl _⟩

theorem NsRxDrvStep.after_same {d' : NsRxDrv} (hsame : SameRxbufs d.bufs bufs)
    (h : NsRxDrvStep conns ⟨bufs, d.vcmap, log⟩ d' out) : NsRxDrvStep conns d d' out where
  inv := h.inv
  size x hx t hmem := by
    refine h.size x hx t ?_
    show x ∈ (bufs.pool t).queue
    rw [(hsame t).1]
    exact hmem
  fbq t := FbqKeeps.trans ⟨(hsame t).2.2.2.2, fun hlimit => by
    show (bufs.pool t).fbq.length ≤ _
    rw [(hsame t).2.2.1]
    exact hlimit⟩ (h.fbq t)

theorem nsFindConn_lt (card : NsVcBits) (vpi vci : Nat) : nsFindConn card vpi vci < card.conns := by
  unfold nsFindConn NsVcBits.conns
  rw [Nat.and_two_pow_sub_one_eq_mod, Nat.and_two_pow_sub_one_eq_mod]
  have hvpi : vpi % 2 ^ card.vpibits < 2 ^ card.vpibits := Nat.mod_lt _ (Nat.two_pow_pos _)
  have hvci : vci % 2 ^ card.vcibits < 2 ^ card.vcibits := Nat.mod_lt _ (Nat.two_pow_pos _)
  refine Nat.or_lt_two_pow ?_ ?_
  · rw [Nat.shiftLeft_eq, Nat.pow_add]
    exact Nat.mul_lt_mul_of_pos_right hvpi (Nat.two_pow_pos _)
  · exact Nat.lt_of_lt_of_le hvci (Nat.pow_le_pow_right Nat.two_pos (Nat.le_add_left _ _))

/-- The buffer of the entry goes to its connection, back to the card, or to a socket. -/
theorem dequeueRx_step (hd : NsRxDrvInv card.conns d (e.bufferHandle ::ₘ out)) :
    NsRxDrvStep card.conns d (dequeueRx card vcc mem d e) out := by
  have hread : NsRxDrvInv card.conns ⟨d.bufs.readFbqcs, d.vcmap, d.log⟩
      (e.bufferHandle ::ₘ out) := hd.same (sameRxbufs_readFbqcs d.bufs)
  refine @NsRxDrvStep.after_same _ _ _ _ d.log _ (sameRxbufs_readFbqcs d.bufs) ?_
  clear hd
  -- where the entry is refused, its buffer goes back
  have hback : NsRxDrvStep card.conns ⟨d.bufs.readFbqcs, d.vcmap, d.log⟩
      ⟨recycleRxBuf d.bufs.readFbqcs e.bufferHandle, d.vcmap, d.log⟩ out := by
    refine hread.setBufs (recycleRxBuf_books ?_)
    rw [← Multiset.add_cons]
    exact hread.books
  unfold dequeueRx
  dsimp only
  split
  · exact hback
  · split
    · exact hback
    · split
      next hvcc => exact hback
      next v hvcc =>
        have hc := nsFindConn_lt card e.vpi e.vci
        split
        next haal =>
          have hsame := aal0Loop_same mem v e e.cellcount 0 d.bufs.readFbqcs d.log
          refine hread.setBufs ?_
          have hloop := hread.books.step_same hsame
          rw [Multiset.add_cons] at hloop
          exact hloop.trans (recycleRxBuf_books hloop.books) (Multiset.le_cons_self _ _)
        next haal =>
          have hbooks := hread.books
          rw [held_split hc, Multiset.add_cons, add_assoc] at hbooks
          obtain ⟨hstep, hok⟩ := dequeueAal5_books mem v d.log hbooks (hread.ok _)
          refine hread.update hc hstep hok ?_
          intro hnone
          have hsome : (d.vcmap (nsFindConn card e.vpi e.vci)).vcc = none := hnone
          rw [hvcc] at hsome
          cases hsome

theorem nsOpenRx_step (hd : NsRxDrvInv card.conns d out) (v : Nat) :
    NsRxDrvStep card.conns d (nsOpenRx card vcc d v).1 out := by
  unfold nsOpenRx
  dsimp only
  split
  next hopen =>
    have hc := nsFindConn_lt card (vcc v).vpi (vcc v).vci
    refine hd.update hc ?_ (hd.ok _) (fun h => by cases h)
    have hbooks := hd.books
    rw [held_split hc, add_assoc] at hbooks
    exact hbooks.step_same (sameRxbufs_of_pools rfl rfl)
  next => exact hd.stay

/-- A connection that is not open has no iovec. -/
theorem nsOpenRxIov_of_none (h : (d.vcmap c).rxIov = none) : nsOpenRxIov d c = d := by
  have hvc : { d.vcmap c with rxIov := none } = d.vcmap c := by rw [← h]
  rw [nsOpenRxIov, hvc, Function.update_eq_self]

/-- The buffers of the iovec come into the hands of `ns_close`. -/
theorem nsCloseRx_step (hd : NsRxDrvInv card.conns d out) (v : Nat) :
    NsRxDrvStep card.conns d (nsCloseRx card vcc d v).1
      (↑((nsCloseRx card vcc d v).2.getD []) + out) := by
  have hc := nsFindConn_lt card (vcc v).vpi (vcc v).vci
  have hbooks := hd.books
  rw [held_split hc, add_assoc] at hbooks
  unfold nsCloseRx
  dsimp only
  split
  next hnone =>
    refine hd.update hc ?_ (fun iov h => by cases h) (fun _ => rfl)
    have hheld : iovHandles (d.vcmap (nsFindConn card (vcc v).vpi (vcc v).vci)).rxIov =
        iovHandles none := congrArg iovHandles hnone
    rw [hheld] at hbooks
    rw [Option.getD_none, Multiset.coe_nil, zero_add]
    exact hbooks.step_same (sameRxbufs_of_pools rfl rfl)
  next iov hiov =>
    refine hd.update hc ?_ (fun iov h => by cases h) (fun _ => rfl)
    have hheld : iovHandles (d.vcmap (nsFindConn card (vcc v).vpi (vcc v).vci)).rxIov =
        ↑(iov.map NsIov.base) := congrArg iovHandles hiov
    rw [hheld, add_left_comm] at hbooks
    rw [iovHandles, zero_add, Option.getD_some]
    exact hbooks.step_same (sameRxbufs_readFbqcs d.bufs)

end Driver

/-- The buffers of the reports that the driver has not seen. -/
def NsRx.reported (s : NsRx) : List Word :=
  (((List.range nsRsqNumEntries).filter fun i => (s.rsq i).Valid).map s.rsq).map
    NsRsqe.bufferHandle

/-- What `ns_close` has still to give back. -/
def NsTask.rest : NsTask → List Word
  | .close rest => rest
  | _ => []

/-- `ns_open` clears an `rx_iov` in which there is nothing. -/
def NsTask.Ok (vcmap : Nat → NsRxVc) : NsTask → Prop
  | .opening conn => (vcmap conn).rxIov = none
  | _ => True

/-- `ns_open` is between its stores. -/
def NsTask.opens : NsTask → Bool
  | .opening _ => true
  | _ => false

/-- The buffers in the hands of the process in the driver. -/
def NsRx.hand (s : NsRx) : Multiset Word := inHand s.push + ↑s.task.rest

/-- The buffers are at their places, with `pending` the reports that the driver has not seen. -/
structure NsRxInv (conns : Nat) (s : NsRx) (pending : List NsRsqe) : Prop where
  ring : FlagRing nsRsqNumEntries (fun e => ¬e.Valid) s.rsq s.rsqNext s.rsqWr pending
  drv : NsRxDrvInv conns s.drv (s.hand + (↑s.taken + ↑(pending.map NsRsqe.bufferHandle)))
  push : ∀ p, s.push = some p → p.Ok s.drv.bufs
  task : s.task.Ok s.drv.vcmap

/-- The reports that are pending after an event. -/
def pendingAfter (pending : List NsRsqe) : NsRxEvent → List NsRsqe
  | .round _ _ => pending.tail
  | .report h word1 word4 => pending ++ [⟨word1, h, word4 ||| 0x80000000#32⟩]
  | _ => pending

/-- The buffers that are in use, beside those in the hands of a process. -/
def NsRx.inUse (s : NsRx) (conns : Nat) (pending : List NsRsqe) : Multiset Word :=
  s.drv.held conns + (↑s.taken + ↑(pending.map NsRsqe.bufferHandle))

/-- A step after which the buffers are at their places, with those in use of their size still. -/
structure NsRxKeeps (conns : Nat) (s t : NsRx) (pending : List NsRsqe) : Prop where
  inv : NsRxInv conns t pending
  size : ∀ x ∈ t.inUse conns pending, ∀ y,
    x ∈ (s.drv.bufs.pool y).queue → x ∈ (t.drv.bufs.pool y).queue

/-- No interrupt of the receiver comes between the test of the buffer that waits, in a process, and
the stores that follow from it, and no round of `process_rsq` between the stores of `ns_open`. -/
def StoresAlone (s : NsRx) : NsRxEvent → Prop
  | .round _ _ => s.push.any NsPush.swapping = false ∧ s.task.opens = false
  | .attention _ _ => s.push.any NsPush.swapping = false
  | _ => True

instance (s : NsRx) : (e : NsRxEvent) → Decidable (StoresAlone s e)
  | .round _ _ => inferInstanceAs (Decidable (_ ∧ _))
  | .attention _ _ => inferInstanceAs (Decidable (_ = _))
  | .opened _ => .isTrue trivial
  | .closed _ => .isTrue trivial
  | .setLevel _ _ => .isTrue trivial
  | .adjust _ => .isTrue trivial
  | .filled _ _ => .isTrue trivial
  | .process => .isTrue trivial
  | .take _ => .isTrue trivial
  | .write _ _ => .isTrue trivial
  | .report _ _ _ => .isTrue trivial

section Runs

variable {card : NsVcBits} {vcc : Nat → NsRxVcc} {conns : Nat} {s t : NsRx}
  {pending pending' : List NsRsqe} {out : Multiset Word}

theorem inUse_subset {x : Word} (hx : x ∈ t.inUse conns pending) :
    x ∈ t.drv.held conns + (t.hand + (↑t.taken + ↑(pending.map NsRsqe.bufferHandle))) := by
  rcases Multiset.mem_add.mp hx with hx | hx
  · exact Multiset.mem_add.mpr (.inl hx)
  · exact Multiset.mem_add.mpr (.inr (Multiset.mem_add.mpr (.inr hx)))

/-- A step of a process. -/
theorem NsRxKeeps.of_inv
    (hring : FlagRing nsRsqNumEntries (fun e => ¬e.Valid) t.rsq t.rsqNext t.rsqWr pending')
    (hdrv : NsRxDrvInv conns t.drv (t.hand + (↑t.taken + ↑(pending'.map NsRsqe.bufferHandle))))
    (hsize : ∀ x ∈ t.drv.held conns + (t.hand + (↑t.taken + ↑(pending'.map NsRsqe.bufferHandle))),
      ∀ y, x ∈ (s.drv.bufs.pool y).queue → x ∈ (t.drv.bufs.pool y).queue)
    (hpush : ∀ p, t.push = some p → p.Ok t.drv.bufs) (htask : t.task.Ok t.drv.vcmap) :
    NsRxKeeps conns s t pending' :=
  ⟨⟨hring, hdrv, hpush, htask⟩, fun x hx => hsize x (inUse_subset hx)⟩

/-- A step of an interrupt or of the card, which comes between the steps of a process. -/
theorem NsRxInv.beside (h : NsRxInv conns s pending)
    (hring : FlagRing nsRsqNumEntries (fun e => ¬e.Valid) t.rsq t.rsqNext t.rsqWr pending')
    (hstep : NsRxDrvStep conns s.drv t.drv
      (s.hand + (↑t.taken + ↑(pending'.map NsRsqe.bufferHandle))))
    (hpush : t.push = s.push) (htask : t.task = s.task)
    (hswap : s.push.any NsPush.swapping = true →
      ∀ y, (t.drv.bufs.pool y).handle = (s.drv.bufs.pool y).handle)
    (hok : t.task.Ok t.drv.vcmap) : NsRxKeeps conns s t pending' := by
  have hhand : t.hand = s.hand := by rw [NsRx.hand, NsRx.hand, hpush, htask]
  have hsize := hstep.size
  refine NsRxKeeps.of_inv hring ?_ ?_ ?_ hok
  · rw [hhand]
    exact hstep.inv
  · rw [hhand]
    exact hsize
  · intro p hp
    rw [hpush] at hp
    refine (h.push p hp).step ?_ hstep.fbq ?_
    · intro x hx y
      refine hsize x (Multiset.mem_add.mpr (.inr (Multiset.mem_add.mpr (.inl ?_)))) y
      rw [NsRx.hand, hp]
      exact Multiset.mem_add.mpr (.inl hx)
    · intro hs
      apply hswap
      rw [hp]
      exact hs

/-- An `rx_iov` that is to be cleared is that of a connection that was not open. -/
theorem nsOpenRx_task {d : NsRxDrv} (hd : NsRxDrvInv card.conns d out) (v : Nat) :
    ((nsOpenRx card vcc d v).2.elim NsTask.idle .opening).Ok
      (nsOpenRx card vcc d v).1.vcmap := by
  unfold nsOpenRx
  dsimp only
  split
  next hopen =>
    show (Function.update d.vcmap _ _ _).rxIov = none
    rw [Function.update_self]
    exact hd.closed _ hopen.2
  next => trivial

theorem NsTask.Ok.of_opens {task : NsTask} {vcmap : Nat → NsRxVc} (h : task.opens = false) :
    task.Ok vcmap := by
  cases task with
  | opening conn => cases h
  | _ => trivial

theorem hand_of_vacant (h : s.Vacant) : s.hand = 0 := by
  rw [NsRx.hand, h.1, h.2]
  rfl

theorem NsRx.Vacant.no_push (h : s.Vacant) {p : NsPush} (hp : s.push = some p) {P : Prop} : P := by
  rw [h.1] at hp
  cases hp

/-- A step of a process that begins or ends there. -/
theorem NsRxInv.vacant (hvacant : s.Vacant) (h : NsRxInv conns s pending) :
    NsRxDrvInv conns s.drv (↑s.taken + ↑(pending.map NsRsqe.bufferHandle)) := by
  have hdrv := h.drv
  rwa [hand_of_vacant hvacant, zero_add] at hdrv

theorem NsRxInv.round (h : NsRxInv card.conns s pending)
    (halone : s.push.any NsPush.swapping = false) (htask : s.task.opens = false)
    (hround : processRsqRound card vcc s = some t) : NsRxKeeps card.conns s t pending.tail := by
  unfold processRsqRound at hround
  dsimp only at hround
  split at hround
  next hvalid =>
    cases Option.some.inj hround
    cases pending with
    | nil => exact absurd hvalid (h.ring.vacant_rd.mpr rfl)
    | cons e pending =>
      have hhead := h.ring.head
      have hvacant : ¬e.init.Valid := fun hne => hne (BitVec.zero_and)
      have hnext : (if s.rsqNext = nsRsqNumEntries - 1 then 0 else s.rsqNext + 1) =
          (s.rsqNext + 1) % nsRsqNumEntries := by
        have hlt := h.ring.rd_lt
        unfold nsRsqNumEntries at hlt ⊢
        split
        · omega
        · omega
      rw [hhead, hnext]
      refine h.beside (h.ring.take hvacant) ?_ rfl rfl (fun hs => ?_) (.of_opens htask)
      · have hdrv := h.drv
        rw [List.map_cons, ← Multiset.cons_coe, Multiset.add_cons, Multiset.add_cons] at hdrv
        exact dequeueRx_step hdrv
      · rw [halone] at hs
        cases hs
  next => cases hround

theorem setAllocs_same (b : NsRxBufs) (allocs : List (Option Word)) :
    SameRxbufs b { b with allocs := allocs } := sameRxbufs_of_pools rfl rfl

/-- The buffers and the place of the process stay as they are. -/
theorem NsRxInv.idle (h : NsRxInv conns s pending) (hrest : s.task.rest = [])
    (waiting : List NsBufType) :
    NsRxKeeps conns s { s with task := .idle, waiting := waiting } pending := by
  have hhand : s.hand = NsRx.hand { s with task := .idle, waiting := waiting } := by
    rw [NsRx.hand, hrest]
    rfl
  have hdrv := h.drv
  rw [hhand] at hdrv
  exact NsRxKeeps.of_inv h.ring hdrv (fun _ _ _ hx => hx) h.push trivial

theorem NsRxInv.adjustTest (h : NsRxInv conns s pending) (hrest : s.task.rest = [])
    (y : NsBufType) : NsRxKeeps conns s (adjustTest s y) pending := by
  unfold DanubeBsp.adjustTest
  split
  · exact h.idle hrest _
  · exact h.idle hrest s.waiting

/-- A buffer that is given back is of a size. -/
theorem recyclePush_count {b : NsRxBufs} {skb : Word} (hs : NsRxBooks b out) (hin : skb ∈ out) :
    ∃ y, recyclePush b skb = some (.count y skb) ∧ skb ∈ (b.pool y).queue := by
  unfold recyclePush
  split
  next h0 => exact ⟨.b0, rfl, h0⟩
  next h0 =>
    split
    next h1 => exact ⟨.b1, rfl, h1⟩
    next h1 =>
      obtain ⟨y, hy⟩ := hs.mem_queue hin
      cases y with
      | b0 => exact absurd hy h0
      | b1 => exact absurd hy h1

/-- A step of `push_rxbufs` in a process. -/
theorem NsRxInv.push_step {p : NsPush} (h : NsRxInv conns s pending) (hp : s.push = some p) :
    NsRxKeeps conns s { s.setBufs (pushRxbufsStep s.drv.bufs p).1 with
      push := (pushRxbufsStep s.drv.bufs p).2 } pending := by
  have hassoc : ∀ m : Multiset Word, s.drv.held conns + (m + ↑s.task.rest +
      (↑s.taken + ↑(pending.map NsRsqe.bufferHandle))) = m + (s.drv.held conns + (↑s.task.rest +
        (↑s.taken + ↑(pending.map NsRsqe.bufferHandle)))) := by
    intro m
    rw [add_assoc m, add_left_comm]
  have hbooks := h.drv.books
  rw [NsRx.hand, hp] at hbooks
  have hkeeps := pushRxbufsStep_keeps ((hassoc p.inHand).symm ▸ hbooks) (h.push p hp)
  have hbooks := hkeeps.books
  have hsize := hkeeps.size
  rw [← hassoc] at hbooks hsize
  exact NsRxKeeps.of_inv h.ring (h.drv.withBufs hbooks hsize) hsize hkeeps.ok h.task

/-- A step of the process in the driver. -/
theorem NsRxInv.process (h : NsRxInv conns s pending) (hstep : nsProcess s = some t) :
    NsRxKeeps conns s t pending := by
  unfold nsProcess at hstep
  dsimp only at hstep
  split at hstep
  next p hp =>
    cases Option.some.inj hstep
    exact h.push_step hp
  next hp =>
    have hhand : s.hand = ↑s.task.rest := by
      rw [NsRx.hand, hp]
      exact zero_add _
    have hdrv := h.drv
    split at hstep
    next => cases hstep
    next conn htask =>
      cases Option.some.inj hstep
      have hok := h.task
      rw [htask] at hok
      rw [nsOpenRxIov_of_none hok]
      exact h.idle (by rw [htask]; rfl) s.waiting
    next skb rest htask =>
      cases Option.some.inj hstep
      rw [hhand, htask] at hdrv
      have hin : skb ∈ s.drv.held conns + (↑(NsTask.close (skb :: rest)).rest +
          (↑s.taken + ↑(pending.map NsRsqe.bufferHandle))) :=
        Multiset.mem_add.mpr (.inr (Multiset.mem_add.mpr
          (.inl (Multiset.mem_coe.mpr List.mem_cons_self))))
      obtain ⟨y, hcount, hmem⟩ := recyclePush_count hdrv.books hin
      rw [hcount]
      have hnew : (↑(NsTask.close (skb :: rest)).rest : Multiset Word) =
          NsRx.hand { s with push := some (.count y skb), task := .close rest } :=
        (Multiset.singleton_add skb ↑rest).symm
      rw [hnew] at hdrv
      refine NsRxKeeps.of_inv h.ring hdrv (fun _ _ _ hx => hx) ?_ trivial
      intro q hq
      cases hq
      exact hmem
    next htask =>
      cases Option.some.inj hstep
      rw [hhand, htask] at hdrv
      have hsame := sameRxbufs_recycleIovBuf s.drv.bufs
      have hnew : (↑(NsTask.close []).rest : Multiset Word) =
          NsRx.hand { s.setBufs (recycleIovBuf s.drv.bufs) with task := .idle } := by
        show 0 = inHand s.push + 0
        rw [hp]
        rfl
      rw [hnew] at hdrv
      refine NsRxKeeps.of_inv h.ring (hdrv.same hsame) ?_ ?_ trivial
      · intro x _ y hx
        show x ∈ ((recycleIovBuf s.drv.bufs).pool y).queue
        rw [(hsame y).1]
        exact hx
      · intro q hq
        have hno : s.push = some q := hq
        rw [hp] at hno
        cases hno
    next y htask =>
      cases Option.some.inj hstep
      exact h.adjustTest (by rw [htask]; rfl) y
    next y l level htask =>
      cases Option.some.inj hstep
      rw [hhand, htask] at hdrv
      have hnew : (↑(NsTask.setLevel y l level).rest : Multiset Word) =
          NsRx.hand { s.setBufs (setBufLev s.drv.bufs y l level) with
            task := level.next.elim .idle (.setLevel y l) } := by
        show 0 = inHand s.push + ↑(level.next.elim NsTask.idle (.setLevel y l)).rest
        rw [hp]
        cases level <;> rfl
      rw [hnew] at hdrv
      have hset : NsRxDrvStep conns s.drv ⟨_, s.drv.vcmap, s.drv.log⟩ _ :=
        hdrv.setBufs (setBufLev_books hdrv.books y l level)
      refine NsRxKeeps.of_inv h.ring hset.inv hset.size ?_ (by cases level <;> trivial)
      intro q hq
      have hno : s.push = some q := hq
      rw [hp] at hno
      cases hno

/-- A new buffer comes into the hands of `NS_ADJBUFLEV`. -/
theorem NsRxInv.adjustFilled (h : NsRxInv conns s pending) (hvacant : s.Vacant) (y : NsBufType)
    (alloc : Option Word) : NsRxKeeps conns s (adjustFilled s y alloc) pending := by
  have hrest : s.task.rest = [] := by rw [hvacant.2]; rfl
  have hsame := setAllocs_same s.drv.bufs [alloc]
  unfold DanubeBsp.adjustFilled
  dsimp only
  cases halloc : { s.drv.bufs with allocs := [alloc] }.allocSkb.1 with
  | none =>
    have hkeeps := h.idle hrest (s.waiting.erase y)
    rw [← hvacant.2] at hkeeps
    exact hkeeps
  | some skb =>
    have hnew : ∀ y', skb ∉ (s.drv.bufs.pool y').queue := by
      intro y'
      have hfresh := allocSkb_new halloc y'
      rw [(sameRxbufs_allocSkb _ y').1, (hsame y').1] at hfresh
      exact hfresh
    have hdrv := h.vacant hvacant
    have hgrown := hdrv.books.grown (t := y) hnew
    have hin : ∀ m : Multiset Word, skb ::ₘ (s.drv.held conns + m) =
        s.drv.held conns + (({skb} + ↑(NsTask.adjust y).rest) + m) := by
      intro m
      have hrest : (↑(NsTask.adjust y).rest : Multiset Word) = 0 := rfl
      rw [hrest, add_zero, Multiset.singleton_add, Multiset.add_cons]
    have hbooks := hgrown.books
    have hsize := hgrown.size
    rw [hin] at hbooks hsize
    refine NsRxKeeps.of_inv h.ring (hdrv.withBufs hbooks hsize) hsize ?_ trivial
    intro q hq
    cases hq
    show skb ∈ ((s.drv.bufs.setPool y _).pool y).queue
    rw [pool_setPool]
    exact List.mem_append_right _ (List.mem_singleton_self skb)

/-- `NS_SETBUFLEV` has checked the levels. -/
theorem NsRxInv.setLevel (h : NsRxInv conns s pending) (hvacant : s.Vacant) (y : NsBufType)
    (nr : NsBufNr) : NsRxKeeps conns s (if hnr : bufLevAdmits nr topB then
      { s with task := .setLevel y ⟨nr, hnr⟩ .min } else s) pending := by
  split
  next hnr =>
    have hhand : s.hand = NsRx.hand { s with task := .setLevel y ⟨nr, hnr⟩ .min } := by
      rw [NsRx.hand, hvacant.2]
      rfl
    have hdrv := h.drv
    rw [hhand] at hdrv
    exact NsRxKeeps.of_inv h.ring hdrv (fun _ _ _ hx => hx) h.push trivial
  next => exact NsRxKeeps.of_inv h.ring h.drv (fun _ _ _ hx => hx) h.push h.task

/-- A socket is opened, and `ns_open` has still to clear `rx_iov`. -/
theorem NsRxInv.opened (h : NsRxInv card.conns s pending) {v : Nat}
    (hstep : nsRxStep card vcc s (.opened v) = some t) : NsRxKeeps card.conns s t pending := by
  obtain ⟨hvacant, ht⟩ := Option.ite_none_right_eq_some.mp hstep
  cases Option.some.inj ht
  have hrest : ((nsOpenRx card vcc s.drv v).2.elim NsTask.idle .opening).rest = s.task.rest := by
    rw [hvacant.2]
    cases (nsOpenRx card vcc s.drv v).2 <;> rfl
  have hopen : NsRxDrvStep card.conns s.drv (nsOpenRx card vcc s.drv v).1 _ :=
    nsOpenRx_step h.drv v
  rw [NsRx.hand, ← hrest] at hopen
  exact NsRxKeeps.of_inv h.ring hopen.inv hopen.size (fun p hp => hvacant.no_push hp)
    (nsOpenRx_task h.drv v)

/-- A socket is closed, and its buffers go into the hands of the process. -/
theorem NsRxInv.closed (h : NsRxInv card.conns s pending) {v : Nat}
    (hstep : nsRxStep card vcc s (.closed v) = some t) : NsRxKeeps card.conns s t pending := by
  unfold nsRxStep at hstep
  dsimp only at hstep
  split at hstep
  next hready =>
    cases Option.some.inj hstep
    have hclose : NsRxDrvStep card.conns s.drv (nsCloseRx card vcc s.drv v).1 _ :=
      nsCloseRx_step (h.vacant hready.1) v
    have hhand : (↑((nsCloseRx card vcc s.drv v).2.getD []) : Multiset Word) =
        inHand s.push + ↑((nsCloseRx card vcc s.drv v).2.elim NsTask.idle .close).rest := by
      rw [hready.1.1]
      cases (nsCloseRx card vcc s.drv v).2 <;> exact (zero_add _).symm
    rw [hhand] at hclose
    refine NsRxKeeps.of_inv h.ring hclose.inv hclose.size (fun p hp => hready.1.no_push hp) ?_
    dsimp only
    cases (nsCloseRx card vcc s.drv v).2 <;> trivial
  next => cases hstep

/-- The card takes the buffer at the head of its queue. -/
theorem NsRxInv.take (h : NsRxInv card.conns s pending) {y : NsBufType}
    (hstep : nsRxStep card vcc s (.take y) = some t) : NsRxKeeps card.conns s t pending := by
  unfold nsRxStep at hstep
  dsimp only at hstep
  split at hstep
  next => cases hstep
  next x rest hfbq =>
    cases Option.some.inj hstep
    have hroom := h.drv.books.room y
    rw [hfbq, List.length_cons] at hroom
    refine h.beside h.ring (h.drv.setBufs (h.drv.books.moved rfl rfl ?_ ?_ ?_ ?_)) rfl rfl ?_ ?_
    · exact Nat.le_of_succ_le hroom
    · refine ⟨?_, ?_⟩
      · intro hcount hlt
        rw [NsRxPool.Counted, hfbq, List.length_cons] at hcount
        unfold topB at hroom
        exact Nat.le_of_succ_le (hcount (by omega))
      · intro hlimit
        rw [hfbq, List.length_cons] at hlimit
        exact Nat.le_of_succ_le hlimit
    · simp only [NsRxPool.idle, hfbq, ← Multiset.coe_add, ← Multiset.cons_coe,
        ← Multiset.singleton_add]
      abel
    · intro z hz
      refine h.drv.books.idle y z ?_
      rcases List.mem_append.mp hz with hz | hz
      · rw [NsRxPool.idle, hfbq]
        exact List.mem_append_left _ (List.mem_cons_of_mem x hz)
      · exact List.mem_append_right _ hz
    · intro _ z
      show ((s.drv.bufs.setPool y _).pool z).handle = _
      by_cases hz : z = y
      · rw [hz, pool_setPool]
      · rw [pool_setPool_ne hz]
    · exact h.task

/-- The card reports a buffer that it has taken. -/
theorem NsRxInv.report (h : NsRxInv card.conns s pending) {x word1 word4 : Word}
    (hstep : nsRxStep card vcc s (.report x word1 word4) = some t) :
    NsRxKeeps card.conns s t (pendingAfter pending (.report x word1 word4)) := by
  unfold nsRxStep at hstep
  dsimp only at hstep
  split at hstep
  next hreport =>
    cases Option.some.inj hstep
    have hroom := h.ring.vacant_wr.mp hreport.2
    have hplaces : (↑(s.taken.erase x) + ↑((pendingAfter pending (.report x word1 word4)).map
        NsRsqe.bufferHandle) : Multiset Word) =
          ↑s.taken + ↑(pending.map NsRsqe.bufferHandle) := by
      have htaken : (↑s.taken : Multiset Word) = x ::ₘ ↑(s.taken.erase x) := by
        rw [← Multiset.coe_erase, Multiset.cons_erase (Multiset.mem_coe.mpr hreport.1)]
      rw [htaken, pendingAfter, List.map_append, ← Multiset.coe_add, List.map_singleton,
        Multiset.coe_singleton, ← Multiset.singleton_add]
      abel
    refine h.beside (h.ring.put hroom ?_) ?_ rfl rfl (fun _ _ => rfl) h.task
    · refine not_not.mpr ?_
      intro hzero
      have hbit := congrArg (fun w : Word => w.getLsbD 31) hzero
      simp at hbit
    · have hdrv := h.drv.stay
      rw [← hplaces] at hdrv
      exact hdrv
  next => cases hstep

/-- Every step keeps the buffers at their places, if the pushes of a process are not disturbed. -/
theorem NsRxInv.step (h : NsRxInv card.conns s pending) {e : NsRxEvent} (halone : StoresAlone s e)
    (hstep : nsRxStep card vcc s e = some t) :
    NsRxKeeps card.conns s t (pendingAfter pending e) := by
  have hswap : ∀ {p : Prop}, s.push.any NsPush.swapping = false →
      s.push.any NsPush.swapping = true → p := by
    intro p hno hs
    rw [hno] at hs
    cases hs
  cases e with
  | opened v => exact h.opened hstep
  | closed v => exact h.closed hstep
  | round allocs charges =>
    have hready : NsRxInv card.conns { s with drv := { s.drv with
        bufs := { s.drv.bufs with allocs := allocs }
        log := { s.drv.log with charges := charges } } } pending :=
      ⟨h.ring, h.drv.same (setAllocs_same _ _), h.push, h.task⟩
    have hkeeps := hready.round halone.1 halone.2 hstep
    refine ⟨hkeeps.inv, ?_⟩
    intro x hx y hmem
    refine hkeeps.size x hx y ?_
    show x ∈ (NsRxBufs.pool { s.drv.bufs with allocs := allocs } y).queue
    rw [(setAllocs_same s.drv.bufs allocs y).1]
    exact hmem
  | attention t allocs =>
    cases Option.some.inj hstep
    have hdrv : NsRxDrvInv card.conns
        ⟨{ s.drv.bufs with allocs := allocs }, s.drv.vcmap, s.drv.log⟩ _ :=
      h.drv.same (setAllocs_same _ _)
    exact h.beside h.ring (.after_same (setAllocs_same _ _)
      (hdrv.setBufs (fbqAttention_books hdrv.books t))) rfl rfl (hswap halone) h.task
  | setLevel y nr =>
    unfold nsRxStep at hstep
    dsimp only at hstep
    split at hstep
    next hvacant =>
      cases Option.some.inj hstep
      exact h.setLevel hvacant y nr
    next => cases hstep
  | adjust t =>
    unfold nsRxStep at hstep
    dsimp only at hstep
    split at hstep
    next hvacant =>
      cases Option.some.inj hstep
      exact h.adjustTest (by rw [hvacant.2]; rfl) t
    next => cases hstep
  | filled t alloc =>
    unfold nsRxStep at hstep
    dsimp only at hstep
    split at hstep
    next hready =>
      cases Option.some.inj hstep
      exact h.adjustFilled hready.1 t alloc
    next => cases hstep
  | process => exact h.process hstep
  | take y => exact h.take hstep
  | write x data =>
    unfold nsRxStep at hstep
    dsimp only at hstep
    split at hstep
    · cases Option.some.inj hstep
      exact h.beside h.ring h.drv.stay rfl rfl (fun _ _ => rfl) h.task
    · cases hstep
  | report x word1 word4 => exact h.report hstep

theorem nsRxEmpty_books (hb iov : Nat) (allocs : List (Option Word)) :
    NsRxBooks { nsRxEmpty hb iov with allocs := allocs } 0 where
  nodup := Multiset.nodup_zero
  total := rfl
  idle t := by cases t <;> exact fun x hx => absurd hx List.not_mem_nil
  level t := by cases t <;> exact show 256 ≤ 508 by omega
  room t := by cases t <;> exact Nat.zero_le _

theorem nsRxInit_inv (conns : Nat) (large small : List (Option Word)) (hb iov : Nat)
    (mem : Word → Nat → Byte) : NsRxInv conns (nsRxInit large small hb iov mem) [] where
  ring := FlagRing.init (show 0 < 512 by omega) fun _ hvalid => hvalid BitVec.zero_and
  drv := by
    have hlarge := nsInitRxbufs_books (nsRxEmpty_books hb iov large) .b1 48
    have hsame : SameRxbufs (nsInitRxbufs .b1 48 { nsRxEmpty hb iov with allocs := large })
        { nsInitRxbufs .b1 48 { nsRxEmpty hb iov with allocs := large } with allocs := small } :=
      sameRxbufs_of_pools rfl rfl
    have hsmall := nsInitRxbufs_books (hlarge.books.same hsame) .b0 48
    have hheld : (nsRxInit large small hb iov mem).drv.held conns = 0 :=
      Finset.sum_eq_zero fun _ _ => rfl
    constructor
    · rw [hheld]
      exact hsmall.books
    · exact fun c iov h => by cases h
    · exact fun _ _ => rfl
    · exact fun _ _ => rfl
  push := fun p hp => by cases hp
  task := trivial

theorem NsRxInv.reported (h : NsRxInv conns s pending) :
    (↑s.reported : Multiset Word) = ↑(pending.map NsRsqe.bufferHandle) := by
  have hperm := h.ring.occupied_perm.map NsRsqe.bufferHandle
  simp only [not_not] at hperm
  exact Multiset.coe_eq_coe.mpr hperm

theorem NsRxInv.run (hs : NsRxInv card.conns s pending) {es : List NsRxEvent}
    (halone : RunMeets (nsRxStep card vcc) StoresAlone s es)
    (h : DanubeBsp.run (nsRxStep card vcc) s es = some t) :
    ∃ pending', NsRxInv card.conns t pending' := by
  have hkeep : ∀ {s t : NsRx} {e : NsRxEvent}, (∃ pending, NsRxInv card.conns s pending) →
      StoresAlone s e → nsRxStep card vcc s e = some t → ∃ pending, NsRxInv card.conns t pending := by
    rintro s t e ⟨pending, hpending⟩ halone hstep
    exact ⟨_, (hpending.step halone hstep).inv⟩
  exact @run_invariant_of_meets _ _ (nsRxStep card vcc) StoresAlone
    (fun s => ∃ pending, NsRxInv card.conns s pending) hkeep _ _ _ ⟨pending, hs⟩ halone h

/-- Along every run of opens, closes, interrupts, changes of the levels and steps of the card, with
any failures of `alloc_skb` and `atm_charge` and any reports of the card, in which no interrupt of the
receiver comes between the test and the stores of a push by a process or between the stores of
`ns_open`, each receive buffer is at one place: it waits for a second, it is in a free buffer queue, the card has taken it, it is in a report
that the driver has not seen, a connection holds it, or `ns_close` or `NS_ADJBUFLEV` has it in its
hands. It stays in the queue of its size, iovecs are a small buffer and at most four large ones, and
the free buffer queues do not overflow. -/
theorem nsRx_buffers_exact (card : NsVcBits) (vcc : Nat → NsRxVcc)
    (large small : List (Option Word)) (hb iov : Nat) (mem : Word → Nat → Byte)
    {es : List NsRxEvent} {s : NsRx}
    (halone : RunMeets (nsRxStep card vcc) StoresAlone (nsRxInit large small hb iov mem) es)
    (h : run (nsRxStep card vcc) (nsRxInit large small hb iov mem) es = some s) :
    (↑s.drv.bufs.b0.queue + ↑s.drv.bufs.b1.queue : Multiset Word).Nodup ∧
      (↑s.drv.bufs.b0.queue + ↑s.drv.bufs.b1.queue : Multiset Word) =
        ↑s.drv.bufs.b0.idle + ↑s.drv.bufs.b1.idle +
          (s.drv.held card.conns + (s.hand + (↑s.taken + ↑s.reported))) ∧
      (∀ t, ∀ x ∈ (s.drv.bufs.pool t).idle, x ∈ (s.drv.bufs.pool t).queue) ∧
      (∀ c iov, (s.drv.vcmap c).rxIov = some iov → IovOk s.drv.bufs iov) ∧
      ∀ t, (s.drv.bufs.pool t).fbq.length < 512 := by
  obtain ⟨pending, hpending⟩ := (nsRxInit_inv card.conns large small hb iov mem).run halone h
  have hbooks := hpending.drv.books
  rw [← hpending.reported] at hbooks
  refine ⟨hbooks.nodup, hbooks.total, hbooks.idle, hpending.drv.ok, ?_⟩
  intro t
  have hroom := hbooks.room t
  unfold topB at hroom
  omega

end Runs

/-- A card with two bits for the VPI and ten for the VCI, and a socket for 0/33. -/
def rxBits : NsVcBits := ⟨2, 10, 0⟩

def rxSocket : NsRxVcc := ⟨0, 33, .aal5⟩

/-- Two large and three small buffers, the last of which waits. -/
def rxFew : NsRx :=
  nsRxInit [some 0x1000#32, some 0x2000#32] [some 0x3000#32, some 0x4000#32, some 0x5000#32] 4 128
    fun _ _ => 0

/-- A connection is closed while it holds a buffer, and the push of it has tested what waits. -/
def closingRun : List NsRxEvent :=
  [.opened 0, .process, .take .b0, .take .b0, .report 0x4000#32 33#32 0x5#32, .round [] [],
    .closed 0, .process, .process, .process]

theorem nsRx_buffers_exact_closed :
    ∃ s, run (nsRxStep rxBits fun _ => rxSocket) rxFew (closingRun ++ [.process, .process,
        .report 0x3000#32 33#32 0x5#32, .round [] [], .process]) = some s ∧
      (↑s.drv.bufs.b0.queue + ↑s.drv.bufs.b1.queue : Multiset Word) =
        ↑s.drv.bufs.b0.idle + ↑s.drv.bufs.b1.idle +
          (s.drv.held rxBits.conns + (s.hand + (↑s.taken + ↑s.reported))) := by
  have hrun : (run (nsRxStep rxBits fun _ => rxSocket) rxFew (closingRun ++ [.process, .process,
      .report 0x3000#32 33#32 0x5#32, .round [] [], .process])).isSome = true := by
    decide +kernel
  have halone : RunMeets (nsRxStep rxBits fun _ => rxSocket) StoresAlone rxFew (closingRun ++
      [.process, .process, .report 0x3000#32 33#32 0x5#32, .round [] [], .process]) := by
    decide +kernel
  obtain ⟨s, hs⟩ := Option.isSome_iff_exists.mp hrun
  exact ⟨s, hs, (nsRx_buffers_exact _ _ _ _ _ _ _ halone hs).2.1⟩

-- an interrupt before the stores pushes the buffer that waits, and the process pushes it again
example : (run (nsRxStep rxBits fun _ => rxSocket) rxFew (closingRun ++
    [.report 0x3000#32 33#32 0x5#32, .round [] [], .process, .process, .process])).any
      (fun s => s.drv.bufs.b0.fbq.count 0x5000#32 == 2) = true := by
  decide +kernel

-- a report that the last owner of the connection has left comes between the stores of `ns_open`
example : (run (nsRxStep rxBits fun _ => rxSocket) rxFew [.opened 0, .process, .take .b0,
    .report 0x4000#32 33#32 0x5#32, .closed 0, .opened 0, .round [] [], .process]).any
      (fun s => decide (0x4000#32 ∉ s.drv.bufs.b0.idle ++ s.taken ++ s.reported) &&
        (s.drv.vcmap (rxSocket.conn rxBits)).rxIov.isNone) = true := by
  decide +kernel

end DanubeBsp
