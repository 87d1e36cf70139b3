import DanubeBsp.NicstarRxDeliver

namespace DanubeBsp

/-- Where the cells of the connection are: in PDUs that the driver is done with, in the buffers that
it has seen of the PDU after them, and in buffers of which the reports are pending. -/
structure NsLineData where
  done : List (List NsCell)
  held : List NsLineBuf
  reps : List NsLineBuf

/-- The cells are at their places, and the buffers are as the card fills them. -/
structure LineShape (fresh : Bool) (cur : Option NsLineBuf) (cells : List NsCell) (g : NsLineData) :
    Prop where
  cells_eq : cells = g.done.flatten ++ bufCells (g.held ++ g.reps ++ cur.toList)
  groups : ∀ c ∈ g.done, IsGroup NsCell.eopdu c
  chain : Chained true (g.held ++ g.reps)
  next : fresh = freshAfter true (g.held ++ g.reps)
  shape : ∀ b ∈ g.held ++ g.reps, b.Shape
  opened : ∀ b ∈ g.held, endsPdu b.cells = false
  body : ∀ b ∈ cur, ∀ x ∈ b.cells.dropLast, x.eopdu = false
  cur_fresh : ∀ b ∈ cur, b.fresh = fresh

/-- What the driver keeps of the PDU that is not complete. If it keeps nothing the PDU is lost: it
has no SDU, or `owed` drops were counted. -/
def Kept (rxIov : Option (List NsIov)) (held : List NsLineBuf) (owed : Nat) : Prop :=
  match rxIov with
  | some iov => held ≠ [] ∧ iov = held.map NsLineBuf.iov
  | none => held ≠ [] → ∀ more, (cellSdu (bufCells held ++ more)).toList.length ≤ owed

/-- The buffers that the driver will still read. -/
def NsLineData.live (g : NsLineData) (rxIov : Option (List NsIov)) : List NsLineBuf :=
  (if rxIov.isSome then g.held else []) ++ g.reps

section Shape

variable {fresh : Bool} {cells : List NsCell} {g : NsLineData} {b : NsLineBuf} {x : NsCell}
  {cur : Option NsLineBuf} {done : List (List NsCell)} {held reps : List NsLineBuf}

theorem LineShape.buffer (h : LineShape fresh none cells g) (handle : Word) :
    LineShape fresh (some ⟨handle, fresh, []⟩) cells g where
  cells_eq := by
    have hcells := h.cells_eq
    rw [Option.toList_none, List.append_nil] at hcells
    rw [Option.toList_some, bufCells_concat, List.append_nil]
    exact hcells
  groups := h.groups
  chain := h.chain
  next := h.next
  shape := h.shape
  opened := h.opened
  body b hb := by
    cases Option.some.inj hb
    exact fun x hx => absurd hx List.not_mem_nil
  cur_fresh b hb := by
    cases Option.some.inj hb
    rfl

theorem LineShape.cell (h : LineShape fresh (some b) cells g) (hopen : b.complete = false)
    (x : NsCell) :
    LineShape fresh (some { b with cells := b.cells ++ [x] }) (cells ++ [x]) g where
  cells_eq := by
    rw [h.cells_eq, Option.toList_some, Option.toList_some, bufCells_concat, bufCells_concat]
    simp only [List.append_assoc]
  groups := h.groups
  chain := h.chain
  next := h.next
  shape := h.shape
  opened := h.opened
  body b' hb' := by
    cases Option.some.inj hb'
    show ∀ y ∈ (b.cells ++ [x]).dropLast, y.eopdu = false
    rw [List.dropLast_concat]
    exact eopdu_of_open (h.body b rfl) (Bool.or_eq_false_iff.mp hopen).1
  cur_fresh b' hb' := by
    cases Option.some.inj hb'
    exact h.cur_fresh b rfl

theorem LineShape.report (h : LineShape fresh (some b) cells g) (hcomplete : b.complete = true) :
    LineShape (endsPdu b.cells) none cells { g with reps := g.reps ++ [b] } where
  cells_eq := by
    rw [h.cells_eq, Option.toList_some, Option.toList_none, List.append_nil, List.append_assoc]
  groups := h.groups
  chain := by
    show Chained true (g.held ++ (g.reps ++ [b]))
    rw [← List.append_assoc, chained_append]
    refine ⟨h.chain, ?_, trivial⟩
    rw [h.cur_fresh b rfl]
    exact h.next
  next := by
    show _ = freshAfter true (g.held ++ (g.reps ++ [b]))
    rw [← List.append_assoc, freshAfter_concat]
  shape b' hb' := by
    have hin : b' ∈ g.held ++ g.reps ++ [b] := by
      rw [List.append_assoc]
      exact hb'
    rcases List.mem_append.mp hin with hin | hin
    · exact h.shape b' hin
    · rw [List.mem_singleton.mp hin]
      have hends : endsPdu b.cells = false → b.cells.length = nsBufCells b.fresh := by
        intro hopen
        rw [NsLineBuf.complete, hopen, Bool.false_or] at hcomplete
        exact eq_of_beq hcomplete
      refine ⟨?_, h.body b rfl, hends⟩
      intro hnil
      have hlen := hends (by rw [hnil]; rfl)
      rw [hnil, nsBufCells] at hlen
      split at hlen <;> cases hlen
  opened := h.opened
  body b' hb' := by cases hb'
  cur_fresh b' hb' := by cases hb'

/-- The driver sees a buffer that does not end its PDU. -/
theorem LineShape.kept (h : LineShape fresh cur cells ⟨done, held, b :: reps⟩)
    (hopen : endsPdu b.cells = false) :
    LineShape fresh cur cells ⟨done, held ++ [b], reps⟩ where
  cells_eq := by
    rw [h.cells_eq]
    simp only [List.append_assoc, List.cons_append, List.nil_append]
  groups := h.groups
  chain := by
    have hchain := h.chain
    rwa [List.append_cons] at hchain
  next := by
    have hnext := h.next
    rwa [List.append_cons] at hnext
  shape := by
    have hshape := h.shape
    rwa [List.append_cons] at hshape
  opened b' hb' := by
    rcases List.mem_append.mp hb' with hb' | hb'
    · exact h.opened b' hb'
    · rw [List.mem_singleton.mp hb']
      exact hopen
  body := h.body
  cur_fresh := h.cur_fresh

/-- The cells of buffers that end no PDU. -/
theorem held_open (hopen : ∀ b ∈ held, endsPdu b.cells = false) (hshape : ∀ b ∈ held, b.Shape) :
    ∀ x ∈ bufCells held, x.eopdu = false := by
  intro x hx
  obtain ⟨b, hb, hxb⟩ := List.mem_flatMap.mp hx
  exact eopdu_of_open (hshape b hb).body (hopen b hb) x hxb

/-- The driver sees the last buffer of a PDU. -/
theorem LineShape.ended (h : LineShape fresh cur cells ⟨done, held, b :: reps⟩)
    (hends : endsPdu b.cells = true) :
    LineShape fresh cur cells ⟨done ++ [bufCells (held ++ [b])], [], reps⟩ where
  cells_eq := by
    rw [h.cells_eq]
    simp only [List.flatten_append, List.flatten_cons, List.flatten_nil, List.append_nil,
      List.append_assoc, List.nil_append, ← bufCells_append, List.cons_append]
  groups c hc := by
    rcases List.mem_append.mp hc with hc | hc
    · exact h.groups c hc
    · rw [List.mem_singleton.mp hc, bufCells_concat]
      have hb := h.shape b (List.mem_append_right _ List.mem_cons_self)
      have hheld := held_open h.opened fun y hy => h.shape y (List.mem_append_left _ hy)
      rcases b.cells.eq_nil_or_concat' with hnil | ⟨ys, y, hys⟩
      · exact absurd hnil hb.ne_nil
      · rw [hys, endsPdu_concat] at hends
        rw [hys, ← List.append_assoc]
        refine IsGroup.snoc ?_ hends
        have hbody := hb.body
        rw [hys, List.dropLast_concat] at hbody
        intro z hz
        rcases List.mem_append.mp hz with hz | hz
        · exact hheld z hz
        · exact hbody z hz
  chain := by
    have hchain := h.chain
    rw [List.append_cons, chained_append, freshAfter_concat, hends] at hchain
    exact hchain.2
  next := by
    have hnext := h.next
    rw [List.append_cons, freshAfter_append, freshAfter_concat, hends] at hnext
    exact hnext
  shape b' hb' := h.shape b' (List.mem_append_right _ (List.mem_cons_of_mem b hb'))
  opened b' hb' := absurd hb' List.not_mem_nil
  body := h.body
  cur_fresh := h.cur_fresh

end Shape

section Pdu

variable {s : NsRxBufs} {mem : Word → Nat → Byte} {v : Nat} {e : NsRsqe} {l : NsRxLog}
  {rxIov : Option (List NsIov)} {held : List NsLineBuf} {b : NsLineBuf} {owed : Nat}
  {rest : Multiset Word}

theorem NsRsqe.Tells.iov (h : e.Tells b) : e.iov = b.iov := by
  rw [NsRsqe.iov, NsLineBuf.iov, h.1, h.2.1]

theorem badCrc_concat (cs : List NsCell) (hne : b.cells ≠ []) :
    badCrc (cs ++ b.cells) = badCrc b.cells := by
  rw [badCrc, badCrc, List.getLast?_append_of_ne_nil _ hne]

/-- The SDU of a PDU whose last buffer is `b`. -/
theorem pduSdu_told (held : List NsLineBuf) (htells : e.Tells b) (hshape : b.Shape)
    (hends : endsPdu b.cells = true)
    (hbytes : iovBytes mem ((held ++ [b]).map NsLineBuf.iov) = cellBytes (bufCells (held ++ [b]))) :
    pduSdu e.crcerr (iovBytes mem ((held ++ [b]).map NsLineBuf.iov)) =
      cellSdu (bufCells (held ++ [b])) := by
  rw [hbytes, htells.2.2.2 hends, cellSdu, bufCells_concat, badCrc_concat _ hshape.ne_nil]

/-- A PDU of more buffers than an iovec has room for has no SDU. -/
theorem cellSdu_long (hchain : Chained true held) (hopen : ∀ y ∈ held, endsPdu y.cells = false)
    (hshape : ∀ y ∈ held, y.Shape) (hfull : held.length = nsMaxIovecs) (more : List NsCell) :
    cellSdu (bufCells held ++ more) = none := by
  cases held with
  | nil => cases hfull
  | cons y ys =>
    obtain ⟨hy, hys⟩ := open_lengths hchain hopen hshape
    have hlen := bufCells_length hys
    have hcount : ys.length = 4 := Nat.succ.inj hfull
    have hall : (bufCells (y :: ys)).length = y.cells.length + (bufCells ys).length := by
      rw [bufCells, List.flatMap_cons, List.length_append]
      rfl
    unfold cellSdu pduSdu
    split
    · rfl
    · refine aal5Sdu_long ?_
      rw [cellBytes_length, List.length_append]
      omega

theorem toList_length_le (r : Option (List Byte)) : r.toList.length ≤ 1 := by
  cases r with
  | none => exact Nat.zero_le 1
  | some d => exact Nat.le_refl 1

/-- What `dequeue_rx` answers for a buffer of the connection. If it ends its PDU, that is delivered
or a drop is counted; if not, the driver keeps it or the PDU is lost. -/
structure BufOutcome (v : Nat) (rxIov : Option (List NsIov)) (held : List NsLineBuf) (owed : Nat)
    (b : NsLineBuf) (l : NsRxLog) (r : Option (List NsIov) × NsRxBufs × NsRxLog) : Prop where
  last : endsPdu b.cells = true → r.1 = none ∧ ∃ new, r.2.2.sdus v = l.sdus v ++ new ∧
    new.Sublist (cellSdu (bufCells (held ++ [b]))).toList ∧
    (cellSdu (bufCells (held ++ [b]))).toList.length + l.dropped v ≤
      new.length + r.2.2.dropped v + owed
  more : endsPdu b.cells = false → r.2.2.sdus v = l.sdus v ∧
    (r.1.isSome = true → held = [] ∨ rxIov.isSome = true) ∧
    ∃ owed', owed' + l.dropped v ≤ owed + r.2.2.dropped v ∧ Kept r.1 (held ++ [b]) owed'

/-- The PDU is lost. -/
theorem BufOutcome.lost {r : Option (List NsIov) × NsRxBufs × NsRxLog}
    (hno : ∀ more, (cellSdu (bufCells held ++ more)).toList.length ≤ owed) (hr : r.1 = none)
    (hpushed : r.2.2.pushed = l.pushed) (hdropped : l.dropped v ≤ r.2.2.dropped v) :
    BufOutcome v rxIov held owed b l r where
  last _ := by
    refine ⟨hr, [], ?_, List.nil_sublist _, ?_⟩
    · rw [sdus_congr hpushed, List.append_nil]
    · have hle := hno b.cells
      rw [bufCells_concat, List.length_nil]
      omega
  more _ := by
    refine ⟨sdus_congr hpushed, ?_, owed, by omega, ?_⟩
    · intro hsome
      rw [hr] at hsome
      cases hsome
    · rw [hr]
      intro _ more
      rw [bufCells_concat, List.append_assoc]
      exact hno (b.cells ++ more)

/-- What `dequeue_rx` does with a buffer of the connection. -/
theorem dequeueAal5_line (hs : NsRxBooks s (e.bufferHandle ::ₘ (iovHandles rxIov + rest)))
    (hok : ∀ iov, rxIov = some iov → IovOk s iov) (htells : e.Tells b)
    (hshape : ∀ y ∈ held ++ [b], y.Shape) (hchain : Chained true (held ++ [b]))
    (hopen : ∀ y ∈ held, endsPdu y.cells = false)
    (hqueue : b.handle ∈ (s.pool (nsBufType b.fresh)).queue)
    (hbytes : held = [] ∨ rxIov.isSome = true →
      iovBytes mem ((held ++ [b]).map NsLineBuf.iov) = cellBytes (bufCells (held ++ [b])))
    (hkept : Kept rxIov held owed) :
    BufOutcome v rxIov held owed b l (dequeueAal5 mem v e rxIov s l) := by
  have hb := hshape b (List.mem_append_right _ (List.mem_singleton_self b))
  have hheld : ∀ y ∈ held, y.Shape := fun y hy => hshape y (List.mem_append_left _ hy)
  have hcells : 1 ≤ e.cellcount := by
    rw [htells.2.1]
    exact List.length_pos_iff.mpr hb.ne_nil
  obtain ⟨hchainHeld, hfresh, -⟩ := chained_append.mp hchain
  have hiov := htells.iov
  have heop := htells.2.2.1
  rw [← htells.1] at hqueue
  by_cases hnil : held = []
  · -- the first buffer of a PDU
    rw [hnil] at hfresh hkept hbytes ⊢
    have hnone : rxIov = none := by
      cases rxIov with
      | none => rfl
      | some iov => exact absurd rfl hkept.1
    have hsmall : e.bufferHandle ∈ s.b0.queue := by
      rw [hfresh] at hqueue
      exact hqueue
    rw [hnone]
    obtain ⟨hlast, hmore⟩ := dequeueAal5_first mem v l hsmall hcells
    constructor
    · intro hends
      obtain ⟨hr, hout⟩ := hlast (heop.trans hends)
      have hsdu := pduSdu_told [] htells hb hends (hbytes (.inl rfl))
      rw [hiov] at hout
      rw [← hsdu]
      obtain ⟨new, hnew, hsub, hcount⟩ := hout.sdus
      exact ⟨hr, new, hnew, hsub, Nat.le_trans hcount (Nat.le_add_right _ _)⟩
    · intro hends
      obtain ⟨hpushed, hcase⟩ := hmore (heop.trans hends)
      refine ⟨sdus_congr hpushed, fun _ => .inl rfl, ?_⟩
      rcases hcase with ⟨hr, hdropped⟩ | ⟨hr, hdropped⟩
      · refine ⟨1, by omega, ?_⟩
        rw [hr]
        exact fun _ more => toList_length_le _
      · refine ⟨0, by omega, ?_⟩
        rw [hr, hiov]
        exact ⟨List.cons_ne_nil _ _, rfl⟩
  · have hlarge : e.bufferHandle ∈ s.b1.queue := by
      rw [hfresh, freshAfter_open hnil hopen] at hqueue
      exact hqueue
    cases rxIov with
    | none =>
      have hno : e.bufferHandle ∉ s.b0.queue := by
        intro hin
        have hlarge' : e.bufferHandle ∈ (s.pool .b1).queue := hlarge
        have hsize := hs.one_size (t := .b0) hin hlarge'
        cases hsize
      obtain ⟨hr, hpushed, hdropped⟩ := dequeueAal5_skip mem v l hno
      exact BufOutcome.lost (hkept hnil) hr hpushed hdropped
    | some iov =>
      obtain ⟨-, hiovHeld⟩ := hkept
      have hlen : iov.length = held.length := by
        rw [hiovHeld, List.length_map]
      by_cases hfull : held.length = nsMaxIovecs
      · obtain ⟨hr, hpushed, hdropped⟩ :=
          dequeueAal5_full mem v l hs (hlen.trans hfull) hlarge
        refine BufOutcome.lost ?_ hr hpushed (Nat.le_of_eq hdropped.symm)
        intro more
        rw [cellSdu_long hchainHeld hopen hheld hfull more]
        exact Nat.zero_le _
      · have hlt : iov.length < nsMaxIovecs :=
          Nat.lt_of_le_of_ne (hok iov rfl).length_le fun heq => hfull (hlen.symm.trans heq)
        have hall : iov ++ [e.iov] = (held ++ [b]).map NsLineBuf.iov := by
          rw [hiov, hiovHeld, List.map_append]
          rfl
        have hsizes : (∀ x ∈ iov.head?, x.len = nsB0BufSize) ∧
            (1 < iov.length → nsB0BufSize + 55 ≤ (iovBytes mem iov).length) := by
          rw [hiovHeld]
          cases held with
          | nil => exact absurd rfl hnil
          | cons y ys =>
            obtain ⟨hy, hys⟩ := open_lengths hchainHeld hopen hheld
            constructor
            · intro x hx
              cases Option.some.inj hx
              show y.cells.length * 48 = 240
              rw [hy]
            · intro hmore
              cases ys with
              | nil => exact absurd hmore (Nat.lt_irrefl 1)
              | cons z zs =>
                have hz := hys z List.mem_cons_self
                rw [List.map_cons, List.map_cons, iovBytes, List.flatMap_cons, List.flatMap_cons,
                  List.length_append, List.length_append, memBytes_length, memBytes_length]
                show 240 + 55 ≤ y.cells.length * 48 + (z.cells.length * 48 + _)
                omega
        obtain ⟨hlast, hmore⟩ := dequeueAal5_next mem v l (hok iov rfl).ne_nil hlt hlarge hcells
          hsizes.1 hsizes.2
        constructor
        · intro hends
          obtain ⟨hr, hout⟩ := hlast (heop.trans hends)
          have hsdu := pduSdu_told held htells hb hends (hbytes (.inr rfl))
          rw [hall, hsdu] at hout
          obtain ⟨new, hnew, hsub, hcount⟩ := hout.sdus
          exact ⟨hr, new, hnew, hsub, Nat.le_trans hcount (Nat.le_add_right _ _)⟩
        · intro hends
          obtain ⟨hr, hlog⟩ := hmore (heop.trans hends)
          refine ⟨by rw [hlog], fun _ => .inr rfl, 0, ?_, ?_⟩
          · rw [hlog]
            omega
          · rw [hr, hall]
            exact ⟨List.append_ne_nil_of_left_ne_nil hnil _, rfl⟩

end Pdu

end DanubeBsp
