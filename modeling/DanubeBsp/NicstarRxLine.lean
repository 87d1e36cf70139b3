import DanubeBsp.NicstarRxPdu

namespace DanubeBsp

/-- A cell that the card has received; `crcerr` is what it has found of the checksum if the cell is
the last of its PDU. -/
structure NsCell where
  payload : List Byte
  full : payload.length = 48
  eopdu : Bool
  crcerr : Bool

def endsPdu (xs : List NsCell) : Bool := xs.getLast?.any NsCell.eopdu

def badCrc (xs : List NsCell) : Bool := xs.getLast?.any NsCell.crcerr

def cellBytes (xs : List NsCell) : List Byte := xs.flatMap NsCell.payload

/-- The SDU in the cells of a PDU. -/
def cellSdu (g : List NsCell) : Option (List Byte) := pduSdu (badCrc g) (cellBytes g)

/-- The SDUs that arrived intact. -/
def intactSdus (cells : List NsCell) : List (List Byte) :=
  (closedGroups NsCell.eopdu [] cells).filterMap cellSdu

/-- The cells carry an SDU in a PDU. -/
def Carries (g : List NsCell) (sdu : List Byte) : Prop :=
  IsGroup NsCell.eopdu g ∧ badCrc g = false ∧ (0 < sdu.length ∧ sdu.length ≤ 65536) ∧
    ∃ uu cpi crc, cellBytes g = aal5Pdu sdu uu cpi crc

theorem Carries.sdu {g : List NsCell} {sdu : List Byte} (h : Carries g sdu) :
    cellSdu g = some sdu := by
  obtain ⟨-, hcrc, ⟨hpos, hlen⟩, uu, cpi, crc, hbytes⟩ := h
  rw [cellSdu, pduSdu, hcrc, hbytes, if_neg Bool.false_ne_true, aal5Sdu_pdu hpos hlen]

/-- What the sender put into PDUs is intact if all cells arrive. -/
theorem intactSdus_sent {gs : List (List NsCell)} {sdus : List (List Byte)}
    (h : List.Forall₂ Carries gs sdus) : intactSdus gs.flatten = sdus := by
  induction h with
  | nil => rfl
  | @cons g sdu gs sdus hfirst _ ih =>
    rw [List.flatten_cons, intactSdus, closedGroups_group hfirst.1,
      List.filterMap_cons_some hfirst.sdu]
    exact congrArg (sdu :: ·) ih

/-- A buffer that the card fills for the connection; `fresh` if it is the first of a PDU. -/
structure NsLineBuf where
  handle : Word
  fresh : Bool
  cells : List NsCell

/-- The cells for which a buffer has room: `NS_B0SIZE` and `NS_B1SIZE`. -/
def nsBufCells (fresh : Bool) : Nat := if fresh then 5 else 341

def nsBufType (fresh : Bool) : NsBufType := if fresh then .b0 else .b1

/-- A buffer is reported when it is full or ends a PDU. -/
def NsLineBuf.complete (b : NsLineBuf) : Bool :=
  endsPdu b.cells || b.cells.length == nsBufCells b.fresh

/-- The driver and the card, and what the card does for one connection: whether its next buffer is
the first of a PDU, the buffer that it fills, and all cells that it has received for the
connection. -/
structure NsRxLine where
  rx : NsRx
  fresh : Bool
  cur : Option NsLineBuf
  cells : List NsCell

/-- A cell is written into a buffer from `pos` on. -/
def writeCell (mem : Nat → Byte) (pos : Nat) (x : NsCell) : Nat → Byte := fun i =>
  if pos ≤ i ∧ i < pos + 48 then x.payload.getD (i - pos) 0 else mem i

/-- The address of an entry is that of the socket. -/
def NsRsqe.For (e : NsRsqe) (c : NsRxVcc) : Prop := e.vpi = c.vpi ∧ e.vci = c.vci

instance (e : NsRsqe) (c : NsRxVcc) : Decidable (e.For c) := inferInstanceAs (Decidable (_ ∧ _))

/-- An entry tells what a buffer holds. -/
def NsRsqe.Tells (e : NsRsqe) (b : NsLineBuf) : Prop :=
  e.bufferHandle = b.handle ∧ e.cellcount = b.cells.length ∧ e.eopdu = endsPdu b.cells ∧
    (endsPdu b.cells = true → e.crcerr = badCrc b.cells)

instance (e : NsRsqe) (b : NsLineBuf) : Decidable (e.Tells b) :=
  inferInstanceAs (Decidable (_ ∧ _ ∧ _ ∧ (_ → _)))

inductive NsLineEvent
  /-- Anything that is not about the connection. -/
  | other (e : NsRxEvent)
  /-- The card takes a buffer for the connection, receives a cell, or reports the buffer. -/
  | buffer
  | cell (x : NsCell)
  | report (word1 word4 : Word)

section Line

variable (card : NsVcBits) (vcc : Nat → NsRxVcc) (v : Nat)

/-- The rest leaves the connection open, and the card does not mix it up with others. -/
def NsRxLine.apart (l : NsRxLine) : NsRxEvent → Bool
  | .closed w => w != v
  | .write h _ => l.cur.all fun b => h != b.handle
  | .report h word1 word4 =>
    l.cur.all (fun b => h != b.handle) && !decide (NsRsqe.For ⟨word1, h, word4⟩ (vcc v))
  | _ => true

def nsLineStep (l : NsRxLine) : NsLineEvent → Option NsRxLine
  | .other e =>
    if l.apart vcc v e then (nsRxStep card vcc l.rx e).map fun s => { l with rx := s } else none
  | .buffer =>
    match l.cur with
    | some _ => none
    | none =>
      (nsRxStep card vcc l.rx (.take (nsBufType l.fresh))).map fun s =>
        { l with rx := s, cur := s.taken.head?.map fun h => ⟨h, l.fresh, []⟩ }
  | .cell x =>
    match l.cur with
    | none => none
    | some b =>
      if b.complete then none
      else
        let data := writeCell (l.rx.mem b.handle) (b.cells.length * 48) x
        (nsRxStep card vcc l.rx (.write b.handle data)).map fun s =>
          { l with
            rx := s
            cur := some { b with cells := b.cells ++ [x] }
            cells := l.cells ++ [x] }
  | .report word1 word4 =>
    match l.cur with
    | none => none
    | some b =>
      let e : NsRsqe := ⟨word1, b.handle, word4 ||| 0x80000000#32⟩
      if b.complete ∧ e.For (vcc v) ∧ e.Tells b then
        (nsRxStep card vcc l.rx (.report b.handle word1 word4)).map fun s =>
          { l with rx := s, fresh := endsPdu b.cells, cur := none }
      else none

end Line

section Shape

variable {fresh : Bool} {xs ys : List NsLineBuf} {b : NsLineBuf} {s t : NsRx} {cs : List NsCell}

theorem endsPdu_concat (cs : List NsCell) (x : NsCell) : endsPdu (cs ++ [x]) = x.eopdu := by
  rw [endsPdu, List.getLast?_concat]
  rfl

theorem eopdu_of_open (hbody : ∀ x ∈ cs.dropLast, x.eopdu = false) (hopen : endsPdu cs = false) :
    ∀ x ∈ cs, x.eopdu = false := by
  rcases cs.eq_nil_or_concat' with rfl | ⟨ys, y, rfl⟩
  · exact fun x hx => absurd hx List.not_mem_nil
  · rw [List.dropLast_concat] at hbody
    rw [endsPdu_concat] at hopen
    intro x hx
    rcases List.mem_append.mp hx with hx | hx
    · exact hbody x hx
    · rw [List.mem_singleton.mp hx]
      exact hopen

theorem cellBytes_append (cs ds : List NsCell) :
    cellBytes (cs ++ ds) = cellBytes cs ++ cellBytes ds := List.flatMap_append

theorem cellBytes_length (cs : List NsCell) : (cellBytes cs).length = cs.length * 48 := by
  induction cs with
  | nil => rfl
  | cons y cs ih =>
    rw [cellBytes, List.flatMap_cons, List.length_append, y.full, List.length_cons]
    rw [cellBytes] at ih
    omega

/-- The cells in buffers. -/
def bufCells (bs : List NsLineBuf) : List NsCell := bs.flatMap NsLineBuf.cells

theorem bufCells_append (xs ys : List NsLineBuf) :
    bufCells (xs ++ ys) = bufCells xs ++ bufCells ys := List.flatMap_append

theorem bufCells_concat (xs : List NsLineBuf) (b : NsLineBuf) :
    bufCells (xs ++ [b]) = bufCells xs ++ b.cells := by
  rw [bufCells_append]
  exact congrArg (bufCells xs ++ ·) (List.append_nil _)

/-- A buffer as the card fills it: only its last cell ends a PDU, and if none does it is full. -/
structure NsLineBuf.Shape (b : NsLineBuf) : Prop where
  ne_nil : b.cells ≠ []
  body : ∀ x ∈ b.cells.dropLast, x.eopdu = false
  full : endsPdu b.cells = false → b.cells.length = nsBufCells b.fresh

/-- The buffer is of its size, and the cells are in it. -/
structure NsLineBuf.Stored (s : NsRx) (b : NsLineBuf) : Prop where
  queue : b.handle ∈ (s.drv.bufs.pool (nsBufType b.fresh)).queue
  bytes : memBytes (s.mem b.handle) (b.cells.length * 48) = cellBytes b.cells

theorem NsLineBuf.Stored.keep (h : b.Stored s) (hmem : t.mem b.handle = s.mem b.handle)
    (hsize : ∀ y, b.handle ∈ (s.drv.bufs.pool y).queue → b.handle ∈ (t.drv.bufs.pool y).queue) :
    b.Stored t where
  queue := hsize _ h.queue
  bytes := by
    rw [hmem]
    exact h.bytes

def NsLineBuf.iov (b : NsLineBuf) : NsIov := ⟨b.handle, b.cells.length * 48⟩

theorem iovBytes_stored (h : ∀ b ∈ xs, b.Stored s) :
    iovBytes s.mem (xs.map NsLineBuf.iov) = cellBytes (bufCells xs) := by
  induction xs with
  | nil => rfl
  | cons b xs ih =>
    have hrest := ih fun y hy => h y (List.mem_cons_of_mem b hy)
    have hfirst : memBytes (s.mem b.iov.base) b.iov.len = cellBytes b.cells :=
      (h b List.mem_cons_self).bytes
    rw [List.map_cons, iovBytes, List.flatMap_cons, hfirst, bufCells, List.flatMap_cons,
      cellBytes_append, ← bufCells, ← hrest]
    rfl

/-- Buffers in their order: a PDU begins with a fresh one. -/
def Chained : Bool → List NsLineBuf → Prop
  | _, [] => True
  | fresh, b :: rest => b.fresh = fresh ∧ Chained (endsPdu b.cells) rest

/-- Whether the buffer after these is fresh. -/
def freshAfter (fresh : Bool) (xs : List NsLineBuf) : Bool :=
  xs.foldl (fun _ b => endsPdu b.cells) fresh

theorem freshAfter_concat (fresh : Bool) (xs : List NsLineBuf) (b : NsLineBuf) :
    freshAfter fresh (xs ++ [b]) = endsPdu b.cells := by
  rw [freshAfter, List.foldl_append]
  rfl

theorem freshAfter_append (fresh : Bool) (xs ys : List NsLineBuf) :
    freshAfter fresh (xs ++ ys) = freshAfter (freshAfter fresh xs) ys := List.foldl_append

theorem chained_append :
    Chained fresh (xs ++ ys) ↔ Chained fresh xs ∧ Chained (freshAfter fresh xs) ys := by
  induction xs generalizing fresh with
  | nil => exact ⟨fun h => ⟨trivial, h⟩, fun h => h.2⟩
  | cons b xs ih =>
    rw [List.cons_append, Chained, ih, Chained, and_assoc]
    rfl

/-- After buffers that end no PDU the next is not fresh. -/
theorem freshAfter_open (hne : xs ≠ []) (hopen : ∀ b ∈ xs, endsPdu b.cells = false) :
    freshAfter fresh xs = false := by
  rcases xs.eq_nil_or_concat' with rfl | ⟨ys, y, rfl⟩
  · exact absurd rfl hne
  · rw [freshAfter_concat]
    exact hopen y (List.mem_append_right ys (List.mem_singleton_self y))

/-- The buffers of a PDU whose last is missing have their full lengths. -/
theorem open_lengths (hchain : Chained true (b :: xs))
    (hopen : ∀ y ∈ b :: xs, endsPdu y.cells = false) (hshape : ∀ y ∈ b :: xs, y.Shape) :
    b.cells.length = 5 ∧ ∀ y ∈ xs, y.cells.length = 341 := by
  have hlater : ∀ ys : List NsLineBuf, Chained false ys →
      (∀ y ∈ ys, endsPdu y.cells = false) → (∀ y ∈ ys, y.Shape) →
      ∀ y ∈ ys, y.cells.length = 341 := by
    intro ys
    induction ys with
    | nil => exact fun _ _ _ y hy => absurd hy List.not_mem_nil
    | cons z ys ih =>
      intro hchain hopen hshape y hy
      have hz := hopen z List.mem_cons_self
      rcases List.mem_cons.mp hy with rfl | hy
      · rw [(hshape y List.mem_cons_self).full hz, hchain.1]
        rfl
      · refine ih ?_ (fun w hw => hopen w (List.mem_cons_of_mem z hw))
          (fun w hw => hshape w (List.mem_cons_of_mem z hw)) y hy
        have hrest := hchain.2
        rwa [hz] at hrest
  have hb := hopen b List.mem_cons_self
  constructor
  · rw [(hshape b List.mem_cons_self).full hb, hchain.1]
    rfl
  · have hrest := hchain.2
    rw [hb] at hrest
    exact hlater xs hrest (fun y hy => hopen y (List.mem_cons_of_mem b hy))
      fun y hy => hshape y (List.mem_cons_of_mem b hy)

theorem bufCells_length (h : ∀ y ∈ xs, y.cells.length = 341) :
    (bufCells xs).length = xs.length * 341 := by
  rw [bufCells, List.length_flatMap, List.map_congr_left h, List.map_const', List.sum_replicate]
  rfl

end Shape

end DanubeBsp
