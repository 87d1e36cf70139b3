import Mathlib.Data.List.Basic
import Mathlib.Data.List.Range
import DanubeBsp.ByteOrder

namespace DanubeBsp

def nandCmdRead0 : Byte := 0x00

def nandCmdRead1 : Byte := 0x01

def nandCmdPageprog : Byte := 0x10

def nandCmdReadoob : Byte := 0x50

def nandCmdErase1 : Byte := 0x60

def nandCmdStatus : Byte := 0x70

def nandCmdSeqin : Byte := 0x80

def nandCmdErase2 : Byte := 0xd0

def nandCmdReset : Byte := 0xff

inductive NandCommand where
  | read0
  | read1
  | readoob
  | seqin
  | pageprog
  | erase1
  | erase2
  | status
  | reset
  deriving DecidableEq

def NandCommand.code : NandCommand → Byte
  | .read0 => nandCmdRead0
  | .read1 => nandCmdRead1
  | .readoob => nandCmdReadoob
  | .seqin => nandCmdSeqin
  | .pageprog => nandCmdPageprog
  | .erase1 => nandCmdErase1
  | .erase2 => nandCmdErase2
  | .status => nandCmdStatus
  | .reset => nandCmdReset

/-- A call of `danube_cmdfunc`. An argument of -1 is `none`. -/
structure NandCall where
  command : NandCommand
  column : Option (Fin 528)
  page : Option (Fin (2 ^ 24))
  deriving DecidableEq

/-- A byte on the bus of the chip. -/
inductive NandBus where
  | cmd (b : Byte)
  | addr (b : Byte)
  | data (b : Byte)
  deriving DecidableEq

/-- What `danube_cmdfunc` puts on the bus. The waits and the test of the status after a reset are left
out; `ADDR_OVER` is the last address byte. -/
def danubeCmdfunc (c : NandCall) : List NandBus :=
  .cmd c.command.code ::
    ((match c.column with
      | some column => [.addr (BitVec.ofNat 8 column.val)]
      | none => []) ++
    (match c.page with
      | some page =>
        [.addr (BitVec.ofNat 8 page.val), .addr (BitVec.ofNat 8 (page.val >>> 8)),
          .addr (BitVec.ofNat 8 (page.val >>> 16))]
      | none => []) ++
    (if c.command = .reset then [.cmd nandCmdStatus] else []))

/-- The areas of a page of 512 + 16 bytes. -/
inductive NandArea where
  | first
  | second
  | spare
  deriving DecidableEq

namespace NandArea

def base : NandArea → Nat
  | .first => 0
  | .second => 256
  | .spare => 512

def size : NandArea → Nat
  | .first => 256
  | .second => 256
  | .spare => 16

/-- Where a column byte leads to. The spare area has four address bits. -/
def locate (a : NandArea) (b : Byte) : Nat := a.base + b.toNat % a.size

def Holds (a : NandArea) (column : Nat) : Prop := a.base ≤ column ∧ column < a.base + a.size

instance (a : NandArea) (column : Nat) : Decidable (a.Holds column) :=
  inferInstanceAs (Decidable (_ ∧ _))

end NandArea

/-- A byte of the flash, by page and column. -/
structure NandCell where
  page : Nat
  column : Nat
  deriving DecidableEq

/-- The chip: its area pointer, the command and the address bytes since, the cell that comes next, and
the data bytes with the cells for which they are. -/
structure NandChip where
  area : NandArea
  command : Byte
  addrs : List Byte
  cursor : Option NandCell
  loaded : List (NandCell × Byte)
  deriving DecidableEq

namespace NandChip

/-- The area that a command byte selects. -/
def areaOf (b : Byte) : Option NandArea :=
  if b = nandCmdRead0 then some .first
  else if b = nandCmdRead1 then some .second
  else if b = nandCmdReadoob then some .spare
  else none

/-- The cell of a whole address: one column byte and three page bytes. -/
def cellOf (a : NandArea) : List Byte → Option NandCell
  | [column, p0, p1, p2] =>
    some ⟨p0.toNat + p1.toNat * 2 ^ 8 + p2.toNat * 2 ^ 16, a.locate column⟩
  | _ => none

def step (chip : NandChip) : NandBus → NandChip
  | .cmd b =>
    { chip with
      area := (areaOf b).getD chip.area
      command := b
      addrs := []
      cursor := none }
  | .addr b =>
    { chip with
      addrs := chip.addrs ++ [b]
      cursor := cellOf chip.area (chip.addrs ++ [b]) }
  | .data b =>
    match chip.cursor with
    | some cell =>
      if chip.command = nandCmdSeqin then
        { chip with
          cursor := some ⟨cell.page, cell.column + 1⟩
          loaded := chip.loaded ++ [(cell, b)] }
      else chip
    | none => chip

def feed (chip : NandChip) (bytes : List NandBus) : NandChip := bytes.foldl step chip

def call (chip : NandChip) (c : NandCall) : NandChip := chip.feed (danubeCmdfunc c)

def calls (chip : NandChip) (cs : List NandCall) : NandChip := cs.foldl call chip

/-- The cells of the next `n` bytes that the chip gives out. -/
def output (chip : NandChip) (n : Nat) : List NandCell :=
  match chip.cursor with
  | some cell => (List.range n).map fun i => ⟨cell.page, cell.column + i⟩
  | none => []

end NandChip

/-- The column that a command and its column argument denote: the reads count from their area. -/
def NandCommand.denotes : NandCommand → Nat → Nat
  | .read0, column => column
  | .read1, column => 256 + column
  | .readoob, column => 512 + column
  | _, column => column

/-- The cells from a column on. -/
def cellsFrom (page column n : Nat) : List NandCell :=
  (List.range n).map fun i => ⟨page, column + i⟩

/-- The data bytes after a SEQIN go to its column and page, and a read gives out what it denotes. -/
def CallRight (chip : NandChip) (c : NandCall) : Prop :=
  match c with
  | ⟨.seqin, some column, some page⟩ => ∀ bytes : List Byte,
    ((chip.call c).feed (bytes.map .data)).loaded =
      chip.loaded ++ (cellsFrom page column bytes.length).zip bytes
  | ⟨.read0, some column, some page⟩ => ∀ n,
    (chip.call c).output n = cellsFrom page (NandCommand.read0.denotes column) n
  | ⟨.read1, some column, some page⟩ => ∀ n,
    (chip.call c).output n = cellsFrom page (NandCommand.read1.denotes column) n
  | ⟨.readoob, some column, some page⟩ => ∀ n,
    (chip.call c).output n = cellsFrom page (NandCommand.readoob.denotes column) n
  | _ => True

/-- The area that the last read command of a list selects. -/
def areaAfter (a : NandArea) (cs : List NandCall) : NandArea :=
  cs.foldl (fun a c => (NandChip.areaOf c.command.code).getD a) a

/-- A SEQIN has its column in the selected area, and a read has its column in its own one. -/
def CallInArea (a : NandArea) (c : NandCall) : Prop :=
  match c with
  | ⟨.seqin, some column, some _⟩ => a.Holds column
  | ⟨.read0, some column, some _⟩ => column.val < 256
  | ⟨.read1, some column, some _⟩ => column.val < 256
  | ⟨.readoob, some column, some _⟩ => column.val < 16
  | _ => True

def CallsRight (chip : NandChip) (cs : List NandCall) : Prop :=
  ∀ before c, before ++ [c] <+: cs → CallRight (chip.calls before) c

def CallsInArea (a : NandArea) (cs : List NandCall) : Prop :=
  ∀ before c, before ++ [c] <+: cs → CallInArea (areaAfter a before) c

section Cells

variable {page page' column column' n : Nat}

theorem cellsFrom_succ : cellsFrom page column (n + 1) =
    ⟨page, column⟩ :: cellsFrom page (column + 1) n := by
  rw [cellsFrom, List.range_succ_eq_map, List.map_cons, List.map_map]
  refine congrArg (List.cons _) (List.map_congr_left fun i _ => ?_)
  simp only [Function.comp_apply, NandCell.mk.injEq, true_and]
  omega

theorem cellsFrom_one : cellsFrom page column 1 = [⟨page, column⟩] := cellsFrom_succ

end Cells

namespace NandChip

section Bus

variable {chip : NandChip} {cell : NandCell}

@[simp] theorem feed_nil : chip.feed [] = chip := rfl

@[simp] theorem feed_cons (b : NandBus) (bs : List NandBus) :
    chip.feed (b :: bs) = (chip.step b).feed bs := rfl

/-- Data bytes go to the cells from the cursor on. -/
theorem feed_data (bytes : List Byte) (hcommand : chip.command = nandCmdSeqin)
    (hcursor : chip.cursor = some cell) : (chip.feed (bytes.map .data)).loaded =
      chip.loaded ++ (cellsFrom cell.page cell.column bytes.length).zip bytes := by
  induction bytes generalizing chip cell with
  | nil => simp [cellsFrom]
  | cons b bytes ih =>
    have hstep : chip.step (.data b) =
        { chip with
          cursor := some ⟨cell.page, cell.column + 1⟩
          loaded := chip.loaded ++ [(cell, b)] } := by
      simp only [step, hcursor, hcommand, if_true]
    have hrest := @ih (chip.step (.data b)) ⟨cell.page, cell.column + 1⟩
      (by rw [hstep]; exact hcommand) (by rw [hstep])
    rw [List.map_cons, feed_cons, hrest, hstep, List.length_cons, cellsFrom_succ,
      List.zip_cons_cons, List.append_assoc]
    rfl

theorem output_of_cursor (n : Nat) (hcursor : chip.cursor = some cell) :
    chip.output n = cellsFrom cell.page cell.column n := by
  simp only [output, hcursor, cellsFrom]

/-- The four address bytes lead to the page and to the low byte of the column. -/
theorem cellOf_bytes (a : NandArea) (column : Byte) (page : Fin (2 ^ 24)) :
    cellOf a [column, BitVec.ofNat 8 page.val, BitVec.ofNat 8 (page.val >>> 8),
      BitVec.ofNat 8 (page.val >>> 16)] = some ⟨page.val, a.locate column⟩ := by
  have hpage := page.isLt
  simp only [cellOf, BitVec.toNat_ofNat, Nat.shiftRight_eq_div_pow, Option.some.injEq,
    NandCell.mk.injEq, and_true]
  omega

theorem call_area (c : NandCall) :
    (chip.call c).area = (areaOf c.command.code).getD chip.area := by
  obtain ⟨command, column, page⟩ := c
  cases command <;> cases column <;> cases page <;> rfl

theorem calls_area (cs : List NandCall) : (chip.calls cs).area = areaAfter chip.area cs := by
  induction cs generalizing chip with
  | nil => rfl
  | cons c cs ih =>
    show ((chip.call c).calls cs).area = areaAfter ((areaOf c.command.code).getD chip.area) cs
    rw [ih, call_area]

/-- A call with both arguments leaves the chip at the page, in the area selected by then. -/
theorem call_cursor {command : NandCommand} (hcommand : command ≠ .reset) (column : Fin 528)
    (page : Fin (2 ^ 24)) :
    (chip.call ⟨command, some column, some page⟩).command = command.code ∧
      (chip.call ⟨command, some column, some page⟩).loaded = chip.loaded ∧
      (chip.call ⟨command, some column, some page⟩).cursor = some ⟨page.val,
        ((areaOf command.code).getD chip.area).locate (BitVec.ofNat 8 column.val)⟩ := by
  unfold call danubeCmdfunc
  rw [if_neg hcommand]
  exact ⟨rfl, rfl, cellOf_bytes _ _ page⟩

end Bus

end NandChip

section Calls

variable {chip : NandChip}

/-- The low byte of a column leads to it just if the area holds it. -/
theorem locate_eq_iff (a : NandArea) (column : Fin 528) :
    a.locate (BitVec.ofNat 8 column.val) = column.val ↔ a.Holds column.val := by
  have hcolumn := column.isLt
  cases a <;>
    simp only [NandArea.locate, NandArea.Holds, NandArea.base, NandArea.size,
      BitVec.toNat_ofNat] <;>
    omega

theorem cursor_right_iff {cell : NandCell} {page column : Nat} (hpage : cell.page = page) :
    (∀ n, cellsFrom cell.page cell.column n = cellsFrom page column n) ↔ cell.column = column := by
  constructor
  · intro h
    have hone := h 1
    rw [cellsFrom_one, cellsFrom_one] at hone
    exact (NandCell.mk.inj (List.singleton_inj.mp hone)).2
  · intro h n
    rw [hpage, h]

theorem seqin_right_iff (column : Fin 528) (page : Fin (2 ^ 24)) :
    CallRight chip ⟨.seqin, some column, some page⟩ ↔ chip.area.Holds column.val := by
  obtain ⟨hcommand, hloaded, hcursor⟩ :=
    @NandChip.call_cursor chip .seqin NandCommand.noConfusion column page
  have hdata := fun bytes => NandChip.feed_data bytes hcommand hcursor
  rw [hloaded] at hdata
  rw [← locate_eq_iff chip.area column]
  constructor
  · intro h
    have hone := (hdata [0]).symm.trans (h [0])
    simp only [List.length_singleton, cellsFrom_one, List.zip_cons_cons, List.zip_nil_right,
      List.append_cancel_left_eq, List.cons.injEq, Prod.mk.injEq, NandCell.mk.injEq] at hone
    exact hone.1.1.2
  · intro h bytes
    have hplace : ((NandChip.areaOf NandCommand.seqin.code).getD chip.area).locate
        (BitVec.ofNat 8 column.val) = column.val := h
    rw [hdata bytes, hplace]

theorem read_right_iff {command : NandCommand} {area : NandArea} {column : Fin 528}
    (hreset : command ≠ .reset) (harea : NandChip.areaOf command.code = some area)
    (page : Fin (2 ^ 24)) (denoted : Nat) :
    (∀ n, (chip.call ⟨command, some column, some page⟩).output n = cellsFrom page.val denoted n) ↔
      area.locate (BitVec.ofNat 8 column.val) = denoted := by
  obtain ⟨-, -, hcursor⟩ := @NandChip.call_cursor chip command hreset column page
  rw [harea] at hcursor
  have hout := fun n => NandChip.output_of_cursor n hcursor
  simp only [hout]
  exact @cursor_right_iff ⟨page.val, area.locate (BitVec.ofNat 8 column.val)⟩ page.val denoted rfl

/-- A call does what it should just if its column is in the area that counts for it. -/
theorem callRight_iff (c : NandCall) : CallRight chip c ↔ CallInArea chip.area c := by
  obtain ⟨command, column, page⟩ := c
  cases column with
  | none => cases command <;> exact Iff.rfl
  | some column =>
    have hcolumn := column.isLt
    cases page with
    | none => cases command <;> exact Iff.rfl
    | some page =>
      cases command with
      | seqin => exact seqin_right_iff column page
      | read0 =>
        refine (read_right_iff NandCommand.noConfusion rfl page _).trans ?_
        simp only [NandArea.locate, NandArea.base, NandArea.size, BitVec.toNat_ofNat,
          NandCommand.denotes, CallInArea]
        omega
      | read1 =>
        refine (read_right_iff NandCommand.noConfusion rfl page _).trans ?_
        simp only [NandArea.locate, NandArea.base, NandArea.size, BitVec.toNat_ofNat,
          NandCommand.denotes, CallInArea]
        omega
      | readoob =>
        refine (read_right_iff NandCommand.noConfusion rfl page _).trans ?_
        simp only [NandArea.locate, NandArea.base, NandArea.size, BitVec.toNat_ofNat,
          NandCommand.denotes, CallInArea]
        omega
      | pageprog => exact Iff.rfl
      | erase1 => exact Iff.rfl
      | erase2 => exact Iff.rfl
      | status => exact Iff.rfl
      | reset => exact Iff.rfl

end Calls

/-- In any sequence of calls, all do what they should just if each has its column in the area that
counts for it after the calls before. -/
theorem nand_calls_right_iff (chip : NandChip) (cs : List NandCall) :
    CallsRight chip cs ↔ CallsInArea chip.area cs := by
  have hcall (before : List NandCall) (c : NandCall) :
      CallRight (chip.calls before) c ↔ CallInArea (areaAfter chip.area before) c := by
    rw [callRight_iff, NandChip.calls_area]
  constructor
  · intro h before c hprefix
    exact (hcall before c).mp (h before c hprefix)
  · intro h before c hprefix
    exact (hcall before c).mpr (h before c hprefix)

/-- After a page read, a spare byte written as the MTD layer does it goes to the start of the page. -/
theorem nand_oob_write_misplaced :
    ¬CallsRight ⟨.spare, nandCmdReset, [], none, []⟩
      [⟨.read0, some 0, some 5⟩, ⟨.seqin, some 512, some 5⟩] := by
  intro h
  have hseqin : NandArea.first.Holds 512 := (callRight_iff _).mp
    (h [⟨.read0, some 0, some 5⟩] ⟨.seqin, some 512, some 5⟩ (List.prefix_refl _))
  exact absurd hseqin (by decide)

end DanubeBsp
