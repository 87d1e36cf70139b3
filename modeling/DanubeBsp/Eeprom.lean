import DanubeBsp.ByteOrder
import DanubeBsp.Errno

namespace DanubeBsp

def eepromCmdWren : Byte := 0x06#8

def eepromCmdWrdi : Byte := 0x04#8

def eepromCmdRdsr : Byte := 0x05#8

def eepromCmdWrsr : Byte := 0x01#8

def eepromCmdRead : Byte := 0x03#8

def eepromCmdWrite : Byte := 0x02#8

def eepromPageSize : Nat := 4

def eepromSize : Nat := 512

/-! The chip. -/

/-- What differs between chips: the level of the output while they do not drive it, by the number of the
frame and of the byte, how many frames a write goes on for, and whether a status write with bytes too
many is executed. -/
structure EepromChip where
  floating : Nat → Nat → Byte
  writeTime : Nat → Nat
  busyBound : Nat
  writeTime_le : ∀ n, writeTime n ≤ busyBound
  overlong : Bool

/-- The state of the chip: its bytes, the write enable latch, how long a write still goes on, the chip
select line, and what came in since its falling edge. `frames` are the frames so far, the last one
first. -/
structure Eeprom where
  mem : Nat → Byte
  wel : Bool
  wip : Nat
  selected : Bool
  received : List Byte
  frames : List (List Byte)

/-- Bit 8 of the address is bit 3 of the command. -/
def eepromAddr (cmd addr : Byte) : Nat := (if cmd.getLsbD 3 then 256 else 0) + addr.toNat

/-- A page write wraps inside its page. -/
def writePage (mem : Nat → Byte) : Nat → List Byte → Nat → Byte
  | _, [] => mem
  | addr, b :: bs =>
    writePage (Function.update mem addr b)
      (addr / eepromPageSize * eepromPageSize + (addr + 1) % eepromPageSize) bs

def Eeprom.status (s : Eeprom) : Byte :=
  (if s.wip ≠ 0 then 0x01#8 else 0) ||| (if s.wel then 0x02#8 else 0)

/-- What the chip answers to the next byte. -/
def Eeprom.respond (chip : EepromChip) (s : Eeprom) : Byte :=
  match s.received with
  | cmd :: rest =>
    if cmd = eepromCmdRdsr then s.status
    else if cmd &&& 0xf7#8 = eepromCmdRead ∧ s.wip = 0 then
      match rest with
      | addr :: sent => s.mem ((eepromAddr cmd addr + sent.length) % eepromSize)
      | [] => chip.floating s.frames.length s.received.length
    else chip.floating s.frames.length s.received.length
  | [] => chip.floating s.frames.length s.received.length

/-- One byte each way. -/
def Eeprom.shift (chip : EepromChip) (s : Eeprom) (b : Byte) : Eeprom × Byte :=
  if s.selected then ({ s with received := s.received ++ [b] }, s.respond chip)
  else (s, chip.floating s.frames.length 0)

def Eeprom.exchange (chip : EepromChip) (s : Eeprom) : List Byte → Eeprom × List Byte
  | [] => (s, [])
  | b :: bs =>
    let r := s.shift chip b
    let q := Eeprom.exchange chip r.1 bs
    (q.1, r.2 :: q.2)

/-- The execution of the command of a frame; while a write goes on there is none. -/
def Eeprom.execute (chip : EepromChip) (s : Eeprom) : Eeprom :=
  if s.wip ≠ 0 then s
  else
    match s.received with
    | [] => s
    | [cmd] =>
      if cmd = eepromCmdWren then { s with wel := true }
      else if cmd = eepromCmdWrdi then { s with wel := false }
      else s
    | cmd :: arg :: data =>
      if cmd = eepromCmdWrsr then
        if s.wel && (data.isEmpty || chip.overlong) then
          { s with wel := false, wip := chip.writeTime s.frames.length }
        else s
      else if cmd &&& 0xf7#8 = eepromCmdWrite then
        if s.wel && !data.isEmpty then
          { s with
            mem := writePage s.mem (eepromAddr cmd arg) data
            wel := false
            wip := chip.writeTime s.frames.length }
        else s
      else s

def Eeprom.csLow (s : Eeprom) : Eeprom :=
  if s.selected then s else { s with selected := true, received := [] }

/-- The rising edge executes the command; a write that was going on is one frame nearer to its end. -/
def Eeprom.csHigh (chip : EepromChip) (s : Eeprom) : Eeprom :=
  if s.selected then
    let t := s.execute chip
    { t with
      wip := if s.wip ≠ 0 then s.wip - 1 else t.wip
      selected := false
      received := []
      frames := s.received :: s.frames }
  else s

/-! The driver. -/

/-- A session that fails after some bytes, with the error `-(err + 1)`. -/
structure SscFault where
  sent : Nat
  err : Nat

def SscFault.ret (f : SscFault) : Int := -(f.err + 1)

/-- How the calls of the serial port driver go: whether the open and the mode setting fail, and which
sessions, by their number. -/
structure SscServices where
  openErr : Option Int := none
  modeErr : Option Int := none
  fault : Nat → Option SscFault := fun _ => none

/-- The chip with the bytes of the commands as the driver means them, the last command first, and the
number of sessions so far. -/
structure EepromSys where
  dev : Eeprom
  commands : List (List Byte)
  sessions : Nat

section Driver

variable (chip : EepromChip) (o : SscServices)

/-- A command begins. -/
def EepromSys.command (s : EepromSys) : EepromSys := { s with commands := [] :: s.commands }

/-- `ifx_ssc_cs_low(EEPROM_CS)`, which returns 0. -/
def EepromSys.csLow (s : EepromSys) : EepromSys := { s with dev := s.dev.csLow }

/-- `ifx_ssc_cs_high(EEPROM_CS)`, which returns 0. -/
def EepromSys.csHigh (s : EepromSys) : EepromSys := { s with dev := s.dev.csHigh chip }

/-- Bytes go out, as part of the last command. -/
def EepromSys.send (s : EepromSys) (bs : List Byte) : EepromSys × List Byte :=
  let r := s.dev.exchange chip bs
  ({ dev := r.1
     commands := match s.commands with
      | [] => [bs]
      | c :: cs => (c ++ bs) :: cs
     sessions := s.sessions + 1 }, r.2)

/-- `ssc_session`: the bytes of `tx`, then zeros for as long as bytes are to come. `rxLen` is 0 for no
buffer. -/
def sscSession (s : EepromSys) (tx : List Byte) (rxLen : Nat) : EepromSys × Int × List Byte :=
  if tx = [] ∧ rxLen = 0 then (s, eInval, [])
  else
    let bytes := tx ++ List.replicate rxLen 0#8
    match o.fault s.sessions with
    | some f =>
      let r := s.send chip (bytes.take f.sent)
      (r.1, f.ret, [])
    | none =>
      let r := s.send chip bytes
      (r.1, if rxLen = 0 then tx.length else rxLen, r.2.drop tx.length)

def eepromRdsr (s : EepromSys) : EepromSys × Int × Byte :=
  let r := sscSession chip o s.command.csLow [eepromCmdRdsr] 1
  if r.2.1 < 0 then (r.1.csHigh chip, r.2.1, 0)
  else (r.1.csHigh chip, 0, r.2.2.headD 0)

/-- `eeprom_wip_over` for a number of polls. -/
def eepromWipOver : Nat → EepromSys → Option (EepromSys × Int)
  | 0, _ => none
  | polls + 1, s =>
    let r := eepromRdsr chip o s
    if r.2.1 ≠ 0 then some (r.1, r.2.1)
    else if r.2.2 &&& 0x01#8 ≠ 0 then eepromWipOver polls r.1
    else some (r.1, 0)

def eepromWren (polls : Nat) (s : EepromSys) : Option (EepromSys × Int) :=
  let r := sscSession chip o s.command.csLow [eepromCmdWren] 0
  if r.2.1 < 0 then some (r.1.csHigh chip, r.2.1)
  else (eepromWipOver chip o polls (r.1.csHigh chip)).map fun q => (q.1, 0)

def eepromWrsr (polls : Nat) (s : EepromSys) : Option (EepromSys × Int) :=
  (eepromWren chip o polls s).bind fun w =>
    if w.2 ≠ 0 then some w
    else
      let r := sscSession chip o w.1.command.csLow [eepromCmdWrsr, 0#8] 0
      if r.2.1 < 0 then
        (eepromWipOver chip o polls (r.1.csHigh chip)).map fun q => (q.1, r.2.1)
      else (eepromWipOver chip o polls r.1.csLow).map fun q => (q.1, 0)

/-- The command byte with bit 8 of the address. -/
def eepromCmdByte (cmd : Byte) (addr : Nat) : Byte :=
  cmd ||| BitVec.ofNat 8 ((addr &&& 0x100) >>> 5)

def eepromAddrByte (addr : Nat) : Byte := BitVec.ofNat 8 (addr &&& 0xff)

/-- How much goes in one command. -/
def eepromEff (addr len : Nat) : Nat :=
  let eff := eepromPageSize - addr % eepromPageSize
  if eff < len then eff else len

/-- `eeprom_read` for a number of turns of its loop, with the bytes that it has stored. -/
def eepromRead (polls : Nat) : Nat → EepromSys → Nat → Nat →
    Option (EepromSys × Int × List Byte)
  | 0, _, _, _ => none
  | turns + 1, s, addr, len =>
    (eepromWipOver chip o polls s).bind fun w =>
      let eff := eepromEff addr len
      let r := sscSession chip o w.1.command.csLow
        [eepromCmdByte eepromCmdRead addr, eepromAddrByte addr] eff
      if r.2.1 ≠ eff then some (r.1.csHigh chip, r.2.1, [])
      else if len - eff = 0 then some (r.1.csHigh chip, 0, r.2.2)
      else (eepromRead polls turns (r.1.csHigh chip) (addr + eff) (len - eff)).map fun q =>
        (q.1, q.2.1, r.2.2 ++ q.2.2)

/-- `eeprom_write` for a number of turns of its loop. -/
def eepromWrite (polls : Nat) : Nat → EepromSys → Nat → List Byte → Option (EepromSys × Int)
  | 0, _, _, _ => none
  | turns + 1, s, addr, buf =>
    (eepromWipOver chip o polls s).bind fun w =>
      (eepromWren chip o polls w.1).bind fun w =>
        if w.2 ≠ 0 then some w
        else
          let eff := eepromEff addr buf.length
          let r := sscSession chip o w.1.command.csLow
            [eepromCmdByte eepromCmdWrite addr, eepromAddrByte addr] 0
          if r.2.1 < 0 then some (r.1.csHigh chip, r.2.1)
          else
            let q := sscSession chip o r.1 (buf.take eff) 0
            if q.2.1 ≠ eff then some (q.1.csHigh chip, q.2.1)
            else if buf.length - eff = 0 then some (q.1.csHigh chip, 0)
            else eepromWrite polls turns (q.1.csHigh chip) (addr + eff) (buf.drop eff)

/-- `danube_eeprom_kread`, with the bytes that it has stored and the length that it returns. -/
def danubeEepromKread (polls : Nat) (s : EepromSys) (addr len : Nat) :
    Option (EepromSys × List Byte × Nat) :=
  let range := if eepromSize < (addr + len) % 2 ^ 32 then (0, eepromSize / 2) else (addr, len)
  match o.openErr, o.modeErr with
  | some _, _ => some (s, [], range.2)
  | none, some _ => some (s, [], range.2)
  | none, none =>
    (eepromWrsr chip o polls s).bind fun w =>
      if w.2 ≠ 0 then some (w.1, [], range.2)
      else (eepromRead chip o polls (range.2 + 1) w.1 range.1 range.2).map fun r =>
        (r.1, r.2.2, range.2)

/-- `danube_eeprom_kwrite`. -/
def danubeEepromKwrite (polls : Nat) (s : EepromSys) (addr : Nat) (buf : List Byte) :
    Option (EepromSys × Int) :=
  match o.openErr, o.modeErr with
  | some err, _ => some (s, err)
  | none, some err => some (s, err)
  | none, none =>
    (eepromWrsr chip o polls s).bind fun w =>
      if w.2 ≠ 0 then some w else eepromWrite chip o polls (buf.length + 1) w.1 addr buf

end Driver

/-- A chip that is not selected, before any command. -/
def eepromStart (mem : Nat → Byte) (wel : Bool) (wip : Nat) : EepromSys :=
  ⟨⟨mem, wel, wip, false, [], []⟩, [], 0⟩

end DanubeBsp
