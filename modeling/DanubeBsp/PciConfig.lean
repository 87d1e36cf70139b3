import DanubeBsp.ByteOrder

namespace DanubeBsp

/-- The device that an access is for. -/
structure PciDev where
  bus : Byte
  devfn : Byte

/-- What is behind the bridge: the configuration bytes of the functions that exist. `hostSts` is
what the register at `PCI_CFG_BASE + 4` reads as, `hostWrites` is what has been stored to its copy in
the slot of Danube itself. -/
structure PciBus where
  space : Byte → Option (Byte → Byte)
  hostSts : Word
  hostWrites : List Word

/-- Byte `i` of a word, counted from the least significant. -/
def leByte (w : Word) (i : Nat) : Byte := beByte w (3 - i)

/-- The little-endian word at an offset of a configuration space. -/
def cfgDword (bytes : Byte → Byte) (off : Byte) : Word :=
  leWord (bytes off) (bytes (off + 1)) (bytes (off + 2)) (bytes (off + 3))

def putDword (bytes : Byte → Byte) (off : Byte) (d : Word) : Byte → Byte := fun x =>
  if (x - off).toNat < 4 then leByte d (x - off).toNat else bytes x

/-- The bridge swaps the bytes of a word if it is set up to, on the way in and on the way out. -/
def bridgeSwap (hwSwap : Bool) (w : Word) : Word := if hwSwap then swab32 w else w

def PciBus.load (hwSwap : Bool) (s : PciBus) (pciAddr : Word) : Word :=
  match s.space (pciAddr.extractLsb' 8 8) with
  | none => 0xffffffff
  | some bytes => bridgeSwap hwSwap (cfgDword bytes (pciAddr.extractLsb' 0 8))

def PciBus.store (hwSwap : Bool) (s : PciBus) (pciAddr w : Word) : PciBus :=
  let devfn := pciAddr.extractLsb' 8 8
  match s.space devfn with
  | none => s
  | some bytes =>
    { s with
      space := Function.update s.space devfn
        (some (putDword bytes (pciAddr.extractLsb' 0 8) (bridgeSwap hwSwap w))) }

def pciCfgBase : Word := 0xb7000000

/-- Slots that are refused: there are 15, and two of the numbers are Danube itself. -/
def PciDev.Refused (dev : PciDev) : Prop :=
  dev.bus ≠ 0 ∨ dev.devfn &&& 0xf8 > 0x78 ∨ dev.devfn &&& 0xf8 = 0 ∨ dev.devfn &&& 0xf8 = 0x68

instance (dev : PciDev) : Decidable dev.Refused :=
  inferInstanceAs (Decidable (_ ∨ _ ∨ _ ∨ _))

def pciAddr (dev : PciDev) (reg : Byte) : Word :=
  pciCfgBase ||| (dev.bus.setWidth 32 <<< 16) ||| (dev.devfn.setWidth 32 <<< 8) |||
    (reg.setWidth 32 &&& ~~~3#32)

inductive PciAccess
  | read
  | write
  deriving DecidableEq

/-- The result, the data word, and the bus. After the access, a master abort is cleared in the
register of Danube itself. -/
def danubePciConfigAccess (hwSwap : Bool) (s : PciBus) (accessType : PciAccess) (dev : PciDev)
    (reg : Byte) (data : Word) : Int × Word × PciBus :=
  if dev.Refused then (1, data, s)
  else
    let (data, s) :=
      match accessType with
      | .write => (data, s.store hwSwap (pciAddr dev reg) (bridgeSwap hwSwap data))
      | .read => (bridgeSwap hwSwap (s.load hwSwap (pciAddr dev reg)), s)
    let s := { s with hostWrites := s.hostWrites ++ [bridgeSwap hwSwap s.hostSts] }
    if data = 0xffffffff then (1, data, s) else (0, data, s)

def pcibiosSuccessful : Int := 0

def pcibiosBadRegisterNumber : Int := 0x87

/-- The number of bits by which a register number is off its word. -/
def regShift (reg : Word) : Nat := ((reg &&& 3) <<< 3).toNat

/-- The access functions take the register number as an `int`, the access itself as a byte. -/
def danubePciReadConfigByte (hwSwap : Bool) (s : PciBus) (dev : PciDev) (reg : Word) :
    Int × Option Byte × PciBus :=
  let (result, data, s) := danubePciConfigAccess hwSwap s .read dev (reg.setWidth 8) 0
  if result ≠ 0 then (-1, none, s)
  else (pcibiosSuccessful, some (((data >>> regShift reg) &&& 0xff).setWidth 8), s)

def danubePciReadConfigWord (hwSwap : Bool) (s : PciBus) (dev : PciDev) (reg : Word) :
    Int × Option Half × PciBus :=
  if reg &&& 1 ≠ 0 then (pcibiosBadRegisterNumber, none, s)
  else
    let (result, data, s) := danubePciConfigAccess hwSwap s .read dev (reg.setWidth 8) 0
    if result ≠ 0 then (-1, some 0xffff, s)
    else (pcibiosSuccessful, some (((data >>> regShift reg) &&& 0xffff).setWidth 16), s)

def danubePciReadConfigDword (hwSwap : Bool) (s : PciBus) (dev : PciDev) (reg : Word) :
    Int × Option Word × PciBus :=
  if reg &&& 3 ≠ 0 then (pcibiosBadRegisterNumber, none, s)
  else
    let (result, data, s) := danubePciConfigAccess hwSwap s .read dev (reg.setWidth 8) 0
    if result ≠ 0 then (-1, none, s) else (pcibiosSuccessful, some data, s)

def danubePciWriteConfigByte (hwSwap : Bool) (s : PciBus) (dev : PciDev) (reg : Word) (val : Byte) :
    Int × PciBus :=
  let (result, data, s) := danubePciConfigAccess hwSwap s .read dev (reg.setWidth 8) 0
  if result ≠ 0 then (-1, s)
  else
    let data := (data &&& ~~~(0xff#32 <<< regShift reg)) ||| (val.setWidth 32 <<< regShift reg)
    let (result, _, s) := danubePciConfigAccess hwSwap s .write dev (reg.setWidth 8) data
    if result ≠ 0 then (-1, s) else (pcibiosSuccessful, s)

def danubePciWriteConfigWord (hwSwap : Bool) (s : PciBus) (dev : PciDev) (reg : Word) (val : Half) :
    Int × PciBus :=
  if reg &&& 1 ≠ 0 then (pcibiosBadRegisterNumber, s)
  else
    let (result, data, s) := danubePciConfigAccess hwSwap s .read dev (reg.setWidth 8) 0
    if result ≠ 0 then (-1, s)
    else
      let data := (data &&& ~~~(0xffff#32 <<< regShift reg)) ||| (val.setWidth 32 <<< regShift reg)
      let (result, _, s) := danubePciConfigAccess hwSwap s .write dev (reg.setWidth 8) data
      if result ≠ 0 then (-1, s) else (pcibiosSuccessful, s)

def danubePciWriteConfigDword (hwSwap : Bool) (s : PciBus) (dev : PciDev) (reg val : Word) :
    Int × PciBus :=
  if reg &&& 3 ≠ 0 then (pcibiosBadRegisterNumber, s)
  else
    let (result, _, s) := danubePciConfigAccess hwSwap s .write dev (reg.setWidth 8) val
    if result ≠ 0 then (-1, s) else (pcibiosSuccessful, s)

/-! The accesses by their width. -/

inductive PciWidth
  | byte
  | word
  | dword
  deriving DecidableEq

def PciWidth.size : PciWidth → Nat
  | .byte => 1
  | .word => 2
  | .dword => 4

def PciWidth.Aligned (w : PciWidth) (reg : Word) : Prop := w.size ∣ reg.toNat

def pciRead (hwSwap : Bool) (w : PciWidth) (s : PciBus) (dev : PciDev) (reg : Word) :
    Int × Option Word × PciBus :=
  match w with
  | .byte =>
    let (result, val, s) := danubePciReadConfigByte hwSwap s dev reg
    (result, val.map (·.setWidth 32), s)
  | .word =>
    let (result, val, s) := danubePciReadConfigWord hwSwap s dev reg
    (result, val.map (·.setWidth 32), s)
  | .dword => danubePciReadConfigDword hwSwap s dev reg

/-- The value is cut to the width. -/
def pciWrite (hwSwap : Bool) (w : PciWidth) (s : PciBus) (dev : PciDev) (reg val : Word) :
    Int × PciBus :=
  match w with
  | .byte => danubePciWriteConfigByte hwSwap s dev reg (val.setWidth 8)
  | .word => danubePciWriteConfigWord hwSwap s dev reg (val.setWidth 16)
  | .dword => danubePciWriteConfigDword hwSwap s dev reg val

/-- The configuration space of a device that exists. -/
def PciBus.bytesOf (s : PciBus) (dev : PciDev) : Option (Byte → Byte) :=
  if dev.Refused then none else s.space dev.devfn

/-- The bytes after a write, the least significant one first. -/
def writtenBytes (w : PciWidth) (bytes : Byte → Byte) (off : Byte) (val : Word) : Byte → Byte :=
  fun x => if (x - off).toNat < w.size then leByte val (x - off).toNat else bytes x

/-- The value of the bytes at an offset. -/
def readValue (w : PciWidth) (bytes : Byte → Byte) (off : Byte) : Word :=
  match w with
  | .byte => leWord (bytes off) 0 0 0
  | .word => leWord (bytes off) (bytes (off + 1)) 0 0
  | .dword => cfgDword bytes off

/-- A write is as one of plain bytes, and every read after it; a misaligned access is refused. -/
def ExistingRight (hwSwap : Bool) (s : PciBus) (dev : PciDev) (bytes : Byte → Byte) (w : PciWidth)
    (reg val : Word) : Prop :=
  (w.Aligned reg → (pciWrite hwSwap w s dev reg val).1 = pcibiosSuccessful ∧
    ∀ (v : PciWidth) (reg' : Word), v.Aligned reg' →
      let read := pciRead hwSwap v (pciWrite hwSwap w s dev reg val).2 dev reg'
      read.1 = pcibiosSuccessful ∧
        read.2.1 = some (readValue v (writtenBytes w bytes (reg.setWidth 8) val) (reg'.setWidth 8))) ∧
  (¬w.Aligned reg → pciWrite hwSwap w s dev reg val = (pcibiosBadRegisterNumber, s)) ∧
  ∀ (v : PciWidth) (reg' : Word), ¬v.Aligned reg' →
    pciRead hwSwap v s dev reg' = (pcibiosBadRegisterNumber, none, s)

/-- Writes and reads are errors and change no device. -/
def AbsentRight (hwSwap : Bool) (s : PciBus) (dev : PciDev) (w : PciWidth) (reg val : Word) : Prop :=
  (pciWrite hwSwap w s dev reg val).1 ≠ pcibiosSuccessful ∧
  (pciWrite hwSwap w s dev reg val).2.space = s.space ∧
  ∀ (v : PciWidth) (reg' : Word), (pciRead hwSwap v s dev reg').1 ≠ pcibiosSuccessful ∧
    (pciRead hwSwap v s dev reg').2.2.space = s.space

def PciConfigRight (hwSwap : Bool) (s : PciBus) (dev : PciDev) (w : PciWidth) (reg val : Word) :
    Prop :=
  match s.bytesOf dev with
  | some bytes => ExistingRight hwSwap s dev bytes w reg val
  | none => AbsentRight hwSwap s dev w reg val

/-- The word at an offset does not look like that of a device that does not exist. -/
def LooksPresent (bytes : Byte → Byte) (off : Byte) : Prop :=
  cfgDword bytes (off &&& ~~~3) ≠ 0xffffffff

/-- No word of the device is all ones, before a narrow write or after the write; a device that does
not exist is not written a word, other than all ones. -/
def PciConfigFits (s : PciBus) (dev : PciDev) (w : PciWidth) (reg val : Word) : Prop :=
  match s.bytesOf dev with
  | some bytes => w.Aligned reg →
      (w ≠ .dword → LooksPresent bytes (reg.setWidth 8)) ∧
        ∀ off, LooksPresent (writtenBytes w bytes (reg.setWidth 8) val) off
  | none => w = .dword → w.Aligned reg → dev.Refused ∨ val = 0xffffffff

end DanubeBsp
