import DanubeBsp.CguPll
import DanubeBsp.FitWord

namespace DanubeBsp

/-- A frequency that is computed, with the flag that no shift, product or sum has left 32 bits. -/
abbrev Hertz := FitWord 32

namespace Cgu

def sysPpesel (c : Cgu) : Word := getBits c.sys 8 7

def sysFpiSel (c : Cgu) : Bool := hasBit c.sys 6

def sysCpu1Sel (c : Cgu) : Word := getBits c.sys 5 4

def sysCpu0Sel (c : Cgu) : Word := getBits c.sys 3 2

def sysDdrSel (c : Cgu) : Word := getBits c.sys 1 0

def ifClkPciClk (c : Cgu) : Word := getBits c.ifClk 23 20

def ifClkUsbsel (c : Cgu) : Word := getBits c.ifClk 5 4

def ifClkMiisel (c : Cgu) : Word := getBits c.ifClk 1 0

/-- The divider of a clock-out pin, `CLKOD0` to `CLKOD3`. -/
def ifClkClkod (c : Cgu) (clkout : Int) : Word :=
  getBits c.ifClk (15 - clkout * 2).toNat (14 - clkout * 2).toNat

variable (c : Cgu) (left : Word) (depth : Nat)

def cguGetPll2Fps (phase : Int) : Option Hertz :=
  (c.cguGetPll2Fosc left depth).map fun fosc =>
    let fps : Hertz := .of fosc
    if phase = 1 then ((fps <<< 2) + 2#32) / 5#32
    else if phase = 2 then ((fps <<< 3) + 4#32) / 9#32
    else fps

def cguGetPll2Fdiv : Option Hertz :=
  (c.cguGetPll2Fosc left depth).map fun fosc =>
    let div := c.ifClkPciClk + 1
    ((.of fosc : Hertz) + (div >>> 1)) / div

/-- The `switch` over `CGU_SYS_DDR_SEL`, which is in two functions. -/
def ddrClock (ret : Hertz) : Hertz :=
  if c.sysDdrSel = 1 then (ret * 2#32 + 2#32) / 5#32
  else if c.sysDdrSel = 2 then (ret + 1#32) / 3#32
  else if c.sysDdrSel = 3 then (ret + 2#32) / 4#32
  else (ret + 1#32) / 2#32

def cguGetMipsClock (cpu : Int) : Option Hertz :=
  (c.cguGetPll0Fosc left depth).map fun fosc =>
    let ret : Hertz := .of fosc
    let cpusel := if cpu = 0 then c.sysCpu0Sel else c.sysCpu1Sel
    if cpusel = 0 then ret
    else c.ddrClock (if cpusel = 2 then ret <<< 1 else ret)

def cguGetIoRegionClock : Option Hertz :=
  (c.cguGetPll0Fosc left depth).map fun fosc => c.ddrClock (.of fosc)

def cguGetFpiBusClock (fpi : Int) : Option Hertz :=
  (c.cguGetIoRegionClock left depth).map fun (ret : Hertz) =>
    if fpi = 2 then (if c.sysFpiSel then ret >>> 1 else ret) else ret

def cguGetPp32Clock : Option Hertz :=
  if c.sysPpesel = 1 then c.cguGetPll2Fps left depth 2
  else if c.sysPpesel = 2 then
    (c.cguGetPll2Fps left depth 1).map fun (fps : Hertz) => (fps + 1#32) >>> 1
  else if c.sysPpesel = 3 then
    (c.cguGetPll2Fps left depth 2).map fun (fps : Hertz) => (fps + 1#32) >>> 1
  else c.cguGetPll2Fps left depth 1

def cguGetPciClock : Option Hertz := c.cguGetPll2Fdiv left depth

/-- PLL2 in hertz, with a number added and by a divisor. -/
def pll2By (add div : Word) : Option Hertz :=
  (c.cguGetPll2Fosc left depth).map fun fosc => ((.of fosc : Hertz) + add) / div

/-- The argument is not looked at. -/
def cguGetEthernetClock (_mii : Int) : Option Hertz :=
  if c.ifClkMiisel = 0 then c.pll2By left depth 3 12
  else if c.ifClkMiisel = 1 then c.pll2By left depth 3 6
  else if c.ifClkMiisel = 2 then some (.of 50000000#32)
  else if c.ifClkMiisel = 3 then some (.of 25000000#32)
  else some (.of 0)

def cguGetUsbClock : Option Hertz :=
  if c.ifClkUsbsel = 0 then c.pll2By left depth 12 25
  else if c.ifClkUsbsel = 1 then some (.of 12000000#32)
  else if c.ifClkUsbsel = 2 then some (.of (12000000#32 / 4#32))
  else if c.ifClkUsbsel = 3 then some (.of 12000000#32)
  else some (.of 0)

/-- The `switch` of `cgu_get_clockout`; `fosc1` and `fosc2` are there already. -/
def clockoutCase (fosc1 fosc2 : Word) (sel : Nat) : Option Hertz :=
  let fosc1 : Hertz := .of fosc1
  let fosc2 : Hertz := .of fosc2
  match sel with
  | 0 | 15 => some ((fosc1 + 6000#32) / 12000#32)
  | 1 => some ((fosc1 + 128#32) / 256#32)
  | 2 => some ((fosc2 + 60#32) / 120#32)
  | 3 | 5 | 12 => some ((fosc2 + 12#32) / 25#32)
  | 4 => (c.cguGetPll2Fps left depth 2).map fun (fps : Hertz) => (fps + 3#32) / 6#32
  | 6 => (c.cguGetPll2Fps left depth 2).map fun (fps : Hertz) => (fps + 5#32) / 10#32
  | 7 => (c.cguGetPll2Fps left depth 2).map fun (fps : Hertz) => (fps + 2#32) / 5#32
  | 8 | 14 => some ((fosc2 + 6#32) / 12#32)
  | 9 | 13 => some ((fosc2 + 3#32) / 6#32)
  | 10 => some ((fosc2 + 5#32) / 10#32)
  | 11 => some ((fosc2 + 2#32) / 5#32)
  | _ => some (.of 0)

/-- What the `switch` is over. -/
def clockoutSel (clkout : Int) : Word := (BitVec.ofInt 32 clkout <<< 2) ||| c.ifClkClkod clkout

def cguGetClockout (clkout : Int) : Option Hertz :=
  (c.cguGetPll1Fosc left depth).bind fun fosc1 =>
    (c.cguGetPll2Fosc left depth).bind fun fosc2 =>
      if 3 < clkout ∨ clkout < 0 then some (.of 0)
      else c.clockoutCase left depth fosc1 fosc2 (c.clockoutSel clkout).toNat

end Cgu

/-- The getters of derived clocks, with their arguments. -/
inductive CguClock where
  | mips (cpu : Int)
  | ioRegion
  | fpiBus (fpi : Int)
  | pp32
  | pci
  | ethernet (mii : Int)
  | usb
  | clockout (clkout : Int)

def Cgu.clock (c : Cgu) (left : Word) (depth : Nat) : CguClock → Option Hertz
  | .mips cpu => c.cguGetMipsClock left depth cpu
  | .ioRegion => c.cguGetIoRegionClock left depth
  | .fpiBus fpi => c.cguGetFpiBusClock left depth fpi
  | .pp32 => c.cguGetPp32Clock left depth
  | .pci => c.cguGetPciClock left depth
  | .ethernet mii => c.cguGetEthernetClock left depth mii
  | .usb => c.cguGetUsbClock left depth
  | .clockout clkout => c.cguGetClockout left depth clkout

end DanubeBsp
