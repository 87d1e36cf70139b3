import DanubeBsp.MaskedWrite
import DanubeBsp.WordBits

namespace DanubeBsp

def csize : Word := 0x30#32

def cs7 : Word := 0x20#32

def cstopb : Word := 0x40#32

def cread : Word := 0x80#32

def parenb : Word := 0x100#32

def parodd : Word := 0x200#32

def ignbrk : Word := 0x1#32

def ignpar : Word := 0x4#32

def inpck : Word := 0x10#32

def ascconModemask : Word := 0xf#32

def ascconM8async : Word := 0x0#32

def ascconM7async : Word := 0x2#32

def ascconPen : Word := 0x10#32

def ascconOdd : Word := 0x20#32

def ascconStp : Word := 0x80#32

def ascconBrs : Word := 0x100#32

def ascconFde : Word := 0x200#32

def ascconR : Word := 0x8000#32

def ascconFen : Word := 0x20000#32

def ascconRoen : Word := 0x80000#32

def ascconToen : Word := 0x100000#32

def ascstatePe : Word := 0x10000#32

def ascstateFe : Word := 0x20000#32

def ascstateRoe : Word := 0x80000#32

def ascwhbstateSetren : Word := 0x2#32

/-- `UART_DUMMY_UER_RX`, the fake status of a character while CREAD is not set. -/
def uartDummyUerRx : Word := 1#32

/-- The registers of the line settings. -/
structure AscLineRegs where
  con : Word
  bg : Word
  fdv : Word
  whbstate : Word

/-- The status masks of a `uart_port`. -/
structure StatusMasks where
  readStatusMask : Word
  ignoreStatusMask : Word
  deriving DecidableEq

/-- The masks that `danubeasc_change_speed` sets. -/
def changeSpeedMasks (cflag iflag : Word) : StatusMasks :=
  let readStatusMask := ascstateRoe
  let readStatusMask :=
    if iflag &&& inpck ≠ 0 then readStatusMask ||| (ascstateFe ||| ascstatePe) else readStatusMask
  let ignoreStatusMask : Word := 0
  let ignoreStatusMask :=
    if iflag &&& ignpar ≠ 0 then ignoreStatusMask ||| (ascstateFe ||| ascstatePe)
    else ignoreStatusMask
  let ignoreStatusMask :=
    if iflag &&& ignbrk ≠ 0 then
      if iflag &&& ignpar ≠ 0 then ignoreStatusMask ||| ascstateRoe else ignoreStatusMask
    else ignoreStatusMask
  let ignoreStatusMask :=
    if cflag &&& cread = 0 then ignoreStatusMask ||| uartDummyUerRx else ignoreStatusMask
  ⟨readStatusMask, ignoreStatusMask⟩

/-- The word that `danubeasc_change_speed` makes for CON. -/
def changeSpeedCon (cflag : Word) : Word :=
  let con := if cflag &&& csize = cs7 then ascconM7async else ascconM8async
  let con := if cflag &&& cstopb ≠ 0 then con ||| ascconStp else con
  let con :=
    if cflag &&& parenb ≠ 0 then
      if cflag &&& parodd = 0 then con &&& ~~~ascconOdd else con ||| ascconOdd
    else con
  con ||| ascconFen ||| ascconToen ||| ascconRoen

/-- The registers after `danubeasc_change_speed`. -/
def danubeascChangeSpeed (r : AscLineRegs) (cflag quot : Word) : AscLineRegs :=
  let con := r.con ||| changeSpeedCon cflag
  let quot := quot / 2 - 1
  let con := con &&& ~~~ascconR
  let con := con &&& ~~~ascconFde
  let con := con &&& ~~~ascconBrs
  let con := con ||| ascconR
  { r with con := con, bg := quot, whbstate := ascwhbstateSetren }

/-- The results of `danubeasc_console_get_options`. -/
structure ConsoleOptions where
  baud : Int
  parity : Char
  bits : Int
  deriving DecidableEq

/-- The windows around the standard rates. -/
def snapBaud (baud : Int) : Int :=
  let baud := if 1100 < baud ∧ baud < 2400 then 1200 else baud
  let baud := if 2300 < baud ∧ baud < 4800 then 2400 else baud
  let baud := if 4700 < baud ∧ baud < 9600 then 4800 else baud
  let baud := if 9500 < baud ∧ baud < 19200 then 9600 else baud
  let baud := if 19000 < baud ∧ baud < 38400 then 19200 else baud
  let baud := if 38400 < baud ∧ baud < 57600 then 38400 else baud
  let baud := if 57600 < baud ∧ baud < 115200 then 57600 else baud
  if 115200 < baud ∧ baud < 230400 then 115200 else baud

/-- `none` is the trap of the division: the product for the divider can be 0 in 32 bits. -/
def danubeascConsoleGetOptions (r : AscLineRegs) (uartclk : Word) (o : ConsoleOptions) :
    Option ConsoleOptions :=
  if r.con &&& ascconR ≠ 0 then
    let mode := r.con &&& ascconModemask
    let parity :=
      if mode = ascconM7async ∨ mode = ascconM8async then
        if r.con &&& ascconOdd ≠ 0 then 'o' else 'e'
      else 'n'
    let bits := if mode = ascconM7async then 7 else 8
    let quot := r.bg + 1
    -- `fdiv` is computed here as well, but never used
    let div : Word :=
      if r.con &&& ascconFde ≠ 0 then 1 else if r.con &&& ascconBrs ≠ 0 then 3 else 2
    let frac : Word := if r.con &&& ascconFde ≠ 0 then 512 else 1
    let divisor := div * 512 * 16 * quot
    if divisor = 0 then none
    else some ⟨snapBaud (frac * (uartclk / divisor)).toInt, parity, bits⟩
  else some o

/-- `uart_calculate_quot`; `custom` is the old way to set a divisor, and `none` the trap of the division. -/
def uartCalculateQuot (custom : Bool) (customDivisor uartclk baud : Word) : Option Word :=
  let baud := if baud = 0 then 9600 else baud
  if baud = 38400 ∧ custom then some customDivisor
  else if 16 * baud = 0 then none
  else some (uartclk / (16 * baud))

/-- The settings of a line: character size, stop bits and parity (odd or even). -/
structure SerialLine where
  seven : Bool
  twoStop : Bool
  parity : Option Bool
  deriving DecidableEq

/-- What the flags ask for; the ASC has 7 and 8 bits only. -/
def askedLine (cflag : Word) : SerialLine where
  seven := decide (cflag &&& csize = cs7)
  twoStop := decide (cflag &&& cstopb ≠ 0)
  parity := if cflag &&& parenb ≠ 0 then some (decide (cflag &&& parodd ≠ 0)) else none

def SerialLine.mode (l : SerialLine) : Word := if l.seven then ascconM7async else ascconM8async

def SerialLine.bits (l : SerialLine) : Int := if l.seven then 7 else 8

def SerialLine.parityChar (l : SerialLine) : Char :=
  match l.parity with
  | some true => 'o'
  | some false => 'e'
  | none => 'n'

/-- The fields of the control register are those of the line. -/
structure ShowsLine (con : Word) (l : SerialLine) : Prop where
  mode : con &&& ascconModemask = l.mode
  stop : decide (con &&& ascconStp ≠ 0) = l.twoStop
  enable : decide (con &&& ascconPen ≠ 0) = l.parity.isSome
  odd : ∀ odd, l.parity = some odd → decide (con &&& ascconOdd ≠ 0) = odd

/-- The divider goes into its register as it is meant. -/
def DividerRight (r : AscLineRegs) (cflag quot : Word) : Prop :=
  ((danubeascChangeSpeed r cflag quot).bg.toNat : Int) = quot.toNat / 2 - 1

/-- The console reads back data bits and parity as they were asked for. -/
def LineReadsBack (r : AscLineRegs) (cflag quot uartclk : Word) : Prop :=
  ∀ o, ∃ o', danubeascConsoleGetOptions (danubeascChangeSpeed r cflag quot) uartclk o = some o' ∧
    o'.bits = (askedLine cflag).bits ∧ o'.parity = (askedLine cflag).parityChar

def standardRates : List Int := [1200, 2400, 4800, 9600, 19200, 38400, 57600, 115200]

/-- The rate of the divider of 2 lies in the window of a standard rate. -/
def Represents (uartclk quot : Word) (rate : Int) : Prop :=
  rate ∈ standardRates ∧ snapBaud (uartclk.toNat / (32 * (quot.toNat / 2)) : Nat) = rate

/-- Nothing of the earlier settings is in the way of what the flags ask for. The parity enable stays as
it was, the other fields only get bits. -/
structure NothingLeft (con cflag : Word) : Prop where
  mode : (con &&& ascconModemask) ||| (askedLine cflag).mode = (askedLine cflag).mode
  stop : con &&& ascconStp ≠ 0 → (askedLine cflag).twoStop = true
  enable : decide (con &&& ascconPen ≠ 0) = (askedLine cflag).parity.isSome
  odd : (askedLine cflag).parity = some false → con &&& ascconOdd = 0

/-- The same for what the console reads: it takes 7 and 8 bits to have parity always, and every other
mode to have none. -/
structure ReadableLine (con cflag : Word) : Prop where
  bits : (con &&& ascconModemask) ||| (askedLine cflag).mode = ascconM7async ↔
    (askedLine cflag).seven = true
  parity : ((con &&& ascconModemask) ||| (askedLine cflag).mode = ascconM7async ∨
    (con &&& ascconModemask) ||| (askedLine cflag).mode = ascconM8async) ↔
    (askedLine cflag).parity.isSome = true
  odd : (askedLine cflag).parity = some false → con &&& ascconOdd = 0

/-- The console can divide by what it reads from BG: 16384 times it is not 0 in 32 bits. -/
def ReadableDivider (quot : Word) : Prop := ¬2 ^ 18 ∣ quot.toNat / 2

instance (quot : Word) : Decidable (ReadableDivider quot) := inferInstanceAs (Decidable (¬_))

section Masks

variable {x a m : Word}

theorem and_not_and (h : m &&& a = 0) : (x &&& ~~~a) &&& m = x &&& m := by
  apply BitVec.eq_of_getLsbD_eq
  intro j _
  have hm := (and_eq_zero_iff m a).mp h j
  rw [BitVec.getLsbD_and, getLsbD_and_not, BitVec.getLsbD_and]
  cases hmj : m.getLsbD j with
  | false => simp
  | true => simp [hm hmj]

theorem or_ne_zero_iff {y : Word} : x ||| y ≠ 0 ↔ x ≠ 0 ∨ y ≠ 0 := by
  rw [Ne, BitVec.ofNat_eq_ofNat, BitVec.or_eq_zero_iff]
  exact not_and_or

end Masks

section Fields

variable {r : AscLineRegs} {cflag quot : Word}

/-- Outside the bits of the baud rate generator the control register only gets bits. -/
theorem con_and {m : Word} (hr : m &&& ascconR = 0) (hf : m &&& ascconFde = 0)
    (hb : m &&& ascconBrs = 0) : (danubeascChangeSpeed r cflag quot).con &&& m =
      (r.con &&& m) ||| (changeSpeedCon cflag &&& m) := by
  have hr' : ascconR &&& m = 0 := (BitVec.and_comm _ _).trans hr
  show ((((r.con ||| changeSpeedCon cflag) &&& ~~~ascconR) &&& ~~~ascconFde) &&& ~~~ascconBrs |||
    ascconR) &&& m = _
  rw [BitVec.and_or_distrib_right, hr', and_not_and hb, and_not_and hf, and_not_and hr,
    BitVec.and_or_distrib_right]
  exact BitVec.or_zero

theorem con_on : (danubeascChangeSpeed r cflag quot).con &&& ascconR ≠ 0 := by
  show (_ ||| ascconR) &&& ascconR ≠ 0
  rw [BitVec.and_or_distrib_right, BitVec.and_self, or_ne_zero_iff]
  exact Or.inr (by decide)

theorem con_fde : (danubeascChangeSpeed r cflag quot).con &&& ascconFde = 0 := by
  have hr : ascconR &&& ascconFde = 0 := by decide
  have hb : ascconFde &&& ascconBrs = 0 := by decide
  show ((((r.con ||| changeSpeedCon cflag) &&& ~~~ascconR) &&& ~~~ascconFde) &&& ~~~ascconBrs |||
    ascconR) &&& ascconFde = 0
  rw [BitVec.and_or_distrib_right, hr, and_not_and hb, BitVec.and_assoc, BitVec.and_comm (~~~ascconFde),
    BitVec.and_not_self]
  simp

theorem con_brs : (danubeascChangeSpeed r cflag quot).con &&& ascconBrs = 0 := by
  have hr : ascconR &&& ascconBrs = 0 := by decide
  show ((((r.con ||| changeSpeedCon cflag) &&& ~~~ascconR) &&& ~~~ascconFde) &&& ~~~ascconBrs |||
    ascconR) &&& ascconBrs = 0
  rw [BitVec.and_or_distrib_right, hr, BitVec.and_assoc, BitVec.and_comm (~~~ascconBrs),
    BitVec.and_not_self]
  simp

/-- The word for CON has just what the flags ask for, but never the parity enable. -/
theorem changeSpeedCon_mode : changeSpeedCon cflag &&& ascconModemask = (askedLine cflag).mode := by
  unfold changeSpeedCon askedLine SerialLine.mode
  dsimp only
  split_ifs <;> simp_all <;> decide

theorem changeSpeedCon_stop : changeSpeedCon cflag &&& ascconStp ≠ 0 ↔
    (askedLine cflag).twoStop = true := by
  unfold changeSpeedCon askedLine
  dsimp only
  rw [decide_eq_true_eq]
  split_ifs with h7 hs hp ho <;> simp_all <;> decide

theorem changeSpeedCon_enable : changeSpeedCon cflag &&& ascconPen = 0 := by
  unfold changeSpeedCon
  dsimp only
  split_ifs <;> decide

theorem changeSpeedCon_odd : changeSpeedCon cflag &&& ascconOdd ≠ 0 ↔
    (askedLine cflag).parity = some true := by
  unfold changeSpeedCon askedLine
  dsimp only
  split_ifs with h7 hs hp ho <;> simp_all <;> decide

/-- The fields after a change of the settings, from those before. -/
theorem con_mode : (danubeascChangeSpeed r cflag quot).con &&& ascconModemask =
    (r.con &&& ascconModemask) ||| (askedLine cflag).mode := by
  rw [con_and (by decide) (by decide) (by decide), changeSpeedCon_mode]

theorem con_stop : (danubeascChangeSpeed r cflag quot).con &&& ascconStp ≠ 0 ↔
    r.con &&& ascconStp ≠ 0 ∨ (askedLine cflag).twoStop = true := by
  rw [con_and (by decide) (by decide) (by decide), or_ne_zero_iff, changeSpeedCon_stop]

theorem con_enable : (danubeascChangeSpeed r cflag quot).con &&& ascconPen =
    r.con &&& ascconPen := by
  rw [con_and (by decide) (by decide) (by decide), changeSpeedCon_enable]
  exact BitVec.or_zero

theorem con_odd : (danubeascChangeSpeed r cflag quot).con &&& ascconOdd ≠ 0 ↔
    r.con &&& ascconOdd ≠ 0 ∨ (askedLine cflag).parity = some true := by
  rw [con_and (by decide) (by decide) (by decide), or_ne_zero_iff, changeSpeedCon_odd]

/-- The parity bit is right for an asked parity just if no odd parity is left over. -/
theorem con_odd_iff {odd : Bool} (hodd : (askedLine cflag).parity = some odd) :
    decide ((danubeascChangeSpeed r cflag quot).con &&& ascconOdd ≠ 0) = odd ↔
      ((askedLine cflag).parity = some false → r.con &&& ascconOdd = 0) := by
  have hset := @con_odd r cflag quot
  rw [hodd] at hset ⊢
  cases odd with
  | true =>
    refine iff_of_true (decide_eq_true (hset.mpr (Or.inr rfl))) ?_
    intro hfalse
    exact absurd (Option.some.inj hfalse) (by decide)
  | false =>
    rw [decide_eq_false_iff_not, hset]
    constructor
    · intro h _
      by_contra hleft
      exact h (Or.inl hleft)
    · intro h hor
      rcases hor with hleft | htrue
      · exact hleft (h rfl)
      · exact absurd (Option.some.inj htrue) (by decide)

theorem showsLine_iff : ShowsLine (danubeascChangeSpeed r cflag quot).con (askedLine cflag) ↔
    NothingLeft r.con cflag := by
  constructor
  · intro h
    refine ⟨con_mode.symm.trans h.mode, ?_, ?_, ?_⟩
    · intro hleft
      rw [← h.stop]
      exact decide_eq_true (con_stop.mpr (Or.inl hleft))
    · rw [← h.enable, con_enable]
    · intro hfalse
      exact (con_odd_iff hfalse).mp (h.odd false hfalse) hfalse
  · intro h
    refine ⟨con_mode.trans h.mode, ?_, ?_, ?_⟩
    · rw [Bool.eq_iff_iff, decide_eq_true_eq, con_stop]
      exact ⟨fun hor => hor.elim h.stop id, Or.inr⟩
    · rw [con_enable]
      exact h.enable
    · intro odd hodd
      exact (con_odd_iff hodd).mpr h.odd

theorem divisor_eq_zero_iff : (2 * 512 * 16 * (quot / 2) : Word) = 0 ↔ 2 ^ 18 ∣ quot.toNat / 2 := by
  have hword : (2 * 512 * 16 : Word).toNat = 2 ^ 14 := rfl
  have hhalf : (quot / 2).toNat = quot.toNat / 2 := BitVec.toNat_udiv
  have hzero : (0 : Word).toNat = 0 := rfl
  rw [← BitVec.toNat_inj, BitVec.toNat_mul, hword, hhalf, hzero, ← Nat.dvd_iff_mod_eq_zero]
  exact Nat.mul_dvd_mul_iff_left (Nat.two_pow_pos 14) (b := 2 ^ 18)

/-- What the console reads after a change of the settings. -/
theorem getOptions_eq (uartclk : Word) (o : ConsoleOptions) :
    danubeascConsoleGetOptions (danubeascChangeSpeed r cflag quot) uartclk o =
      if 2 * 512 * 16 * (quot / 2) = 0 then none
      else some
        ⟨snapBaud (uartclk / (2 * 512 * 16 * (quot / 2))).toInt,
          if (r.con &&& ascconModemask) ||| (askedLine cflag).mode = ascconM7async ∨
              (r.con &&& ascconModemask) ||| (askedLine cflag).mode = ascconM8async then
            if (danubeascChangeSpeed r cflag quot).con &&& ascconOdd ≠ 0 then 'o' else 'e'
          else 'n',
          if (r.con &&& ascconModemask) ||| (askedLine cflag).mode = ascconM7async then 7 else 8⟩ := by
  have hbg : (danubeascChangeSpeed r cflag quot).bg + 1 = quot / 2 := BitVec.sub_add_cancel _ _
  have hfde : ¬(danubeascChangeSpeed r cflag quot).con &&& ascconFde ≠ 0 := not_not.mpr con_fde
  have hbrs : ¬(danubeascChangeSpeed r cflag quot).con &&& ascconBrs ≠ 0 := not_not.mpr con_brs
  have hone : ∀ w : Word, (1 : Word) * w = w := BitVec.one_mul
  unfold danubeascConsoleGetOptions
  rw [if_pos con_on]
  dsimp only
  rw [con_mode, if_neg hfde, if_neg hfde, if_neg hbrs, hbg, hone]

/-- Without a trap there is an answer. -/
theorem getOptions_some (hquot : ReadableDivider quot) (uartclk : Word) (o : ConsoleOptions) :
    ∃ o', danubeascConsoleGetOptions (danubeascChangeSpeed r cflag quot) uartclk o = some o' := by
  rw [getOptions_eq, if_neg (divisor_eq_zero_iff.not.mpr hquot)]
  exact ⟨_, rfl⟩

/-- What an answer says. -/
theorem getOptions_cases {uartclk : Word} {o o' : ConsoleOptions}
    (h : danubeascConsoleGetOptions (danubeascChangeSpeed r cflag quot) uartclk o = some o') :
    ReadableDivider quot ∧
      o'.bits =
        (if (r.con &&& ascconModemask) ||| (askedLine cflag).mode = ascconM7async then 7 else 8) ∧
      o'.parity =
        (if (r.con &&& ascconModemask) ||| (askedLine cflag).mode = ascconM7async ∨
            (r.con &&& ascconModemask) ||| (askedLine cflag).mode = ascconM8async then
          if (danubeascChangeSpeed r cflag quot).con &&& ascconOdd ≠ 0 then 'o' else 'e'
        else 'n') ∧
      o'.baud = snapBaud (uartclk / (2 * 512 * 16 * (quot / 2))).toInt := by
  rw [getOptions_eq] at h
  split at h
  next => cases h
  next hdiv =>
    cases Option.some.inj h
    exact ⟨divisor_eq_zero_iff.not.mp hdiv, rfl, rfl, rfl⟩

theorem bits_iff {l : SerialLine} {p : Prop} [Decidable p] :
    (if p then (7 : Int) else 8) = l.bits ↔ (p ↔ l.seven = true) := by
  unfold SerialLine.bits
  cases l.seven <;> by_cases hp : p <;> simp [hp]

theorem parityChar_iff {l : SerialLine} {p q : Prop} [Decidable p] [Decidable q] :
    (if p then if q then 'o' else 'e' else 'n') = l.parityChar ↔
      (p ↔ l.parity.isSome = true) ∧ ∀ odd, l.parity = some odd → decide q = odd := by
  obtain ⟨seven, twoStop, parity⟩ := l
  unfold SerialLine.parityChar
  cases parity with
  | none => by_cases hp : p <;> by_cases hq : q <;> simp [hp, hq]
  | some odd => cases odd <;> by_cases hp : p <;> by_cases hq : q <;> simp [hp, hq]

theorem lineReadsBack_iff (uartclk : Word) :
    LineReadsBack r cflag quot uartclk ↔ ReadableDivider quot ∧ ReadableLine r.con cflag := by
  constructor
  · intro h
    obtain ⟨o', ho', hbits, hparity⟩ := h ⟨0, 'n', 0⟩
    obtain ⟨hquot, hbits', hparity', -⟩ := getOptions_cases ho'
    rw [hbits', bits_iff] at hbits
    rw [hparity', parityChar_iff] at hparity
    refine ⟨hquot, hbits, hparity.1, ?_⟩
    intro hfalse
    exact (con_odd_iff hfalse).mp (hparity.2 false hfalse) hfalse
  · rintro ⟨hquot, h⟩ o
    obtain ⟨o', ho'⟩ := getOptions_some hquot uartclk o
    obtain ⟨-, hbits, hparity, -⟩ := getOptions_cases ho'
    refine ⟨o', ho', ?_, ?_⟩
    · rw [hbits, bits_iff]
      exact h.bits
    · rw [hparity, parityChar_iff]
      exact ⟨h.parity, fun odd hodd => (con_odd_iff hodd).mpr h.odd⟩

theorem dividerRight_iff : DividerRight r cflag quot ↔ 2 ≤ quot.toNat := by
  have hlt := quot.isLt
  have hone : (1 : Word).toNat = 1 := rfl
  have htwo : (2 : Word).toNat = 2 := rfl
  unfold DividerRight
  show ((quot / 2 - 1 : Word).toNat : Int) = quot.toNat / 2 - 1 ↔ _
  rw [BitVec.toNat_sub, BitVec.toNat_udiv, hone, htwo]
  omega

end Fields

section Baud

variable {r : AscLineRegs} {cflag quot uartclk : Word} {rate : Int}

theorem snapBaud_small {b : Int} (h : b ≤ 1100) : snapBaud b = b := by
  unfold snapBaud
  rw [if_neg (by omega), if_neg (by omega), if_neg (by omega), if_neg (by omega), if_neg (by omega),
    if_neg (by omega), if_neg (by omega), if_neg (by omega)]

theorem snapBaud_large {b : Int} (h : 230400 ≤ b) : snapBaud b = b := by
  unfold snapBaud
  rw [if_neg (by omega), if_neg (by omega), if_neg (by omega), if_neg (by omega), if_neg (by omega),
    if_neg (by omega), if_neg (by omega), if_neg (by omega)]

theorem rate_bounds (h : rate ∈ standardRates) : 1200 ≤ rate ∧ rate ≤ 115200 := by
  have hall : ∀ rate ∈ standardRates, 1200 ≤ rate ∧ rate ≤ 115200 := by decide
  exact hall rate h

/-- The console divides by 512 too much, so it shows no rate of the windows. -/
theorem baud_never (h : Represents uartclk quot rate) {o o' : ConsoleOptions}
    (ho : danubeascConsoleGetOptions (danubeascChangeSpeed r cflag quot) uartclk o = some o') :
    o'.baud ≠ rate := by
  obtain ⟨hrate, hsnap⟩ := h
  obtain ⟨hlo, hhi⟩ := rate_bounds hrate
  have hclk := uartclk.isLt
  have hquot := quot.isLt
  have hhalf : (quot / 2).toNat = quot.toNat / 2 := BitVec.toNat_udiv
  generalize hq : quot.toNat / 2 = q at hsnap hhalf
  generalize hb : uartclk.toNat / (32 * q) = b at hsnap
  have hb1 : 1100 < b := by
    by_contra hsmall
    rw [snapBaud_small (by omega)] at hsnap
    omega
  have hb2 : b < 230400 := by
    by_contra hlarge
    rw [snapBaud_large (by omega)] at hsnap
    omega
  have hfits : b * (32 * q) ≤ uartclk.toNat := hb ▸ Nat.div_mul_le_self _ _
  have hq18 : q < 2 ^ 18 := by
    have hmul : 1101 * (32 * q) ≤ b * (32 * q) := Nat.mul_le_mul_right _ hb1
    omega
  have hden : (2 * 512 * 16 * (quot / 2) : Word).toNat = 32 * q * 512 := by
    have hword : (2 * 512 * 16 : Word).toNat = 16384 := rfl
    rw [BitVec.toNat_mul, hword, hhalf]
    omega
  have hval : (uartclk / (2 * 512 * 16 * (quot / 2))).toNat = b / 512 := by
    rw [BitVec.toNat_udiv, hden, ← Nat.div_div_eq_div_mul, hb]
  have hint : (uartclk / (2 * 512 * 16 * (quot / 2))).toInt = ((b / 512 : Nat) : Int) := by
    rw [BitVec.toInt_eq_toNat_of_lt (by omega), hval]
  rw [(getOptions_cases ho).2.2.2, hint, snapBaud_small (by omega)]
  omega

end Baud

/-- The fields are right just if nothing is left over, the divider just for a quotient of at least 2,
data bits and parity are read back just for a readable line with a divider that does not trap, and a
standard rate never is. -/
theorem serial_settings_iff (r : AscLineRegs) (cflag quot uartclk : Word) :
    (ShowsLine (danubeascChangeSpeed r cflag quot).con (askedLine cflag) ↔
      NothingLeft r.con cflag) ∧
    (DividerRight r cflag quot ↔ 2 ≤ quot.toNat) ∧
    (LineReadsBack r cflag quot uartclk ↔ ReadableDivider quot ∧ ReadableLine r.con cflag) ∧
    ∀ rate o, ¬(Represents uartclk quot rate ∧
      ∃ o', danubeascConsoleGetOptions (danubeascChangeSpeed r cflag quot) uartclk o = some o' ∧
        o'.baud = rate) := by
  refine ⟨showsLine_iff, dividerRight_iff, lineReadsBack_iff uartclk, ?_⟩
  rintro rate o ⟨hrate, o', ho', hbaud⟩
  exact baud_never hrate ho' hbaud

/-- 8 bits without parity after 7 bits, a console at 9600 that shows something else, and a custom
divisor that wraps, after which the console traps. -/
theorem serial_settings_kept :
    ¬ShowsLine (danubeascChangeSpeed ⟨0x8002#32, 0, 0, 0⟩ 0xb0#32 868).con (askedLine 0xb0#32) ∧
      ¬LineReadsBack ⟨0x8000#32, 0, 0, 0⟩ 0xb0#32 868 133333333 ∧
      Represents 133333333 868 9600 ∧
      danubeascConsoleGetOptions (danubeascChangeSpeed ⟨0x8000#32, 0, 0, 0⟩ 0xb0#32 868) 133333333
        ⟨0, 'n', 8⟩ = some ⟨18, 'e', 8⟩ ∧
      uartCalculateQuot true 1 133333333 38400 = some 1 ∧
      ¬DividerRight ⟨0x8000#32, 0, 0, 0⟩ 0xb0#32 1 ∧
      danubeascConsoleGetOptions (danubeascChangeSpeed ⟨0x8000#32, 0, 0, 0⟩ 0xb0#32 1) 133333333
        ⟨0, 'n', 8⟩ = none := by
  refine ⟨?_, ?_, ⟨by decide, by decide⟩, by decide, rfl, ?_, by decide⟩
  · intro h
    exact absurd (showsLine_iff.mp h).mode (by decide)
  · intro h
    exact absurd ((lineReadsBack_iff _).mp h).2.parity (by decide)
  · rw [dividerRight_iff]
    decide

end DanubeBsp
