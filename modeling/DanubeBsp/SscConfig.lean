import DanubeBsp.Errno
import DanubeBsp.Runs
import DanubeBsp.WordMemory

namespace DanubeBsp

/-- `struct ifx_ssc_hwopts`. -/
structure SscHwopts where
  abortErrDetect : Bool
  rxOvErrDetect : Bool
  rxUndErrDetect : Bool
  txOvErrDetect : Bool
  txUndErrDetect : Bool
  echoMode : Bool
  loopBack : Bool
  idleValue : Bool
  clockPolarity : Bool
  clockPhase : Bool
  headingControl : Bool
  dataWidth : BitVec 6
  masterSelect : Bool
  modeRxTx : BitVec 2
  gpoCs : BitVec 8
  gpoInv : BitVec 8
  deriving DecidableEq

/-- The options that `ifx_ssc_init` sets. -/
def sscDefHwopts : SscHwopts where
  abortErrDetect := false
  rxOvErrDetect := true
  rxUndErrDetect := false
  txOvErrDetect := false
  txUndErrDetect := false
  echoMode := false
  loopBack := false
  idleValue := true
  clockPolarity := false
  clockPhase := true
  headingControl := true
  dataWidth := 32
  masterSelect := true
  modeRxTx := 0
  gpoCs := 3
  gpoInv := 0

/-- A port as the functions that configure it see it: three bits of `STATE`, the registers that they
write, the clock, the buffers that transfers have outstanding (`NULL` is 0), and `baud` and `opts` of
`struct ifx_ssc_port`. -/
structure SscConf where
  enabled : Bool
  master : Bool
  busy : Bool
  br : Word
  con : Word
  gpocon : Word
  whbgpostat : Word
  sfcon : Word
  txfcon : Word
  rxfcon : Word
  clc : Word
  fpiHz : Word
  txbuf : Nat
  rxbuf : Nat
  baud : Word
  opts : SscHwopts
  deriving DecidableEq

/-- The port before the `ifx_ssc_hwinit` of `ifx_ssc_init`, with the registers at zero. -/
def sscConfStart (fpiHz : Word) : SscConf where
  enabled := false
  master := false
  busy := false
  br := 0
  con := 0
  gpocon := 0
  whbgpostat := 0
  sfcon := 0
  txfcon := 0
  rxfcon := 0
  clc := 0x10#32 <<< 8
  fpiHz := fpiHz
  txbuf := 0
  rxbuf := 0
  baud := 2000000#32
  opts := sscDefHwopts

/-- `ifx_ssc_get_kernel_clk`. -/
def SscConf.getKernelClk (s : SscConf) : Word :=
  let rmc := (s.clc &&& 0x0000ff00#32) >>> 8
  if rmc = 0 then 0 else s.fpiHz / rmc

def flagBits (b : Bool) (bits : Word) : Word := if b then bits else 0

/-- `bits`, as `ifx_ssc_sethwopts` puts them together. -/
def SscHwopts.conBits (opts : SscHwopts) : Word :=
  ((opts.dataWidth.setWidth 32 - 1) <<< 16) ||| 0x00400000#32 |||
    flagBits opts.rxOvErrDetect 0x00000200#32 ||| flagBits opts.rxUndErrDetect 0x00001000#32 |||
    flagBits opts.txOvErrDetect 0x00000100#32 ||| flagBits opts.txUndErrDetect 0x00000800#32 |||
    flagBits opts.loopBack 0x00000080#32 ||| flagBits opts.echoMode 0x01000000#32 |||
    flagBits opts.headingControl 0x00000010#32 ||| flagBits opts.clockPhase 0x00000020#32 |||
    flagBits opts.clockPolarity 0x00000040#32 |||
    (if opts.modeRxTx = 2 then 0x00000002#32
    else if opts.modeRxTx = 1 then 0x00000001#32
    else 0)

/-- The sanity check of `ifx_ssc_sethwopts`. -/
def SscHwopts.WidthOk (opts : SscHwopts) : Prop := 2#6 ≤ opts.dataWidth ∧ opts.dataWidth ≤ 32#6

instance (opts : SscHwopts) : Decidable opts.WidthOk := inferInstanceAs (Decidable (_ ∧ _))

/-- `ifx_ssc_sethwopts`. -/
def SscConf.sethwopts (s : SscConf) : SscConf × Int :=
  if s.opts.dataWidth < 2#6 ∨ 32#6 < s.opts.dataWidth then (s, eInval)
  else
    ({ s with
      con := s.opts.conBits
      gpocon := (s.opts.gpoCs.setWidth 32 <<< 8) ||| s.opts.gpoInv.setWidth 32
      whbgpostat := s.opts.gpoCs.setWidth 32 <<< 8
      master := s.opts.masterSelect
      sfcon := 0 }, 0)

/-- `br` of `ifx_ssc_set_baud`, for a baud rate that is not 0. -/
def baudDivider (clock baud : Word) : Word := (clock >>> 1 + baud / 2) / baud - 1

/-- `ifx_ssc_set_baud`. A division by 0 has no result. -/
def SscConf.setBaud (s : SscConf) (baud : Word) : Option (SscConf × Int) :=
  let clock := s.getKernelClk
  if clock = 0 then some (s, eInval)
  else if baud = 0 then none
  else
    let br := baudDivider clock baud
    if 0xffff#32 < br ∨ br = 0 ∧ s.master = false then some ({ s with enabled := false }, eInval)
    -- the controller is enabled again if it was before
    else some ({ s with br := br }, 0)

/-- `ifx_ssc_hwinit`. -/
def SscConf.hwinit (s : SscConf) : Option (SscConf × Int) :=
  let r := SscConf.sethwopts { s with enabled := false }
  if r.2 < 0 then some (r.1, eInval)
  else
    match r.1.setBaud r.1.baud with
    | none => none
    | some (t, ret) =>
      if ret < 0 then some (t, eInval)
      else some ({ t with txfcon := 0x801#32, rxfcon := 0x101#32, enabled := s.enabled || t.enabled }, 0)

/-- The test with which both ioctls refuse a port. -/
def SscConf.refuses (s : SscConf) : Bool := s.txbuf == 0 || s.rxbuf == 0 || s.busy

/-- `IFX_SSC_BAUD_SET` of `ifx_ssc_ioctl`. `none` is an argument that cannot be copied. -/
def SscConf.baudSet (s : SscConf) (arg : Option Word) : Option (SscConf × Int) :=
  if s.refuses then some (s, eBusy)
  else
    match arg with
    | none => some (s, eFault)
    | some flags =>
      if flags = 0 then some (s, eInval)
      else
        match s.setBaud flags with
        | none => none
        | some (t, ret) => if ret < 0 then some (t, eInval) else some ({ t with baud := flags }, 0)

/-- `IFX_SSC_HWOPTS_SET` of `ifx_ssc_ioctl`. `opts` is what `info->opts` holds after the copy, also
after one that is cut short. -/
def SscConf.hwoptsSet (s : SscConf) (opts : SscHwopts) (copied : Bool) : Option (SscConf × Int) :=
  if s.refuses then some (s, eBusy)
  else
    let s := { s with opts := opts }
    if !copied then some (s, eFault)
    else
      match s.hwinit with
      | none => none
      | some (t, ret) => if ret < 0 then some (t, eIo) else some (t, 0)

/-- `ifx_ssc_rxtx_mode_set`. `todo` says that `RXCNT` has bytes to do. -/
def SscConf.modeSet (s : SscConf) (val : Word) (todo : Bool) : SscConf × Int :=
  if val &&& ~~~3#32 ≠ 0 then (s, eInval)
  else if s.busy || todo then (s, eBusy)
  else
    ({ s with
      con := (s.con &&& ~~~3#32) ||| val
      opts := { s.opts with modeRxTx := val.setWidth 2 } }, 0)

/-- What happens to a port. `other` is what the hardware, open, close, abort, the transfers and the
other ioctls make of it: they leave the mode, the divider, the control register, `baud` and `opts`. -/
inductive ConfEvent where
  | baudSet (arg : Option Word)
  | hwoptsSet (opts : SscHwopts) (copied : Bool)
  | hwinit
  | modeSet (val : Word) (todo : Bool)
  | other (t : SscConf)

/-- A call, with its result. -/
def SscConf.call (s : SscConf) : ConfEvent → Option (SscConf × Int)
  | .baudSet arg => s.baudSet arg
  | .hwoptsSet opts copied => s.hwoptsSet opts copied
  | .hwinit => s.hwinit
  | .modeSet val todo => some (s.modeSet val todo)
  | .other t =>
    some ({ t with
      master := s.master, br := s.br, con := s.con, clc := s.clc, baud := s.baud, opts := s.opts }, 0)

def confStep (s : SscConf) (e : ConfEvent) : Option SscConf := (s.call e).map Prod.fst

/-- No buffer is outstanding and the hardware is not busy. -/
def SscConf.Idle (s : SscConf) : Prop := s.txbuf = 0 ∧ s.rxbuf = 0 ∧ s.busy = false

instance (s : SscConf) : Decidable s.Idle := inferInstanceAs (Decidable (_ ∧ _))

/-- The clock has a divider for the baud rate, which must not be 0 for a slave. -/
def SscConf.BaudFits (s : SscConf) (baud : Word) : Prop :=
  s.getKernelClk ≠ 0 ∧ baudDivider s.getKernelClk baud ≤ 0xffff#32 ∧
    (baudDivider s.getKernelClk baud = 0 → s.master = true)

instance (s : SscConf) (baud : Word) : Decidable (s.BaudFits baud) :=
  inferInstanceAs (Decidable (_ ∧ _))

/-- The options are in range, and the baud rate of the port fits the mode that they select. -/
def SscConf.HwoptsFit (s : SscConf) (opts : SscHwopts) : Prop :=
  opts.WidthOk ∧ SscConf.BaudFits { s with master := opts.masterSelect } s.baud

instance (s : SscConf) (opts : SscHwopts) : Decidable (s.HwoptsFit opts) :=
  inferInstanceAs (Decidable (_ ∧ _))

/-- The argument of an ioctl is a value that the port can be set to. -/
def SscConf.Valid (s : SscConf) : ConfEvent → Prop
  | .baudSet (some baud) => baud ≠ 0 ∧ s.BaudFits baud
  | .hwoptsSet opts true => s.HwoptsFit opts
  | _ => False

/-- Enable bit, divider, control register, `baud` and `opts` are the same. -/
structure SameConf (s t : SscConf) : Prop where
  enabled : t.enabled = s.enabled
  br : t.br = s.br
  con : t.con = s.con
  baud : t.baud = s.baud
  opts : t.opts = s.opts

theorem SameConf.refl (s : SscConf) : SameConf s s := ⟨rfl, rfl, rfl, rfl, rfl⟩

/-- A call that reconfigures is safe: it does not divide by 0, an error leaves the configuration, and
an ioctl succeeds only on an idle port, and does so there for a valid argument. -/
def SscConf.Safe (s : SscConf) (e : ConfEvent) (ioctl : Prop) : Prop :=
  ∃ t ret, s.call e = some (t, ret) ∧ (ret ≠ 0 → SameConf s t) ∧
    (ioctl → ret = 0 → s.Idle) ∧ (ioctl → s.Idle → s.Valid e → ret = 0)

/-- What shall hold of each event. -/
def ConfOk (s : SscConf) (e : ConfEvent) : Prop :=
  match e with
  | .baudSet _ => s.Safe e True
  | .hwoptsSet _ _ => s.Safe e True
  | .hwinit => s.Safe e False
  | .modeSet _ _ => True
  | .other _ => True

end DanubeBsp
