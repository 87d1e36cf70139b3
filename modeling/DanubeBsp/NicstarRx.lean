import Mathlib.Algebra.BigOperators.Group.Finset.Basic
import DanubeBsp.ByteOrder
import DanubeBsp.FlagRing
import DanubeBsp.NicstarRxBufs
import DanubeBsp.Runs

namespace DanubeBsp

/-- `ns_rsqe`, without the checksum of the PDU. -/
structure NsRsqe where
  word1 : Word
  bufferHandle : Word
  word4 : Word
  deriving DecidableEq

namespace NsRsqe

def vpi (e : NsRsqe) : Nat := ((e.word1 &&& 0x00FF0000#32) >>> 16).toNat

def vci (e : NsRsqe) : Nat := (e.word1 &&& 0x0000FFFF#32).toNat

def Valid (e : NsRsqe) : Prop := e.word4 &&& 0x80000000#32 ≠ 0#32

instance (e : NsRsqe) : Decidable e.Valid := inferInstanceAs (Decidable (_ ≠ _))

def eopdu (e : NsRsqe) : Bool := e.word4 &&& 0x00002000#32 != 0#32

def clp (e : NsRsqe) : Bool := e.word4 &&& 0x00000400#32 != 0#32

def crcerr (e : NsRsqe) : Bool := e.word4 &&& 0x00000200#32 != 0#32

def cellcount (e : NsRsqe) : Nat := (e.word4 &&& 0x000001FF#32).toNat

/-- `ns_rsqe_init`. -/
def init (e : NsRsqe) : NsRsqe := { e with word4 := 0#32 }

end NsRsqe

/-- How the card numbers its connections. -/
structure NsVcBits where
  vpibits : Nat
  vcibits : Nat
  vpm : Nat

/-- `ns_check_vc`. -/
def nsCheckVc (card : NsVcBits) (vpi vci : Nat) : Bool :=
  decide (vci >>> card.vcibits = card.vpm &&& (0xffff >>> card.vcibits) ∧
    vpi >>> card.vpibits = card.vpm >>> (16 - card.vcibits))

/-- `ns_find_conn`. -/
def nsFindConn (card : NsVcBits) (vpi vci : Nat) : Nat :=
  (vpi &&& (2 ^ card.vpibits - 1)) <<< card.vcibits ||| (vci &&& (2 ^ card.vcibits - 1))

/-- The number of the connections, `rct_size`. -/
def NsVcBits.conns (card : NsVcBits) : Nat := 2 ^ (card.vpibits + card.vcibits)

/-- An entry of an iovec: `iov_base` is the `sk_buff` of a receive buffer. -/
structure NsIov where
  base : Word
  len : Nat
  deriving DecidableEq

inductive NsAal | aal0 | aal5
  deriving DecidableEq

/-- A socket as the receive side sees it. -/
structure NsRxVcc where
  vpi : Nat
  vci : Nat
  aal : NsAal

/-- The part of a `vc_map` for reception: `rx_vcc` if `rx` is set, and the entries in the iovec
buffer `rx_iov`. -/
structure NsRxVc where
  vcc : Option Nat
  rxIov : Option (List NsIov)

structure NsRxStats where
  rx : Nat
  rxErr : Nat
  rxDrop : Nat

/-- What a socket is given with `push`; a cell of AAL0 has its header. -/
structure NsSdu where
  vcc : Nat
  header : Option Word
  data : List Byte

/-- The statistics of the device, what the sockets were given, and the answers that `atm_charge`
will give. `drops` is history: the sockets for which `rx_drop` was counted. -/
structure NsRxLog where
  stats : NsAal → NsRxStats
  drops : NsAal → List Nat
  pushed : List NsSdu
  charges : List Bool

namespace NsRxLog

def err (l : NsRxLog) : NsRxLog :=
  let c := l.stats .aal5
  { l with stats := Function.update l.stats .aal5 { c with rxErr := c.rxErr + 1 } }

/-- `rx_drop` is counted for the socket `v`. -/
def drop (l : NsRxLog) (a : NsAal) (v n : Nat) : NsRxLog :=
  let c := l.stats a
  { l with
    stats := Function.update l.stats a { c with rxDrop := c.rxDrop + n }
    drops := Function.update l.drops a (l.drops a ++ List.replicate n v) }

/-- `vcc->push` and the count of it. -/
def push (l : NsRxLog) (a : NsAal) (d : NsSdu) : NsRxLog :=
  let c := l.stats a
  { l with
    pushed := l.pushed ++ [d]
    stats := Function.update l.stats a { c with rx := c.rx + 1 } }

/-- `atm_charge`, which counts a refusal itself. -/
def charge (l : NsRxLog) (a : NsAal) (v : Nat) : Bool × NsRxLog :=
  match l.charges with
  | [] => (true, l)
  | true :: rest => (true, { l with charges := rest })
  | false :: rest => (false, { l with charges := rest }.drop a v 1)

end NsRxLog

/-- `NS_MAX_IOVECS`. -/
def nsMaxIovecs : Nat := 5

/-- `NS_B0BUFSIZE`. -/
def nsB0BufSize : Nat := 240

/-- `NS_RSQ_NUM_ENTRIES`. -/
def nsRsqNumEntries : Nat := 512

def memBytes (mem : Nat → Byte) (n : Nat) : List Byte := (List.range n).map mem

/-- The length in the last octets of a PDU, of whose last buffer `n` octets are filled. -/
def nsAal5Len (mem : Nat → Byte) (n : Nat) : Nat :=
  let aal5Len := (beHalf (mem (n - 6)) (mem (n - 5))).toNat
  if aal5Len = 0 then 0x10000 else aal5Len

section Dequeue

variable (mem : Word → Nat → Byte) (v : Nat) (e : NsRsqe)

/-- The loop of `dequeue_rx` over the cells of an AAL0 buffer; `i` are left, from `cell` on. -/
def aal0Loop : (i cell : Nat) → NsRxBufs → NsRxLog → NsRxBufs × NsRxLog
  | 0, _, s, l => (s, l)
  | i + 1, cell, s, l =>
    match s.allocSkb with
    | (none, s) => (s, l.drop .aal0 v (i + 1))
    | (some _, s) =>
      match l.charge .aal0 v with
      | (false, l) => (s, l.drop .aal0 v i)
      | (true, l) =>
        let header := e.word1 <<< 4 ||| (if e.clp then 0x00000001#32 else 0#32)
        let header := if i = 0 ∧ e.eopdu then header ||| 0x00000002#32 else header
        let data := memBytes (fun k => mem e.bufferHandle (cell + k)) 48
        aal0Loop i (cell + 48) s (l.push .aal0 ⟨v, some header, data⟩)

/-- The copy of the large buffers into a huge one. -/
def hugeCopy : List NsIov → (remaining : Nat) → List Byte
  | [], _ => []
  | iov :: rest, remaining =>
    let tocopy := min remaining iov.len
    memBytes (mem iov.base) tocopy ++ hugeCopy rest (remaining - tocopy)

/-- What `dequeue_rx` does with a PDU that is complete and right, of `len` octets. -/
def deliverPdu (iov : List NsIov) (len : Nat) (s : NsRxBufs) (l : NsRxLog) : NsRxBufs × NsRxLog :=
  match iov with
  | [] => (s, l)
  | [sb] =>
    match l.charge .aal5 v with
    | (false, l) => (pushRxbufs s .b0 sb.base, l)
    | (true, l) =>
      (dequeueSmBuf s sb.base, l.push .aal5 ⟨v, none, memBytes (mem sb.base) len⟩)
  | [sb, lb] =>
    if len ≤ nsB0BufSize then
      match l.charge .aal5 v with
      | (false, l) => (pushRxbufs (pushRxbufs s .b0 sb.base) .b1 lb.base, l)
      | (true, l) =>
        (pushRxbufs (dequeueSmBuf s sb.base) .b1 lb.base,
          l.push .aal5 ⟨v, none, memBytes (mem sb.base) len⟩)
    else
      match l.charge .aal5 v with
      | (false, l) => (pushRxbufs (pushRxbufs s .b1 lb.base) .b0 sb.base, l)
      | (true, l) =>
        (pushRxbufs (dequeueLgBuf s lb.base) .b0 sb.base,
          l.push .aal5 ⟨v, none, memBytes (mem sb.base) nsB0BufSize ++
            memBytes (mem lb.base) (len - nsB0BufSize)⟩)
  | sb :: lbs =>
    match takeHugeBuf s with
    | (false, s) => (recycleIovecRxBufs s (iov.map NsIov.base), l.drop .aal5 v 1)
    | (true, s) =>
      match l.charge .aal5 v with
      | (false, l) => (recycleHugeBuf (recycleIovecRxBufs s (iov.map NsIov.base)), l)
      | (true, l) =>
        -- `remaining` is compared as an unsigned number
        let remaining := (len + 2 ^ 32 - sb.len) % 2 ^ 32
        let s := pushRxbufs s .b0 sb.base
        (lbs.foldl (fun s lb => pushRxbufs s .b1 lb.base) s,
          l.push .aal5 ⟨v, none, memBytes (mem sb.base) sb.len ++ hugeCopy mem lbs remaining⟩)

/-- The iovec to which a buffer is added; `none` is the lack of one. -/
def openIov (rxIov : Option (List NsIov)) (s : NsRxBufs) (l : NsRxLog) :
    Option (List NsIov) × NsRxBufs × NsRxLog :=
  match rxIov with
  | none =>
    match takeIovBuf s with
    | (false, s) => (none, s, l.drop .aal5 v 1)
    | (true, s) => (some [], s, l)
  | some iov =>
    if nsMaxIovecs ≤ iov.length then
      (some [], recycleIovecRxBufs s ((iov.take nsMaxIovecs).map NsIov.base), l.err)
    else (some iov, s, l)

/-- The end of `dequeue_rx` for a buffer that is the last of its PDU. -/
def endPdu (iov : List NsIov) (s : NsRxBufs) (l : NsRxLog) : NsRxBufs × NsRxLog :=
  let total := (iov.map NsIov.len).sum
  let len := nsAal5Len (mem e.bufferHandle) (e.cellcount * 48)
  if e.crcerr ∨ total < len + 8 ∨ len + (47 + 8) < total then
    (recycleIovBuf (recycleIovecRxBufs s (iov.map NsIov.base)), l.err)
  else
    let r := deliverPdu mem v iov len s l
    (recycleIovBuf r.1, r.2)

/-- `dequeue_rx` for AAL5, with the `rx_iov` before and after it. -/
def dequeueAal5 (rxIov : Option (List NsIov)) (s : NsRxBufs) (l : NsRxLog) :
    Option (List NsIov) × NsRxBufs × NsRxLog :=
  let skb := e.bufferHandle
  match openIov v rxIov s l with
  | (none, s, l) => (none, recycleRxBuf s skb, l)
  | (some iov, s, l) =>
    let iov := iov ++ [⟨skb, e.cellcount * 48⟩]
    if iov.length = 1 ∧ ¬OnList s.b0.queue skb then
      -- "Expected a small buffer, and this is not one."
      (none, recycleIovBuf (recycleRxBuf s skb), l.err)
    else if iov.length ≠ 1 ∧ ¬OnList s.b1.queue skb then
      -- "Expected a large buffer, and this is not one."
      (none, recycleIovBuf (recycleIovecRxBufs s (iov.map NsIov.base)), l.err)
    else if e.eopdu then
      let r := endPdu mem v e iov s l
      (none, r.1, r.2)
    else (some iov, s, l)

end Dequeue

/-- The receive side of the driver. -/
structure NsRxDrv where
  bufs : NsRxBufs
  vcmap : Nat → NsRxVc
  log : NsRxLog

section Driver

variable (card : NsVcBits) (vcc : Nat → NsRxVcc)

/-- `dequeue_rx`. -/
def dequeueRx (mem : Word → Nat → Byte) (d : NsRxDrv) (e : NsRsqe) : NsRxDrv :=
  let d := { d with bufs := d.bufs.readFbqcs }
  let skb := e.bufferHandle
  let conn := nsFindConn card e.vpi e.vci
  if e.vpi = 0 ∧ e.vci = 0 then { d with bufs := recycleRxBuf d.bufs skb }
  else if nsCheckVc card e.vpi e.vci = false then { d with bufs := recycleRxBuf d.bufs skb }
  else
    let vc := d.vcmap conn
    match vc.vcc with
    | none => { d with bufs := recycleRxBuf d.bufs skb }
    | some v =>
      match (vcc v).aal with
      | .aal0 =>
        let r := aal0Loop mem v e e.cellcount 0 d.bufs d.log
        { d with bufs := recycleRxBuf r.1 skb, log := r.2 }
      | .aal5 =>
        let r := dequeueAal5 mem v e vc.rxIov d.bufs d.log
        { bufs := r.2.1
          vcmap := Function.update d.vcmap conn { vc with rxIov := r.1 }
          log := r.2.2 }

def NsRxVcc.conn (c : NsRxVcc) : Nat := nsFindConn card c.vpi c.vci

/-- `ns_open` for a socket that receives, until it has stored `rx` and `rx_vcc`; it has still to
clear `rx_iov` then. -/
def nsOpenRx (d : NsRxDrv) (v : Nat) : NsRxDrv × Option Nat :=
  let conn := (vcc v).conn card
  if nsCheckVc card (vcc v).vpi (vcc v).vci ∧ (d.vcmap conn).vcc = none then
    ({ d with vcmap := Function.update d.vcmap conn ⟨some v, (d.vcmap conn).rxIov⟩ }, some conn)
  else (d, none)

/-- `ns_open` clears `rx_iov`. -/
def nsOpenRxIov (d : NsRxDrv) (conn : Nat) : NsRxDrv :=
  { d with vcmap := Function.update d.vcmap conn { d.vcmap conn with rxIov := none } }

/-- `ns_close` for a socket that receives, until it has the iovec of which it gives the buffers back.
Nobody looks at `rx_iov` while `rx` is not set. -/
def nsCloseRx (d : NsRxDrv) (v : Nat) : NsRxDrv × Option (List Word) :=
  let conn := (vcc v).conn card
  match (d.vcmap conn).rxIov with
  | none => ({ d with vcmap := Function.update d.vcmap conn ⟨none, none⟩ }, none)
  | some iov =>
    ({ d with
      vcmap := Function.update d.vcmap conn ⟨none, none⟩
      bufs := d.bufs.readFbqcs }, some (iov.map NsIov.base))

end Driver

/-- What a process does when it is not in `push_rxbufs`: `ns_open` has still to clear `rx_iov`,
`ns_close` to give back the buffers `rest` of an iovec and then the iovec buffer, `NS_ADJBUFLEV` tests
whether there are enough, or `NS_SETBUFLEV` stores a level. -/
inductive NsTask
  | idle
  | opening (conn : Nat)
  | close (rest : List Word)
  | adjust (t : NsBufType)
  | setLevel (t : NsBufType) (l : NsLevels) (level : NsLevel)
  deriving DecidableEq

/-- The driver and the card. `push` and `task` are where the process stands that runs in the driver, if
one does, and `waiting` are the calls of `NS_ADJBUFLEV` that sleep in `alloc_skb`; on a single CPU
another process can only run then, and interrupts always. The card has taken the buffers `taken` from
its queues; `mem` are the contents of the buffers, and `rsqWr` is where the card writes the next entry
of the status queue. -/
structure NsRx where
  drv : NsRxDrv
  push : Option NsPush
  task : NsTask
  waiting : List NsBufType
  rsq : Nat → NsRsqe
  rsqNext : Nat
  rsqWr : Nat
  taken : List Word
  mem : Word → Nat → Byte

inductive NsRxEvent
  | opened (v : Nat)
  | closed (v : Nat)
  /-- A round of the loop of `process_rsq`. -/
  | round (allocs : List (Option Word)) (charges : List Bool)
  | attention (t : NsBufType) (allocs : List (Option Word))
  | setLevel (t : NsBufType) (nr : NsBufNr)
  /-- `NS_ADJBUFLEV` begins, and it wakes up with an answer of `alloc_skb`. -/
  | adjust (t : NsBufType)
  | filled (t : NsBufType) (alloc : Option Word)
  /-- The process in the driver makes a step. -/
  | process
  /-- The card takes a buffer, writes into one that it has taken, or reports one. -/
  | take (t : NsBufType)
  | write (h : Word) (data : Nat → Byte)
  | report (h word1 word4 : Word)

def NsRx.setBufs (s : NsRx) (b : NsRxBufs) : NsRx := { s with drv := { s.drv with bufs := b } }

/-- A round of the loop of `process_rsq`, which ends at an entry that is not valid. -/
def processRsqRound (card : NsVcBits) (vcc : Nat → NsRxVcc) (s : NsRx) : Option NsRx :=
  let e := s.rsq s.rsqNext
  if e.Valid then
    some { s with
      drv := dequeueRx card vcc s.mem s.drv e
      rsq := Function.update s.rsq s.rsqNext e.init
      rsqNext := if s.rsqNext = nsRsqNumEntries - 1 then 0 else s.rsqNext + 1 }
  else none

/-- No process is in the driver. -/
def NsRx.Vacant (s : NsRx) : Prop := s.push = none ∧ s.task = .idle

instance (s : NsRx) : Decidable s.Vacant := inferInstanceAs (Decidable (_ ∧ _))

/-- The call of `push_rxbufs` for a buffer that a process gives back. -/
def recyclePush (s : NsRxBufs) (skb : Word) : Option NsPush :=
  if OnList s.b0.queue skb then some (.count .b0 skb)
  else if OnList s.b1.queue skb then some (.count .b1 skb)
  else none

/-- The test of the loop of `NS_ADJBUFLEV`, which then allocates a buffer and may sleep. -/
def adjustTest (s : NsRx) (t : NsBufType) : NsRx :=
  if (s.drv.bufs.pool t).fbqc < (s.drv.bufs.pool t).nr.init then
    { s with task := .idle, waiting := t :: s.waiting }
  else { s with task := .idle }

/-- A step of the process in the driver. -/
def nsProcess (s : NsRx) : Option NsRx :=
  match s.push with
  | some p =>
    let r := pushRxbufsStep s.drv.bufs p
    some { s.setBufs r.1 with push := r.2 }
  | none =>
    match s.task with
    | .idle => none
    | .opening conn => some { s with drv := nsOpenRxIov s.drv conn, task := .idle }
    | .close (skb :: rest) =>
      some { s with push := recyclePush s.drv.bufs skb, task := .close rest }
    | .close [] => some { s.setBufs (recycleIovBuf s.drv.bufs) with task := .idle }
    | .adjust t => some (adjustTest s t)
    | .setLevel t l level =>
      some { s.setBufs (setBufLev s.drv.bufs t l level) with
        task := level.next.elim .idle (.setLevel t l) }

/-- `alloc_skb` has answered to `NS_ADJBUFLEV`. -/
def adjustFilled (s : NsRx) (t : NsBufType) (alloc : Option Word) : NsRx :=
  let s := { s with waiting := s.waiting.erase t }
  match { s.drv.bufs with allocs := [alloc] }.allocSkb.1 with
  | none => s
  | some skb =>
    let p := s.drv.bufs.pool t
    { s.setBufs (s.drv.bufs.setPool t { p with queue := p.queue ++ [skb] }) with
      push := some (.count t skb)
      task := .adjust t }

def nsRxStep (card : NsVcBits) (vcc : Nat → NsRxVcc) (s : NsRx) : NsRxEvent → Option NsRx
  | .opened v =>
    if s.Vacant then
      let r := nsOpenRx card vcc s.drv v
      some { s with drv := r.1, task := r.2.elim .idle .opening }
    else none
  | .closed v =>
    if s.Vacant ∧ (s.drv.vcmap ((vcc v).conn card)).vcc = some v then
      let r := nsCloseRx card vcc s.drv v
      some { s with drv := r.1, task := r.2.elim .idle .close }
    else none
  | .round allocs charges =>
    processRsqRound card vcc { s with drv := { s.drv with
      bufs := { s.drv.bufs with allocs := allocs }
      log := { s.drv.log with charges := charges } } }
  | .attention t allocs => some (s.setBufs (fbqAttention { s.drv.bufs with allocs := allocs } t))
  | .setLevel t nr =>
    if s.Vacant then
      some (if h : bufLevAdmits nr topB then { s with task := .setLevel t ⟨nr, h⟩ .min } else s)
    else none
  | .adjust t => if s.Vacant then some (adjustTest s t) else none
  | .filled t alloc =>
    if s.Vacant ∧ t ∈ s.waiting then some (adjustFilled s t alloc) else none
  | .process => nsProcess s
  | .take t =>
    let p := s.drv.bufs.pool t
    match p.fbq with
    | [] => none
    | h :: rest =>
      some { s.setBufs (s.drv.bufs.setPool t { p with rd := p.rd + 2, fbq := rest }) with
        taken := h :: s.taken }
  | .write h data =>
    if OnList s.taken h then some { s with mem := Function.update s.mem h data } else none
  | .report h word1 word4 =>
    if OnList s.taken h ∧ ¬(s.rsq s.rsqWr).Valid then
      some { s with
        rsq := Function.update s.rsq s.rsqWr ⟨word1, h, word4 ||| 0x80000000#32⟩
        rsqWr := (s.rsqWr + 1) % nsRsqNumEntries
        taken := s.taken.erase h }
    else none

/-- Before the buffers are allocated. -/
def nsRxEmpty (hb iov : Nat) : NsRxBufs where
  b0 := ⟨[], none, ⟨16, 48, 256⟩, 0, 0, []⟩
  b1 := ⟨[], none, ⟨16, 48, 256⟩, 0, 0, []⟩
  hb := ⟨hb, ⟨6, 4, 10⟩⟩
  iov := ⟨iov, ⟨16, 128, 256⟩⟩
  fbie := true
  allocs := []

/-- After `ns_init_card`, with the answers of `alloc_skb` for the large and for the small buffers
and the numbers of the huge and of the iovec buffers that could be allocated. -/
def nsRxInit (large small : List (Option Word)) (hb iov : Nat) (mem : Word → Nat → Byte) :
    NsRx where
  drv :=
    { bufs := nsInitRxbufs .b0 48
        { nsInitRxbufs .b1 48 { nsRxEmpty hb iov with allocs := large } with allocs := small }
      vcmap := fun _ => ⟨none, none⟩
      log := ⟨fun _ => ⟨0, 0, 0⟩, fun _ => [], [], []⟩ }
  push := none
  task := .idle
  waiting := []
  rsq := fun _ => ⟨0#32, 0#32, 0#32⟩
  rsqNext := 0
  rsqWr := 0
  taken := []
  mem := mem

end DanubeBsp
