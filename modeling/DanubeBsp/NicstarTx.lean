import DanubeBsp.Errno
import DanubeBsp.FlagRing
import DanubeBsp.NicstarScq
import DanubeBsp.NicstarTst
import DanubeBsp.Runs

namespace DanubeBsp

/-- A socket as `ns_open` sees it. It is `shared` if it is of the class UBR without a rate of its own:
then it uses `scq0`. -/
structure NsTxVcc where
  conn : Nat
  addr : NsTxAddress
  type : ScqType
  shared : Bool
  tx : Bool
  rx : Bool
  used : (tx || rx) = true

/-- The part of a `vc_map` for transmission; `scq` is the number of the queue, `scd` the index in
`adr_scd`. -/
structure NsVcMap where
  tx : Bool
  rx : Bool
  active : Bool
  scq : Nat
  scd : Nat

/-- A socket that is open, with the queue and the SCD that it was given; while `ns_close` waits,
`closing` is the queue for which it does. -/
structure NsTxGrant where
  vcc : Nat
  scq : Nat
  scd : Nat
  closing : Option Nat
  deriving DecidableEq

/-- The driver and the card. Queue 0 is `scq0`, and `made` queues have been made. Beside them the
number of reports that the card has lost, and the connections that were restarted with `NS_START`. -/
structure NsTx where
  vcmap : Nat → NsVcMap
  vccs : List NsTxGrant
  scd2vc : Nat → Option Nat
  scqs : Nat → NsScq
  made : Nat
  tsq : Nat → NsTsi
  tsqNext : Nat
  tsqWr : Nat
  lost : Nat
  starts : List Nat

/-- `NS_TSQ_NUM_ENTRIES`. -/
def nsTsqNumEntries : Nat := 1024

/-- `ns_tsi_isempty`. -/
def NsTsi.IsEmpty (t : NsTsi) : Prop := t.word2 &&& 0x80000000#32 ≠ 0#32

instance (t : NsTsi) : Decidable t.IsEmpty := inferInstanceAs (Decidable (_ ≠ _))

/-- `ns_tsi_gettype`. -/
def NsTsi.type (t : NsTsi) : Word := t.word2 &&& 0x60000000#32

def NsTx.setScq (s : NsTx) (q : Nat) (sq : NsScq) : NsTx :=
  { s with scqs := Function.update s.scqs q sq }

def NsTx.setVc (s : NsTx) (conn : Nat) (m : NsVcMap) : NsTx :=
  { s with vcmap := Function.update s.vcmap conn m }

/-- `vcc->dev_data`. -/
def NsTx.devData (s : NsTx) (v : Nat) : Option NsTxGrant := s.vccs.find? fun g => g.vcc = v

/-- All packets that wait. -/
def NsTx.queued (s : NsTx) : Nat :=
  ((List.range s.made).map fun q => (s.scqs q).waiting.length).sum

section Driver

variable (vcc : Nat → NsTxVcc)

/-- `check_ci`: a socket with the same address collides in a direction. -/
def checkCi (s : NsTx) (v : Nat) : Bool :=
  s.vccs.any fun g => (vcc g.vcc).conn == (vcc v).conn &&
    ((vcc g.vcc).tx && (vcc v).tx || (vcc g.vcc).rx && (vcc v).rx)

/-- The checks of `ns_open` before an SCD is looked for; `admitted` is the answer of those on the class
and on the rates. -/
def nsOpenAdmits (s : NsTx) (v : Nat) (admitted : Bool) : Bool :=
  !checkCi vcc s v && !((vcc v).tx && (s.vcmap (vcc v).conn).tx) &&
    !((vcc v).rx && (s.vcmap (vcc v).conn).rx) && admitted

/-- The end of `ns_open`, with the queue and the SCD of the connection. -/
def nsOpenGrant (s : NsTx) (v scq scd : Nat) : NsTx :=
  let c := vcc v
  let m := s.vcmap c.conn
  { s.setVc c.conn
      { tx := m.tx || c.tx
        rx := m.rx || c.rx
        active := if c.tx ∧ c.type = .cbr then m.active else true
        scq := scq
        scd := scd } with
    vccs := ⟨v, scq, scd, none⟩ :: s.vccs }

/-- What `ns_open` does to the queues; `memory` tells whether `get_scq` finds memory, whose contents
are `stale`. -/
def nsOpenTx (s : NsTx) (v : Nat) (admitted memory : Bool) (stale : Nat → NsScqe) : NsTx :=
  let c := vcc v
  if nsOpenAdmits vcc s v admitted then
    if c.shared then nsOpenGrant vcc s v 0 nsTsrScdIsUbr0
    else
      match (List.range nsScdNum).find? fun i => (s.scd2vc i).isNone with
      | none => s
      | some scdi =>
        if memory then
          nsOpenGrant vcc { s.setScq s.made (getScq c.type scdi stale) with
            scd2vc := Function.update s.scd2vc scdi (some c.conn)
            made := s.made + 1 } v s.made scdi
        -- `adr_scd` is not put back
        else s.setVc c.conn { s.vcmap c.conn with scd := scdi }
  else s

/-- The index that `push_scqe` puts into the request. -/
def NsTx.requestScd (s : NsTx) (q conn : Nat) : Nat :=
  if q = 0 then nsTsrScdIsUbr0 else (s.vcmap conn).scd

/-- `ns_push_on_scq`, with a bound for its rounds; `none` is an access through a null pointer. The
queue goes on as that of the last packet's connection. -/
def nsPushOnScq : (rounds : Nat) → NsTx → (q : Nat) → Option NsTx
  | 0, _, _ => none
  | rounds + 1, s, q =>
    match (s.scqs q).waiting with
    | [] => some s
    | p :: rest =>
      let s := s.setScq q { s.scqs q with waiting := rest }
      match p.vcc with
      | none => none
      | some v =>
        match s.devData v with
        | none => none
        | some _ =>
          let conn := (vcc v).conn
          let q := (s.vcmap conn).scq
          match pushScqe (s.scqs q) (s.requestScd q conn) (nsTbd (vcc v).addr p.buf) p with
          | none => some (s.setScq q { s.scqs q with waiting := p :: (s.scqs q).waiting })
          | some sq =>
            nsPushOnScq rounds { s.setScq q sq with
              starts := if (s.vcmap conn).active then s.starts else s.starts ++ [conn] } q

/-- `ns_send`; `frags` is `nr_frags != 0`. -/
def nsSend (s : NsTx) (v : Nat) (b : NsTxBuf) (frags : Bool) : Option (NsTx × Int) :=
  match s.devData v with
  | none => some (s, eInval)
  | some _ =>
    let m := s.vcmap (vcc v).conn
    if m.tx = false then some (s, eInval)
    else if frags then some (s, eInval)
    else
      let sq := s.scqs m.scq
      let p : NsTxSkb := ⟨some v, b⟩
      let s := s.setScq m.scq
        { sq with waiting := sq.waiting ++ [p], accepted := sq.accepted ++ [p] }
      (nsPushOnScq vcc (s.queued + 1) s m.scq).map fun s => (s, 0)

/-- The queue that `process_tsq` finds for a report. -/
def NsTx.queueOf (s : NsTx) (scdi : Nat) : Option Nat :=
  if scdi = nsTsrScdIsUbr0 then some 0
  else (s.scd2vc scdi).map fun conn => (s.vcmap conn).scq

/-- `ns_tsi_init`. -/
def NsTsi.init (t : NsTsi) : NsTsi := { t with word2 := 0x80000000#32 }

/-- The entry at `next` is marked empty. -/
def NsTx.clearTsi (s : NsTx) : NsTx :=
  { s with tsq := Function.update s.tsq s.tsqNext (s.tsq s.tsqNext).init }

/-- The loop of `process_tsq`, with a bound for its rounds. -/
def tsqLoop (rctSize : Nat) : (rounds : Nat) → NsTx → Option NsTx
  | 0, _ => none
  | rounds + 1, s =>
    let t := s.tsq s.tsqNext
    if t.IsEmpty then some s
    else
      let advance (s : NsTx) : NsTx :=
        { s.clearTsi with
          tsqNext := if s.tsqNext + 1 = nsTsqNumEntries then 0 else s.tsqNext + 1 }
      if t.type = 0x20000000#32 then
        match s.queueOf (nsTsiScdIndex t.word1) with
        -- "could not find VC from SCD index"
        | none => some s.clearTsi
        | some q =>
          match drainScq (s.scqs q) (nsTsiScqPos t.word1) with
          | none => none
          | some sq =>
            let s := s.setScq q sq
            match nsPushOnScq vcc (s.queued + 1) s q with
            | none => none
            | some s => tsqLoop rctSize rounds (advance s)
      else if t.type = 0x40000000#32 then
        let conn := (t.word1 &&& 0x3fff#32).toNat
        let s := if conn < rctSize then s.setVc conn { s.vcmap conn with active := false } else s
        tsqLoop rctSize rounds (advance s)
      else tsqLoop rctSize rounds (advance s)

/-- `process_tsq`. -/
def processTsq (rctSize : Nat) (s : NsTx) : Option NsTx :=
  tsqLoop vcc rctSize (nsTsqNumEntries + 1) s

/-- The beginning of `ns_close`. -/
def nsCloseBegin (s : NsTx) (g : NsTxGrant) : NsTx :=
  let c := vcc g.vcc
  let m := s.vcmap c.conn
  { s.setVc c.conn { m with tx := m.tx && !c.tx, rx := m.rx && !c.rx } with
    vccs := s.vccs.map fun h => if h = g then { g with closing := some m.scq } else h }

/-- `free_scq` of a queue that is not `scq0`. -/
def freeScq (q : NsScq) : NsScq :=
  { q with
    waiting := []
    popped := q.popped ++ (List.range scqNumEntries).filterMap q.skb
    skb := fun _ => none }

/-- The packets of a socket in `scq0` lose their reference to it. -/
def NsScq.forget (q : NsScq) (v : Nat) : NsScq :=
  { q with skb := fun i => (q.skb i).map fun p =>
      if i < scqNumEntries ∧ p.vcc = some v then { p with vcc := none } else p }

/-- A round of the loop in which `ns_close` waits for the queue `q`, or, once that is empty, the rest
of `ns_close`. -/
def nsCloseRound (s : NsTx) (g : NsTxGrant) (q : Nat) : NsTx :=
  let c := vcc g.vcc
  let m := s.vcmap c.conn
  let sq := s.scqs q
  if q ≠ 0 ∧ scqBefore sq.next ≠ sq.tail then
    if (sq.scqe (scqBefore sq.next)).isTsr = false ∧ sq.tail ≠ sq.next then
      s.setScq q (sq.put (nsTsr .ubr m.scd sq.next) none).tell
    else s
  else
    let s := if m.scq ≠ 0 then
      { s.setScq m.scq (freeScq (s.scqs m.scq)) with
        scd2vc := Function.update s.scd2vc m.scd none } else s
    let s := if c.tx then s.setScq 0 ((s.scqs 0).forget g.vcc) else s
    { s with vccs := s.vccs.erase g }

end Driver

/-- The card writes an entry of the status queue, unless the entry is not empty yet or it is `lost`. -/
def NsTx.report (s : NsTx) (t : NsTsi) (lost : Bool) : NsTx :=
  if lost ∨ ¬(s.tsq s.tsqWr).IsEmpty then { s with lost := s.lost + 1 }
  else { s with
    tsq := Function.update s.tsq s.tsqWr t
    tsqWr := (s.tsqWr + 1) % nsTsqNumEntries }

inductive NsTxEvent
  | opened (v : Nat) (admitted memory : Bool) (stale : Nat → NsScqe)
  | send (v : Nat) (b : NsTxBuf) (frags : Bool)
  /-- The card takes an entry of a queue; a report has the time in its lower bits. -/
  | card (q : Nat) (time : Word) (lost : Bool)
  /-- The card reports that a connection is idle, or that its timer has overflowed. -/
  | status (word1 time : Word) (idle lost : Bool)
  | interrupt
  | close (v : Nat)
  | closeRound (v : Nat)

/-- The lower bits of the second word of a report. -/
def nsTsiStamp (type time : Word) : Word := type ||| (time &&& 0x00FFFFFF#32)

def nsTxStep (vcc : Nat → NsTxVcc) (rctSize : Nat) (s : NsTx) : NsTxEvent → Option NsTx
  | .opened v admitted memory stale =>
    if s.devData v = none then some (nsOpenTx vcc s v admitted memory stale) else none
  | .send v b frags => (nsSend vcc s v b frags).map Prod.fst
  | .card q time lost =>
    match (s.scqs q).cardTakes with
    | none => none
    | some (sq, none) => some (s.setScq q sq)
    | some (sq, some word) =>
      some ((s.setScq q sq).report ⟨word, nsTsiStamp 0x20000000#32 time⟩ lost)
  | .status word1 time idle lost =>
    some (s.report ⟨word1, nsTsiStamp (if idle then 0x40000000#32 else 0#32) time⟩ lost)
  | .interrupt => processTsq vcc rctSize s
  | .close v =>
    match s.devData v with
    | none => none
    | some g => if g.closing = none then some (nsCloseBegin vcc s g) else none
  | .closeRound v =>
    match s.devData v with
    | none => none
    | some g => g.closing.map (nsCloseRound vcc s g)

/-- After `ns_init_card`, with any contents of the memory of the queues. -/
def nsTxInit (stale : Nat → NsScqe) : NsTx where
  vcmap _ := ⟨false, false, false, 0, 0⟩
  vccs := []
  scd2vc _ := none
  scqs _ := getScq .ubr nsTsrScdIsUbr0 stale
  made := 1
  tsq _ := ⟨0#32, 0x80000000#32⟩
  tsqNext := 0
  tsqWr := 0
  lost := 0
  starts := []

end DanubeBsp
