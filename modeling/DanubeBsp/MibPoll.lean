import Mathlib.Data.Fintype.Basic
import DanubeBsp.MibDays
import DanubeBsp.TableSum

namespace DanubeBsp

/-- The 16-bit modem counters that `adsl_mib_poll` reads, by the fields of `mib_previous_read`. -/
inductive ModemCounter
  | atucPerfEss
  | aturPerfEss
  | aturChanCorrBlkIntl
  | aturChanCorrBlkFast
  | aturChanUncorrBlkIntl
  | aturChanUncorrBlkFast
  | atucPerfStatFastR
  | atucPerfStatFailedFastR
  | atucPerfStatSesL
  | atucPerfStatUasL
  | aturPerfStatSesL
  deriving DecidableEq

/-- The counter of the interval, and the total of that name, to which a block of `adsl_mib_poll` adds.
The last block adds to `AtucPerfStatUasL` and `ATUC_PERF_STAT_UASL`. -/
def ModemCounter.target : ModemCounter → MibField
  | .atucPerfEss => .atucPerfEs
  | .aturPerfEss => .aturPerfEs
  | .aturChanCorrBlkIntl => .aturChanPerfCorrBlk
  | .aturChanCorrBlkFast => .aturChanPerfCorrBlk
  | .aturChanUncorrBlkIntl => .aturChanPerfUncorrBlk
  | .aturChanUncorrBlkFast => .aturChanPerfUncorrBlk
  | .atucPerfStatFastR => .atucPerfStatFastR
  | .atucPerfStatFailedFastR => .atucPerfStatFailedFastR
  | .atucPerfStatSesL => .atucPerfStatSesL
  | .atucPerfStatUasL => .atucPerfStatUasL
  | .aturPerfStatSesL => .atucPerfStatUasL

/-- The blocks of a round, each with one `meiCMV`. -/
inductive PollBlock
  | counter (c : ModemCounter)
  | recvBlkLsw
  | recvBlkMsw
  deriving DecidableEq

/-- `chantype`, where at most one of the two flags is 1. -/
inductive ChanType
  | none
  | interleave
  | fast

def corrBlocks : ChanType → List PollBlock
  | .none => []
  | .interleave => [.counter .aturChanCorrBlkIntl]
  | .fast => [.counter .aturChanCorrBlkFast]

def uncorrBlocks : ChanType → List PollBlock
  | .none => []
  | .interleave => [.counter .aturChanUncorrBlkIntl]
  | .fast => [.counter .aturChanUncorrBlkFast]

/-- The blocks of a round in order. The channel type is read twice. -/
def roundBlocks (corr uncorr : ChanType) : List PollBlock :=
  [.counter .atucPerfEss, .counter .aturPerfEss, .recvBlkLsw, .recvBlkMsw] ++ corrBlocks corr ++
    uncorrBlocks uncorr ++
    [.counter .atucPerfStatFastR, .counter .atucPerfStatFailedFastR, .counter .atucPerfStatSesL,
      .counter .atucPerfStatUasL, .counter .aturPerfStatSesL]

/-- The poll thread: its variables, the totals (named by the interval counter they belong to) and
`mib_pread`, with the blocks still to do in this round. The rest is history: `done` the counters of
the completed intervals, `seen` and `seenRecv` the true number of events at the last successful read,
`lswAt` the true number of which `temp` holds the low half. -/
structure PollSys where
  list : IntervalList
  clock : Nat
  total : MibValues
  pread : ModemCounter → BitVec 16
  preadRecv : Word
  temp : Word
  temp2 : Word
  todo : List PollBlock
  done : List MibValues
  seen : ModemCounter → Nat
  seenRecv : Nat
  lswAt : Option Nat

def pollInit (now : Nat) : PollSys :=
  { list := danubeMeiMibInit now
    clock := now
    total := fun _ => 0
    pread := fun _ => 0
    preadRecv := 0
    temp := 0
    temp2 := 0
    todo := []
    done := []
    seen := fun _ => 0
    seenRecv := 0
    lswAt := none }

/-- Add to a counter of the current interval and to the total of that name. -/
def PollSys.add (s : PollSys) (f : MibField) (d : Word) : PollSys :=
  { s with
    list := setField s.list f (s.list.current.field f + d)
    total := Function.update s.total f (s.total f + d) }

/-- The difference of a block, with its `temp >= 0` on an unsigned `temp`. -/
def wrapDiff (temp modulus prev rx : Word) : Word :=
  if 0 ≤ temp then temp else modulus - prev + rx

/-- A block whose `meiCMV` succeeds with `rx` in `RxMessage[4]`. -/
def pollCounter (s : PollSys) (c : ModemCounter) (rx : BitVec 16) : PollSys :=
  let prev := (s.pread c).setWidth 32
  let temp := rx.setWidth 32 - prev
  { s.add c.target (wrapDiff temp 0xffff prev (rx.setWidth 32)) with
    temp := temp
    pread := Function.update s.pread c rx }

/-- The update of the received blocks from the two halves, which are stale when a read failed. The
transmitted blocks are a copy. -/
def pollRecvBlk (s : PollSys) : PollSys :=
  let blk := s.temp + s.temp2 <<< 16
  let s' := s.add .aturChanPerfRxBlk
    (wrapDiff (blk - s.preadRecv) 0xffffffff s.preadRecv blk)
  { s' with
    list := setField s'.list .aturChanPerfTxBlk (s'.list.current.field .aturChanPerfRxBlk)
    total := Function.update s'.total .aturChanPerfTxBlk (s'.total .aturChanPerfRxBlk)
    preadRecv := blk }

/-- `begin` starts a round, `block` is the next block with the true number of events at the modem
when its read succeeds, and `leave` the jump to `mib_poll_end`. -/
inductive PollEvent
  | begin (now : Nat) (corr uncorr : ChanType)
  | block (reply : Option Nat)
  | leave

/-- One block. The modem counts on from what was read last, by less than its modulus. -/
def execBlock (s : PollSys) (b : PollBlock) : Option Nat → Option PollSys
  | none =>
    match b with
    | .counter _ => some s
    | .recvBlkLsw => some { s with lswAt := none }
    | .recvBlkMsw => some (pollRecvBlk s)
  | some n =>
    match b with
    | .counter c =>
      if s.seen c ≤ n ∧ n - s.seen c < 65536 then
        some { pollCounter s c (BitVec.ofNat 16 n) with
          seen := Function.update s.seen c n
          lswAt := none }
      else none
    | .recvBlkLsw =>
      if s.seenRecv ≤ n ∧ n - s.seenRecv < 2 ^ 32 then
        some { s with temp := BitVec.ofNat 32 (n % 65536), lswAt := some n }
      else none
    | .recvBlkMsw =>
      if s.lswAt.getD s.seenRecv ≤ n then
        some { pollRecvBlk { s with temp2 := BitVec.ofNat 32 (n / 65536 % 65536) } with
          seenRecv := s.lswAt.getD s.seenRecv }
      else none

def pollStep (s : PollSys) : PollEvent → Option PollSys
  | .begin now corr uncorr =>
    if s.todo = [] ∧ s.clock ≤ now then
      some { s with
        list := rotateInterval s.list now
        clock := now
        done :=
          if 900 ≤ now - s.list.current.startTime then s.done ++ [s.list.current.field] else s.done
        todo := roundBlocks corr uncorr
        lswAt := none }
    else none
  | .block reply =>
    match s.todo with
    | [] => none
    | b :: rest => execBlock { s with todo := rest } b reply
  | .leave => some { s with todo := [] }

instance : Fintype ModemCounter :=
  ⟨{.atucPerfEss, .aturPerfEss, .aturChanCorrBlkIntl, .aturChanCorrBlkFast,
    .aturChanUncorrBlkIntl, .aturChanUncorrBlkFast, .atucPerfStatFastR, .atucPerfStatFailedFastR,
    .atucPerfStatSesL, .atucPerfStatUasL, .aturPerfStatSesL}, by intro c; cases c <;> decide⟩

/-- The interval counter and total that a modem counter is for. -/
def ModemCounter.own : ModemCounter → MibField
  | .aturPerfStatSesL => .aturPerfStatSesL
  | c => c.target

/-- The true number of events that belong to a total. -/
def trueCount (s : PollSys) (f : MibField) : Nat :=
  (∑ c : ModemCounter, if c.own = f then s.seen c else 0) +
    if f = .aturChanPerfRxBlk ∨ f = .aturChanPerfTxBlk then s.seenRecv else 0

/-- The total and the sum over all intervals written since the start are the true number. -/
def CountExact (s : PollSys) (f : MibField) : Prop :=
  s.total f = BitVec.ofNat 32 (trueCount s f) ∧
    fieldSum f s.done + s.list.current.field f = BitVec.ofNat 32 (trueCount s f)

structure PollFaithful (s : PollSys) : Prop where
  counter : ∀ c : ModemCounter, CountExact s c.own
  received : CountExact s .aturChanPerfRxBlk
  transmitted : CountExact s .aturChanPerfTxBlk

def SameHigh : Option Nat → Option Nat → Prop
  | some n, some m => n / 65536 % 65536 = m / 65536 % 65536
  | _, _ => False

def BlockClean (s : PollSys) (reply : Option Nat) : PollBlock → Prop
  | .counter c => ∀ n ∈ reply, n < 65536 ∧ (c = .aturPerfStatSesL → n = 0)
  | .recvBlkLsw => True
  | .recvBlkMsw => SameHigh s.lswAt reply

/-- No 16-bit counter has wrapped, the counter of severely errored seconds at the far end has counted
nothing, and the received blocks are updated from two halves of one number. -/
def PollClean (s : PollSys) : PollEvent → Prop
  | .block reply => ∀ b ∈ s.todo.head?, BlockClean s reply b
  | _ => True

instance : (a b : Option Nat) → Decidable (SameHigh a b)
  | some n, some m => inferInstanceAs (Decidable (n / 65536 % 65536 = m / 65536 % 65536))
  | none, _ => .isFalse id
  | some _, none => .isFalse id

instance (s : PollSys) (reply : Option Nat) (b : PollBlock) : Decidable (BlockClean s reply b) :=
  match b with
  | .counter c =>
    inferInstanceAs (Decidable (∀ n ∈ reply, n < 65536 ∧ (c = .aturPerfStatSesL → n = 0)))
  | .recvBlkLsw => .isTrue trivial
  | .recvBlkMsw => inferInstanceAs (Decidable (SameHigh s.lswAt reply))

instance (s : PollSys) (e : PollEvent) : Decidable (PollClean s e) :=
  match e with
  | .block reply => inferInstanceAs (Decidable (∀ b ∈ s.todo.head?, BlockClean s reply b))
  | .begin .. | .leave => .isTrue trivial

/-- `temp` is unsigned, so the branch for a wrap is never taken. -/
theorem wrapDiff_eq (temp modulus prev rx : Word) : wrapDiff temp modulus prev rx = temp :=
  if_pos (by simp [BitVec.le_def])

theorem setWidth_ofNat_of_lt {n : Nat} (h : n < 65536) :
    (BitVec.ofNat 16 n).setWidth 32 = BitVec.ofNat 32 n := by
  apply BitVec.eq_of_toNat_eq
  simp only [BitVec.toNat_setWidth, BitVec.toNat_ofNat]
  omega

theorem halves_eq (n : Nat) :
    BitVec.ofNat 32 (n % 65536) + BitVec.ofNat 32 (n / 65536 % 65536) <<< 16 = BitVec.ofNat 32 n := by
  apply BitVec.eq_of_toNat_eq
  simp only [BitVec.toNat_add, BitVec.toNat_shiftLeft, BitVec.toNat_ofNat, Nat.shiftLeft_eq]
  omega

theorem trueCount_read (s : PollSys) (c : ModemCounter) (n : Nat) (f : MibField) :
    trueCount { s with seen := Function.update s.seen c n } f +
        (if c.own = f then s.seen c else 0) =
      trueCount s f + if c.own = f then n else 0 := by
  have hsum := sum_table_update (Finset.mem_univ c) s.seen n
    fun c (k : Nat) => if c.own = f then k else 0
  unfold trueCount
  dsimp only at hsum ⊢
  omega

theorem fieldSum_snoc (f : MibField) (vs : List MibValues) (v : MibValues) :
    fieldSum f (vs ++ [v]) = fieldSum f vs + v f := by
  simp [fieldSum]

/-- What a clean run keeps. `sums` and `copied` hold of every run. -/
structure PollInv (s : PollSys) : Prop where
  clear : ∀ x ∈ s.list.after, x.field = fun _ => 0
  sums : ∀ f, fieldSum f s.done + s.list.current.field f = s.total f
  copied : fieldSum .aturChanPerfTxBlk s.done = fieldSum .aturChanPerfRxBlk s.done ∧
    s.list.current.field .aturChanPerfTxBlk = s.list.current.field .aturChanPerfRxBlk
  read : ∀ c, s.pread c = BitVec.ofNat 16 (s.seen c)
  small : ∀ c, s.seen c < 65536
  silent : s.seen .aturPerfStatSesL = 0
  recv : s.preadRecv = BitVec.ofNat 32 s.seenRecv
  lsw : ∀ n, s.lswAt = some n → s.temp = BitVec.ofNat 32 (n % 65536)
  exact : ∀ f, s.total f = BitVec.ofNat 32 (trueCount s f)

theorem pollInit_inv (now : Nat) : PollInv (pollInit now) := by
  refine ⟨?_, ?_, ?_, ?_, ?_, rfl, rfl, ?_, ?_⟩
  · exact (mibInit_inv now).clear
  · intro f
    simp [pollInit, danubeMeiMibInit, zeroIntvl]
  · simp [pollInit, danubeMeiMibInit, zeroIntvl]
  · intro c
    rfl
  · intro c
    simp [pollInit]
  · intro n hn
    simp [pollInit] at hn
  · intro f
    simp [pollInit, trueCount]

theorem PollInv.faithful {s : PollSys} (h : PollInv s) : PollFaithful s := by
  have hf : ∀ f, CountExact s f := by
    intro f
    exact ⟨h.exact f, (h.sums f).trans (h.exact f)⟩
  exact ⟨fun c => hf c.own, hf _, hf _⟩

theorem add_sums {s : PollSys} (h : ∀ f, fieldSum f s.done + s.list.current.field f = s.total f)
    (g : MibField) (d : Word) (f : MibField) :
    fieldSum f (s.add g d).done + (s.add g d).list.current.field f = (s.add g d).total f := by
  have hf := h f
  by_cases hfg : f = g
  · subst hfg
    simp only [PollSys.add, setField, Function.update_self]
    rw [← hf, add_assoc]
  · simp only [PollSys.add, setField, Function.update_of_ne hfg]
    exact hf

theorem PollInv.begin {s : PollSys} (h : PollInv s) (now : Nat) (todo : List PollBlock) :
    PollInv { s with
      list := rotateInterval s.list now
      clock := now
      done := if 900 ≤ now - s.list.current.startTime then s.done ++ [s.list.current.field]
        else s.done
      todo := todo
      lswAt := none } := by
  unfold rotateInterval
  split
  · have hcur := nextInterval_current s.list now h.clear
    obtain ⟨hdone, hnow⟩ := h.copied
    refine ⟨?_, ?_, ?_, h.read, h.small, h.silent, h.recv, ?_, h.exact⟩
    · intro x hx
      rw [nextInterval_after] at hx
      exact h.clear x (List.mem_of_mem_tail hx)
    · intro f
      simp only [hcur, fieldSum_snoc, add_zero]
      exact h.sums f
    · simp only [hcur, fieldSum_snoc, and_true]
      rw [hdone, hnow]
    · intro n hn
      simp at hn
  · exact ⟨h.clear, h.sums, h.copied, h.read, h.small, h.silent, h.recv, fun n hn => by simp at hn,
      h.exact⟩

theorem target_ne_tx (c : ModemCounter) : c.target ≠ .aturChanPerfTxBlk := by
  cases c <;> simp [ModemCounter.target]

theorem target_ne_rx (c : ModemCounter) : c.target ≠ .aturChanPerfRxBlk := by
  cases c <;> simp [ModemCounter.target]

theorem target_eq_own {c : ModemCounter} (h : c ≠ .aturPerfStatSesL) : c.target = c.own := by
  cases c with
  | aturPerfStatSesL => exact absurd rfl h
  | _ => rfl

theorem PollInv.diff {s : PollSys} (h : PollInv s) (c : ModemCounter) {n : Nat} (hn : n < 65536) :
    (BitVec.ofNat 16 n).setWidth 32 - (s.pread c).setWidth 32 =
      BitVec.ofNat 32 n - BitVec.ofNat 32 (s.seen c) := by
  rw [h.read, setWidth_ofNat_of_lt hn, setWidth_ofNat_of_lt (h.small c)]

/-- The block of a counter adds what was counted since the last read to the counter's own total. -/
theorem PollInv.exact_counter {s : PollSys} (h : PollInv s) {c : ModemCounter} {n : Nat}
    (hz : c = .aturPerfStatSesL → n = 0) (f : MibField) :
    Function.update s.total c.target
        (s.total c.target + (BitVec.ofNat 32 n - BitVec.ofNat 32 (s.seen c))) f =
      BitVec.ofNat 32 (trueCount { s with seen := Function.update s.seen c n } f) := by
  have hcount := trueCount_read s c n f
  by_cases hc : c = .aturPerfStatSesL
  · have hn := hz hc
    have hseen : s.seen c = 0 := by rw [hc, h.silent]
    rw [hn, hseen, sub_self, add_zero, Function.update_eq_self, h.exact]
    rw [hn, hseen] at hcount
    apply congrArg (BitVec.ofNat 32)
    omega
  · rw [target_eq_own hc]
    by_cases hf : c.own = f
    · subst hf
      rw [if_pos rfl, if_pos rfl] at hcount
      have hbv := congrArg (BitVec.ofNat 32) hcount
      rw [BitVec.ofNat_add, BitVec.ofNat_add] at hbv
      rw [Function.update_self, h.exact, ← add_sub_assoc, ← hbv, add_sub_cancel_right]
    · rw [if_neg hf, if_neg hf] at hcount
      rw [Function.update_of_ne (Ne.symm hf), h.exact]
      apply congrArg (BitVec.ofNat 32)
      omega

theorem PollInv.counter {s : PollSys} (h : PollInv s) {c : ModemCounter} {n : Nat}
    (hn : n < 65536) (hz : c = .aturPerfStatSesL → n = 0) :
    PollInv { pollCounter s c (BitVec.ofNat 16 n) with
      seen := Function.update s.seen c n
      lswAt := none } := by
  have hd := h.diff c hn
  obtain ⟨hdone, hnow⟩ := h.copied
  refine ⟨h.clear, ?_, ⟨hdone, ?_⟩, ?_, ?_, ?_, h.recv, ?_, ?_⟩
  · intro f
    simp only [pollCounter, wrapDiff_eq]
    exact add_sums h.sums c.target _ f
  · simp only [pollCounter, PollSys.add, setField, Function.update_of_ne (target_ne_tx c).symm,
      Function.update_of_ne (target_ne_rx c).symm]
    exact hnow
  · intro d
    by_cases hdc : d = c
    · subst hdc
      simp [pollCounter]
    · simp only [pollCounter, Function.update_of_ne hdc]
      exact h.read d
  · intro d
    by_cases hdc : d = c
    · subst hdc
      simpa using hn
    · simp only [Function.update_of_ne hdc]
      exact h.small d
  · dsimp only
    by_cases hc : c = .aturPerfStatSesL
    · subst hc
      simpa using hz rfl
    · rw [Function.update_of_ne (Ne.symm hc)]
      exact h.silent
  · intro m hm
    simp at hm
  · intro f
    simp only [pollCounter, PollSys.add, wrapDiff_eq, hd]
    exact h.exact_counter hz f

theorem PollInv.exact_recv {s : PollSys} (h : PollInv s) (n : Nat) {f : MibField}
    (hf : f = .aturChanPerfRxBlk ∨ f = .aturChanPerfTxBlk) :
    s.total f + (BitVec.ofNat 32 n - s.preadRecv) =
      BitVec.ofNat 32 (trueCount { s with seenRecv := n } f) := by
  have hcount : trueCount { s with seenRecv := n } f + s.seenRecv = trueCount s f + n := by
    simp only [trueCount, if_pos hf]
    omega
  have hbv := congrArg (BitVec.ofNat 32) hcount
  rw [BitVec.ofNat_add, BitVec.ofNat_add] at hbv
  calc s.total f + (BitVec.ofNat 32 n - s.preadRecv)
      = BitVec.ofNat 32 (trueCount s f) + BitVec.ofNat 32 n - BitVec.ofNat 32 s.seenRecv := by
        rw [h.exact, h.recv, add_sub_assoc]
    _ = BitVec.ofNat 32 (trueCount { s with seenRecv := n } f) := by
        rw [← hbv, add_sub_cancel_right]

/-- The received blocks after a clean read of both halves. -/
theorem PollInv.recvBlk {s : PollSys} (h : PollInv s) {n m : Nat} (hl : s.lswAt = some n)
    (hm : n / 65536 % 65536 = m / 65536 % 65536) :
    PollInv { pollRecvBlk { s with temp2 := BitVec.ofNat 32 (m / 65536 % 65536) } with
      seenRecv := n } := by
  have hblk : s.temp + BitVec.ofNat 32 (m / 65536 % 65536) <<< 16 = BitVec.ofNat 32 n := by
    rw [h.lsw n hl, ← hm]
    exact halves_eq n
  have hadd := add_sums h.sums .aturChanPerfRxBlk (BitVec.ofNat 32 n - s.preadRecv)
  obtain ⟨hdone, hnow⟩ := h.copied
  have htx := h.sums .aturChanPerfTxBlk
  have hrx := h.sums .aturChanPerfRxBlk
  refine ⟨h.clear, ?_, ⟨hdone, ?_⟩, h.read, h.small, h.silent, ?_, ?_, ?_⟩
  · intro f
    simp only [pollRecvBlk, wrapDiff_eq, hblk, PollSys.add, setField]
    by_cases hf : f = .aturChanPerfTxBlk
    · subst hf
      simp only [Function.update_self, hdone]
      rw [← hrx, add_assoc]
    · simp only [Function.update_of_ne hf]
      exact hadd f
  · simp [pollRecvBlk, PollSys.add, setField]
  · simp only [pollRecvBlk]
    exact hblk
  · intro k hk
    exact h.lsw k hk
  · intro f
    simp only [pollRecvBlk, wrapDiff_eq, hblk, PollSys.add]
    change _ = BitVec.ofNat 32 (trueCount { s with seenRecv := n } f)
    by_cases htf : f = .aturChanPerfTxBlk
    · subst htf
      rw [Function.update_self, Function.update_self, ← hrx, ← hdone, ← hnow, htx]
      exact h.exact_recv n (.inr rfl)
    · rw [Function.update_of_ne htf]
      by_cases hrf : f = .aturChanPerfRxBlk
      · subst hrf
        rw [Function.update_self]
        exact h.exact_recv n (.inl rfl)
      · rw [Function.update_of_ne hrf, h.exact]
        simp [trueCount, htf, hrf]

theorem execBlock_kept {s t : PollSys} {b : PollBlock} {reply : Option Nat} (h : PollInv s)
    (hok : BlockClean s reply b) (ht : execBlock s b reply = some t) : PollInv t := by
  cases reply with
  | none =>
    cases b with
    | counter c =>
      cases Option.some.inj ht
      exact h
    | recvBlkLsw =>
      cases Option.some.inj ht
      exact ⟨h.clear, h.sums, h.copied, h.read, h.small, h.silent, h.recv,
        fun n hn => by simp at hn, h.exact⟩
    | recvBlkMsw =>
      cases hl : s.lswAt <;> simp [BlockClean, hl, SameHigh] at hok
  | some n =>
    cases b with
    | counter c =>
      obtain ⟨hn, hz⟩ := hok n rfl
      simp only [execBlock] at ht
      split at ht
      · cases Option.some.inj ht
        exact h.counter hn hz
      · simp at ht
    | recvBlkLsw =>
      simp only [execBlock] at ht
      split at ht
      · cases Option.some.inj ht
        refine ⟨h.clear, h.sums, h.copied, h.read, h.small, h.silent, h.recv, ?_, h.exact⟩
        intro m hm
        cases hm
        rfl
      · simp at ht
    | recvBlkMsw =>
      simp only [execBlock] at ht
      simp only [BlockClean] at hok
      split at ht
      · cases hl : s.lswAt with
        | none => simp [hl, SameHigh] at hok
        | some m =>
          have hget : s.lswAt.getD s.seenRecv = m := by rw [hl, Option.getD_some]
          simp only [hl, SameHigh] at hok
          rw [hget] at ht
          cases Option.some.inj ht
          exact h.recvBlk hl hok
      · simp at ht

theorem pollStep_kept {s t : PollSys} {e : PollEvent} (h : PollInv s) (hok : PollClean s e)
    (ht : pollStep s e = some t) : PollInv t := by
  cases e with
  | begin now corr uncorr =>
    simp only [pollStep] at ht
    split at ht
    · cases Option.some.inj ht
      exact h.begin now _
    · simp at ht
  | block reply =>
    simp only [pollStep] at ht
    simp only [PollClean] at hok
    split at ht
    · simp at ht
    next b rest htodo =>
      rw [htodo] at hok
      have hrest : PollInv { s with todo := rest } :=
        ⟨h.clear, h.sums, h.copied, h.read, h.small, h.silent, h.recv, h.lsw, h.exact⟩
      exact execBlock_kept hrest (hok b rfl) ht
  | leave =>
    cases Option.some.inj ht
    exact ⟨h.clear, h.sums, h.copied, h.read, h.small, h.silent, h.recv, h.lsw, h.exact⟩

/-- While the run is clean, every total and every sum over the intervals is the true number. -/
theorem adslMibPoll_faithful (now : Nat) (es : List PollEvent) (s : PollSys)
    (hq : RunMeets pollStep PollClean (pollInit now) es)
    (h : run pollStep (pollInit now) es = some s) : PollFaithful s :=
  (run_invariant_of_meets pollStep_kept (pollInit_inv now) hq h).faithful

/-- Two rounds, the second in a new interval, with some counters moving. -/
theorem adslMibPoll_faithful_small :
    ∃ s, run pollStep (pollInit 0) [.begin 10 .none .none, .block (some 3), .block none,
        .block (some 70000), .block (some 70001), .leave, .begin 950 .none .none,
        .block (some 5)] = some s ∧ s.total .atucPerfEs = 5 ∧ PollFaithful s := by
  refine ⟨_, rfl, by decide, ?_⟩
  exact adslMibPoll_faithful 0 [.begin 10 .none .none, .block (some 3), .block none,
    .block (some 70000), .block (some 70001), .leave, .begin 950 .none .none, .block (some 5)] _
    (by decide) rfl

/-- The errored seconds go from 65535 to 65540: the modem counter wraps and the total falls to 4. The
severely errored seconds of the far end are added to the unavailable seconds of the near end. -/
theorem adslMibPoll_wrap_lost :
    (∃ s, run pollStep (pollInit 0) [.begin 10 .none .none, .block (some 65535), .leave,
        .begin 20 .none .none, .block (some 65540)] = some s ∧
      s.total .atucPerfEs = 4 ∧ ¬PollFaithful s) ∧
    ∃ s, run pollStep (pollInit 0) ([.begin 10 .none .none, .block none, .block none,
        .block (some 0), .block (some 0), .block none, .block none, .block none, .block none,
        .block (some 7)]) = some s ∧
      s.total .atucPerfStatUasL = 7 ∧ s.total .aturPerfStatSesL = 0 ∧ ¬PollFaithful s := by
  refine ⟨⟨_, rfl, by decide, ?_⟩, _, rfl, by decide, by decide, ?_⟩
  · intro h
    exact absurd (h.counter .atucPerfEss).1 (by decide)
  · intro h
    exact absurd (h.counter .aturPerfStatSesL).1 (by decide)

end DanubeBsp
