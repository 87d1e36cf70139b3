import Mathlib.Algebra.Order.Group.Multiset
import Mathlib.Tactic.Abel
import DanubeBsp.PackedWord
import DanubeBsp.WordMemory

namespace DanubeBsp

inductive NsBufType | b0 | b1
  deriving DecidableEq

/-- `buf_nr`. -/
structure NsBufNr where
  min : Nat
  init : Nat
  max : Nat
  deriving DecidableEq

/-- The receive buffers of one size: the buffers that the driver has of it (`b0pool.queue`), the one
that waits for a second (`b0_handle`), the levels, `sbfqc`, and the free buffer queue of the card
with its read pointer. -/
structure NsRxPool where
  queue : List Word
  handle : Option Word
  nr : NsBufNr
  fbqc : Nat
  rd : Nat
  fbq : List Word

/-- `skb_pool`, with the levels. -/
structure NsSkbPool where
  count : Nat
  nr : NsBufNr

/-- The buffers of the receiver, and the answers that `alloc_skb` will give. -/
structure NsRxBufs where
  b0 : NsRxPool
  b1 : NsRxPool
  hb : NsSkbPool
  iov : NsSkbPool
  fbie : Bool
  allocs : List (Option Word)

/-- Whether a buffer is on a list, as `skb->list` says of those of the driver. -/
def OnList (queue : List Word) (skb : Word) : Prop := skb ∈ queue

instance (queue : List Word) (skb : Word) : Decidable (OnList queue skb) :=
  decidable_of_iff (queue.contains skb = true) List.contains_iff_mem

/-- `ns_fbqc_get`. -/
def nsFbqcGet (fbqp : Word) : Nat :=
  let w : Int := ((fbqp &&& 0x07FF0000#32) >>> 16).toNat
  let r : Int := (fbqp &&& 0x000007FF#32).toNat
  let diff := (w - r).tdiv 2
  if 0 ≤ diff then diff.toNat else (0x400 + diff).toNat

/-- The register of the card with the pointers of a free buffer queue: a buffer takes two words. -/
def NsRxPool.fbqp (p : NsRxPool) : Word :=
  BitVec.ofNat 32 ((p.rd + 2 * p.fbq.length) % 2048) <<< 16 ||| BitVec.ofNat 32 (p.rd % 2048)

def NsRxPool.readFbqc (p : NsRxPool) : NsRxPool := { p with fbqc := nsFbqcGet p.fbqp }

namespace NsRxBufs

def pool (s : NsRxBufs) : NsBufType → NsRxPool
  | .b0 => s.b0
  | .b1 => s.b1

def setPool (s : NsRxBufs) (t : NsBufType) (p : NsRxPool) : NsRxBufs :=
  match t with
  | .b0 => { s with b0 := p }
  | .b1 => { s with b1 := p }

/-- The counts that `push_rxbufs` and `dequeue_rx` begin with. -/
def readFbqcs (s : NsRxBufs) : NsRxBufs := { s with b0 := s.b0.readFbqc, b1 := s.b1.readFbqc }

/-- The end of `push_rxbufs`. -/
def checkFbie (s : NsRxBufs) : NsRxBufs :=
  if s.fbie = false ∧ s.b0.nr.min ≤ s.b0.fbqc ∧ s.b1.nr.min ≤ s.b1.fbqc then
    { s with fbie := true }
  else s

/-- `alloc_skb`: what it answers is not in use. -/
def allocSkb (s : NsRxBufs) : Option Word × NsRxBufs :=
  match s.allocs with
  | [] => (none, s)
  | a :: rest =>
    (a.filter fun h => decide (¬OnList s.b0.queue h ∧ ¬OnList s.b1.queue h),
      { s with allocs := rest })

end NsRxBufs

/-- `push_rxbufs` of a single buffer, where no interrupt can come. -/
def pushRxbufs (s : NsRxBufs) (t : NsBufType) (handle1 : Word) : NsRxBufs :=
  let s := s.readFbqcs
  let p := s.pool t
  match p.handle with
  | none => (s.setPool t { p with handle := some handle1 }).checkFbie
  | some handle2 =>
    if p.nr.max ≤ p.fbqc then
      -- both buffers are freed
      s.setPool t { p with handle := none, queue := (p.queue.erase handle1).erase handle2 }
    else
      (s.setPool t { p with
        handle := none
        fbqc := p.fbqc + 2
        fbq := p.fbq ++ [handle1, handle2] }).checkFbie

/-- Where a process stands in `push_rxbufs`, which it calls without the lock of the interrupt handler:
`swap` is between the test of `b0_addr` or `b1_addr` and the stores to it and to the handle, and from
`room` on the buffer that waited is in the hands of the process. -/
inductive NsPush
  | count (t : NsBufType) (handle1 : Word)
  | test (t : NsBufType) (handle1 : Word)
  | swap (t : NsBufType) (handle1 : Word) (handle2 : Option Word)
  | room (t : NsBufType) (handle1 handle2 : Word)
  | write (t : NsBufType) (handle1 handle2 : Word)
  | fbie
  deriving DecidableEq

/-- The next step of the process. -/
def pushRxbufsStep (s : NsRxBufs) : NsPush → NsRxBufs × Option NsPush
  | .count t handle1 => (s.readFbqcs, some (.test t handle1))
  | .test t handle1 => (s, some (.swap t handle1 (s.pool t).handle))
  | .swap t handle1 none => (s.setPool t { s.pool t with handle := some handle1 }, some .fbie)
  | .swap t handle1 (some handle2) =>
    (s.setPool t { s.pool t with handle := none }, some (.room t handle1 handle2))
  | .room t handle1 handle2 =>
    let p := s.pool t
    if p.nr.max ≤ p.fbqc then
      (s.setPool t { p with queue := (p.queue.erase handle1).erase handle2 }, none)
    else (s.setPool t { p with fbqc := p.fbqc + 2 }, some (.write t handle1 handle2))
  | .write t handle1 handle2 =>
    let p := s.pool t
    -- the command is written under `res_lock`
    (s.setPool t { p with fbq := p.fbq ++ [handle1, handle2] }, some .fbie)
  | .fbie => (s.checkFbie, none)

/-- `n` steps of the process, or as many as there are. -/
def pushRxbufsSteps : (n : Nat) → NsRxBufs × Option NsPush → NsRxBufs × Option NsPush
  | 0, r => r
  | _ + 1, (s, none) => (s, none)
  | n + 1, (s, some p) => pushRxbufsSteps n (pushRxbufsStep s p)

/-- A new buffer is allocated, put into its queue and pushed: the body of the loops that fill the
queues. The answer is that of `alloc_skb`. -/
def fillRxbuf (s : NsRxBufs) (t : NsBufType) : Bool × NsRxBufs :=
  match s.allocSkb with
  | (none, s) => (false, s)
  | (some h, s) =>
    let p := s.pool t
    (true, pushRxbufs (s.setPool t { p with queue := p.queue ++ [h] }) t h)

/-- The loops of `ns_init_card` that allocate the buffers. -/
def nsInitRxbufs (t : NsBufType) : (n : Nat) → NsRxBufs → NsRxBufs
  | 0, s => s
  | n + 1, s =>
    match fillRxbuf s t with
    | (false, s) => s
    | (true, s) => nsInitRxbufs t n s

/-- The loop of the interrupt handler at the attention of a free buffer queue, which needs `n` more
buffers. -/
def fbqAttentionLoop (t : NsBufType) : (n : Nat) → NsRxBufs → NsRxBufs
  | 0, s => s
  | n + 1, s =>
    match fillRxbuf s t with
    | (false, s) => { s with fbie := false }
    | (true, s) => fbqAttentionLoop t n s

/-- The interrupt handler at `NS_STAT_FBQ0A` or `NS_STAT_FBQ1A`, before it goes on to the RSQ. -/
def fbqAttention (s : NsRxBufs) (t : NsBufType) : NsRxBufs :=
  let s := fbqAttentionLoop t (s.pool t).nr.min s
  s.setPool t (s.pool t).readFbqc

/-- The checks of `NS_SETBUFLEV`, with the bound for the buffers. -/
def bufLevAdmits (nr : NsBufNr) (top : Nat) : Bool :=
  decide (nr.min < nr.init ∧ nr.init < nr.max ∧ nr.min ≠ 0 ∧ nr.max ≤ top)

/-- `TOP_B0` and `TOP_B1`. -/
def topB : Nat := 508

/-- Levels for the buffers of a size that the checks let through. -/
structure NsLevels where
  nr : NsBufNr
  admitted : bufLevAdmits nr topB = true
  deriving DecidableEq

theorem NsLevels.max_le (l : NsLevels) : l.nr.max ≤ topB := (of_decide_eq_true l.admitted).2.2.2

inductive NsLevel | min | init | max
  deriving DecidableEq

def NsLevel.next : NsLevel → Option NsLevel
  | .min => some .init
  | .init => some .max
  | .max => none

/-- A store of `NS_SETBUFLEV`. -/
def setBufLev (s : NsRxBufs) (t : NsBufType) (l : NsLevels) (level : NsLevel) : NsRxBufs :=
  let p := s.pool t
  s.setPool t { p with nr := match level with
    | .min => { p.nr with min := l.nr.min }
    | .init => { p.nr with init := l.nr.init }
    | .max => { p.nr with max := l.nr.max } }

/-- `recycle_rx_buf`. -/
def recycleRxBuf (s : NsRxBufs) (skb : Word) : NsRxBufs :=
  if OnList s.b0.queue skb then pushRxbufs s .b0 skb
  else if OnList s.b1.queue skb then pushRxbufs s .b1 skb
  else s

/-- `recycle_iovec_rx_bufs`. -/
def recycleIovecRxBufs (s : NsRxBufs) (iov : List Word) : NsRxBufs := iov.foldl recycleRxBuf s

/-- `recycle_iov_buf`. -/
def recycleIovBuf (s : NsRxBufs) : NsRxBufs :=
  if s.iov.count < s.iov.nr.max then { s with iov := { s.iov with count := s.iov.count + 1 } }
  else s

/-- The second half of `dequeue_sm_buf` and of `dequeue_lg_buf`, which both do it twice. -/
def replaceRxbuf (s : NsRxBufs) (t : NsBufType) : NsRxBufs :=
  if (s.pool t).fbqc < (s.pool t).nr.init then (fillRxbuf s t).2 else s

/-- `dequeue_sm_buf` and `dequeue_lg_buf`. -/
def dequeueBuf (s : NsRxBufs) (t : NsBufType) (skb : Word) : NsRxBufs :=
  let s := s.setPool t { s.pool t with queue := (s.pool t).queue.erase skb }
  replaceRxbuf (replaceRxbuf s t) t

def dequeueSmBuf (s : NsRxBufs) (sb : Word) : NsRxBufs := dequeueBuf s .b0 sb

def dequeueLgBuf (s : NsRxBufs) (lb : Word) : NsRxBufs := dequeueBuf s .b1 lb

/-- The iovec buffer that `dequeue_rx` takes for a new PDU; the answer is whether there is one. -/
def takeIovBuf (s : NsRxBufs) : Bool × NsRxBufs :=
  if s.iov.count = 0 then
    match s.allocSkb with
    | (a, s) => (a.isSome, s)
  else
    let s := { s with iov := { s.iov with count := s.iov.count - 1 } }
    if s.iov.count < s.iov.nr.min then
      match s.allocSkb with
      | (none, s) => (true, s)
      | (some _, s) => (true, { s with iov := { s.iov with count := s.iov.count + 1 } })
    else (true, s)

/-- A huge buffer is allocated for the pool if that is below its level. -/
def refillHugeBuf (s : NsRxBufs) : NsRxBufs :=
  if s.hb.count < s.hb.nr.min then
    match s.allocSkb with
    | (none, s) => s
    | (some _, s) => { s with hb := { s.hb with count := s.hb.count + 1 } }
  else s

/-- The huge buffer that `dequeue_rx` takes; the answer is whether there is one. -/
def takeHugeBuf (s : NsRxBufs) : Bool × NsRxBufs :=
  if s.hb.count = 0 then
    match s.allocSkb with
    | (none, s) => (false, s)
    | (some _, s) => (true, refillHugeBuf s)
  else
    let s := { s with hb := { s.hb with count := s.hb.count - 1 } }
    if s.hb.count < s.hb.nr.min then (true, refillHugeBuf (refillHugeBuf s))
    else (true, s)

/-- A huge buffer that is not needed goes back. -/
def recycleHugeBuf (s : NsRxBufs) : NsRxBufs :=
  if s.hb.count < s.hb.nr.max then { s with hb := { s.hb with count := s.hb.count + 1 } } else s

/-- The buffers of a size that the driver does not use: they are the card's, or one waits for a
second. -/
def NsRxPool.idle (p : NsRxPool) : List Word := p.fbq ++ p.handle.toList

def NsBufType.other : NsBufType → NsBufType
  | .b0 => .b1
  | .b1 => .b0

/-- The count of the driver is not below the number of the buffers that the card has. -/
def NsRxPool.Counted (p : NsRxPool) : Prop := p.fbq.length < 1024 → p.fbq.length ≤ p.fbqc

/-- Every buffer of the driver is idle or in use, at one place, and the card has room for those that
are pushed. -/
structure NsRxBooks (s : NsRxBufs) (out : Multiset Word) : Prop where
  nodup : (↑s.b0.queue + ↑s.b1.queue : Multiset Word).Nodup
  total : (↑s.b0.queue + ↑s.b1.queue : Multiset Word) = ↑s.b0.idle + ↑s.b1.idle + out
  idle : ∀ t, ∀ h ∈ (s.pool t).idle, h ∈ (s.pool t).queue
  level : ∀ t, (s.pool t).nr.max ≤ topB
  room : ∀ t, (s.pool t).fbq.length ≤ topB + 3

/-- What an operation does to the free buffer queue of a size: its count stays right, and the queue
does not grow over the limit. -/
structure FbqKeeps (p p' : NsRxPool) : Prop where
  counted : p.Counted → p'.Counted
  limit : p.fbq.length ≤ topB + 1 → p'.fbq.length ≤ topB + 1

/-- An operation after which the buffers `out` are in use, those of them that were there before
being of their size still. -/
structure RxBooksStep (s s' : NsRxBufs) (out : Multiset Word) : Prop where
  books : NsRxBooks s' out
  size : ∀ x ∈ out, ∀ t, x ∈ (s.pool t).queue → x ∈ (s'.pool t).queue
  fbq : ∀ t, FbqKeeps (s.pool t) (s'.pool t)

section Books

variable {s s' s'' : NsRxBufs} {out out' : Multiset Word} {t : NsBufType} {p : NsRxPool} {h : Word}

theorem pool_setPool (s : NsRxBufs) (t : NsBufType) (p : NsRxPool) :
    (s.setPool t p).pool t = p := by
  cases t <;> rfl

theorem pool_setPool_ne {t' : NsBufType} (ht : t' ≠ t) :
    (s.setPool t p).pool t' = s.pool t' := by
  cases t <;> cases t' <;> first | rfl | exact absurd rfl ht

theorem NsRxBooks.total_at (hs : NsRxBooks s out) (t : NsBufType) :
    (↑(s.pool t).queue + ↑(s.pool t.other).queue : Multiset Word) =
      ↑(s.pool t).idle + ↑(s.pool t.other).idle + out := by
  cases t with
  | b0 => exact hs.total
  | b1 =>
    rw [add_comm, add_comm (↑(s.pool .b1).idle : Multiset Word)]
    exact hs.total

theorem NsRxBooks.nodup_at (hs : NsRxBooks s out) (t : NsBufType) :
    (↑(s.pool t).queue + ↑(s.pool t.other).queue : Multiset Word).Nodup := by
  cases t with
  | b0 => exact hs.nodup
  | b1 =>
    rw [add_comm]
    exact hs.nodup

/-- The rule for an operation on the buffers of one size. -/
theorem NsRxBooks.setPool (hs : NsRxBooks s out)
    (hnodup : (↑p.queue + ↑(s.pool t.other).queue : Multiset Word).Nodup)
    (htotal : (↑p.queue + ↑(s.pool t.other).queue : Multiset Word) =
      ↑p.idle + ↑(s.pool t.other).idle + out')
    (hidle : ∀ x ∈ p.idle, x ∈ p.queue) (hlevel : p.nr.max ≤ topB)
    (hroom : p.fbq.length ≤ topB + 3) : NsRxBooks (s.setPool t p) out' := by
  have hcases : ∀ t', (s.setPool t p).pool t' = p ∨ (s.setPool t p).pool t' = s.pool t' := by
    intro t'
    by_cases ht : t' = t
    · rw [ht]
      exact .inl (pool_setPool s t p)
    · exact .inr (pool_setPool_ne ht)
  constructor
  · cases t with
    | b0 => exact hnodup
    | b1 =>
      rw [add_comm]
      exact hnodup
  · cases t with
    | b0 => exact htotal
    | b1 =>
      rw [add_comm, add_comm (↑(s.setPool .b1 p).b0.idle : Multiset Word)]
      exact htotal
  · intro t'
    rcases hcases t' with heq | heq
    · rw [heq]
      exact hidle
    · rw [heq]
      exact hs.idle t'
  · intro t'
    rcases hcases t' with heq | heq
    · rw [heq]
      exact hlevel
    · rw [heq]
      exact hs.level t'
  · intro t'
    rcases hcases t' with heq | heq
    · rw [heq]
      exact hroom
    · rw [heq]
      exact hs.room t'

theorem FbqKeeps.refl (p : NsRxPool) : FbqKeeps p p := ⟨fun h => h, fun h => h⟩

theorem FbqKeeps.trans {p' p'' : NsRxPool} (h : FbqKeeps p p') (h' : FbqKeeps p' p'') :
    FbqKeeps p p'' := ⟨fun hp => h'.counted (h.counted hp), fun hp => h'.limit (h.limit hp)⟩

/-- An operation on the buffers of one size. -/
theorem FbqKeeps.setPool (h : FbqKeeps (s.pool t) p) (t' : NsBufType) :
    FbqKeeps (s.pool t') ((s.setPool t p).pool t') := by
  by_cases ht : t' = t
  · rw [ht, pool_setPool]
    exact h
  · rw [pool_setPool_ne ht]
    exact FbqKeeps.refl _

/-- Two states with the same buffers at the same places. -/
def SameRxbufs (s s' : NsRxBufs) : Prop :=
  ∀ t, (s'.pool t).queue = (s.pool t).queue ∧ (s'.pool t).handle = (s.pool t).handle ∧
    (s'.pool t).fbq = (s.pool t).fbq ∧ (s'.pool t).nr = (s.pool t).nr ∧
    ((s.pool t).Counted → (s'.pool t).Counted)

theorem NsRxBooks.same (hs : NsRxBooks s out) (h : SameRxbufs s s') : NsRxBooks s' out := by
  have hidle : ∀ t, (s'.pool t).idle = (s.pool t).idle := by
    intro t
    obtain ⟨-, hhandle, hfbq, -⟩ := h t
    rw [NsRxPool.idle, NsRxPool.idle, hhandle, hfbq]
  have hq0 : s'.b0.queue = s.b0.queue := (h .b0).1
  have hq1 : s'.b1.queue = s.b1.queue := (h .b1).1
  have hi0 : s'.b0.idle = s.b0.idle := hidle .b0
  have hi1 : s'.b1.idle = s.b1.idle := hidle .b1
  constructor
  · rw [hq0, hq1]
    exact hs.nodup
  · rw [hq0, hq1, hi0, hi1]
    exact hs.total
  · intro t
    rw [hidle t, (h t).1]
    exact hs.idle t
  · intro t
    rw [(h t).2.2.2.1]
    exact hs.level t
  · intro t
    rw [(h t).2.2.1]
    exact hs.room t

theorem NsRxBooks.step_same (hs : NsRxBooks s out) (h : SameRxbufs s s') :
    RxBooksStep s s' out where
  books := hs.same h
  size _ _ t hx := by rw [(h t).1]; exact hx
  fbq t := ⟨(h t).2.2.2.2, fun hlimit => by rw [(h t).2.2.1]; exact hlimit⟩

theorem RxBooksStep.trans (h : RxBooksStep s s' out) (h' : RxBooksStep s' s'' out')
    (hsub : out' ≤ out) : RxBooksStep s s'' out' where
  books := h'.books
  size x hx t hmem := h'.size x hx t (h.size x (Multiset.mem_of_le hsub hx) t hmem)
  fbq t := (h.fbq t).trans (h'.fbq t)

theorem RxBooksStep.then_same (h : RxBooksStep s s' out) (hsame : SameRxbufs s' s'') :
    RxBooksStep s s'' out := h.trans (h.books.step_same hsame) le_rfl

/-- The count that the driver reads is that of the buffers. -/
theorem nsFbqcGet_fbqp (hlt : p.fbq.length < 1024) : nsFbqcGet p.fbqp = p.fbq.length := by
  let w : PackedField 32 := ⟨16, 11, BitVec.ofNat 32 ((p.rd + 2 * p.fbq.length) % 2048)⟩
  let r : PackedField 32 := ⟨0, 11, BitVec.ofNat 32 (p.rd % 2048)⟩
  have hpack : p.fbqp = packFields [w, r] := by
    simp [NsRxPool.fbqp, packFields, w, r]
  have hfit : ∀ f ∈ [w, r], f.Fits := by
    intro f hf
    simp only [List.mem_cons, List.not_mem_nil, or_false] at hf
    rcases hf with rfl | rfl
    · exact PackedField.fits_ofNat (Nat.mod_lt _ (by omega))
    · exact PackedField.fits_ofNat (Nat.mod_lt _ (by omega))
  have hapart : [w, r].Pairwise PackedField.Apart := by
    simp [PackedField.Apart, w, r]
  have hmaskW : MasksBits w.lo w.width 0x07FF0000#32 := by
    show MasksBits 16 11 0x07FF0000#32
    decide
  have hmaskR : MasksBits r.lo r.width 0x000007FF#32 := by
    show MasksBits 0 11 0x000007FF#32
    decide
  have hw := field_packFields hfit hapart (f := w) (by simp) (show 27 ≤ 32 by omega) hmaskW
  have hr := field_packFields hfit hapart (f := r) (by simp) (show 11 ≤ 32 by omega) hmaskR
  rw [← hpack] at hw hr
  have hwVal : ((p.fbqp &&& 0x07FF0000#32) >>> 16).toNat = (p.rd + 2 * p.fbq.length) % 2048 := by
    have heq : ((p.fbqp &&& 0x07FF0000#32) >>> 16) = w.val := hw
    rw [heq]
    show (BitVec.ofNat 32 _).toNat = _
    rw [BitVec.toNat_ofNat]
    omega
  have hrVal : (p.fbqp &&& 0x000007FF#32).toNat = p.rd % 2048 := by
    have heq : (p.fbqp &&& 0x000007FF#32) >>> 0 = r.val := hr
    rw [BitVec.ushiftRight_zero] at heq
    rw [heq]
    show (BitVec.ofNat 32 _).toNat = _
    rw [BitVec.toNat_ofNat]
    omega
  unfold nsFbqcGet
  dsimp only
  rw [hwVal, hrVal]
  by_cases hwrap : p.rd % 2048 + 2 * p.fbq.length < 2048
  · have hdiff : (((p.rd + 2 * p.fbq.length) % 2048 : Nat) - (p.rd % 2048 : Nat) : Int) =
        2 * (p.fbq.length : Int) := by
      omega
    rw [hdiff, Int.mul_tdiv_cancel_left _ (by omega), if_pos (by omega), Int.toNat_natCast]
  · have hdiff : (((p.rd + 2 * p.fbq.length) % 2048 : Nat) - (p.rd % 2048 : Nat) : Int) =
        2 * ((p.fbq.length : Int) - 1024) := by
      omega
    rw [hdiff, Int.mul_tdiv_cancel_left _ (by omega), if_neg (by omega)]
    omega

theorem counted_readFbqc (p : NsRxPool) : p.readFbqc.Counted :=
  fun hlt => Nat.le_of_eq (nsFbqcGet_fbqp hlt).symm

theorem sameRxbufs_readFbqcs (s : NsRxBufs) : SameRxbufs s s.readFbqcs := by
  intro t
  cases t <;> exact ⟨rfl, rfl, rfl, rfl, fun _ => counted_readFbqc _⟩

theorem sameRxbufs_checkFbie (s : NsRxBufs) : SameRxbufs s s.checkFbie := by
  unfold NsRxBufs.checkFbie
  split
  · intro t
    cases t <;> exact ⟨rfl, rfl, rfl, rfl, fun h => h⟩
  · exact fun t => ⟨rfl, rfl, rfl, rfl, fun h => h⟩

/-- Buffers in use are neither idle nor twice in use. -/
theorem NsRxBooks.used (hs : NsRxBooks s (h ::ₘ out)) (t : NsBufType) :
    h ∉ (s.pool t).idle ∧ h ∉ out := by
  have hnodup := hs.nodup_at t
  rw [hs.total_at t] at hnodup
  obtain ⟨-, hout, hdisj⟩ := Multiset.nodup_add.mp hnodup
  refine ⟨fun hin => ?_, (Multiset.nodup_cons.mp hout).1⟩
  refine Multiset.disjoint_right.mp hdisj (Multiset.mem_cons_self h out) ?_
  exact Multiset.mem_add.mpr (.inl (Multiset.mem_coe.mpr hin))

/-- The buffers of one size change at most in their places, and `out` are in use then. -/
theorem NsRxBooks.moved (hs : NsRxBooks s out') (hqueue : p.queue = (s.pool t).queue)
    (hnr : p.nr = (s.pool t).nr) (hroom : p.fbq.length ≤ topB + 3)
    (hkeeps : FbqKeeps (s.pool t) p)
    (hidle : (↑p.idle + out : Multiset Word) = ↑(s.pool t).idle + out')
    (hin : ∀ x ∈ p.idle, x ∈ p.queue) : RxBooksStep s (s.setPool t p) out where
  books := by
    refine hs.setPool ?_ ?_ hin ?_ hroom
    · rw [hqueue]
      exact hs.nodup_at t
    · rw [hqueue, hs.total_at t, add_right_comm, ← hidle]
      abel
    · rw [hnr]
      exact hs.level t
  size x _ t' hx := by
    by_cases ht : t' = t
    · rw [ht] at hx ⊢
      rw [pool_setPool, hqueue]
      exact hx
    · rw [pool_setPool_ne ht]
      exact hx
  fbq := hkeeps.setPool

/-- A buffer in use leaves the driver. -/
theorem NsRxBooks.left (hs : NsRxBooks s (h ::ₘ out)) (hmem : h ∈ (s.pool t).queue) :
    RxBooksStep s (s.setPool t { s.pool t with queue := (s.pool t).queue.erase h }) out := by
  have hqueue : (↑(s.pool t).queue : Multiset Word) = h ::ₘ ↑((s.pool t).queue.erase h) := by
    rw [← Multiset.coe_erase, Multiset.cons_erase (by simpa using hmem)]
  have hnodup := hs.nodup_at t
  have htotal := hs.total_at t
  rw [hqueue, Multiset.cons_add] at hnodup htotal
  obtain ⟨hh, hrest⟩ := Multiset.nodup_cons.mp hnodup
  constructor
  · refine hs.setPool hrest ?_ ?_ (hs.level t) (hs.room t)
    · rw [Multiset.add_cons] at htotal
      exact Multiset.cons_inj_right _ |>.mp htotal
    · intro x hx
      have hne : x ≠ h := fun heq => (hs.used t).1 (heq ▸ hx)
      exact (List.mem_erase_of_ne hne).mpr (hs.idle t x hx)
  · intro x hx t' hmem'
    by_cases ht : t' = t
    · have hne : x ≠ h := fun heq => (hs.used t).2 (heq ▸ hx)
      rw [ht] at hmem' ⊢
      rw [pool_setPool, List.mem_erase_of_ne hne]
      exact hmem'
    · rw [pool_setPool_ne ht]
      exact hmem'
  · exact FbqKeeps.setPool ⟨fun h => h, fun h => h⟩

theorem setPool_setPool {p' : NsRxPool} : (s.setPool t p).setPool t p' = s.setPool t p' := by
  cases t <;> rfl

/-- Two buffers in use are given back to the kernel. -/
theorem NsRxBooks.freed {h2 : Word} (hs : NsRxBooks s (h ::ₘ h2 ::ₘ out))
    (hmem : h ∈ (s.pool t).queue) (hmem2 : h2 ∈ (s.pool t).queue) :
    RxBooksStep s (s.setPool t { s.pool t with
      queue := ((s.pool t).queue.erase h).erase h2 }) out := by
  have hfirst := hs.left hmem
  have hsecond := hfirst.books.left (t := t) (hfirst.size h2 (Multiset.mem_cons_self h2 out) t hmem2)
  rw [pool_setPool, setPool_setPool] at hsecond
  exact hfirst.trans hsecond (Multiset.le_cons_self out h2)

/-- A buffer in use waits for a second one. -/
theorem NsRxBooks.wait (hs : NsRxBooks s (h ::ₘ out)) (hmem : h ∈ (s.pool t).queue)
    (hhandle : (s.pool t).handle = none) :
    RxBooksStep s (s.setPool t { s.pool t with handle := some h }) out := by
  refine hs.moved rfl rfl (hs.room t) ⟨fun h => h, fun h => h⟩ ?_ ?_
  · simp only [NsRxPool.idle, hhandle, Option.toList_none, Option.toList_some, List.append_nil,
      ← Multiset.coe_add, ← Multiset.singleton_add, Multiset.coe_singleton]
    abel
  · intro x hx
    rcases List.mem_append.mp hx with hx | hx
    · exact hs.idle t x (List.mem_append_left _ hx)
    · rw [show x = h by simpa using hx]
      exact hmem

/-- The buffer that waits is taken for use. -/
theorem NsRxBooks.unwait (hs : NsRxBooks s out) (hhandle : (s.pool t).handle = some h) :
    h ∈ (s.pool t).queue ∧
      RxBooksStep s (s.setPool t { s.pool t with handle := none }) (h ::ₘ out) := by
  refine ⟨?_, hs.moved rfl rfl (hs.room t) ⟨fun h => h, fun h => h⟩ ?_ ?_⟩
  · refine hs.idle t h (List.mem_append_right _ ?_)
    rw [hhandle]
    exact List.mem_singleton_self h
  · simp only [NsRxPool.idle, hhandle, Option.toList_none, Option.toList_some, List.append_nil,
      ← Multiset.coe_add, ← Multiset.singleton_add, Multiset.coe_singleton]
    abel
  · intro x hx
    refine hs.idle t x (List.mem_append_left _ ?_)
    simpa [NsRxPool.idle] using hx

/-- Two buffers in use are pushed. -/
theorem NsRxBooks.pushed {h2 : Word} (hs : NsRxBooks s (h ::ₘ h2 ::ₘ out))
    (hmem : h ∈ (s.pool t).queue) (hmem2 : h2 ∈ (s.pool t).queue) (fbqc : Nat)
    (hroom : (s.pool t).fbq.length ≤ topB + 1) :
    NsRxBooks (s.setPool t { s.pool t with
        fbqc := fbqc, fbq := (s.pool t).fbq ++ [h, h2] }) out := by
  refine hs.setPool (hs.nodup_at t) ?_ ?_ (hs.level t) ?_
  · have hpair : (↑[h, h2] : Multiset Word) = {h} + {h2} := rfl
    rw [hs.total_at t]
    simp only [NsRxPool.idle, ← Multiset.coe_add, ← Multiset.singleton_add, hpair]
    abel
  · intro x hx
    have hcases : (x ∈ (s.pool t).fbq ∨ x = h ∨ x = h2) ∨ x ∈ (s.pool t).handle.toList := by
      simpa [NsRxPool.idle, or_assoc] using hx
    rcases hcases with (hx | hx | hx) | hx
    · exact hs.idle t x (List.mem_append_left _ hx)
    · rw [hx]
      exact hmem
    · rw [hx]
      exact hmem2
    · exact hs.idle t x (List.mem_append_right _ hx)
  · rw [List.length_append]
    exact Nat.add_le_add_right hroom 2

theorem sameRxbufs_setPool (hqueue : p.queue = (s.pool t).queue)
    (hhandle : p.handle = (s.pool t).handle) (hfbq : p.fbq = (s.pool t).fbq)
    (hnr : p.nr = (s.pool t).nr) (hcounted : (s.pool t).Counted → p.Counted) :
    SameRxbufs s (s.setPool t p) := by
  intro t'
  by_cases ht : t' = t
  · rw [ht, pool_setPool]
    exact ⟨hqueue, hhandle, hfbq, hnr, hcounted⟩
  · rw [pool_setPool_ne ht]
    exact ⟨rfl, rfl, rfl, rfl, fun h => h⟩

/-- Undisturbed, the steps of a process are `push_rxbufs` as an interrupt makes it. -/
theorem pushRxbufsSteps_eq (s : NsRxBufs) (t : NsBufType) (h : Word) :
    pushRxbufsSteps 6 (s, some (.count t h)) = (pushRxbufs s t h, none) := by
  unfold pushRxbufs
  simp only [pushRxbufsSteps, pushRxbufsStep]
  cases hhandle : (s.readFbqcs.pool t).handle with
  | none => rfl
  | some h2 =>
    dsimp only [pushRxbufsSteps, pushRxbufsStep]
    rw [pool_setPool, setPool_setPool]
    dsimp only
    split
    · rfl
    · dsimp only [pushRxbufsSteps, pushRxbufsStep]
      rw [setPool_setPool, pool_setPool, setPool_setPool]

/-- The buffers that a process has in its hands. -/
def NsPush.inHand : NsPush → Multiset Word
  | .count _ h => {h}
  | .test _ h => {h}
  | .swap _ h _ => {h}
  | .room _ h h2 => {h, h2}
  | .write _ h h2 => {h, h2}
  | .fbie => 0

/-- They are of their size, the buffer that waits is the one that was seen, and the queue of the card
has room where it was found to have it. -/
def NsPush.Ok (s : NsRxBufs) : NsPush → Prop
  | .count t h => h ∈ (s.pool t).queue
  | .test t h => h ∈ (s.pool t).queue ∧ (s.pool t).Counted
  | .swap t h h2 => h ∈ (s.pool t).queue ∧ (s.pool t).Counted ∧ (s.pool t).handle = h2
  | .room t h h2 => h ∈ (s.pool t).queue ∧ h2 ∈ (s.pool t).queue ∧ (s.pool t).Counted
  | .write t h h2 => h ∈ (s.pool t).queue ∧ h2 ∈ (s.pool t).queue ∧
      (s.pool t).fbq.length ≤ topB + 1
  | .fbie => True

/-- The process has tested which buffer waits and not yet stored what follows from it. -/
def NsPush.swapping : NsPush → Bool
  | .swap _ _ _ => true
  | _ => false

/-- What an interrupt and the card do to a push. -/
theorem NsPush.Ok.step {p : NsPush} (h : p.Ok s)
    (hsize : ∀ x ∈ p.inHand, ∀ t, x ∈ (s.pool t).queue → x ∈ (s'.pool t).queue)
    (hfbq : ∀ t, FbqKeeps (s.pool t) (s'.pool t))
    (hswap : p.swapping = true → ∀ t, (s'.pool t).handle = (s.pool t).handle) : p.Ok s' := by
  cases p with
  | count t x => exact hsize x (Multiset.mem_singleton_self x) t h
  | test t x =>
    exact ⟨hsize x (Multiset.mem_singleton_self x) t h.1, (hfbq t).counted h.2⟩
  | swap t x y =>
    exact ⟨hsize x (Multiset.mem_singleton_self x) t h.1, (hfbq t).counted h.2.1,
      (hswap rfl t).trans h.2.2⟩
  | room t x y =>
    exact ⟨hsize x (by simp [NsPush.inHand]) t h.1, hsize y (by simp [NsPush.inHand]) t h.2.1,
      (hfbq t).counted h.2.2⟩
  | write t x y =>
    exact ⟨hsize x (by simp [NsPush.inHand]) t h.1, hsize y (by simp [NsPush.inHand]) t h.2.1,
      (hfbq t).limit h.2.2⟩
  | fbie => trivial

/-- The buffers in the hands of a process that may have ended its push. -/
def inHand (p : Option NsPush) : Multiset Word := p.elim 0 NsPush.inHand

/-- A step of a push: the buffers are at their places, those in use of their size still. -/
structure PushKeeps (s s' : NsRxBufs) (p : Option NsPush) (out : Multiset Word) : Prop where
  books : NsRxBooks s' (inHand p + out)
  size : ∀ x ∈ inHand p + out, ∀ t, x ∈ (s.pool t).queue → x ∈ (s'.pool t).queue
  ok : ∀ q, p = some q → q.Ok s'

theorem pair_add (h h2 : Word) (out : Multiset Word) : {h, h2} + out = h ::ₘ h2 ::ₘ out := by
  rw [Multiset.insert_eq_cons, Multiset.cons_add, Multiset.singleton_add]

theorem pushRxbufsStep_keeps {p : NsPush} (hs : NsRxBooks s (p.inHand + out)) (hok : p.Ok s) :
    PushKeeps s (pushRxbufsStep s p).1 (pushRxbufsStep s p).2 out := by
  have hend : ∀ {q : NsPush} {r : NsRxBufs}, q.Ok r → ∀ q', some q = some q' → q'.Ok r := by
    intro q r hq q' he
    cases he
    exact hq
  cases p with
  | count t h =>
    have hsame := sameRxbufs_readFbqcs s
    have hstep := hs.step_same hsame
    refine ⟨hstep.books, hstep.size, hend ⟨?_, ?_⟩⟩
    · rw [pushRxbufsStep, (hsame t).1]
      exact hok
    · cases t <;> exact counted_readFbqc _
  | test t h => exact ⟨hs, fun x _ t' hx => hx, hend ⟨hok.1, hok.2, rfl⟩⟩
  | swap t h h2 =>
    obtain ⟨hmem, hcounted, hhandle⟩ := hok
    cases h2 with
    | none =>
      have hs : NsRxBooks s (h ::ₘ out) := hs
      have hwait := hs.wait hmem hhandle
      have hnone : inHand (some .fbie) + out = out := zero_add out
      refine ⟨?_, ?_, hend trivial⟩
      · rw [pushRxbufsStep, hnone]
        exact hwait.books
      · rw [pushRxbufsStep, hnone]
        exact hwait.size
    | some h2 =>
      obtain ⟨hmem2, htaken⟩ := hs.unwait hhandle
      have hpair : inHand (some (.room t h h2)) + out =
          h2 ::ₘ (NsPush.inHand (.swap t h (some h2)) + out) := by
        show {h, h2} + out = h2 ::ₘ ({h} + out)
        rw [pair_add, Multiset.singleton_add, Multiset.cons_swap]
      refine ⟨?_, ?_, hend ⟨?_, ?_, ?_⟩⟩
      · rw [pushRxbufsStep, hpair]
        exact htaken.books
      · rw [pushRxbufsStep, hpair]
        exact htaken.size
      · rw [pushRxbufsStep, pool_setPool]
        exact hmem
      · rw [pushRxbufsStep, pool_setPool]
        exact hmem2
      · rw [pushRxbufsStep, pool_setPool]
        exact hcounted
  | room t h h2 =>
    obtain ⟨hmem, hmem2, hcounted⟩ := hok
    unfold pushRxbufsStep
    dsimp only
    split
    next hfull =>
      rw [NsPush.inHand, pair_add] at hs
      have hfreed := hs.freed hmem hmem2
      have hnone : inHand none + out = out := zero_add out
      refine ⟨?_, ?_, fun q he => by cases he⟩
      · rw [hnone]
        exact hfreed.books
      · rw [hnone]
        exact hfreed.size
    next hroom =>
      have hsame : SameRxbufs s (s.setPool t { s.pool t with fbqc := (s.pool t).fbqc + 2 }) :=
        sameRxbufs_setPool rfl rfl rfl rfl fun hc hlt => Nat.le_add_right_of_le (hc hlt)
      have hstep := hs.step_same hsame
      refine ⟨hstep.books, hstep.size, hend ⟨?_, ?_, ?_⟩⟩
      · rw [pool_setPool]
        exact hmem
      · rw [pool_setPool]
        exact hmem2
      · rw [pool_setPool]
        have hlevel := hs.level t
        have hlong := hs.room t
        have hle := hcounted (by unfold topB at hlong; omega)
        show (s.pool t).fbq.length ≤ topB + 1
        omega
  | write t h h2 =>
    obtain ⟨hmem, hmem2, hroom⟩ := hok
    rw [NsPush.inHand, pair_add] at hs
    have hpushed := hs.pushed hmem hmem2 (s.pool t).fbqc hroom
    have hnone : inHand (some .fbie) + out = out := zero_add out
    refine ⟨?_, ?_, hend trivial⟩
    · rw [pushRxbufsStep, hnone]
      exact hpushed
    · intro x _ t' hx
      by_cases ht : t' = t
      · rw [ht] at hx ⊢
        rw [pushRxbufsStep, pool_setPool]
        exact hx
      · rw [pushRxbufsStep, pool_setPool_ne ht]
        exact hx
  | fbie =>
    have hstep := hs.step_same (sameRxbufs_checkFbie s)
    exact ⟨hstep.books, hstep.size, fun q he => by cases he⟩

/-- A buffer that was in use is pushed. -/
theorem pushRxbufs_books (hs : NsRxBooks s (h ::ₘ out)) (hmem : h ∈ (s.pool t).queue) :
    RxBooksStep s (pushRxbufs s t h) out := by
  have hread := hs.step_same (sameRxbufs_readFbqcs s)
  have hmem' : h ∈ (s.readFbqcs.pool t).queue := by
    rw [(sameRxbufs_readFbqcs s t).1]
    exact hmem
  have hcounted : (s.readFbqcs.pool t).Counted := by
    cases t <;> exact counted_readFbqc _
  refine hread.trans ?_ (Multiset.le_cons_self out h)
  have hs' := hread.books
  unfold pushRxbufs
  generalize s.readFbqcs = r at *
  dsimp only
  split
  next hhandle => exact (hs'.wait hmem' hhandle).then_same (sameRxbufs_checkFbie _)
  next h2 hhandle =>
    obtain ⟨hmem2, htaken⟩ := hs'.unwait hhandle
    have hin : h ∈ h2 ::ₘ h ::ₘ out := Multiset.mem_cons_of_mem (Multiset.mem_cons_self h out)
    have htaken2 := htaken.books
    rw [Multiset.cons_swap] at htaken2 hin
    have hsize := htaken.size h (by rwa [Multiset.cons_swap]) t hmem'
    have hsize2 := htaken.size h2 (Multiset.mem_cons_self h2 _) t hmem2
    have hle : out ≤ h2 ::ₘ h ::ₘ out :=
      le_trans (Multiset.le_cons_self out h) (Multiset.le_cons_self _ h2)
    split
    next hfull =>
      have hfreed := htaken2.freed hsize hsize2
      rw [pool_setPool, setPool_setPool] at hfreed
      exact htaken.trans hfreed hle
    next hroom =>
      have hlevel := hs'.level t
      have hlen : (r.pool t).fbq.length < topB := by
        have hlong := hs'.room t
        have hle := hcounted (by unfold topB at hlong; omega)
        omega
      have hpushed := htaken2.pushed (t := t) hsize hsize2 ((r.pool t).fbqc + 2)
        (by rw [pool_setPool]; exact Nat.le_succ_of_le (Nat.le_of_lt hlen))
      rw [pool_setPool, setPool_setPool] at hpushed
      refine RxBooksStep.then_same ⟨hpushed, ?_, ?_⟩ (sameRxbufs_checkFbie _)
      · intro x _ t' hx
        by_cases ht : t' = t
        · rw [ht] at hx ⊢
          rw [pool_setPool]
          exact hx
        · rw [pool_setPool_ne ht]
          exact hx
      · refine FbqKeeps.setPool ⟨?_, ?_⟩
        · intro hcount hlt
          have hlt : ((r.pool t).fbq ++ [h, h2]).length < 1024 := hlt
          show ((r.pool t).fbq ++ [h, h2]).length ≤ (r.pool t).fbqc + 2
          rw [List.length_append] at hlt ⊢
          exact Nat.add_le_add_right (hcount (by omega)) 2
        · intro _
          show ((r.pool t).fbq ++ [h, h2]).length ≤ topB + 1
          rw [List.length_append]
          exact Nat.add_le_add_right (Nat.le_pred_of_lt hlen) 2

theorem NsRxBooks.mem_queue (hs : NsRxBooks s out) (hx : h ∈ out) : ∃ t, h ∈ (s.pool t).queue := by
  have hin : h ∈ (↑s.b0.queue + ↑s.b1.queue : Multiset Word) := by
    rw [hs.total]
    exact Multiset.mem_add.mpr (.inr hx)
  rcases Multiset.mem_add.mp hin with hin | hin
  · exact ⟨.b0, hin⟩
  · exact ⟨.b1, hin⟩

/-- A buffer is of one size. -/
theorem NsRxBooks.one_size (hs : NsRxBooks s out) {t' : NsBufType} (hmem : h ∈ (s.pool t).queue)
    (hmem' : h ∈ (s.pool t').queue) : t = t' := by
  have hdisj := (Multiset.nodup_add.mp hs.nodup).2.2
  cases t <;> cases t'
  · rfl
  · exact absurd hmem' (Multiset.disjoint_left.mp hdisj hmem)
  · exact absurd hmem (Multiset.disjoint_left.mp hdisj hmem')
  · rfl

/-- A new buffer. -/
theorem NsRxBooks.grown (hs : NsRxBooks s out) (hnew : ∀ t', h ∉ (s.pool t').queue) :
    RxBooksStep s (s.setPool t { s.pool t with queue := (s.pool t).queue ++ [h] })
      (h ::ₘ out) := by
  have hcons : (↑((s.pool t).queue ++ [h]) : Multiset Word) = h ::ₘ ↑(s.pool t).queue := by
    rw [← Multiset.coe_add, add_comm]
    rfl
  constructor
  · refine hs.setPool ?_ ?_ ?_ (hs.level t) (hs.room t)
    · rw [hcons, Multiset.cons_add]
      refine Multiset.nodup_cons.mpr ⟨?_, hs.nodup_at t⟩
      intro hin
      rcases Multiset.mem_add.mp hin with hin | hin
      · exact hnew t hin
      · exact hnew t.other hin
    · rw [hcons, Multiset.cons_add, hs.total_at t, Multiset.add_cons]
      rfl
    · exact fun x hx => List.mem_append_left _ (hs.idle t x hx)
  · intro x _ t' hx
    by_cases ht : t' = t
    · rw [ht] at hx ⊢
      rw [pool_setPool]
      exact List.mem_append_left _ hx
    · rw [pool_setPool_ne ht]
      exact hx
  · exact FbqKeeps.setPool ⟨fun h => h, fun h => h⟩

theorem sameRxbufs_allocSkb (s : NsRxBufs) : SameRxbufs s s.allocSkb.2 := by
  unfold NsRxBufs.allocSkb
  split
  · exact fun t => ⟨rfl, rfl, rfl, rfl, fun h => h⟩
  · intro t
    cases t <;> exact ⟨rfl, rfl, rfl, rfl, fun h => h⟩

theorem allocSkb_new (halloc : s.allocSkb.1 = some h) (t : NsBufType) :
    h ∉ (s.allocSkb.2.pool t).queue := by
  rw [(sameRxbufs_allocSkb s t).1]
  unfold NsRxBufs.allocSkb at halloc
  split at halloc
  · cases halloc
  next a rest =>
    have hnew := of_decide_eq_true (Option.filter_eq_some_iff.mp halloc).2
    cases t with
    | b0 => exact hnew.1
    | b1 => exact hnew.2

theorem fillRxbuf_books (hs : NsRxBooks s out) (t : NsBufType) :
    RxBooksStep s (fillRxbuf s t).2 out := by
  have hsame := sameRxbufs_allocSkb s
  unfold fillRxbuf
  rcases halloc : s.allocSkb with ⟨a, s'⟩
  rw [halloc] at hsame
  have hs' := hs.step_same hsame
  cases a with
  | none => exact hs'
  | some h =>
    have hnew : ∀ t', h ∉ (s'.pool t').queue := by
      intro t'
      have hfresh := allocSkb_new (congrArg Prod.fst halloc) t'
      rw [halloc] at hfresh
      exact hfresh
    have hgrown := hs'.books.grown (t := t) hnew
    have hin : h ∈ (s'.setPool t { s'.pool t with queue := (s'.pool t).queue ++ [h] }
        |>.pool t).queue := by
      rw [pool_setPool]
      exact List.mem_append_right _ (List.mem_singleton_self h)
    have hpush := pushRxbufs_books hgrown.books hin
    refine ⟨hpush.books, ?_, fun t' => ((hs'.fbq t').trans (hgrown.fbq t')).trans (hpush.fbq t')⟩
    intro x hx t' hmem
    have hmem := hgrown.size x (Multiset.mem_cons_of_mem hx) t' (hs'.size x hx t' hmem)
    exact hpush.size x hx t' hmem

theorem recycleRxBuf_books (hs : NsRxBooks s (h ::ₘ out)) :
    RxBooksStep s (recycleRxBuf s h) out := by
  unfold recycleRxBuf
  split
  next hmem => exact pushRxbufs_books (t := .b0) hs hmem
  next hno0 =>
    split
    next hmem => exact pushRxbufs_books (t := .b1) hs hmem
    next hno1 =>
      obtain ⟨t, ht⟩ := hs.mem_queue (Multiset.mem_cons_self h out)
      cases t with
      | b0 => exact absurd ht hno0
      | b1 => exact absurd ht hno1

theorem recycleIovecRxBufs_books {iov : List Word} (hs : NsRxBooks s (↑iov + out)) :
    RxBooksStep s (recycleIovecRxBufs s iov) out := by
  induction iov generalizing s with
  | nil =>
    have hzero : (↑([] : List Word) + out : Multiset Word) = out := zero_add out
    rw [hzero] at hs
    exact hs.step_same fun t => ⟨rfl, rfl, rfl, rfl, fun h => h⟩
  | cons x iov ih =>
    have hcons : (↑(x :: iov) + out : Multiset Word) = x ::ₘ (↑iov + out) := by
      rw [← Multiset.cons_coe, Multiset.cons_add]
    rw [hcons] at hs
    have hstep := recycleRxBuf_books hs
    exact hstep.trans (ih hstep.books) (Multiset.le_add_left _ _)

theorem replaceRxbuf_books (hs : NsRxBooks s out) (t : NsBufType) :
    RxBooksStep s (replaceRxbuf s t) out := by
  unfold replaceRxbuf
  split
  · exact fillRxbuf_books hs t
  · exact hs.step_same fun t => ⟨rfl, rfl, rfl, rfl, fun h => h⟩

theorem dequeueBuf_books (hs : NsRxBooks s (h ::ₘ out)) (hmem : h ∈ (s.pool t).queue) :
    RxBooksStep s (dequeueBuf s t h) out := by
  have hleft := hs.left hmem
  have hfirst := replaceRxbuf_books hleft.books t
  exact (hleft.trans hfirst le_rfl).trans (replaceRxbuf_books hfirst.books t) le_rfl

theorem nsInitRxbufs_books (hs : NsRxBooks s out) (t : NsBufType) (n : Nat) :
    RxBooksStep s (nsInitRxbufs t n s) out := by
  induction n generalizing s with
  | zero => exact hs.step_same fun t => ⟨rfl, rfl, rfl, rfl, fun h => h⟩
  | succ n ih =>
    have hstep := fillRxbuf_books hs t
    unfold nsInitRxbufs
    rcases hfill : fillRxbuf s t with ⟨ok, s'⟩
    rw [hfill] at hstep
    cases ok with
    | false => exact hstep
    | true => exact hstep.trans (ih hstep.books) le_rfl

theorem fbqAttentionLoop_books (hs : NsRxBooks s out) (t : NsBufType) (n : Nat) :
    RxBooksStep s (fbqAttentionLoop t n s) out := by
  induction n generalizing s with
  | zero => exact hs.step_same fun t => ⟨rfl, rfl, rfl, rfl, fun h => h⟩
  | succ n ih =>
    have hstep := fillRxbuf_books hs t
    unfold fbqAttentionLoop
    rcases hfill : fillRxbuf s t with ⟨ok, s'⟩
    rw [hfill] at hstep
    cases ok with
    | false =>
      refine hstep.then_same fun t => ?_
      cases t <;> exact ⟨rfl, rfl, rfl, rfl, fun h => h⟩
    | true => exact hstep.trans (ih hstep.books) le_rfl

theorem fbqAttention_books (hs : NsRxBooks s out) (t : NsBufType) :
    RxBooksStep s (fbqAttention s t) out :=
  (fbqAttentionLoop_books hs t _).then_same
    (sameRxbufs_setPool rfl rfl rfl rfl fun _ => counted_readFbqc _)

theorem setBufLev_books (hs : NsRxBooks s out) (t : NsBufType) (l : NsLevels) (level : NsLevel) :
    RxBooksStep s (setBufLev s t l level) out := by
  unfold setBufLev
  constructor
  · refine hs.setPool (hs.nodup_at t) (hs.total_at t) (hs.idle t) ?_ (hs.room t)
    cases level with
    | min => exact hs.level t
    | init => exact hs.level t
    | max => exact l.max_le
  · intro x _ t' hx
    by_cases ht : t' = t
    · rw [ht] at hx ⊢
      rw [pool_setPool]
      exact hx
    · rw [pool_setPool_ne ht]
      exact hx
  · exact FbqKeeps.setPool ⟨fun h => h, fun h => h⟩

theorem SameRxbufs.trans (h : SameRxbufs s s') (h' : SameRxbufs s' s'') : SameRxbufs s s'' := by
  intro t
  obtain ⟨hqueue, hhandle, hfbq, hnr, hcounted⟩ := h t
  obtain ⟨hqueue', hhandle', hfbq', hnr', hcounted'⟩ := h' t
  exact ⟨hqueue'.trans hqueue, hhandle'.trans hhandle, hfbq'.trans hfbq, hnr'.trans hnr,
    fun hs => hcounted' (hcounted hs)⟩

theorem sameRxbufs_of_pools (h0 : s'.b0 = s.b0) (h1 : s'.b1 = s.b1) : SameRxbufs s s' := by
  intro t
  have hpool : s'.pool t = s.pool t := by
    cases t with
    | b0 => exact h0
    | b1 => exact h1
  rw [hpool]
  exact ⟨rfl, rfl, rfl, rfl, fun h => h⟩

theorem sameRxbufs_recycleIovBuf (s : NsRxBufs) : SameRxbufs s (recycleIovBuf s) := by
  unfold recycleIovBuf
  split
  · exact sameRxbufs_of_pools rfl rfl
  · exact sameRxbufs_of_pools rfl rfl

theorem sameRxbufs_recycleHugeBuf (s : NsRxBufs) : SameRxbufs s (recycleHugeBuf s) := by
  unfold recycleHugeBuf
  split
  · exact sameRxbufs_of_pools rfl rfl
  · exact sameRxbufs_of_pools rfl rfl

theorem sameRxbufs_takeIovBuf (s : NsRxBufs) : SameRxbufs s (takeIovBuf s).2 := by
  unfold takeIovBuf
  split
  · exact sameRxbufs_allocSkb s
  · dsimp only
    split
    · generalize hnext : ({ s with iov := { s.iov with count := s.iov.count - 1 } } : NsRxBufs) = r
      have hpools : SameRxbufs s r := by
        rw [← hnext]
        exact sameRxbufs_of_pools rfl rfl
      have hsame := sameRxbufs_allocSkb r
      rcases halloc : r.allocSkb with ⟨a, r'⟩
      rw [halloc] at hsame
      cases a with
      | none => exact hpools.trans hsame
      | some b => exact (hpools.trans hsame).trans (sameRxbufs_of_pools rfl rfl)
    · exact sameRxbufs_of_pools rfl rfl

theorem sameRxbufs_refillHugeBuf (s : NsRxBufs) : SameRxbufs s (refillHugeBuf s) := by
  unfold refillHugeBuf
  split
  · have hsame := sameRxbufs_allocSkb s
    rcases halloc : s.allocSkb with ⟨a, s'⟩
    rw [halloc] at hsame
    cases a with
    | none => exact hsame
    | some b => exact hsame.trans (sameRxbufs_of_pools rfl rfl)
  · exact sameRxbufs_of_pools rfl rfl

theorem sameRxbufs_takeHugeBuf (s : NsRxBufs) : SameRxbufs s (takeHugeBuf s).2 := by
  unfold takeHugeBuf
  split
  · have hsame := sameRxbufs_allocSkb s
    rcases halloc : s.allocSkb with ⟨a, s'⟩
    rw [halloc] at hsame
    cases a with
    | none => exact hsame
    | some b => exact hsame.trans (sameRxbufs_refillHugeBuf s')
  · have hpools : SameRxbufs s { s with hb := { s.hb with count := s.hb.count - 1 } } :=
      sameRxbufs_of_pools rfl rfl
    dsimp only
    split
    · exact hpools.trans ((sameRxbufs_refillHugeBuf _).trans (sameRxbufs_refillHugeBuf _))
    · exact hpools

end Books

end DanubeBsp
