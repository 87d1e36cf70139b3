import DanubeBsp.BufferPool
import DanubeBsp.Errno

namespace DanubeBsp

/-- Where `circular_buf` points. `uncachedNull` is `_MU(NULL)`, which `mps_inv_alloc` returns when
`kmalloc` fails. -/
inductive RingPtr
  | null
  | ring (id : Nat)
  | uncachedNull
  deriving DecidableEq

/-- A queue descriptor with the rings that were allocated and are not freed, the buffers that went
back, and the accesses through a pointer that is no ring. -/
structure QueueHeap where
  circularBuf : RingPtr
  maxcount : Nat
  rpos : Nat
  wpos : Nat
  mem : RingPtr → Nat → QItem
  rings : List Nat
  ringBytes : Nat → Nat
  nextRing : Nat
  allocated : Nat
  freed : List QItem
  astray : List RingPtr

namespace QueueHeap

def live (h : QueueHeap) : RingPtr → Bool
  | .ring id => decide (id ∈ h.rings)
  | _ => false

/-- An access to the ring of the descriptor. -/
def access (h : QueueHeap) : QueueHeap :=
  if h.live h.circularBuf then h else { h with astray := h.astray ++ [h.circularBuf] }

def store (h : QueueHeap) (i : Nat) (x : QItem) : QueueHeap :=
  let h := h.access
  let ring := Function.update (h.mem h.circularBuf) i x
  { h with mem := Function.update h.mem h.circularBuf ring }

/-- A new buffer of the allocator in slot `i`. -/
def storeNew (h : QueueHeap) (i : Nat) : QueueHeap :=
  let h := h.store i (.buf h.allocated)
  { h with allocated := h.allocated + 1 }

/-- `mps_inv_alloc`: a failed `kmalloc` is not noticed. -/
def mpsInvAlloc (h : QueueHeap) (bytes : Nat) (ok : Bool) : RingPtr × QueueHeap :=
  if ok then
    (.ring h.nextRing, { h with
      rings := h.nextRing :: h.rings
      ringBytes := Function.update h.ringBytes h.nextRing bytes
      nextRing := h.nextRing + 1 })
  else (.uncachedNull, h)

/-- `kfree` of the ring; a null pointer is ignored. `circular_buf` is the KSEG1 alias of what `kmalloc`
returned, and `kfree` finds the ring by it all the same: the page of an address comes from its physical
part. -/
def kfreeRing (h : QueueHeap) : QueueHeap :=
  match h.circularBuf with
  | .null => h
  | .ring id =>
    if id ∈ h.rings then { h with rings := h.rings.erase id }
    else { h with astray := h.astray ++ [.ring id] }
  | .uncachedNull => { h with astray := h.astray ++ [.uncachedNull] }

/-- The buffer of slot `rpos` goes to the free function. -/
def freeItem (h : QueueHeap) (rpos : Nat) : QueueHeap :=
  let item := h.mem h.circularBuf rpos
  let h := h.access
  { h with freed := h.freed ++ [item] }

/-- The loop of `mps_queue_free`; the result is the read position behind it. -/
def freeLoop (wpos : Nat) : Nat → Nat → QueueHeap → Option (Nat × QueueHeap)
  | 0, rpos, h => if rpos = wpos then some (rpos, h) else none
  | fuel + 1, rpos, h =>
    if rpos = wpos then some (rpos, h)
    else freeLoop wpos fuel (mpsNextQPos rpos h.maxcount) (h.freeItem rpos)

/-- `mps_queue_free`; a write position beyond `maxcount` is never reached. -/
def mpsQueueFree (h : QueueHeap) (freeCircularBuf : Bool) : Option QueueHeap :=
  match if h.circularBuf = .null then some (h.rpos, h)
    else freeLoop h.wpos (h.maxcount + 1) h.rpos h with
  | none => none
  | some (rpos, h) =>
    let h := if freeCircularBuf then h.kfreeRing else h
    -- the descriptor keeps its pointer to the freed ring
    some { h with rpos }

/-- The fill loop of `mps_queue_init` from index `i` on; the result is the index at which an allocation
failed. -/
def fillLoop (allocFn : Nat → Bool) : Nat → Nat → QueueHeap → Option Nat × QueueHeap
  | 0, _, h => (none, h)
  | n + 1, i, h =>
    if allocFn i then fillLoop allocFn n (i + 1) (h.storeNew i)
    else (some i, h.store i .null)

/-- The descriptor with its new ring, whose size is computed in 32 bits. -/
def withRing (h : QueueHeap) (numEntries : Nat) (ringOk : Bool) : QueueHeap :=
  let (circularBuf, h) := h.mpsInvAlloc ((numEntries + 1) * 4 % 2 ^ 32) ringOk
  { h with circularBuf }

/-- The branch of `mps_queue_init` for a queue with buffers. -/
def fillRing (h : QueueHeap) (numEntries : Nat) (allocFn : Nat → Bool) : Option (Int × QueueHeap) :=
  match fillLoop allocFn numEntries 0 { h with rpos := 0 } with
  | (none, h) => some (0, { h with wpos := numEntries, maxcount := numEntries })
  | (some i, h) =>
    match { h with maxcount := i, wpos := i }.mpsQueueFree true with
    | some h => some (eNoMem, h)
    | none => none

/-- The branch for a queue without. -/
def clearRing (h : QueueHeap) (numEntries : Nat) : QueueHeap :=
  let h := h.access
  let zero := fun i => if i ≤ numEntries then .null else h.mem h.circularBuf i
  { h with mem := Function.update h.mem h.circularBuf zero, wpos := 0, rpos := 0
           maxcount := numEntries }

/-- `mps_queue_init`. -/
def mpsQueueInit (h : QueueHeap) (size numEntries : Nat) (ringOk : Bool) (allocFn : Nat → Bool) :
    Option (Int × QueueHeap) :=
  if h.circularBuf ≠ .null then some (eExist, h)
  else
    let h := h.withRing numEntries ringOk
    if h.circularBuf = .null then some (eNoMem, h)
    else if size ≠ 0 then h.fillRing numEntries allocFn
    else some (0, h.clearRing numEntries)

/-- The loop of `mps_topup_q_list`, with the number of buffers still missing. -/
def topupLoop (allocFn : Nat → Bool) : Nat → Nat → QueueHeap → QueueHeap
  | 0, _, h => h
  | n + 1, wpos, h =>
    if allocFn n then
      let wpos := mpsNextQPos wpos h.maxcount
      let h := h.storeNew h.wpos
      topupLoop allocFn n wpos { h with wpos }
    else { h with wpos }

/-- `ifx_cpu0_topup_q_list`. -/
def ifxCpu0TopupQList (h : QueueHeap) (allocFn : Nat → Bool) : QueueHeap :=
  if h.maxcount = 0 then h
  else topupLoop allocFn (h.maxcount - mpsGetQCount h.rpos h.wpos h.maxcount) h.wpos h

end QueueHeap

/-- What the book-keeping and a shutdown do with a descriptor. -/
inductive QueueOp
  | topup (allocFn : Nat → Bool)
  | release
  | free

def queueOp (h : QueueHeap) : QueueOp → Option QueueHeap
  | .topup allocFn => some (h.ifxCpu0TopupQList allocFn)
  | .release => h.mpsQueueFree false
  | .free => h.mpsQueueFree true

/-- A successful initialisation: a ring of the right size with the requested number of distinct new
buffers. -/
structure InitDone (size numEntries : Nat) (h h' : QueueHeap) : Prop where
  ring : ∃ id ∈ h'.rings, h'.circularBuf = .ring id ∧ h'.ringBytes id = 4 * (numEntries + 1)
  positions : h'.rpos = 0 ∧ h'.wpos = setupCount size numEntries ∧ h'.maxcount = numEntries
  buffers : ∀ i, i < h'.wpos → ∃ id, h'.mem h'.circularBuf i = .buf id ∧
    h.allocated ≤ id ∧ id < h'.allocated
  distinct : ∀ i j, i < h'.wpos → j < h'.wpos →
    h'.mem h'.circularBuf i = h'.mem h'.circularBuf j → i = j
  kept : h'.freed = h.freed

/-- A failed one: every buffer it had allocated is freed once, the descriptor can be initialised again
and the other operations leave the memory of the ring alone. -/
structure InitUndone (h h' : QueueHeap) : Prop where
  freed : ∃ bufs, h'.freed = h.freed ++ bufs ∧
    bufs.Perm ((List.range (h'.allocated - h.allocated)).map fun i => .buf (h.allocated + i))
  uninitialised : h'.circularBuf = .null
  again : ∀ size numEntries, ∃ h'', h'.mpsQueueInit size numEntries true (fun _ => true) = some (0, h'')
  untouched : ∀ op h'', queueOp h' op = some h'' → h''.astray = h'.astray

/-- `mps_queue_init` on an uninitialised descriptor. -/
def AllOrNothing (h : QueueHeap) (size numEntries : Nat) (ringOk : Bool) (allocFn : Nat → Bool) :
    Prop :=
  ∃ ret h', { h with circularBuf := .null }.mpsQueueInit size numEntries ringOk allocFn =
      some (ret, h') ∧
    ((ret = 0 ∧ InitDone size numEntries h h') ∨ (ret ≠ 0 ∧ InitUndone h h'))

/-- The pointer of the descriptor and the sizes of the rings are as before. -/
def SameRing (h h' : QueueHeap) : Prop :=
  h'.circularBuf = h.circularBuf ∧ h'.ringBytes = h.ringBytes

namespace QueueHeap

theorem access_sameRing (h : QueueHeap) : SameRing h h.access := by
  unfold access
  split
  next => exact ⟨rfl, rfl⟩
  next => exact ⟨rfl, rfl⟩

theorem access_live {h : QueueHeap} (hlive : h.live h.circularBuf = true) : h.access = h :=
  if_pos hlive

theorem store_live {h : QueueHeap} (hlive : h.live h.circularBuf = true) (i : Nat) (x : QItem) :
    h.store i x = { h with
      mem := Function.update h.mem h.circularBuf
        (Function.update (h.mem h.circularBuf) i x) } := by
  rw [store, access_live hlive]

theorem storeNew_live {h : QueueHeap} (hlive : h.live h.circularBuf = true) (i : Nat) :
    h.storeNew i = { h with
      mem := Function.update h.mem h.circularBuf
        (Function.update (h.mem h.circularBuf) i (.buf h.allocated))
      allocated := h.allocated + 1 } := by
  rw [storeNew, store_live hlive]

theorem kfreeRing_sameRing (h : QueueHeap) : SameRing h h.kfreeRing := by
  unfold kfreeRing
  split
  next => exact ⟨rfl, rfl⟩
  next =>
    split
    next => exact ⟨rfl, rfl⟩
    next => exact ⟨rfl, rfl⟩
  next => exact ⟨rfl, rfl⟩

theorem freeItem_live {h : QueueHeap} (hlive : h.live h.circularBuf = true) (rpos : Nat) :
    h.freeItem rpos = { h with freed := h.freed ++ [h.mem h.circularBuf rpos] } := by
  unfold freeItem
  rw [access_live hlive]

@[simp] theorem freeLoop_end (wpos fuel : Nat) (h : QueueHeap) :
    freeLoop wpos fuel wpos h = some (wpos, h) := by
  cases fuel with
  | zero => exact if_pos rfl
  | succ fuel => exact if_pos rfl

theorem freeLoop_sameRing {wpos fuel rpos r : Nat} {h h' : QueueHeap}
    (hrun : freeLoop wpos fuel rpos h = some (r, h')) : SameRing h h' := by
  induction fuel generalizing rpos h with
  | zero =>
    unfold freeLoop at hrun
    split at hrun
    next =>
      obtain ⟨rfl, rfl⟩ := Prod.mk.inj (Option.some.inj hrun)
      exact ⟨rfl, rfl⟩
    next => cases hrun
  | succ fuel ih =>
    unfold freeLoop at hrun
    split at hrun
    next =>
      obtain ⟨rfl, rfl⟩ := Prod.mk.inj (Option.some.inj hrun)
      exact ⟨rfl, rfl⟩
    next =>
      obtain ⟨hc, hb⟩ := ih hrun
      obtain ⟨hc', hb'⟩ := access_sameRing h
      exact ⟨hc.trans hc', hb.trans hb'⟩

theorem mpsQueueFree_sameRing {h h' : QueueHeap} {freeCircularBuf : Bool}
    (hrun : h.mpsQueueFree freeCircularBuf = some h') : SameRing h h' := by
  unfold mpsQueueFree at hrun
  split at hrun
  next => cases hrun
  next rpos u hloop =>
    have hu : SameRing h u := by
      split at hloop
      next =>
        obtain ⟨rfl, rfl⟩ := Prod.mk.inj (Option.some.inj hloop)
        exact ⟨rfl, rfl⟩
      next => exact freeLoop_sameRing hloop
    obtain rfl := Option.some.inj hrun
    obtain ⟨hk, hk'⟩ := kfreeRing_sameRing u
    cases freeCircularBuf with
    | false => exact hu
    | true => exact ⟨hk.trans hu.1, hk'.trans hu.2⟩

theorem fillLoop_sameRing (allocFn : Nat → Bool) (n i : Nat) (h : QueueHeap) :
    SameRing h (fillLoop allocFn n i h).2 := by
  induction n generalizing i h with
  | zero => exact ⟨rfl, rfl⟩
  | succ n ih =>
    obtain ⟨hc', hb'⟩ := access_sameRing h
    unfold fillLoop
    split
    next =>
      obtain ⟨hc, hb⟩ := ih (i + 1) (h.storeNew i)
      exact ⟨hc.trans hc', hb.trans hb'⟩
    next => exact ⟨hc', hb'⟩

/-- The loop runs through exactly when no allocation fails. -/
theorem fillLoop_none_iff (allocFn : Nat → Bool) (n i : Nat) (h : QueueHeap) :
    (fillLoop allocFn n i h).1 = none ↔ ∀ j, j < n → allocFn (i + j) = true := by
  induction n generalizing i h with
  | zero => simp [fillLoop]
  | succ n ih =>
    unfold fillLoop
    split
    next hok =>
      rw [ih]
      constructor
      · intro hall j hj
        cases j with
        | zero => exact hok
        | succ j =>
          have hj' := hall j (by omega)
          rwa [Nat.add_right_comm, Nat.add_assoc] at hj'
      · intro hall j hj
        have hj' := hall (j + 1) (by omega)
        rwa [← Nat.add_assoc, Nat.add_right_comm] at hj'
    next hno =>
      refine iff_of_false (by simp) ?_
      intro hall
      exact hno (hall 0 (by omega))

/-- A loop without a failure stores the new buffers in order. -/
theorem fillLoop_all {allocFn : Nat → Bool} {n i : Nat} {h : QueueHeap}
    (hlive : h.live h.circularBuf = true) (hall : ∀ j, j < n → allocFn (i + j) = true) :
    ∃ mem, fillLoop allocFn n i h = (none, { h with mem, allocated := h.allocated + n }) ∧
      (∀ j, j < n → mem h.circularBuf (i + j) = .buf (h.allocated + j)) ∧
      ∀ k, k < i → mem h.circularBuf k = h.mem h.circularBuf k := by
  induction n generalizing i h with
  | zero => exact ⟨h.mem, rfl, fun j hj => absurd hj (by omega), fun _ _ => rfl⟩
  | succ n ih =>
    have hstore := storeNew_live hlive i
    obtain ⟨mem, hrun, hnew, hold⟩ := @ih (i + 1) (h.storeNew i) (by rw [hstore]; exact hlive)
      (fun j hj => by
        have hj' := hall (j + 1) (by omega)
        rwa [← Nat.add_assoc, Nat.add_right_comm] at hj')
    rw [hstore] at hrun hnew hold
    refine ⟨mem, ?_, ?_, ?_⟩
    · rw [fillLoop, if_pos (show allocFn i = true from hall 0 (by omega)), hstore, hrun]
      simp only [Prod.mk.injEq, true_and, QueueHeap.mk.injEq, and_true]
      omega
    · intro j hj
      cases j with
      | zero =>
        refine (hold i (by omega)).trans ?_
        simp
      | succ j =>
        have hj' := hnew j (by omega)
        rwa [Nat.add_assoc, Nat.add_comm 1 j, Nat.add_assoc, Nat.add_comm 1 j] at hj'
    · intro k hk
      refine (hold k (by omega)).trans ?_
      simp only [Function.update_self]
      exact Function.update_of_ne (by omega) _ _

theorem withRing_circularBuf (h : QueueHeap) (numEntries : Nat) (ringOk : Bool) :
    (h.withRing numEntries ringOk).circularBuf =
      if ringOk then .ring h.nextRing else .uncachedNull := by
  cases ringOk with
  | false => rfl
  | true => rfl

theorem withRing_ringBytes (h : QueueHeap) (numEntries : Nat) :
    (h.withRing numEntries true).ringBytes h.nextRing = (numEntries + 1) * 4 % 2 ^ 32 :=
  Function.update_self _ _ _

theorem withRing_live (h : QueueHeap) (numEntries : Nat) :
    (h.withRing numEntries true).live (h.withRing numEntries true).circularBuf = true := by
  have hmem : h.nextRing ∈ h.nextRing :: h.rings := List.mem_cons_self
  exact decide_eq_true hmem

/-- What is left of `mps_queue_init` once the ring is there. -/
theorem mpsQueueInit_uninit (h : QueueHeap) (size numEntries : Nat) (ringOk : Bool)
    (allocFn : Nat → Bool) :
    { h with circularBuf := .null }.mpsQueueInit size numEntries ringOk allocFn =
      if size ≠ 0 then (h.withRing numEntries ringOk).fillRing numEntries allocFn
      else some (0, (h.withRing numEntries ringOk).clearRing numEntries) := by
  cases ringOk with
  | false => rfl
  | true => rfl

theorem fillRing_sameRing {h h' : QueueHeap} {numEntries : Nat} {allocFn : Nat → Bool} {ret : Int}
    (hrun : h.fillRing numEntries allocFn = some (ret, h')) : SameRing h h' := by
  have hfill := fillLoop_sameRing allocFn numEntries 0 { h with rpos := 0 }
  unfold fillRing at hrun
  split at hrun
  next u hu =>
    rw [hu] at hfill
    obtain ⟨rfl, rfl⟩ := Prod.mk.inj (Option.some.inj hrun)
    exact hfill
  next i u hu =>
    rw [hu] at hfill
    split at hrun
    next v hv =>
      obtain ⟨hc, hb⟩ := mpsQueueFree_sameRing hv
      obtain ⟨rfl, rfl⟩ := Prod.mk.inj (Option.some.inj hrun)
      exact ⟨hc.trans hfill.1, hb.trans hfill.2⟩
    next => cases hrun

/-- Success means that no allocation failed. -/
theorem fillRing_success {h h' : QueueHeap} {numEntries : Nat} {allocFn : Nat → Bool}
    (hrun : h.fillRing numEntries allocFn = some (0, h')) :
    ∀ i, i < numEntries → allocFn i = true := by
  have hiff := fillLoop_none_iff allocFn numEntries 0 { h with rpos := 0 }
  unfold fillRing at hrun
  split at hrun
  next u hu =>
    rw [hu] at hiff
    intro i hi
    have hok := hiff.mp rfl i hi
    rwa [Nat.zero_add] at hok
  next i u hu =>
    split at hrun
    next =>
      have hret : eNoMem = 0 := congrArg Prod.fst (Option.some.inj hrun)
      exact absurd hret (by decide)
    next => cases hrun

theorem clearRing_sameRing (h : QueueHeap) (numEntries : Nat) :
    SameRing h (h.clearRing numEntries) := access_sameRing h

/-- Whatever happens, the descriptor keeps the pointer that the allocation of the ring gave. -/
theorem mpsQueueInit_sameRing {h h' : QueueHeap} {size numEntries : Nat} {ringOk : Bool}
    {allocFn : Nat → Bool} {ret : Int}
    (hrun : { h with circularBuf := .null }.mpsQueueInit size numEntries ringOk allocFn =
      some (ret, h')) : SameRing (h.withRing numEntries ringOk) h' := by
  rw [mpsQueueInit_uninit] at hrun
  split at hrun
  next => exact fillRing_sameRing hrun
  next =>
    obtain ⟨rfl, rfl⟩ := Prod.mk.inj (Option.some.inj hrun)
    exact clearRing_sameRing _ numEntries

theorem fillRing_all {h : QueueHeap} {numEntries : Nat} {allocFn : Nat → Bool}
    (hlive : h.live h.circularBuf = true) (hall : ∀ i, i < numEntries → allocFn i = true) :
    ∃ mem, h.fillRing numEntries allocFn = some (0, { h with
        mem, rpos := 0, wpos := numEntries, maxcount := numEntries
        allocated := h.allocated + numEntries }) ∧
      ∀ i, i < numEntries → mem h.circularBuf i = .buf (h.allocated + i) := by
  have hall' : ∀ j, j < numEntries → allocFn (0 + j) = true := by
    intro j hj
    rw [Nat.zero_add]
    exact hall j hj
  obtain ⟨mem, hloop, hnew, _⟩ := fillLoop_all (h := { h with rpos := 0 }) hlive hall'
  refine ⟨mem, by rw [fillRing, hloop], ?_⟩
  intro i hi
  have hi' := hnew i hi
  rwa [Nat.zero_add] at hi'

theorem fillRing_initDone (h : QueueHeap) {size numEntries : Nat} {allocFn : Nat → Bool}
    (hsize : size ≠ 0) (hroom : numEntries + 1 < 2 ^ 30)
    (hall : ∀ i, i < numEntries → allocFn i = true) :
    ∃ h', (h.withRing numEntries true).fillRing numEntries allocFn = some (0, h') ∧
      InitDone size numEntries h h' := by
  obtain ⟨mem, hrun, hcell⟩ := fillRing_all (withRing_live h numEntries) hall
  refine ⟨_, hrun, ?_, ⟨rfl, (if_pos hsize).symm, rfl⟩, ?_, ?_, rfl⟩
  · refine ⟨h.nextRing, List.mem_cons_self, rfl, ?_⟩
    refine (withRing_ringBytes h numEntries).trans ?_
    omega
  · intro i hi
    exact ⟨h.allocated + i, hcell i hi, Nat.le_add_right _ _, Nat.add_lt_add_left hi h.allocated⟩
  · intro i j hi hj heq
    have hbuf : QItem.buf (h.allocated + i) = .buf (h.allocated + j) :=
      (hcell i hi).symm.trans (heq.trans (hcell j hj))
    have hid := QItem.buf.inj hbuf
    omega

theorem clearRing_initDone (h : QueueHeap) {numEntries : Nat} (hroom : numEntries + 1 < 2 ^ 30) :
    InitDone 0 numEntries h ((h.withRing numEntries true).clearRing numEntries) := by
  have haccess := access_live (withRing_live h numEntries)
  unfold clearRing
  rw [haccess]
  refine ⟨⟨h.nextRing, List.mem_cons_self, rfl, ?_⟩, ⟨rfl, rfl, rfl⟩, ?_, ?_, rfl⟩
  · refine (withRing_ringBytes h numEntries).trans ?_
    omega
  · intro i hi
    exact absurd hi (Nat.not_lt_zero i)
  · intro i j hi
    exact absurd hi (Nat.not_lt_zero i)

/-- A loop that has filled `k` slots goes on behind them. -/
theorem fillLoop_add {allocFn : Nat → Bool} {k m i : Nat} {h h' : QueueHeap}
    (hrun : fillLoop allocFn k i h = (none, h')) :
    fillLoop allocFn (k + m) i h = fillLoop allocFn m (i + k) h' := by
  induction k generalizing i h with
  | zero =>
    obtain rfl : h = h' := (Prod.mk.inj hrun).2
    rw [Nat.zero_add, Nat.add_zero]
  | succ k ih =>
    rw [Nat.add_right_comm]
    unfold fillLoop at hrun ⊢
    split at hrun
    next hok =>
      rw [if_pos hok, ih hrun, Nat.add_assoc, Nat.add_comm 1 k]
      cases m with
      | zero => rfl
      | succ m => rfl
    next => cases (Prod.mk.inj hrun).1

/-- A loop whose allocation `k` is the first to fail. -/
theorem fillLoop_fails {allocFn : Nat → Bool} {n i k : Nat} {h : QueueHeap}
    (hlive : h.live h.circularBuf = true) (hk : k < n)
    (hall : ∀ j, j < k → allocFn (i + j) = true) (hno : allocFn (i + k) = false) :
    ∃ mem, fillLoop allocFn n i h = (some (i + k), { h with mem, allocated := h.allocated + k }) ∧
      ∀ j, j < k → mem h.circularBuf (i + j) = .buf (h.allocated + j) := by
  obtain ⟨m, rfl⟩ : ∃ m, n = k + (m + 1) := ⟨n - k - 1, by omega⟩
  obtain ⟨mem, hrun, hnew, -⟩ := fillLoop_all hlive hall
  rw [fillLoop_add hrun, fillLoop, if_neg (by simpa using hno),
    store_live (h := { h with mem, allocated := h.allocated + k }) hlive]
  refine ⟨_, rfl, ?_⟩
  intro j hj
  rw [Function.update_self, Function.update_of_ne (by omega)]
  exact hnew j hj

/-- From a read position below the write position the loop frees the slots between, each once. -/
theorem freeLoop_range {wpos d rpos : Nat} {h : QueueHeap} (hlive : h.live h.circularBuf = true)
    (hd : rpos + d = wpos) (hmax : wpos ≤ h.maxcount) {fuel : Nat} (hfuel : d ≤ fuel) :
    freeLoop wpos fuel rpos h = some (wpos, { h with
      freed := h.freed ++ (List.range d).map fun j => h.mem h.circularBuf (rpos + j) }) := by
  induction d generalizing rpos h fuel with
  | zero =>
    obtain rfl : rpos = wpos := by omega
    rw [freeLoop_end]
    simp
  | succ d ih =>
    obtain ⟨fuel, rfl⟩ := Nat.exists_eq_succ_of_ne_zero (by omega : fuel ≠ 0)
    have hnext : mpsNextQPos rpos h.maxcount = rpos + 1 := if_pos (by omega)
    rw [freeLoop, if_neg (by omega), hnext, freeItem_live hlive,
      @ih (rpos + 1) { h with freed := h.freed ++ [h.mem h.circularBuf rpos] } hlive (by omega) hmax
        fuel (by omega)]
    simp only [List.range_succ_eq_map, List.map_cons, List.map_map, Function.comp_def,
      List.append_assoc, List.singleton_append, Nat.add_zero, Nat.succ_eq_add_one, Nat.add_assoc,
      Nat.add_comm 1]

/-- The roll-back: every buffer goes back once and the ring is freed, but the descriptor still points to
it, with a capacity of the buffers it had. -/
theorem fillRing_fails {h : QueueHeap} {numEntries id k : Nat} {allocFn : Nat → Bool}
    (hring : h.circularBuf = .ring id) (hid : id ∈ h.rings) (hk : k < numEntries)
    (hall : ∀ i, i < k → allocFn i = true) (hno : allocFn k = false) :
    ∃ mem, h.fillRing numEntries allocFn = some (eNoMem, { h with
        mem, rpos := k, wpos := k, maxcount := k, allocated := h.allocated + k
        rings := h.rings.erase id
        freed := h.freed ++ (List.range k).map fun i => .buf (h.allocated + i) }) := by
  have hlive : h.live h.circularBuf = true := by
    rw [hring]
    exact decide_eq_true hid
  have hall' : ∀ j, j < k → allocFn (0 + j) = true := by
    intro j hj
    rw [Nat.zero_add]
    exact hall j hj
  have hno' : allocFn (0 + k) = false := by
    rw [Nat.zero_add]
    exact hno
  obtain ⟨mem, hloop, hnew⟩ := fillLoop_fails (h := { h with rpos := 0 }) hlive hk hall' hno'
  have hfree := freeLoop_range (h := { h with
      mem, rpos := 0, wpos := k, maxcount := k, allocated := h.allocated + k }) hlive
    (Nat.zero_add k) (le_refl k) (Nat.le_succ k)
  have hbufs : ((List.range k).map fun j => mem h.circularBuf (0 + j)) =
      (List.range k).map fun i => QItem.buf (h.allocated + i) := by
    apply List.map_congr_left
    intro j hj
    exact hnew j (List.mem_range.mp hj)
  refine ⟨mem, ?_⟩
  rw [fillRing, hloop]
  dsimp only
  rw [Nat.zero_add, mpsQueueFree]
  dsimp only at hfree ⊢
  rw [if_neg (by rw [hring]; nofun), hfree, hbufs]
  simp only [kfreeRing, hring, hid, if_true]

theorem topupLoop_astray {allocFn : Nat → Bool} {n wpos : Nat} {h : QueueHeap} {p : RingPtr}
    (hp : p ∈ h.astray) : p ∈ (topupLoop allocFn n wpos h).astray := by
  induction n generalizing wpos h with
  | zero => exact hp
  | succ n ih =>
    unfold topupLoop
    split
    next =>
      apply ih
      change p ∈ h.access.astray
      unfold access
      split
      next => exact hp
      next => exact List.mem_append_left _ hp
    next => exact hp

/-- After a failed initialisation another one is refused, a free frees the ring a second time, and a
top-up stores into it when there was a buffer before the failure. -/
theorem failed_init_dangling {h : QueueHeap} {id : Nat} (hring : h.circularBuf = .ring id)
    (hdead : id ∉ h.rings) (hpos : h.rpos = h.wpos) :
    (∀ size numEntries ringOk allocFn,
      h.mpsQueueInit size numEntries ringOk allocFn = some (eExist, h)) ∧
    (∃ h', queueOp h .free = some h' ∧ .ring id ∈ h'.astray) ∧
    (h.maxcount ≠ 0 → ∃ h', queueOp h (.topup fun _ => true) = some h' ∧ .ring id ∈ h'.astray) := by
  have hnull : h.circularBuf ≠ .null := by
    rw [hring]
    nofun
  refine ⟨?_, ?_, ?_⟩
  · intro size numEntries ringOk allocFn
    exact if_pos hnull
  · refine ⟨{ h.kfreeRing with rpos := h.wpos }, ?_, ?_⟩
    · rw [queueOp, mpsQueueFree, if_neg hnull, hpos, freeLoop_end]
      rfl
    · simp [kfreeRing, hring, hdead]
  · intro hmax
    refine ⟨_, rfl, ?_⟩
    obtain ⟨m, hm⟩ := Nat.exists_eq_succ_of_ne_zero hmax
    have hcount : mpsGetQCount h.rpos h.wpos h.maxcount = 0 := by
      rw [mpsGetQCount, if_pos (by omega), hpos, Nat.sub_self]
    have hmiss : ¬ h.live h.circularBuf = true := by
      rw [hring]
      simpa [live] using hdead
    rw [ifxCpu0TopupQList, if_neg hmax, hcount, Nat.sub_zero, hm, topupLoop, if_pos rfl]
    apply topupLoop_astray
    change RingPtr.ring id ∈ h.access.astray
    rw [access, if_neg hmiss, hring]
    simp

/-- An initialisation that fails at buffer `k` gives the buffers back and leaves the descriptor with the
freed ring. -/
theorem mpsQueueInit_fails {h : QueueHeap} {size numEntries k : Nat} {allocFn : Nat → Bool}
    (hfresh : h.nextRing ∉ h.rings) (hsize : size ≠ 0) (hk : k < numEntries)
    (hall : ∀ i, i < k → allocFn i = true) (hno : allocFn k = false) :
    ∃ h', { h with circularBuf := .null }.mpsQueueInit size numEntries true allocFn =
        some (eNoMem, h') ∧
      h'.freed = h.freed ++ (List.range k).map (fun i => .buf (h.allocated + i)) ∧
      h'.mpsQueueInit size numEntries true (fun _ => true) = some (eExist, h') ∧
      ∃ h'', queueOp h' .free = some h'' ∧ .ring h.nextRing ∈ h''.astray := by
  obtain ⟨mem, hrun⟩ := fillRing_fails (h := h.withRing numEntries true) rfl List.mem_cons_self hk
    hall hno
  have hdead : h.nextRing ∉ (h.withRing numEntries true).rings.erase h.nextRing := by
    have herase : (h.withRing numEntries true).rings.erase h.nextRing = h.rings :=
      List.erase_cons_head _ _
    rw [herase]
    exact hfresh
  rw [mpsQueueInit_uninit, if_pos hsize]
  refine ⟨_, hrun, rfl, ?_⟩
  obtain ⟨hexist, hfree, _⟩ := failed_init_dangling (h := { h.withRing numEntries true with
      mem, rpos := k, wpos := k, maxcount := k, allocated := (h.withRing numEntries true).allocated + k
      rings := (h.withRing numEntries true).rings.erase h.nextRing
      freed := (h.withRing numEntries true).freed ++
        (List.range k).map fun i => .buf ((h.withRing numEntries true).allocated + i) })
    rfl hdead rfl
  exact ⟨hexist _ _ _ _, hfree⟩

end QueueHeap

theorem mpsQueueInit_allOrNothing_iff (h : QueueHeap) (size numEntries : Nat) (ringOk : Bool)
    (allocFn : Nat → Bool) :
    AllOrNothing h size numEntries ringOk allocFn ↔
      ringOk = true ∧ numEntries + 1 < 2 ^ 30 ∧
        (size = 0 ∨ ∀ i, i < numEntries → allocFn i = true) := by
  constructor
  · rintro ⟨ret, h', hrun, hcase⟩
    obtain ⟨hc, hb⟩ := QueueHeap.mpsQueueInit_sameRing hrun
    rw [QueueHeap.withRing_circularBuf] at hc
    rcases hcase with ⟨rfl, hdone⟩ | ⟨_, hundone⟩
    · obtain ⟨id, _, hid, hbytes⟩ := hdone.ring
      cases ringOk with
      | false =>
        rw [hid] at hc
        cases hc
      | true =>
        rw [hid] at hc
        obtain rfl := RingPtr.ring.inj hc
        rw [hb, QueueHeap.withRing_ringBytes] at hbytes
        refine ⟨rfl, by omega, ?_⟩
        rw [QueueHeap.mpsQueueInit_uninit] at hrun
        split at hrun
        next => exact .inr (QueueHeap.fillRing_success hrun)
        next hsize => exact .inl (not_not.mp hsize)
    · rw [hundone.uninitialised] at hc
      cases ringOk with
      | false => cases hc
      | true => cases hc
  · rintro ⟨rfl, hroom, hok⟩
    by_cases hsize : size = 0
    · subst hsize
      refine ⟨0, _, QueueHeap.mpsQueueInit_uninit h 0 numEntries true allocFn, .inl ⟨rfl, ?_⟩⟩
      exact QueueHeap.clearRing_initDone h hroom
    · obtain ⟨h', hrun, hdone⟩ := QueueHeap.fillRing_initDone h hsize hroom (hok.resolve_left hsize)
      refine ⟨0, h', ?_, .inl ⟨rfl, hdone⟩⟩
      rw [QueueHeap.mpsQueueInit_uninit, if_pos hsize]
      exact hrun

/-- A fresh descriptor of `ifx_mps_queue_init`. -/
def emptyHeap : QueueHeap :=
  { circularBuf := .null, maxcount := 0, rpos := 0, wpos := 0, mem := fun _ _ => .null, rings := []
    ringBytes := fun _ => 0, nextRing := 0, allocated := 0, freed := [], astray := [] }

/-- The second of three buffers cannot be allocated. -/
theorem second_buffer_fails : ¬ AllOrNothing emptyHeap 1500 3 true (fun i => i < 1) := by
  rintro ⟨ret, h', hrun, ⟨rfl, hdone⟩ | ⟨_, hundone⟩⟩
  · have hret : eNoMem = 0 := congrArg Prod.fst (Option.some.inj hrun)
    exact absurd hret (by decide)
  · have hring : RingPtr.ring 0 = h'.circularBuf :=
      congrArg (fun r => r.2.circularBuf) (Option.some.inj hrun)
    rw [hundone.uninitialised] at hring
    cases hring

end DanubeBsp
