import DanubeBsp.Blocks
import DanubeBsp.WordBits

namespace DanubeBsp

def maxBlockSize : Int := 65535

/-- An `int` as the processor adds it. -/
def wrapInt (x : Int) : Int := x.bmod (2 ^ 32)

/-- `_danube_memcopy_device`. -/
structure MemcopyDevice where
  dst : Int
  src : Int
  len : Int
  dstCount : Int
  srcCount : Int
  recvCount : Int
  packetSize : Int

def memcopyDmaBufferAlloc0 (pDev : MemcopyDevice) (len : Int) (byteOffset : Word) :
    Option Int × Word × MemcopyDevice :=
  if wrapInt (pDev.len - pDev.dstCount) > 0 then
    (some (pDev.dst + pDev.dstCount), 0, { pDev with dstCount := wrapInt (pDev.dstCount + len) })
  else (none, byteOffset, pDev)

/-- The second device leaves the offset as its caller has it. -/
def memcopyDmaBufferAlloc1 (pDev : MemcopyDevice) (len : Int) (byteOffset : Word) :
    Option Int × Word × MemcopyDevice :=
  if wrapInt (pDev.len - pDev.dstCount) > 0 then
    (some (pDev.dst + pDev.dstCount), byteOffset,
      { pDev with dstCount := wrapInt (pDev.dstCount + len) })
  else (none, byteOffset, pDev)

/-- The `buffer_alloc` that `danube_dma_memcopy` sets for a device. -/
def memcopyBufferAlloc (second : Bool) :
    MemcopyDevice → Int → Word → Option Int × Word × MemcopyDevice :=
  if second then memcopyDmaBufferAlloc1 else memcopyDmaBufferAlloc0

/-- The blocks that `transmit_data` passes to `dma_device_write`. -/
def transmitData : Nat → MemcopyDevice → Option (List Block)
  | 0, _ => none
  | fuel + 1, pDev =>
    if pDev.srcCount < pDev.len then
      let len := if pDev.len > maxBlockSize then maxBlockSize else pDev.len
      (transmitData fuel { pDev with srcCount := wrapInt (pDev.srcCount + len) }).map
        fun blocks => ⟨pDev.src + pDev.srcCount, len⟩ :: blocks
    else some []

/-- The device as `danube_dma_memcopy` starts it. -/
def memcopyStart (dst src len : Int) : MemcopyDevice where
  dst := dst
  src := src
  len := len
  dstCount := 0
  srcCount := 0
  recvCount := 0
  packetSize := if len > maxBlockSize then maxBlockSize else len

/-- The buffers that the DMA layer gets when it asks some times for a packet size. -/
def handedOut (second : Bool) (size : Int) : Nat → MemcopyDevice → List Block
  | 0, _ => []
  | asks + 1, pDev =>
    match memcopyBufferAlloc second pDev size 0 with
    | (some addr, _, pDev) => ⟨addr, size⟩ :: handedOut second size asks pDev
    | (none, _, pDev) => handedOut second size asks pDev

section Steps

variable {pDev : MemcopyDevice} {second : Bool} {byteOffset : Word} {m : Int}

theorem wrapInt_eq {x : Int} (hlo : -2 ^ 31 ≤ x) (hhi : x < 2 ^ 31) : wrapInt x = x := by
  rw [wrapInt, Int.bmod_eq_of_le] <;> omega

theorem memcopyBufferAlloc_some (h : 0 < wrapInt (pDev.len - pDev.dstCount)) :
    (memcopyBufferAlloc second pDev m byteOffset).1 = some (pDev.dst + pDev.dstCount) ∧
      (memcopyBufferAlloc second pDev m byteOffset).2.2 =
        { pDev with dstCount := wrapInt (pDev.dstCount + m) } := by
  cases second with
  | false => simp [memcopyBufferAlloc, memcopyDmaBufferAlloc0, h]
  | true => simp [memcopyBufferAlloc, memcopyDmaBufferAlloc1, h]

theorem memcopyBufferAlloc_none (h : wrapInt (pDev.len - pDev.dstCount) ≤ 0) :
    (memcopyBufferAlloc second pDev m byteOffset).1 = none ∧
      (memcopyBufferAlloc second pDev m byteOffset).2.2 = pDev := by
  have hnot : ¬wrapInt (pDev.len - pDev.dstCount) > 0 := by omega
  cases second with
  | false => simp [memcopyBufferAlloc, memcopyDmaBufferAlloc0, hnot]
  | true => simp [memcopyBufferAlloc, memcopyDmaBufferAlloc1, hnot]

theorem handedOut_some {asks : Nat} (h : 0 < wrapInt (pDev.len - pDev.dstCount)) :
    handedOut second m (asks + 1) pDev = ⟨pDev.dst + pDev.dstCount, m⟩ ::
      handedOut second m asks { pDev with dstCount := wrapInt (pDev.dstCount + m) } := by
  obtain ⟨haddr, hdev⟩ := @memcopyBufferAlloc_some pDev second 0 m h
  rw [handedOut]
  generalize memcopyBufferAlloc second pDev m 0 = r at haddr hdev
  obtain ⟨addr, offset, next⟩ := r
  cases haddr
  cases hdev
  rfl

theorem handedOut_none {asks : Nat} (h : wrapInt (pDev.len - pDev.dstCount) ≤ 0) :
    handedOut second m asks pDev = [] := by
  induction asks with
  | zero => rfl
  | succ asks ih =>
    obtain ⟨haddr, hdev⟩ := @memcopyBufferAlloc_none pDev second 0 m h
    rw [handedOut]
    generalize memcopyBufferAlloc second pDev m 0 = r at haddr hdev
    obtain ⟨addr, offset, next⟩ := r
    cases haddr
    cases hdev
    exact ih

/-- As long as the length lets it, the `i`-th request gets the `i`-th buffer. -/
theorem mem_handedOut {i : Nat} (hm : 0 < m) (hlen : pDev.len < 2 ^ 31) (h0 : 0 ≤ pDev.dstCount)
    (h : pDev.dstCount + i * m < pDev.len) :
    ⟨pDev.dst + (pDev.dstCount + i * m), m⟩ ∈ handedOut second m (i + 1) pDev := by
  induction i generalizing pDev with
  | zero =>
    have hroom : 0 < wrapInt (pDev.len - pDev.dstCount) := by
      rw [wrapInt_eq] <;> omega
    rw [handedOut_some hroom]
    simp
  | succ i ih =>
    have hmul : ((i + 1 : Nat) : Int) * m = m + i * m := by
      push_cast
      ring
    have hrest : 0 ≤ (i : Int) * m := Int.mul_nonneg (Int.natCast_nonneg i) (le_of_lt hm)
    have hroom : 0 < wrapInt (pDev.len - pDev.dstCount) := by
      rw [wrapInt_eq] <;> omega
    have hnext : wrapInt (pDev.dstCount + m) = pDev.dstCount + m := wrapInt_eq (by omega) (by omega)
    have hin := @ih { pDev with dstCount := wrapInt (pDev.dstCount + m) } hlen
      (by dsimp only; omega) (by dsimp only; omega)
    dsimp only at hin
    rw [hnext] at hin
    rw [handedOut_some hroom, hnext, hmul]
    rw [Int.add_assoc] at hin
    exact List.mem_cons_of_mem _ hin

/-- When `n` buffers fill the destination, just these are handed out. -/
theorem handedOut_eq {asks n : Nat} (hm : 0 < m) (hlen : pDev.len < 2 ^ 31) (h0 : 0 ≤ pDev.dstCount)
    (h : pDev.dstCount + n * m = pDev.len) :
    handedOut second m asks pDev = equalBlocks (pDev.dst + pDev.dstCount) m (min asks n) := by
  induction asks generalizing pDev n with
  | zero => simp [handedOut, equalBlocks]
  | succ asks ih =>
    cases n with
    | zero =>
      have hfull : wrapInt (pDev.len - pDev.dstCount) ≤ 0 := by
        rw [wrapInt_eq] <;> omega
      rw [handedOut_none hfull]
      simp [equalBlocks]
    | succ n =>
      have hmul : ((n + 1 : Nat) : Int) * m = m + n * m := by
        push_cast
        ring
      have hrest : 0 ≤ (n : Int) * m := Int.mul_nonneg (Int.natCast_nonneg n) (le_of_lt hm)
      have hroom : 0 < wrapInt (pDev.len - pDev.dstCount) := by
        rw [wrapInt_eq] <;> omega
      have hnext : wrapInt (pDev.dstCount + m) = pDev.dstCount + m :=
        wrapInt_eq (by omega) (by omega)
      have hin := @ih { pDev with dstCount := wrapInt (pDev.dstCount + m) } n hlen
        (by dsimp only; omega) (by dsimp only; omega)
      dsimp only at hin
      rw [handedOut_some hroom, hin, hnext, Nat.succ_min_succ, equalBlocks_succ, Int.add_assoc]

/-- The length that `transmit_data` takes for every block. -/
def blockSize (len : Int) : Int := if len > maxBlockSize then maxBlockSize else len

theorem transmitData_length {fuel : Nat} {blocks : List Block}
    (h : transmitData fuel pDev = some blocks) : ∀ k ∈ blocks, k.length = blockSize pDev.len := by
  induction fuel generalizing pDev blocks with
  | zero => exact absurd h (by simp [transmitData])
  | succ fuel ih =>
    unfold transmitData at h
    by_cases hlt : pDev.srcCount < pDev.len
    · rw [if_pos hlt] at h
      obtain ⟨rest, hrest, rfl⟩ := Option.map_eq_some_iff.mp h
      intro k hk
      rcases List.mem_cons.mp hk with heq | hk
      · rw [heq]
        rfl
      · exact ih hrest k hk
    · rw [if_neg hlt] at h
      cases Option.some.inj h
      exact fun k hk => absurd hk List.not_mem_nil

/-- When the length is a number of blocks, just these are passed on. -/
theorem transmitData_eq {n : Nat} (hm : 0 < blockSize pDev.len) (hlen : pDev.len < 2 ^ 31)
    (h0 : 0 ≤ pDev.srcCount) (h : pDev.srcCount + n * blockSize pDev.len = pDev.len) :
    transmitData (n + 1) pDev =
      some (equalBlocks (pDev.src + pDev.srcCount) (blockSize pDev.len) n) := by
  induction n generalizing pDev with
  | zero =>
    have hend : ¬pDev.srcCount < pDev.len := by omega
    rw [transmitData, if_neg hend]
    rfl
  | succ n ih =>
    have hmul : ((n + 1 : Nat) : Int) * blockSize pDev.len =
        blockSize pDev.len + n * blockSize pDev.len := by
      push_cast
      ring
    have hrest : 0 ≤ (n : Int) * blockSize pDev.len :=
      Int.mul_nonneg (Int.natCast_nonneg n) (le_of_lt hm)
    have hgo : pDev.srcCount < pDev.len := by omega
    have hnext : wrapInt (pDev.srcCount + blockSize pDev.len) =
        pDev.srcCount + blockSize pDev.len := wrapInt_eq (by omega) (by omega)
    have hin := @ih { pDev with srcCount := wrapInt (pDev.srcCount + blockSize pDev.len) } hm hlen
      (by dsimp only; omega) (by dsimp only; omega)
    dsimp only at hin
    rw [transmitData, if_pos hgo]
    dsimp only
    rw [equalBlocks_succ]
    rw [hnext, ← Int.add_assoc] at hin
    rw [show (if pDev.len > maxBlockSize then maxBlockSize else pDev.len) = blockSize pDev.len from
      rfl, hnext, hin]
    rfl

theorem transmitData_mono {fuel fuel' : Nat} {blocks : List Block} (hle : fuel ≤ fuel')
    (h : transmitData fuel pDev = some blocks) : transmitData fuel' pDev = some blocks := by
  induction fuel generalizing pDev fuel' blocks with
  | zero => exact absurd h (by simp [transmitData])
  | succ fuel ih =>
    obtain ⟨more, rfl⟩ : ∃ more, fuel' = more + 1 := ⟨fuel' - 1, by omega⟩
    unfold transmitData at h ⊢
    by_cases hlt : pDev.srcCount < pDev.len
    · rw [if_pos hlt] at h ⊢
      obtain ⟨rest, hrest, rfl⟩ := Option.map_eq_some_iff.mp h
      rw [Option.map_eq_some_iff]
      exact ⟨rest, ih (by omega) hrest, rfl⟩
    · rw [if_neg hlt] at h ⊢
      exact h

theorem transmitData_unique {fuel fuel' : Nat} {blocks blocks' : List Block}
    (h : transmitData fuel pDev = some blocks) (h' : transmitData fuel' pDev = some blocks') :
    blocks = blocks' := by
  have hmax := transmitData_mono (Nat.le_max_left fuel fuel') h
  have hmax' := transmitData_mono (Nat.le_max_right fuel fuel') h'
  exact Option.some.inj (hmax.symm.trans hmax')

end Steps

/-- A length that `danube_dma_memcopy` can get. -/
structure CopyLen where
  val : Int
  pos : 0 < val
  lt : val < 2 ^ 31

/-- The blocks follow each other, lie apart, are small enough and cover just the source. -/
structure ExactBlocks (src len : Int) (blocks : List Block) : Prop where
  consecutive : Consecutive src (src + len) blocks
  disjoint : blocks.Pairwise Block.Before
  small : ∀ k ∈ blocks, k.length ≤ maxBlockSize
  cover : ∀ x, (∃ k ∈ blocks, k.Has x) ↔ src ≤ x ∧ x < src + len

def TransmitsExactly (dst src : Int) (len : CopyLen) : Prop :=
  ∃ fuel blocks, transmitData fuel (memcopyStart dst src len.val) = some blocks ∧
    ExactBlocks src len.val blocks

/-- However often the DMA layer asks for its packet size, the buffers follow each other inside the
destination. -/
def ReceivesInside (second : Bool) (dst src : Int) (len : CopyLen) : Prop :=
  ∀ asks, ∃ stop, let start := memcopyStart dst src len.val
    Consecutive dst stop (handedOut second start.packetSize asks start) ∧
      ∀ k ∈ handedOut second start.packetSize asks start, k.Inside dst (dst + len.val)

section Exact

variable {dst src : Int} {len : CopyLen}

theorem CopyLen.blockSize_pos (len : CopyLen) : 0 < blockSize len.val := by
  have hpos := len.pos
  unfold blockSize maxBlockSize
  split_ifs <;> omega

theorem CopyLen.blockSize_le (len : CopyLen) : blockSize len.val ≤ maxBlockSize := by
  unfold blockSize
  split_ifs <;> omega

/-- The number of blocks, where the blocks fill the length. -/
theorem CopyLen.exists_count (len : CopyLen) (h : blockSize len.val ∣ len.val) :
    ∃ n : Nat, (n : Int) * blockSize len.val = len.val := by
  obtain ⟨k, hk⟩ := h
  have hm := len.blockSize_pos
  have hpos := len.pos
  have hk0 : 0 ≤ k := by
    by_contra hneg
    have hle : blockSize len.val * k ≤ 0 :=
      Int.mul_nonpos_of_nonneg_of_nonpos (le_of_lt hm) (by omega)
    omega
  refine ⟨k.toNat, ?_⟩
  rw [Int.toNat_of_nonneg hk0, Int.mul_comm, ← hk]

theorem exactBlocks_equalBlocks {n : Nat} (hn : (n : Int) * blockSize len.val = len.val) :
    ExactBlocks src len.val (equalBlocks src (blockSize len.val) n) := by
  have hm := len.blockSize_pos
  have hmax := len.blockSize_le
  have hcons : Consecutive src (src + len.val) (equalBlocks src (blockSize len.val) n) := by
    have hequal := @consecutive_equalBlocks src (blockSize len.val) n
    rw [hn] at hequal
    exact hequal
  have hlength : ∀ k ∈ equalBlocks src (blockSize len.val) n, k.length = blockSize len.val :=
    fun k => length_of_mem_equalBlocks
  have hnonneg : ∀ k ∈ equalBlocks src (blockSize len.val) n, 0 ≤ k.length := by
    intro k hk
    rw [hlength k hk]
    omega
  refine ⟨hcons, hcons.pairwise hnonneg, ?_, hcons.has_iff hnonneg⟩
  intro k hk
  rw [hlength k hk]
  exact hmax

theorem transmitsExactly_iff : TransmitsExactly dst src len ↔ blockSize len.val ∣ len.val := by
  constructor
  · intro h
    obtain ⟨fuel, blocks, hrun, hexact⟩ := h
    have hend := hexact.consecutive.end_eq (transmitData_length hrun)
    refine ⟨blocks.length, ?_⟩
    show len.val = blockSize len.val * blocks.length
    have hend : src + len.val = src + blocks.length * blockSize len.val := hend
    rw [Int.mul_comm]
    omega
  · intro h
    obtain ⟨n, hn⟩ := len.exists_count h
    have hrun := @transmitData_eq (memcopyStart dst src len.val) n len.blockSize_pos len.lt
      (le_refl 0) ((Int.zero_add _).trans hn)
    exact ⟨n + 1, _, hrun, by
      show ExactBlocks src len.val (equalBlocks (src + 0) (blockSize len.val) n)
      rw [Int.add_zero]
      exact exactBlocks_equalBlocks hn⟩

theorem receivesInside_iff (second : Bool) :
    ReceivesInside second dst src len ↔ blockSize len.val ∣ len.val := by
  have hm := len.blockSize_pos
  have hpos := len.pos
  constructor
  · intro h
    by_contra hdvd
    have hdiv := Int.mul_ediv_add_emod len.val (blockSize len.val)
    have hmod := Int.emod_lt_of_pos len.val hm
    have hmod0 := Int.emod_pos_of_not_dvd hdvd
    have hmod1 : 0 < len.val % blockSize len.val := by omega
    have hq : 0 ≤ len.val / blockSize len.val := Int.ediv_nonneg (le_of_lt hpos) (le_of_lt hm)
    have hcount : ((len.val / blockSize len.val).toNat : Int) * blockSize len.val =
        blockSize len.val * (len.val / blockSize len.val) := by
      rw [Int.toNat_of_nonneg hq, Int.mul_comm]
    obtain ⟨stop, -, hin⟩ := h ((len.val / blockSize len.val).toNat + 1)
    have hlast := @mem_handedOut (memcopyStart dst src len.val) second (blockSize len.val)
      (len.val / blockSize len.val).toNat hm len.lt (le_refl 0) (by
        show 0 + _ < len.val
        omega)
    obtain ⟨-, hend⟩ := hin _ hlast
    have hend : dst + (0 + ((len.val / blockSize len.val).toNat : Int) * blockSize len.val) +
      blockSize len.val ≤ dst + len.val := hend
    omega
  · intro h asks
    obtain ⟨n, hn⟩ := len.exists_count h
    have heq := @handedOut_eq (memcopyStart dst src len.val) second (blockSize len.val) asks n hm
      len.lt (le_refl 0) ((Int.zero_add _).trans hn)
    have heq : handedOut second (blockSize len.val) asks (memcopyStart dst src len.val) =
        equalBlocks dst (blockSize len.val) (min asks n) := by
      rw [heq]
      show equalBlocks (dst + 0) _ _ = _
      rw [Int.add_zero]
    have hcons : Consecutive dst (dst + ((min asks n : Nat) : Int) * blockSize len.val)
        (equalBlocks dst (blockSize len.val) (min asks n)) := consecutive_equalBlocks
    have hle : ((min asks n : Nat) : Int) * blockSize len.val ≤ len.val := by
      have hmin : ((min asks n : Nat) : Int) ≤ n := by omega
      calc ((min asks n : Nat) : Int) * blockSize len.val ≤ n * blockSize len.val :=
            Int.mul_le_mul_of_nonneg_right hmin (le_of_lt hm)
        _ = len.val := hn
    refine ⟨dst + ((min asks n : Nat) : Int) * blockSize len.val, ?_⟩
    show Consecutive dst _ (handedOut second (blockSize len.val) asks _) ∧
      ∀ k ∈ handedOut second (blockSize len.val) asks _, _
    rw [heq]
    refine ⟨hcons, ?_⟩
    intro k hk
    have hlength : ∀ l ∈ equalBlocks dst (blockSize len.val) (min asks n),
        l.length = blockSize len.val := fun l => length_of_mem_equalBlocks
    have hnonneg : ∀ l ∈ equalBlocks dst (blockSize len.val) (min asks n), 0 ≤ l.length := by
      intro l hl
      rw [hlength l hl]
      omega
    obtain ⟨hlo, hhi⟩ := (hcons.start_le hnonneg).2 k hk
    exact ⟨hlo, by omega⟩

end Exact

/-- `memcopy_req`, as the driver has it after the copy. -/
structure MemcopyReq where
  src : Word
  dst : Word
  len : Word

/-- What `copy_from_user` and `copy_to_user` move: nothing for a length outside the user space, and
otherwise at most what is accessible. -/
def userCopy (accessible : Nat) (n : Int) : Int := if n < 0 then 0 else min n accessible

/-- What the ioctl does with its two pages. The blocks are `none` while `transmit_data` still runs. -/
structure BounceUse where
  stored : Int
  blocks : Option (List Block)
  buffers : List Block
  fetched : Int

/-- The MEMCOPY command, up to a number of blocks and of requests of the DMA layer. -/
def memcopyIoctl (second : Bool) (gSrc gDst : Int) (req : MemcopyReq)
    (accessibleSrc accessibleDst fuel asks : Nat) : BounceUse :=
  let pDev := memcopyStart gDst gSrc req.len.toInt
  { stored := userCopy accessibleSrc req.len.toInt
    blocks := transmitData fuel pDev
    buffers := handedOut second pDev.packetSize asks pDev
    fetched := userCopy accessibleDst req.len.toInt }

def pageSize : Int := 4096

structure BounceUse.Inside (u : BounceUse) (gSrc gDst : Int) : Prop where
  stored : u.stored ≤ pageSize
  blocks : ∀ blocks, u.blocks = some blocks → ∀ k ∈ blocks, k.Inside gSrc (gSrc + pageSize)
  buffers : ∀ k ∈ u.buffers, k.Inside gDst (gDst + pageSize)
  fetched : u.fetched ≤ pageSize

def IoctlInside (second : Bool) (gSrc gDst : Int) (req : MemcopyReq) : Prop :=
  ∀ accessibleSrc accessibleDst fuel asks,
    (memcopyIoctl second gSrc gDst req accessibleSrc accessibleDst fuel asks).Inside gSrc gDst

section Ioctl

variable {second : Bool} {gSrc gDst : Int} {req : MemcopyReq}

theorem userCopy_le {accessible : Nat} {n : Int} (h : n ≤ pageSize) :
    userCopy accessible n ≤ pageSize := by
  unfold pageSize at h ⊢
  unfold userCopy
  split_ifs <;> omega

/-- A length of at most one page is one block and one buffer, or none. -/
theorem one_block {len : Int} (hlo : -2 ^ 31 ≤ len) (hpage : len ≤ pageSize) (asks : Nat) :
    ∃ n : Nat, n ≤ 1 ∧
      transmitData (n + 1) (memcopyStart gDst gSrc len) = some (equalBlocks gSrc len n) ∧
      handedOut second (blockSize len) asks (memcopyStart gDst gSrc len) =
        equalBlocks gDst len (min asks n) := by
  unfold pageSize at hpage
  have hsize : blockSize len = len := by
    unfold blockSize maxBlockSize
    split_ifs <;> omega
  by_cases hpos : 0 < len
  · refine ⟨1, le_refl 1, ?_, ?_⟩
    · have hrun := @transmitData_eq (memcopyStart gDst gSrc len) 1
        (by show 0 < blockSize len; omega) (by show len < 2 ^ 31; omega) (le_refl 0)
        (by show 0 + _ * blockSize len = len; omega)
      rw [hrun]
      show some (equalBlocks (gSrc + 0) (blockSize len) 1) = _
      rw [hsize, Int.add_zero]
    · have hbuf := @handedOut_eq (memcopyStart gDst gSrc len) second (blockSize len) asks 1
        (by omega) (by show len < 2 ^ 31; omega) (le_refl 0)
        (by show 0 + _ * blockSize len = len; omega)
      rw [hbuf]
      show equalBlocks (gDst + 0) (blockSize len) _ = _
      rw [hsize, Int.add_zero]
  · refine ⟨0, Nat.zero_le 1, ?_, ?_⟩
    · have hend : ¬(0 : Int) < len := hpos
      show (if (0 : Int) < len then _ else some []) = _
      rw [if_neg hend]
      rfl
    · have hfull : wrapInt ((memcopyStart gDst gSrc len).len -
          (memcopyStart gDst gSrc len).dstCount) ≤ 0 := by
        show wrapInt (len - 0) ≤ 0
        rw [wrapInt_eq] <;> omega
      rw [handedOut_none hfull, Nat.min_zero]
      rfl

theorem ioctlInside_iff : IoctlInside second gSrc gDst req ↔ req.len.toInt ≤ 4096 := by
  constructor
  · intro h
    have hstored := (h 4097 0 0 0).stored
    unfold memcopyIoctl userCopy pageSize at hstored
    dsimp only at hstored
    split_ifs at hstored <;> omega
  · intro h accessibleSrc accessibleDst fuel asks
    have hlo := BitVec.le_toInt req.len
    obtain ⟨n, hn, hrun, hbuf⟩ := @one_block second gSrc gDst req.len.toInt (by omega) h asks
    have hinside (a : Int) {n : Nat} (hn : n ≤ 1) :
        ∀ k ∈ equalBlocks a req.len.toInt n, k.Inside a (a + pageSize) := by
      intro k hk
      obtain ⟨i, hi, rfl⟩ := List.mem_map.mp hk
      have hi0 : i = 0 := by
        have := List.mem_range.mp hi
        omega
      subst hi0
      have h : req.len.toInt ≤ pageSize := h
      exact ⟨by simp, by simpa using h⟩
    refine ⟨userCopy_le h, ?_, ?_, userCopy_le h⟩
    · intro blocks hblocks
      rw [transmitData_unique hblocks hrun]
      exact hinside gSrc hn
    · show ∀ k ∈ handedOut second (blockSize req.len.toInt) asks _, _
      rw [hbuf]
      exact hinside gDst (by omega)

end Ioctl

end DanubeBsp
