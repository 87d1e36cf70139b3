import DanubeBsp.DmaRxRing
import DanubeBsp.Memcopy
import DanubeBsp.Runs

namespace DanubeBsp

/-- A device of the driver with the ring of its receive channel. `attached` is whether `dma_device`
is set, and `taken` counts the completed descriptors that `memcopy_receive` has found. -/
structure MemcopySys where
  pDev : MemcopyDevice
  attached : Bool
  rx : RxSys
  taken : Nat

/-- The device after some requests for buffers. A failed request leaves it as it is. -/
def deviceAfter (second : Bool) (offset : Word) (pDev : MemcopyDevice) : Nat → MemcopyDevice
  | 0 => pDev
  | n + 1 =>
    (memcopyBufferAlloc second (deviceAfter second offset pDev n) pDev.packetSize offset).2.2

/-- The `j`-th buffer of the registration; `offset` is its variable, which has no first value. -/
def registerAlloc (second : Bool) (offset : Word) (pDev : MemcopyDevice) (j : Nat) :
    Option RxBuffer :=
  let alloc :=
    memcopyBufferAlloc second (deviceAfter second offset pDev j) pDev.packetSize offset
  alloc.1.map fun addr => ⟨BitVec.ofInt 32 addr, alloc.2.1, 0⟩

/-- The channel after `dma_device_register`. -/
def memcopyRegister (second : Bool) (offset : Word) (descLen : Nat) (pDev : MemcopyDevice) :
    MemcopySys where
  pDev := deviceAfter second offset pDev descLen
  attached := true
  rx := rxInit descLen (BitVec.ofInt 32 pDev.packetSize) (registerAlloc second offset pDev)
  taken := 0

/-- `memcopy_receive`. -/
def memcopyReceive (second : Bool) (s : MemcopySys) : MemcopySys :=
  let complete := (s.rx.ch.desc s.rx.ch.currDesc).done
  -- only a completed descriptor makes `dma_device_read` ask for a buffer
  let alloc :=
    if complete then memcopyBufferAlloc second s.pDev s.rx.ch.packetSize.toInt 0
    else (none, 0, s.pDev)
  let buffer := alloc.1.map fun addr => (⟨BitVec.ofInt 32 addr, alloc.2.1, 0⟩ : RxBuffer)
  let len := ((dmaDeviceRead s.rx.ch buffer).1.map fun p => p.len.toInt).getD 0
  let recvCount := wrapInt (s.pDev.recvCount + len)
  { pDev := { alloc.2.2 with recvCount := recvCount }
    attached := s.attached && decide (recvCount ≠ s.pDev.len)
    rx := rxRead s.rx buffer
    taken := s.taken + complete.toNat }

inductive CopyEvent
  | arrive
  | receive

/-- The hardware stores the next block, all of which are of one length, or an interrupt is handled. -/
def memcopyStep (second : Bool) (s : MemcopySys) : CopyEvent → Option MemcopySys
  | .arrive =>
    (rxArrive s.rx (BitVec.ofInt 32 (blockSize s.pDev.len))).map fun rx => { s with rx := rx }
  | .receive => if s.attached then some (memcopyReceive second s) else none

/-- `DANUBE_DMA_DESCRIPTOR_OFFSET`, the length of every ring. -/
def danubeDmaDescriptorOffset : Nat := 25

/-- Whenever each block that has arrived is taken, the count is the length just if all of them have
arrived. -/
def ReceiveCounts (second : Bool) (offset : Word) (dst src : Int) (len : CopyLen) : Prop :=
  ∀ es s, run (memcopyStep second) (memcopyRegister second offset danubeDmaDescriptorOffset
      (memcopyStart dst src len.val)) es = some s → s.taken = s.rx.arrived.length →
    (s.pDev.recvCount = len.val ↔ len.val ≤ s.rx.arrived.length * blockSize len.val)

/-- `handed` buffers have been given out, and the count is at least one block behind them. -/
structure MemcopyInv (len : CopyLen) (handed : Nat) (s : MemcopySys) : Prop where
  len_eq : s.pDev.len = len.val
  attached : s.attached = true
  dstCount : s.pDev.dstCount = wrapInt (handed * blockSize len.val)
  last : handed * blockSize len.val < len.val + blockSize len.val
  size : s.rx.ch.packetSize = BitVec.ofInt 32 (blockSize len.val)
  behind : s.pDev.recvCount + blockSize len.val ≤ handed * blockSize len.val
  nonneg : 0 ≤ s.pDev.recvCount
  done : ∀ i, (s.rx.ch.desc i).done = true →
    dataLength (s.rx.ch.desc i) = BitVec.ofInt 32 (blockSize len.val)

section Inv

variable {len : CopyLen} {handed : Nat} {s t : MemcopySys} {second : Bool} {offset : Word}

theorem CopyLen.blockSize_lt (len : CopyLen) : blockSize len.val < 2 ^ 16 := by
  have hmax := len.blockSize_le
  unfold maxBlockSize at hmax
  omega

theorem CopyLen.toInt_blockSize (len : CopyLen) :
    (BitVec.ofInt 32 (blockSize len.val)).toInt = blockSize len.val := by
  have hpos := len.blockSize_pos
  have hlt := len.blockSize_lt
  rw [BitVec.toInt_ofInt, Int.bmod_eq_of_le] <;> omega

/-- There is room for one more buffer as long as the length is not reached. -/
theorem room_iff {n : Nat} (hlast : n * blockSize len.val < len.val + blockSize len.val) :
    0 < wrapInt (len.val - wrapInt (n * blockSize len.val)) ↔ n * blockSize len.val < len.val := by
  have hpos := len.blockSize_pos
  have hlt := len.lt
  have hsize := len.blockSize_lt
  have hlen := len.pos
  have hmul : 0 ≤ (n : Int) * blockSize len.val :=
    Int.mul_nonneg (Int.natCast_nonneg n) (le_of_lt hpos)
  have hwrap : wrapInt (len.val - wrapInt (n * blockSize len.val)) =
      len.val - n * blockSize len.val := by
    rw [wrapInt, wrapInt, Int.sub_bmod_bmod]
    exact wrapInt_eq (by omega) (by omega)
  rw [hwrap]
  omega

theorem MemcopyInv.recvCount_lt (h : MemcopyInv len handed s) : s.pDev.recvCount < len.val := by
  have hlast := h.last
  have hbehind := h.behind
  omega

theorem MemcopyInv.recvCount_bound (h : MemcopyInv len handed s) : s.pDev.recvCount < 2 ^ 31 :=
  Int.lt_trans h.recvCount_lt len.lt

/-- Without another block handed out only the flag has to stay. -/
theorem MemcopyInv.kept (h : MemcopyInv len handed s) (hdev : t.pDev = s.pDev)
    (hsize : t.rx.ch.packetSize = s.rx.ch.packetSize) (hdesc : t.rx.ch.desc = s.rx.ch.desc)
    (hattached : t.attached = true) : MemcopyInv len handed t where
  len_eq := hdev ▸ h.len_eq
  attached := hattached
  dstCount := hdev ▸ h.dstCount
  last := h.last
  size := hsize.trans h.size
  behind := hdev ▸ h.behind
  nonneg := hdev ▸ h.nonneg
  done := hdesc ▸ h.done

/-- What an interrupt finds: no block, a block for which there is no new buffer and so no length, or
a block whose descriptor gets the next buffer. -/
inductive Received (len : CopyLen) (handed : Nat) (s t : MemcopySys) : Nat → Prop
  | idle (hdone : (s.rx.ch.desc s.rx.ch.currDesc).done = false) (hch : t.rx.ch = s.rx.ch)
    (hdev : t.pDev = s.pDev) (htaken : t.taken = s.taken) : Received len handed s t handed
  | refused (hdone : (s.rx.ch.desc s.rx.ch.currDesc).done = true)
    (hfull : len.val ≤ handed * blockSize len.val) (hch : t.rx.ch = rxAdvance s.rx.ch)
    (hdev : t.pDev = s.pDev) (htaken : t.taken = s.taken + 1) : Received len handed s t handed
  | counted (b : RxBuffer) (hdone : (s.rx.ch.desc s.rx.ch.currDesc).done = true)
    (hroom : handed * blockSize len.val < len.val)
    (hch : t.rx.ch = rxAdvance { s.rx.ch with
      opt := Function.update s.rx.ch.opt s.rx.ch.currDesc b.opt
      desc := Function.update s.rx.ch.desc s.rx.ch.currDesc (rxDesc s.rx.ch.packetSize b) })
    (hdev : t.pDev = { s.pDev with
      dstCount := wrapInt ((handed + 1 : Nat) * blockSize len.val)
      recvCount := s.pDev.recvCount + blockSize len.val })
    (htaken : t.taken = s.taken + 1) : Received len handed s t (handed + 1)

theorem memcopyReceive_received (h : MemcopyInv len handed s) :
    ∃ handed', Received len handed s (memcopyReceive second s) handed' := by
  have hlen := h.len_eq
  have hdst := h.dstCount
  have h0 := h.nonneg
  have hroom := room_iff h.last
  have hkeep : wrapInt (s.pDev.recvCount + 0) = s.pDev.recvCount := by
    rw [Int.add_zero]
    exact wrapInt_eq (by omega) h.recvCount_bound
  cases hdone : (s.rx.ch.desc s.rx.ch.currDesc).done with
  | false =>
    refine ⟨handed, .idle hdone ?_ ?_ ?_⟩
    · simp [memcopyReceive, hdone, rxRead, dmaDeviceRead]
    · simp only [memcopyReceive, hdone, dmaDeviceRead, Bool.false_eq_true, if_false, Option.map_none,
        Option.getD_none, hkeep]
    · simp [memcopyReceive, hdone]
  | true =>
    by_cases hfits : handed * blockSize len.val < len.val
    · have hpositive : 0 < wrapInt (s.pDev.len - s.pDev.dstCount) := by
        rw [hlen, hdst]
        exact hroom.mpr hfits
      have hsize : s.rx.ch.packetSize.toInt = blockSize len.val := by
        rw [h.size, len.toInt_blockSize]
      have hdata := h.done _ hdone
      obtain ⟨haddr, hdev⟩ := @memcopyBufferAlloc_some s.pDev second 0 (blockSize len.val) hpositive
      generalize hr : memcopyBufferAlloc second s.pDev (blockSize len.val) 0 = r at haddr hdev
      obtain ⟨addr, off, next⟩ := r
      have haddr : addr = some (s.pDev.dst + s.pDev.dstCount) := haddr
      have hdev : next = { s.pDev with dstCount := wrapInt (s.pDev.dstCount + blockSize len.val) } :=
        hdev
      subst haddr hdev
      have hadd : wrapInt (s.pDev.recvCount + blockSize len.val) =
          s.pDev.recvCount + blockSize len.val := by
        have hlast := h.last
        have hbehind := h.behind
        have hlt := len.lt
        have hpos := len.blockSize_pos
        exact wrapInt_eq (by omega) (by omega)
      have hnext : wrapInt (s.pDev.dstCount + blockSize len.val) =
          wrapInt ((handed + 1 : Nat) * blockSize len.val) := by
        rw [hdst, wrapInt, wrapInt, Int.bmod_add_bmod]
        push_cast
        rw [Int.add_mul, Int.one_mul]
        rfl
      have hread : (dataLength (s.rx.ch.desc s.rx.ch.currDesc)).toInt = blockSize len.val := by
        rw [hdata, len.toInt_blockSize]
      refine ⟨handed + 1, .counted ⟨BitVec.ofInt 32 (s.pDev.dst + s.pDev.dstCount), off, 0⟩ hdone
        hfits ?_ ?_ ?_⟩
      · simp only [memcopyReceive, hdone, hsize, hr, rxRead, dmaDeviceRead, if_true, Option.map_some]
      · simp only [memcopyReceive, hdone, hsize, hr, dmaDeviceRead, if_true, Option.map_some,
          Option.getD_some, RxChan.packetAt, hread, hadd, hnext]
      · simp [memcopyReceive, hdone]
    · have hnone : wrapInt (s.pDev.len - s.pDev.dstCount) ≤ 0 := by
        rw [hlen, hdst]
        omega
      obtain ⟨haddr, hdev⟩ :=
        @memcopyBufferAlloc_none s.pDev second 0 s.rx.ch.packetSize.toInt hnone
      generalize hr : memcopyBufferAlloc second s.pDev s.rx.ch.packetSize.toInt 0 = r at haddr hdev
      obtain ⟨addr, off, next⟩ := r
      have haddr : addr = none := haddr
      have hdev : next = s.pDev := hdev
      subst haddr hdev
      have hzero : (0 : Word).toInt = 0 := rfl
      refine ⟨handed, .refused hdone (by omega) ?_ ?_ ?_⟩
      · simp only [memcopyReceive, hdone, hr, rxRead, dmaDeviceRead, if_true, Option.map_none]
      · simp only [memcopyReceive, hdone, hr, dmaDeviceRead, if_true, Option.map_none,
          Option.map_some, Option.getD_some, hzero, hkeep]
      · simp [memcopyReceive, hdone]

/-- Neither the hardware's index nor what has arrived changes. -/
theorem memcopyReceive_frame : (memcopyReceive second s).rx.hw = s.rx.hw ∧
    (memcopyReceive second s).rx.arrived = s.rx.arrived := ⟨rfl, rfl⟩

theorem memcopyReceive_attached : (memcopyReceive second s).attached =
    (s.attached && decide ((memcopyReceive second s).pDev.recvCount ≠ s.pDev.len)) := rfl

theorem memcopyReceive_inv {handed' : Nat} (h : MemcopyInv len handed s)
    (hr : Received len handed s (memcopyReceive second s) handed') :
    MemcopyInv len handed' (memcopyReceive second s) := by
  have hattached := @memcopyReceive_attached s second
  have hstays (hbehind : (memcopyReceive second s).pDev.recvCount +
      blockSize len.val ≤ handed' * blockSize len.val)
      (hlast : handed' * blockSize len.val < len.val + blockSize len.val) :
      (memcopyReceive second s).attached = true := by
    rw [hattached, h.attached, h.len_eq, Bool.true_and, decide_eq_true_eq]
    omega
  generalize memcopyReceive second s = t at hr hstays
  cases hr with
  | idle hdone hch hdev htaken =>
    have hbehind : t.pDev.recvCount + blockSize len.val ≤ handed * blockSize len.val := by
      rw [hdev]
      exact h.behind
    exact h.kept hdev (congrArg RxChan.packetSize hch) (congrArg RxChan.desc hch)
      (hstays hbehind h.last)
  | refused hdone hfull hch hdev htaken =>
    have hbehind : t.pDev.recvCount + blockSize len.val ≤ handed * blockSize len.val := by
      rw [hdev]
      exact h.behind
    have hsize : t.rx.ch.packetSize = s.rx.ch.packetSize := by
      rw [hch]
      rfl
    have hdesc : t.rx.ch.desc = s.rx.ch.desc := by
      rw [hch]
      rfl
    exact h.kept hdev hsize hdesc (hstays hbehind h.last)
  | counted b hdone hroom hch hdev htaken =>
    have hpos := len.blockSize_pos
    have hbehind0 := h.behind
    have hnonneg := h.nonneg
    have hmul : ((handed + 1 : Nat) : Int) * blockSize len.val =
        handed * blockSize len.val + blockSize len.val := by
      push_cast
      ring
    have hcount : t.pDev.recvCount = s.pDev.recvCount + blockSize len.val := by rw [hdev]
    have hbehind : t.pDev.recvCount + blockSize len.val ≤
        (handed + 1 : Nat) * blockSize len.val := by omega
    have hlast : (handed + 1 : Nat) * blockSize len.val < len.val + blockSize len.val := by omega
    refine ⟨?_, hstays hbehind hlast, ?_, hlast, ?_, hbehind, by omega, ?_⟩
    · rw [hdev]
      exact h.len_eq
    · rw [hdev]
    · rw [hch]
      exact h.size
    · rw [hch]
      intro i hi
      have hi : (Function.update s.rx.ch.desc s.rx.ch.currDesc (rxDesc s.rx.ch.packetSize b)
        i).done = true := hi
      show dataLength (Function.update s.rx.ch.desc s.rx.ch.currDesc
        (rxDesc s.rx.ch.packetSize b) i) = _
      by_cases hcurr : i = s.rx.ch.currDesc
      · rw [hcurr, Function.update_self] at hi
        simp [DmaDesc.done, rxDesc_dmaOwn] at hi
      · rw [Function.update_of_ne hcurr] at hi ⊢
        exact h.done i hi

end Inv

section Arrival

variable {len : CopyLen} {handed : Nat} {s t : MemcopySys} {second : Bool}

/-- The descriptor of a block that has arrived. -/
def arrivedDesc (status : Word) (d : DmaDesc) : DmaDesc :=
  { d with status := (status &&& 0x7fffffff#32) ||| 0x40000000#32 }

theorem dataLength_arrivedDesc (len : CopyLen) (d : DmaDesc) :
    dataLength (arrivedDesc (BitVec.ofInt 32 (blockSize len.val)) d) =
      BitVec.ofInt 32 (blockSize len.val) := by
  have hpos := len.blockSize_pos
  have hlt := len.blockSize_lt
  have hmask : (0x7fffffff#32 &&& 0xffff#32).toNat = 2 ^ 16 - 1 := rfl
  have hflag : 0x40000000#32 &&& 0xffff#32 = 0#32 := rfl
  have hnat : (BitVec.ofInt 32 (blockSize len.val)).toNat < 2 ^ 16 := by
    rw [BitVec.toNat_ofInt]
    omega
  show ((BitVec.ofInt 32 (blockSize len.val) &&& 0x7fffffff#32) ||| 0x40000000#32) &&& 0xffff#32 = _
  rw [BitVec.and_or_distrib_right, hflag, BitVec.or_zero, BitVec.and_assoc]
  apply BitVec.eq_of_toNat_eq
  rw [BitVec.toNat_and, hmask, Nat.and_two_pow_sub_one_eq_mod, Nat.mod_eq_of_lt hnat]

theorem rxArrive_eq {rx : RxSys} {status : Word} (hown : (rx.ch.desc rx.hw).dmaOwn = true) :
    ∃ u, rxArrive rx status = some u ∧
      u.ch = { rx.ch with
        desc := Function.update rx.ch.desc rx.hw (arrivedDesc status (rx.ch.desc rx.hw)) } ∧
      u.hw = (rx.hw + 1) % rx.ch.descLen ∧ u.arrived.length = rx.arrived.length + 1 := by
  refine ⟨_, if_pos hown, rfl, rfl, ?_⟩
  rw [List.length_append, List.length_singleton]

theorem memcopyStep_arrive_inv (h : MemcopyInv len handed s)
    (hs : memcopyStep second s .arrive = some t) : MemcopyInv len handed t := by
  obtain ⟨rx, hrx, rfl⟩ := Option.map_eq_some_iff.mp hs
  have hown : (s.rx.ch.desc s.rx.hw).dmaOwn = true := by
    by_contra hown
    simp [rxArrive, hown] at hrx
  obtain ⟨u, hu, hch, -, -⟩ :=
    @rxArrive_eq s.rx (BitVec.ofInt 32 (blockSize s.pDev.len)) hown
  cases Option.some.inj (hu.symm.trans hrx)
  refine ⟨h.len_eq, h.attached, h.dstCount, h.last, ?_, h.behind, h.nonneg, ?_⟩
  · rw [hch]
    exact h.size
  · rw [hch, h.len_eq]
    intro i hi
    dsimp only at hi ⊢
    by_cases hhw : i = s.rx.hw
    · rw [hhw, Function.update_self]
      exact dataLength_arrivedDesc len _
    · rw [Function.update_of_ne hhw] at hi ⊢
      exact h.done i hi

theorem memcopyStep_inv {e : CopyEvent} (h : ∃ handed, MemcopyInv len handed s)
    (hs : memcopyStep second s e = some t) : ∃ handed, MemcopyInv len handed t := by
  obtain ⟨handed, h⟩ := h
  cases e with
  | arrive => exact ⟨handed, memcopyStep_arrive_inv h hs⟩
  | receive =>
    have hrun : memcopyStep second s .receive = some (memcopyReceive second s) := if_pos h.attached
    cases Option.some.inj (hrun.symm.trans hs)
    obtain ⟨handed', hr⟩ := @memcopyReceive_received len handed s second h
    exact ⟨handed', memcopyReceive_inv h hr⟩

end Arrival

section Registration

variable {len : CopyLen} {second : Bool} {offset : Word} {dst src : Int}

/-- Requests give out one buffer each until the length is reached. -/
theorem deviceAfter_eq (n : Nat) : ∃ handed ≤ n,
    (handed = n ∨ len.val ≤ handed * blockSize len.val) ∧
      handed * blockSize len.val < len.val + blockSize len.val ∧
      deviceAfter second offset (memcopyStart dst src len.val) n =
        { memcopyStart dst src len.val with
          dstCount := wrapInt (handed * blockSize len.val) } := by
  have hpos := len.blockSize_pos
  have hlen := len.pos
  induction n with
  | zero =>
    refine ⟨0, le_refl 0, Or.inl rfl, by omega, ?_⟩
    have hzero : wrapInt (((0 : Nat) : Int) * blockSize len.val) = 0 := by
      rw [Nat.cast_zero, Int.zero_mul]
      exact wrapInt_eq (by omega) (by omega)
    rw [hzero]
    rfl
  | succ n ih =>
    obtain ⟨handed, hle, hall, hlast, hdev⟩ := ih
    have hroom := @room_iff len handed hlast
    rw [deviceAfter, hdev]
    by_cases hfits : handed * blockSize len.val < len.val
    · have hn : handed = n := by
        rcases hall with hn | hfull
        · exact hn
        · omega
      have hmul : ((handed + 1 : Nat) : Int) * blockSize len.val =
          handed * blockSize len.val + blockSize len.val := by
        push_cast
        ring
      obtain ⟨-, hnext⟩ := @memcopyBufferAlloc_some { memcopyStart dst src len.val with
        dstCount := wrapInt (handed * blockSize len.val) } second offset (blockSize len.val)
        (hroom.mpr hfits)
      refine ⟨handed + 1, by omega, Or.inl (by omega), by omega, hnext.trans ?_⟩
      dsimp only
      rw [hmul, wrapInt, wrapInt, wrapInt, Int.bmod_add_bmod]
    · obtain ⟨-, hnext⟩ := @memcopyBufferAlloc_none { memcopyStart dst src len.val with
        dstCount := wrapInt (handed * blockSize len.val) } second offset (blockSize len.val)
        (by
          show wrapInt (len.val - wrapInt (handed * blockSize len.val)) ≤ 0
          omega)
      exact ⟨handed, by omega, Or.inr (by omega), hlast, hnext⟩

theorem registerAlloc_isSome {j : Nat} (h : j * blockSize len.val < len.val) :
    (registerAlloc second offset (memcopyStart dst src len.val) j).isSome := by
  have hpos := len.blockSize_pos
  obtain ⟨handed, hle, hall, hlast, hdev⟩ := @deviceAfter_eq len second offset dst src j
  have hhanded : (handed : Int) * blockSize len.val ≤ j * blockSize len.val :=
    Int.mul_le_mul_of_nonneg_right (by omega) (le_of_lt hpos)
  have hroom := (@room_iff len handed hlast).mpr (by omega)
  obtain ⟨haddr, -⟩ := @memcopyBufferAlloc_some { memcopyStart dst src len.val with
    dstCount := wrapInt (handed * blockSize len.val) } second offset (blockSize len.val) hroom
  unfold registerAlloc
  dsimp only
  rw [Option.isSome_map]
  show (memcopyBufferAlloc second _ (blockSize len.val) offset).1.isSome
  rw [hdev, haddr]
  rfl

/-- A pass of the registration loop fills at most its own descriptor. -/
theorem rxRegister_succ {packetSize : Word} {alloc : Nat → Option RxBuffer} (n j : Nat) :
    (rxRegister packetSize alloc (n + 1)).1 j = (rxRegister packetSize alloc n).1 j ∨
      (j = n ∧ ((rxRegister packetSize alloc (n + 1)).1 j).dmaOwn = true) := by
  rcases hr : rxRegister packetSize alloc n with ⟨desc, opt, going⟩
  cases going with
  | false => exact Or.inl (by simp only [rxRegister, hr])
  | true =>
    cases ha : alloc n with
    | none => exact Or.inl (by simp only [rxRegister, hr, ha])
    | some b =>
      simp only [rxRegister, hr, ha]
      by_cases hj : j = n
      · rw [hj, Function.update_self]
        exact Or.inr ⟨rfl, rxRegisterDesc_dmaOwn packetSize b⟩
      · exact Or.inl (Function.update_of_ne hj _ _)

/-- The descriptors before the first failed allocation belong to the hardware. -/
theorem rxRegister_own {packetSize : Word} {alloc : Nat → Option RxBuffer} {n j : Nat} (hj : j < n)
    (h : ∀ i, i ≤ j → (alloc i).isSome) :
    ((rxRegister packetSize alloc n).1 j).dmaOwn = true := by
  induction n with
  | zero => omega
  | succ n ih =>
    by_cases hlast : j = n
    · subst hlast
      obtain ⟨-, hdesc⟩ := @rxRegister_spec packetSize alloc (j + 1) fun i hi => h i (by omega)
      obtain ⟨b, hb⟩ := Option.isSome_iff_exists.mp (h j (le_refl j))
      rw [(hdesc j b (by omega) hb).1]
      exact rxRegisterDesc_dmaOwn packetSize b
    · rcases @rxRegister_succ packetSize alloc n j with hkeep | ⟨hn, -⟩
      · rw [hkeep]
        exact ih (by omega)
      · exact absurd hn hlast

theorem rxRegister_not_done {packetSize : Word} {alloc : Nat → Option RxBuffer} (n j : Nat) :
    ((rxRegister packetSize alloc n).1 j).done = false := by
  induction n with
  | zero =>
    show DmaDesc.zero.done = false
    decide
  | succ n ih =>
    rcases @rxRegister_succ packetSize alloc n j with hkeep | ⟨-, hown⟩
    · rw [hkeep]
      exact ih
    · rw [DmaDesc.done, hown]
      rfl

end Registration

/-- After `j` blocks that were each received at once: the hardware owns the next descriptors, as far
as there are blocks for them. -/
structure RoundInv (len : CopyLen) (descLen j handed : Nat) (s : MemcopySys) : Prop extends
    MemcopyInv len handed s where
  taken : s.taken = j
  arrived : s.rx.arrived.length = j
  descLen_eq : s.rx.ch.descLen = descLen
  hw : s.rx.hw = j % descLen
  curr : s.rx.ch.currDesc = j % descLen
  handed_le : handed ≤ j + descLen
  all : handed = j + descLen ∨ len.val ≤ handed * blockSize len.val
  own : ∀ i, j ≤ i → i < j + descLen → i * blockSize len.val < len.val →
    (s.rx.ch.desc (i % descLen)).dmaOwn = true

section Rounds

variable {len : CopyLen} {second : Bool} {offset : Word} {dst src : Int} {descLen : Nat}

theorem register_round (hpos : 0 < descLen) : ∃ handed, RoundInv len descLen 0 handed
    (memcopyRegister second offset descLen (memcopyStart dst src len.val)) := by
  obtain ⟨handed, hle, hall, hlast, hdev⟩ := @deviceAfter_eq len second offset dst src descLen
  have hsize := len.blockSize_pos
  have hlen := len.pos
  have hone : 1 ≤ handed := by
    rcases hall with heq | hfull
    · omega
    · by_contra hzero
      have hz : handed = 0 := by omega
      rw [hz, Nat.cast_zero, Int.zero_mul] at hfull
      omega
  have hbehind : 0 + blockSize len.val ≤ handed * blockSize len.val := by
    have hmul : 1 * blockSize len.val ≤ handed * blockSize len.val :=
      Int.mul_le_mul_of_nonneg_right (by omega) (le_of_lt hsize)
    omega
  have hreg : (memcopyRegister second offset descLen (memcopyStart dst src len.val)).pDev =
      { memcopyStart dst src len.val with dstCount := wrapInt (handed * blockSize len.val) } := hdev
  refine ⟨handed, ⟨?_, rfl, ?_, hlast, rfl, ?_, ?_, ?_⟩, rfl, rfl, rfl, (Nat.zero_mod _).symm,
    (Nat.zero_mod _).symm, by omega, by omega, ?_⟩
  · rw [hreg]
    rfl
  · rw [hreg]
  · rw [hreg]
    exact hbehind
  · rw [hreg]
    exact le_refl 0
  · intro i hi
    have hnot := @rxRegister_not_done (BitVec.ofInt 32 (blockSize len.val))
      (registerAlloc second offset (memcopyStart dst src len.val)) descLen i
    exact absurd (hi.symm.trans hnot) (by simp)
  · intro i _ hi hfits
    rw [Nat.mod_eq_of_lt (by omega)]
    refine rxRegister_own (by omega) fun k hk => registerAlloc_isSome ?_
    have hmul : (k : Int) * blockSize len.val ≤ i * blockSize len.val :=
      Int.mul_le_mul_of_nonneg_right (by omega) (le_of_lt hsize)
    omega

/-- The next block arrives and is received. -/
theorem RoundInv.next {j handed : Nat} {s : MemcopySys} (hpos : 0 < descLen)
    (h : RoundInv len descLen j handed s) (hmore : j * blockSize len.val < len.val) :
    ∃ t handed', run (memcopyStep second) s [.arrive, .receive] = some t ∧
      RoundInv len descLen (j + 1) handed' t := by
  have hown : (s.rx.ch.desc s.rx.hw).dmaOwn = true := by
    rw [h.hw]
    exact h.own j (le_refl j) (by omega) hmore
  obtain ⟨rx, hrx, hch, hhw, harrived⟩ :=
    @rxArrive_eq s.rx (BitVec.ofInt 32 (blockSize s.pDev.len)) hown
  have harrive : memcopyStep second s .arrive = some { s with rx := rx } := by
    rw [memcopyStep, hrx, Option.map_some]
  have hinv := memcopyStep_arrive_inv h.toMemcopyInv harrive
  have hdone : (rx.ch.desc rx.ch.currDesc).done = true := by
    rw [hch]
    show (Function.update s.rx.ch.desc s.rx.hw _ s.rx.ch.currDesc).done = true
    rw [h.curr, h.hw, Function.update_self]
    exact completed_status _ _
  -- the slots of the later blocks are not the one of this block
  have hlater : ∀ i, j + 1 ≤ i → i < j + descLen → i * blockSize len.val < len.val →
      (rx.ch.desc (i % descLen)).dmaOwn = true := by
    intro i hi hi' hfits
    rw [hch]
    show (Function.update s.rx.ch.desc s.rx.hw _ (i % descLen)).dmaOwn = true
    have hne : i % descLen ≠ j % descLen :=
      ringPos_ne (p := j) (by omega) hi' (le_refl j) (by omega) (by omega)
    rw [h.hw, Function.update_of_ne hne]
    exact h.own i (by omega) hi' hfits
  have hreceive : memcopyStep second { s with rx := rx } .receive =
      some (memcopyReceive second { s with rx := rx }) := if_pos h.attached
  obtain ⟨handed', hreceived⟩ := @memcopyReceive_received len handed { s with rx := rx } second hinv
  have hinv' := memcopyReceive_inv hinv hreceived
  have hframe := @memcopyReceive_frame { s with rx := rx } second
  have hrun : run (memcopyStep second) s [.arrive, .receive] =
      some (memcopyReceive second { s with rx := rx }) := by
    simp [run, List.foldlM_cons, harrive, hreceive]
  refine ⟨_, handed', hrun, ?_⟩
  generalize memcopyReceive second { s with rx := rx } = t at hreceived hinv' hframe
  have hsize := len.blockSize_pos
  have hle := h.handed_le
  have hdescLen : rx.ch.descLen = descLen := by
    rw [hch]
    exact h.descLen_eq
  have hcurr : rx.ch.currDesc = j % descLen := by
    rw [hch]
    exact h.curr
  have hadvance : (if rx.ch.currDesc + 1 = rx.ch.descLen then 0 else rx.ch.currDesc + 1) =
      (j + 1) % descLen := by
    rw [hdescLen, hcurr]
    exact ringNext_end hpos j
  have hhw' : t.rx.hw = (j + 1) % descLen := by
    rw [hframe.1, hhw, h.hw, h.descLen_eq, Nat.mod_add_mod]
  have harrived' : t.rx.arrived.length = j + 1 := by
    rw [hframe.2, harrived, h.arrived]
  cases hreceived with
  | idle hidle hch' hdev htaken => exact absurd (hidle.symm.trans hdone) (by simp)
  | refused hdone' hfull hch' hdev htaken =>
    refine ⟨hinv', by rw [htaken, h.taken], harrived', ?_, hhw', ?_, by omega, Or.inr hfull, ?_⟩
    · rw [hch']
      exact hdescLen
    · rw [hch']
      exact hadvance
    · intro i hi hi' hfits
      rw [hch']
      have hnot : i ≠ j + descLen := by
        intro heq
        have hmul : (handed : Int) * blockSize len.val ≤ i * blockSize len.val :=
          Int.mul_le_mul_of_nonneg_right (by omega) (le_of_lt hsize)
        omega
      exact hlater i hi (by omega) hfits
  | counted b hdone' hroom hch' hdev htaken =>
    have hall : handed = j + descLen := by
      rcases h.all with heq | hfull
      · exact heq
      · omega
    refine ⟨hinv', by rw [htaken, h.taken], harrived', ?_, hhw', ?_, by omega, by omega, ?_⟩
    · rw [hch']
      exact hdescLen
    · rw [hch']
      exact hadvance
    · intro i hi hi' hfits
      rw [hch']
      show (Function.update rx.ch.desc rx.ch.currDesc _ (i % descLen)).dmaOwn = true
      rw [hcurr]
      by_cases hlast : i = j + descLen
      · rw [hlast, Nat.add_mod_right, Function.update_self]
        exact rxDesc_dmaOwn _ b
      · have hne : i % descLen ≠ j % descLen :=
          ringPos_ne (p := j) (by omega) (by omega) (le_refl j) (by omega) (by omega)
        rw [Function.update_of_ne hne]
        exact hlater i hi (by omega) hfits

theorem rounds_reach (hpos : 0 < descLen) (j : Nat)
    (hmore : ∀ i : Nat, i < j → i * blockSize len.val < len.val) :
    ∃ es t handed, run (memcopyStep second)
      (memcopyRegister second offset descLen (memcopyStart dst src len.val)) es = some t ∧
      RoundInv len descLen j handed t := by
  induction j with
  | zero =>
    obtain ⟨handed, hinv⟩ := @register_round len second offset dst src descLen hpos
    exact ⟨[], _, handed, rfl, hinv⟩
  | succ j ih =>
    obtain ⟨es, s, handed, hrun, hinv⟩ := ih fun i hi => hmore i (by omega)
    have hround := @RoundInv.next len second descLen j handed s hpos hinv (hmore j (by omega))
    obtain ⟨t, handed', hnext, hinv'⟩ := hround
    refine ⟨es ++ [.arrive, .receive], t, handed', ?_, hinv'⟩
    rw [run_append, hrun]
    exact hnext

end Rounds

section Count

variable {len : CopyLen} {second : Bool} {offset : Word} {dst src : Int}

/-- In no run does the count reach the length. -/
theorem recvCount_never {descLen : Nat} {es : List CopyEvent} {s : MemcopySys} (hpos : 0 < descLen)
    (h : run (memcopyStep second) (memcopyRegister second offset descLen
      (memcopyStart dst src len.val)) es = some s) : s.pDev.recvCount < len.val := by
  obtain ⟨handed, hinit⟩ := @register_round len second offset dst src descLen hpos
  have hkeep : ∃ handed, MemcopyInv len handed s :=
    @run_invariant _ _ _ (fun s => ∃ handed, MemcopyInv len handed s) memcopyStep_inv _ _ _
      ⟨handed, hinit.toMemcopyInv⟩ h
  obtain ⟨handed', hinv⟩ := hkeep
  exact hinv.recvCount_lt

/-- Some number of blocks reaches the length. -/
theorem exists_enough (len : CopyLen) : ∃ k : Nat, len.val ≤ k * blockSize len.val := by
  have hsize := len.blockSize_pos
  have hlen := len.pos
  refine ⟨len.val.toNat, ?_⟩
  have hmul : (len.val.toNat : Int) * 1 ≤ len.val.toNat * blockSize len.val :=
    Int.mul_le_mul_of_nonneg_left (by omega) (Int.natCast_nonneg _)
  omega

theorem not_receiveCounts : ¬ReceiveCounts second offset dst src len := by
  intro h
  have hpos : 0 < danubeDmaDescriptorOffset := by decide
  classical
  have hfind := Nat.find_spec (exists_enough len)
  obtain ⟨es, t, handed, hrun, hinv⟩ := @rounds_reach len second offset dst src _ hpos
    (Nat.find (exists_enough len)) fun i hi => Int.not_le.mp (Nat.find_min (exists_enough len) hi)
  have hcount := (h es t hrun (by rw [hinv.taken, hinv.arrived])).mpr (by
    rw [hinv.arrived]
    exact hfind)
  have hlt := recvCount_never hpos hrun
  omega

end Count

/-- The blocks and the buffers are exact just for lengths that are a number of blocks, the count
never is, and the ioctl stays inside its pages just for lengths of at most one page. -/
theorem memcopy_exact_iff (dst src gSrc gDst : Int) (len : CopyLen) (req : MemcopyReq) (second : Bool)
    (offset : Word) :
    (TransmitsExactly dst src len ↔ blockSize len.val ∣ len.val) ∧
      (ReceivesInside second dst src len ↔ blockSize len.val ∣ len.val) ∧
      ¬ReceiveCounts second offset dst src len ∧
      (IoctlInside second gSrc gDst req ↔ req.len.toInt ≤ 4096) :=
  ⟨transmitsExactly_iff, receivesInside_iff second, not_receiveCounts, ioctlInside_iff⟩

/-- One byte more than a full block is sent as two full blocks. -/
theorem memcopy_overruns :
    ¬TransmitsExactly 0 0 ⟨65536, by decide, by decide⟩ ∧
      ¬ReceivesInside false 0 0 ⟨65536, by decide, by decide⟩ ∧
      ¬IoctlInside false 0 0 ⟨0#32, 0#32, 65536#32⟩ := by
  refine ⟨?_, ?_, ?_⟩
  · rw [transmitsExactly_iff]
    decide
  · rw [receivesInside_iff]
    decide
  · rw [ioctlInside_iff]
    decide

end DanubeBsp
