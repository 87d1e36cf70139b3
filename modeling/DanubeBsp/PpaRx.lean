import DanubeBsp.DmaRx
import DanubeBsp.Eth1TxRing

namespace DanubeBsp

/-- The fields of an `sk_buff` that bound its data; `stop` is `end`. -/
structure RxSkb where
  head : Word
  data : Word
  tail : Word
  stop : Word
  len : Word
  deriving DecidableEq

structure EthDevRx where
  rxPackets : Word
  rxBytes : Word
  rxErrors : Word
  rxDropped : Word
  rxFastpathPackets : Word

/-- The transmit channels and `eth_dev`, by port. -/
structure PpaRx where
  eth1 : Eth1
  dev : Nat → EthDevRx

def PpaRx.count (s : PpaRx) (port : Nat) (f : EthDevRx → EthDevRx) : PpaRx :=
  { s with dev := Function.update s.dev port (f (s.dev port)) }

/-- `sizeof(struct flag_header)`. -/
def flagHeaderSize : Word := 8#32

def ethCrcLength : Word := 4#32

-- the fields of the second word of `struct flag_header`

def plByteoff (headerVal : Word) : Word := headerVal &&& 0x1f#32

def destChid (headerVal : Word) : Nat := ((headerVal >>> 16) &&& 7#32).toNat

def srcItf (headerVal : Word) : Nat := ((headerVal >>> 23) &&& 1#32).toNat

/-- `acc_done` without `tcp_fin`, and 2 in `dest_list`. -/
def onFastPath (headerVal : Word) : Bool := headerVal &&& 0xff280000#32 == 0x02200000#32

/-- What `dma_rx_int_handler` finds: the channel that it reads with the outcome of the allocation
there, the bounds of the `sk_buff` that comes with the packet, the second word of the packet, which
devices are running, and whether `netif_rx` drops. The data lies where `dma_buffer_alloc` has put it. -/
structure RxFrame where
  chan : RxChan
  alloc : Option RxBuffer
  id : Nat
  head : Word
  stop : Word
  headerVal : Word
  running : Nat → Bool
  netRxDrop : Bool
  inside : ∀ p, (dmaDeviceRead chan alloc).1 = some p → 0x80000000#32 ≤ p.opt →
    head ≤ p.dataptr ∧ p.dataptr ≤ stop

/-- Without a packet `skb` is still `NULL`. -/
def RxFrame.read (f : RxFrame) : RxPacket := (dmaDeviceRead f.chan f.alloc).1.getD ⟨0, 0, 0⟩

inductive RxHandoff
  | free (skb : RxSkb)
  | netifRx (skb : RxSkb) (port : Nat)
  | eth1Xmit (skb : RxSkb) (ch : Nat)
  deriving DecidableEq

/-- What a call leaves: the state, whom the buffer went to, and the indices at which it accessed
`eth1_tx_ch`. -/
structure RxDone where
  ppa : PpaRx
  handed : List RxHandoff
  channels : List Nat

/-- Cut off the flag header with its padding, and the checksum; a frame that is too short for them
gets a negative length. -/
def cutFrame (skb : RxSkb) (len headerVal : Word) : RxSkb :=
  let off := plByteoff headerVal
  let len := len - (flagHeaderSize + off + ethCrcLength)
  let data := skb.data + (flagHeaderSize + off)
  { skb with data := data, tail := data + len, len := len }

def skbPull (skb : RxSkb) (len : Word) : RxSkb :=
  if skb.len < len then skb else { skb with data := skb.data + len, len := skb.len - len }

/-- `ETH_HLEN`, which `eth_type_trans` pulls. -/
def ethHlen : Word := 14#32

def dmaRxIntHandler (s : PpaRx) (f : RxFrame) : RxDone :=
  let p := f.read
  if p.opt < 0x80000000#32 then
    ⟨s.count 0 fun d => { d with rxErrors := d.rxErrors + 1#32 }, [], []⟩
  else
    let skb : RxSkb := ⟨f.head, p.dataptr, p.dataptr, f.stop, 0#32⟩
    if skb.stop - skb.data < p.len then
      ⟨s.count 0 fun d => { d with rxErrors := d.rxErrors + 1#32 }, [.free skb], []⟩
    else
      let skb := cutFrame skb p.len f.headerVal
      if onFastPath f.headerVal then
        let s := s.count 0 fun d => { d with
          rxFastpathPackets := d.rxFastpathPackets + 1#32, rxBytes := d.rxBytes + skb.len }
        let ch := destChid f.headerVal
        ⟨{ s with eth1 := (eth1Xmit s.eth1 ⟨f.id, skb.data, skb.len⟩ ch).1 }, [.eth1Xmit skb ch],
          [ch, eth1Channel ch]⟩
      else
        let port := srcItf f.headerVal
        if f.running port then
          let s := s.count port fun d =>
            if f.netRxDrop then { d with rxDropped := d.rxDropped + 1#32 }
            else { d with rxPackets := d.rxPackets + 1#32, rxBytes := d.rxBytes + skb.len }
          ⟨s, [.netifRx (skbPull skb ethHlen) port], []⟩
        else ⟨s.count port fun d => { d with rxDropped := d.rxDropped + 1#32 }, [.free skb], []⟩

/-- The data lies inside the buffer, and the length is the size of the data. -/
structure RxSkb.InBounds (skb : RxSkb) : Prop where
  head_le : skb.head ≤ skb.data
  data_le : skb.data ≤ skb.tail
  tail_le : skb.tail ≤ skb.stop
  len_nonneg : 0 ≤ skb.len.toInt
  len_eq : skb.len = skb.tail - skb.data

def RxHandoff.Ok : RxHandoff → Prop
  | .free _ => True
  | .netifRx skb _ => skb.InBounds
  | .eth1Xmit skb _ => skb.InBounds

/-- A packet without a buffer is dropped; a buffer goes to one receiver only, in bounds, and only
channels that exist are used. -/
structure CutSafely (s : PpaRx) (f : RxFrame) : Prop where
  bounds : ∀ h ∈ (dmaRxIntHandler s f).handed, h.Ok
  channels : ∀ ch ∈ (dmaRxIntHandler s f).channels, ch < eth1TxTotalChannelUsed
  once : (dmaRxIntHandler s f).handed.length = if 0x80000000#32 ≤ f.read.opt then 1 else 0

/-- There is room for the flag header with its padding, and the checksum. -/
def RxFrame.Long (f : RxFrame) : Prop :=
  flagHeaderSize + plByteoff f.headerVal + ethCrcLength ≤ f.read.len

/-- The handler frees the buffer or has none, or the frame is long enough to be cut and on the fast
path names a channel that exists. -/
def FrameFits (f : RxFrame) : Prop :=
  f.read.opt < 0x80000000#32 ∨ f.stop - f.read.dataptr < f.read.len ∨
    (onFastPath f.headerVal = false ∧ f.running (srcItf f.headerVal) = false) ∨
    (f.Long ∧ (onFastPath f.headerVal = true → destChid f.headerVal < eth1TxTotalChannelUsed))

theorem plByteoff_le (headerVal : Word) : (plByteoff headerVal).toNat ≤ 31 := by
  unfold plByteoff
  rw [BitVec.toNat_and]
  exact Nat.and_le_right

theorem dmaDeviceRead_len_le {ch : RxChan} {alloc : Option RxBuffer} {p : RxPacket}
    (h : (dmaDeviceRead ch alloc).1 = some p) : p.len ≤ 0xffff#32 := by
  have hlen : ∀ d : DmaDesc, dataLength d ≤ 0xffff#32 := by
    intro d
    rw [BitVec.le_def, dataLength, BitVec.toNat_and]
    exact Nat.and_le_right
  unfold dmaDeviceRead at h
  split at h
  · cases alloc with
    | some b =>
      cases Option.some.inj h
      exact hlen _
    | none =>
      cases Option.some.inj h
      decide
  · cases h

theorem RxFrame.read_len_le (f : RxFrame) : f.read.len.toNat ≤ 0xffff := by
  unfold RxFrame.read
  cases hp : (dmaDeviceRead f.chan f.alloc).1 with
  | none => decide
  | some p => exact BitVec.le_def.mp (dmaDeviceRead_len_le hp)

theorem RxFrame.read_inside (f : RxFrame) (h : ¬f.read.opt < 0x80000000#32) :
    f.head ≤ f.read.dataptr ∧ f.read.dataptr ≤ f.stop := by
  unfold RxFrame.read at h ⊢
  cases hp : (dmaDeviceRead f.chan f.alloc).1 with
  | none =>
    rw [hp] at h
    exact absurd (by decide) h
  | some p =>
    rw [hp] at h
    exact f.inside p hp (BitVec.not_lt.mp h)

section

variable {head buf stop len : Word} (headerVal : Word)

theorem cutFrame_len_toNat (skb : RxSkb) (hlen : len.toNat ≤ 0xffff) :
    (cutFrame skb len headerVal).len.toNat =
      if flagHeaderSize + plByteoff headerVal + ethCrcLength ≤ len then
        len.toNat - (12 + (plByteoff headerVal).toNat)
      else 2 ^ 32 + len.toNat - (12 + (plByteoff headerVal).toNat) := by
  have hoff := plByteoff_le headerVal
  unfold cutFrame flagHeaderSize ethCrcLength
  dsimp only
  split
  · bv_omega
  · bv_omega

/-- A frame that is long enough for what is cut off stays inside its buffer. -/
theorem cutFrame_inBounds (hhead : head ≤ buf) (hstop : buf ≤ stop) (hfit : ¬stop - buf < len)
    (hlen : len.toNat ≤ 0xffff)
    (hlong : flagHeaderSize + plByteoff headerVal + ethCrcLength ≤ len) :
    (cutFrame ⟨head, buf, buf, stop, 0#32⟩ len headerVal).InBounds := by
  have hoff := plByteoff_le headerVal
  have hcut := cutFrame_len_toNat headerVal ⟨head, buf, buf, stop, 0#32⟩ hlen
  rw [if_pos hlong] at hcut
  unfold flagHeaderSize ethCrcLength at hlong
  refine ⟨?_, ?_, ?_, ?_, ?_⟩
  · unfold cutFrame flagHeaderSize
    bv_omega
  · unfold cutFrame flagHeaderSize ethCrcLength
    bv_omega
  · unfold cutFrame flagHeaderSize ethCrcLength
    bv_omega
  · rw [BitVec.toInt_pos_iff, hcut]
    omega
  · unfold cutFrame flagHeaderSize ethCrcLength
    bv_omega

theorem RxSkb.InBounds.skbPull {skb : RxSkb} (h : skb.InBounds) (n : Word) :
    (DanubeBsp.skbPull skb n).InBounds := by
  obtain ⟨hhead, hdata, htail, hnonneg, hlen⟩ := h
  unfold DanubeBsp.skbPull
  by_cases hn : skb.len < n
  · rw [if_pos hn]
    exact ⟨hhead, hdata, htail, hnonneg, hlen⟩
  · rw [if_neg hn]
    rw [BitVec.toInt_pos_iff] at hnonneg
    refine ⟨?_, ?_, htail, ?_, ?_⟩
    · dsimp only
      bv_omega
    · dsimp only
      bv_omega
    · rw [BitVec.toInt_pos_iff]
      dsimp only
      bv_omega
    · dsimp only
      bv_omega

/-- The length of a frame that is too short stays negative. -/
theorem cutFrame_not_inBounds (skb : RxSkb) (hlen : len.toNat ≤ 0xffff)
    (hshort : ¬flagHeaderSize + plByteoff headerVal + ethCrcLength ≤ len) :
    ¬(cutFrame skb len headerVal).InBounds ∧
      ¬(skbPull (cutFrame skb len headerVal) ethHlen).InBounds := by
  have hoff := plByteoff_le headerVal
  have hcut := cutFrame_len_toNat headerVal skb hlen
  rw [if_neg hshort] at hcut
  constructor
  · intro h
    have hnonneg := BitVec.toInt_pos_iff.mp h.len_nonneg
    omega
  · intro h
    have hpull : ¬(cutFrame skb len headerVal).len < ethHlen := by
      unfold ethHlen
      bv_omega
    have hnonneg := BitVec.toInt_pos_iff.mp h.len_nonneg
    unfold skbPull ethHlen at hnonneg
    rw [if_neg (by exact hpull)] at hnonneg
    dsimp only at hnonneg
    bv_omega

end

theorem eth1Channel_lt_iff (ch : Nat) :
    (∀ c ∈ [ch, eth1Channel ch], c < eth1TxTotalChannelUsed) ↔ ch < eth1TxTotalChannelUsed := by
  constructor
  · intro h
    exact h ch List.mem_cons_self
  · intro h c hc
    rcases List.mem_cons.mp hc with rfl | hc
    · exact h
    · rw [List.mem_singleton.mp hc]
      exact eth1Channel_lt h

/-- The buffer as the handler cuts it. -/
def RxFrame.cut (f : RxFrame) : RxSkb :=
  cutFrame ⟨f.head, f.read.dataptr, f.read.dataptr, f.stop, 0#32⟩ f.read.len f.headerVal

theorem dmaRxIntHandler_cases (s : PpaRx) (f : RxFrame) :
    (f.read.opt < 0x80000000#32 ∧ (dmaRxIntHandler s f).handed = [] ∧
      (dmaRxIntHandler s f).channels = []) ∨
    (¬f.read.opt < 0x80000000#32 ∧ f.stop - f.read.dataptr < f.read.len ∧
      (∃ skb, (dmaRxIntHandler s f).handed = [.free skb]) ∧
      (dmaRxIntHandler s f).channels = []) ∨
    (¬f.read.opt < 0x80000000#32 ∧ ¬f.stop - f.read.dataptr < f.read.len ∧
      onFastPath f.headerVal = true ∧
      (dmaRxIntHandler s f).handed = [.eth1Xmit f.cut (destChid f.headerVal)] ∧
      (dmaRxIntHandler s f).channels =
        [destChid f.headerVal, eth1Channel (destChid f.headerVal)]) ∨
    (¬f.read.opt < 0x80000000#32 ∧ ¬f.stop - f.read.dataptr < f.read.len ∧
      onFastPath f.headerVal = false ∧ f.running (srcItf f.headerVal) = true ∧
      (dmaRxIntHandler s f).handed = [.netifRx (skbPull f.cut ethHlen) (srcItf f.headerVal)] ∧
      (dmaRxIntHandler s f).channels = []) ∨
    (¬f.read.opt < 0x80000000#32 ∧ ¬f.stop - f.read.dataptr < f.read.len ∧
      onFastPath f.headerVal = false ∧ f.running (srcItf f.headerVal) = false ∧
      (∃ skb, (dmaRxIntHandler s f).handed = [.free skb]) ∧
      (dmaRxIntHandler s f).channels = []) := by
  unfold dmaRxIntHandler
  by_cases hptr : f.read.opt < 0x80000000#32
  · rw [if_pos hptr]
    exact Or.inl ⟨hptr, rfl, rfl⟩
  rw [if_neg hptr]
  refine Or.inr ?_
  by_cases hbig : f.stop - f.read.dataptr < f.read.len
  · rw [if_pos hbig]
    exact Or.inl ⟨hptr, hbig, ⟨_, rfl⟩, rfl⟩
  rw [if_neg hbig]
  refine Or.inr ?_
  cases hfast : onFastPath f.headerVal with
  | true => exact Or.inl ⟨hptr, hbig, rfl, rfl, rfl⟩
  | false =>
    refine Or.inr ?_
    cases hrun : f.running (srcItf f.headerVal) with
    | true => exact Or.inl ⟨hptr, hbig, rfl, rfl, by simp [hrun]; rfl, by simp [hrun]⟩
    | false => exact Or.inr ⟨hptr, hbig, rfl, rfl, by simp [hrun], by simp [hrun]⟩

theorem RxFrame.cut_inBounds_iff {f : RxFrame} (hptr : ¬f.read.opt < 0x80000000#32)
    (hfit : ¬f.stop - f.read.dataptr < f.read.len) :
    (f.cut.InBounds ↔ f.Long) ∧ ((skbPull f.cut ethHlen).InBounds ↔ f.Long) := by
  obtain ⟨hhead, hstop⟩ := f.read_inside hptr
  have hlen := f.read_len_le
  by_cases hlong : f.Long
  · have hin := cutFrame_inBounds f.headerVal hhead hstop hfit hlen hlong
    exact ⟨iff_of_true hin hlong, iff_of_true (hin.skbPull ethHlen) hlong⟩
  · obtain ⟨hcut, hpull⟩ := cutFrame_not_inBounds f.headerVal
      ⟨f.head, f.read.dataptr, f.read.dataptr, f.stop, 0#32⟩ hlen hlong
    exact ⟨iff_of_false hcut hlong, iff_of_false hpull hlong⟩

/-- A call with a single handoff is judged by that. -/
theorem cutSafely_single {s : PpaRx} {f : RxFrame} {h : RxHandoff}
    (hptr : ¬f.read.opt < 0x80000000#32) (hh : (dmaRxIntHandler s f).handed = [h]) :
    CutSafely s f ↔
      h.Ok ∧ ∀ ch ∈ (dmaRxIntHandler s f).channels, ch < eth1TxTotalChannelUsed := by
  constructor
  · intro hsafe
    exact ⟨hsafe.bounds h (by rw [hh]; exact List.mem_cons_self), hsafe.channels⟩
  · rintro ⟨hok, hch⟩
    refine ⟨?_, hch, ?_⟩
    · intro h' hh'
      rw [hh, List.mem_singleton] at hh'
      rw [hh']
      exact hok
    · rw [hh, if_pos (BitVec.not_lt.mp hptr)]
      rfl

theorem rx_frame_safe_iff (s : PpaRx) (f : RxFrame) : CutSafely s f ↔ FrameFits f := by
  rcases dmaRxIntHandler_cases s f with ⟨hptr, hh, hc⟩ | ⟨hptr, hbig, ⟨skb, hh⟩, hc⟩ |
    ⟨hptr, hbig, hfast, hh, hc⟩ | ⟨hptr, hbig, hfast, hrun, hh, hc⟩ |
    ⟨hptr, hbig, hfast, hrun, ⟨skb, hh⟩, hc⟩
  · refine iff_of_true ⟨?_, ?_, ?_⟩ (Or.inl hptr)
    · simp [hh]
    · simp [hc]
    · rw [hh, if_neg (BitVec.not_le.mpr hptr)]
      rfl
  · refine iff_of_true ((cutSafely_single hptr hh).mpr ⟨trivial, ?_⟩) (Or.inr (Or.inl hbig))
    simp [hc]
  · rw [cutSafely_single hptr hh, hc, eth1Channel_lt_iff, FrameFits]
    simp only [RxHandoff.Ok, (RxFrame.cut_inBounds_iff hptr hbig).1, hptr, hbig, hfast, false_or,
      Bool.true_eq_false, false_and, forall_const]
  · rw [cutSafely_single hptr hh, hc, FrameFits]
    simp only [RxHandoff.Ok, (RxFrame.cut_inBounds_iff hptr hbig).2, hptr, hbig, hfast, hrun,
      false_or, Bool.true_eq_false, Bool.false_eq_true, and_false, List.not_mem_nil,
      false_implies, implies_true, and_true]
  · refine iff_of_true ((cutSafely_single hptr hh).mpr ⟨trivial, ?_⟩)
      (Or.inr (Or.inr (Or.inl ⟨hfast, hrun⟩)))
    simp [hc]

/-- A completed descriptor with a buffer of 1568 bytes, and running ports. -/
def sampleFrame (len : BitVec 16) (headerVal : Word) : RxFrame where
  chan := ⟨fun _ => ⟨0x70000000#32 ||| len.zeroExtend 32, 0x00100010#32⟩, fun _ => 0x80200000#32, 8, 0,
    1568#32⟩
  alloc := some ⟨0x80300010#32, 0#32, 0x80400000#32⟩
  id := 0
  head := 0x80100000#32
  stop := 0x80100630#32
  headerVal := headerVal
  running := fun _ => true
  netRxDrop := false
  inside := by
    intro p hp _
    unfold dmaDeviceRead at hp
    split at hp
    · cases Option.some.inj hp
      change 0x80100000#32 ≤ kernelVa 0x00100010#32 ∧ kernelVa 0x00100010#32 ≤ 0x80100630#32
      decide
    · cases hp

def samplePpa : PpaRx where
  eth1 := {
    txCh := fun _ => ⟨fun _ => ⟨0, 0⟩, 0, fun _ => ⟨0, 0, 0⟩⟩
    devTxIrq := 0
    ier := 0
    dmaCh2TxNotRun := 0
    queueStopped := false
    txPackets := 0
    txBytes := 0
    txDropped := 0 }
  dev := fun _ => ⟨0, 0, 0, 0, 0⟩

/-- A frame of 8 bytes reaches the network stack with a length of -18, and one of 64 bytes that the
firmware directs to channel 5 is sent on a channel that does not exist. -/
theorem short_frame_passed_on :
    (dmaRxIntHandler samplePpa (sampleFrame 8#16 0#32)).handed =
        [.netifRx ⟨0x80100000#32, 0x80100026#32, 0x80100014#32, 0x80100630#32, 0xffffffee#32⟩ 0] ∧
      ¬CutSafely samplePpa (sampleFrame 8#16 0#32) ∧
      (dmaRxIntHandler samplePpa (sampleFrame 64#16 0x02250000#32)).channels = [5, 5] ∧
      ¬CutSafely samplePpa (sampleFrame 64#16 0x02250000#32) := by
  have hstack : (dmaRxIntHandler samplePpa (sampleFrame 8#16 0#32)).handed =
      [.netifRx ⟨0x80100000#32, 0x80100026#32, 0x80100014#32, 0x80100630#32, 0xffffffee#32⟩ 0] := by
    decide
  have hchannels : (dmaRxIntHandler samplePpa
      (sampleFrame 64#16 0x02250000#32)).channels = [5, 5] := by decide
  refine ⟨hstack, ?_, hchannels, ?_⟩
  · intro h
    have hok := h.bounds _ (by rw [hstack]; exact List.mem_cons_self)
    exact absurd hok.len_nonneg (by decide)
  · intro h
    have hlt := h.channels 5 (by rw [hchannels]; exact List.mem_cons_self)
    exact absurd hlt (by decide)

end DanubeBsp
