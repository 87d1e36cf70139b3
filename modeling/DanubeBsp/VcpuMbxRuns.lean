import DanubeBsp.VcpuMbx

namespace DanubeBsp

/-- The places of a pointer: it starts 31 bytes above the base and steps down by words until it is
below the base. -/
def OnGrid (base p : Nat) : Prop := ∃ k, k ≤ 8 ∧ p + 4 * k = base + 31

theorem OnGrid.top (base : Nat) : OnGrid base (base + 31) := ⟨0, by omega, by omega⟩

theorem OnGrid.next {base p : Nat} (h : OnGrid base p) (hpos : 0 < base) :
    OnGrid base (if p > base then p - 4 else base + 31) := by
  obtain ⟨k, hk, hp⟩ := h
  split
  next hgt => exact ⟨k + 1, by omega, by omega⟩
  next hle => exact OnGrid.top base

theorem OnGrid.not_fifoWord {base p : Nat} (h : OnGrid base p) (hbase : 4 ∣ base) :
    ¬ FifoWord base p := by
  obtain ⟨k, _, hp⟩ := h
  rintro ⟨hdvd, -⟩
  omega

/-- A pair of pointers over the FIFO at `base`. -/
structure GridParam (base : Nat) (mbx : MailboxParam) : Prop where
  start : mbx.pStart = base + 31
  stop : mbx.pEnd = base
  write : OnGrid base mbx.pWrite
  read : OnGrid base mbx.pRead

theorem GridParam.updWritePtr {base : Nat} {mbx : MailboxParam} (h : GridParam base mbx)
    (hpos : 0 < base) : GridParam base (mbxUpdWritePtr mbx) := by
  have hnext := h.write.next hpos
  rw [← h.start, ← h.stop] at hnext
  unfold mbxUpdWritePtr
  split
  next hgt =>
    rw [if_pos hgt, h.stop] at hnext
    exact ⟨h.start, h.stop, hnext, h.read⟩
  next hle =>
    rw [if_neg hle, h.stop] at hnext
    exact ⟨h.start, h.stop, hnext, h.read⟩

theorem GridParam.updReadPtr {base : Nat} {mbx : MailboxParam} (h : GridParam base mbx)
    (hpos : 0 < base) : GridParam base (mbxUpdReadPtr mbx) := by
  have hnext := h.read.next hpos
  rw [← h.start, ← h.stop] at hnext
  unfold mbxUpdReadPtr
  split
  next hgt =>
    rw [if_pos hgt, h.stop] at hnext
    exact ⟨h.start, h.stop, h.write, hnext⟩
  next hle =>
    rw [if_neg hle, h.stop] at hnext
    exact ⟨h.start, h.stop, h.write, hnext⟩

theorem GridParam.writeWords {base : Nat} {mbx : MailboxParam} (h : GridParam base mbx)
    (hpos : 0 < base) (mem : MbxMem) (ws : List Word) :
    GridParam base (mbxWriteWords mbx mem ws).1 := by
  induction ws generalizing mbx mem with
  | nil => exact h
  | cons w ws ih => exact ih (h.updWritePtr hpos) (mem.store mbx.pWrite w)

theorem GridParam.readWords {base : Nat} {mbx : MailboxParam} (h : GridParam base mbx)
    (hpos : 0 < base) (mem : MbxMem) (n : Nat) : GridParam base (mbxReadWords mbx mem n).2.1 := by
  induction n generalizing mbx mem with
  | zero => exact h
  | succ n ih => exact ih (h.updReadPtr hpos) (mem.load mbx.pRead).2

theorem GridParam.readUpstrmMsg {base : Nat} {mbx : MailboxParam} (h : GridParam base mbx)
    (hpos : 0 < base) (mem : MbxMem) : GridParam base (mbxReadUpstrmMsg mbx mem).2.1 := by
  unfold mbxReadUpstrmMsg
  dsimp only [mbxReadWord]
  split
  next => exact h.updReadPtr hpos
  next => exact (h.updReadPtr hpos).readWords hpos _ _

/-- Writing moves the write pointer only. -/
theorem mbxWriteWords_kept (mbx : MailboxParam) (mem : MbxMem) (ws : List Word) :
    (mbxWriteWords mbx mem ws).1.pRead = mbx.pRead ∧
      (mbxWriteWords mbx mem ws).1.fifoSize = mbx.fifoSize := by
  induction ws generalizing mbx mem with
  | nil => exact ⟨rfl, rfl⟩
  | cons w ws ih =>
    have hupd : (mbxUpdWritePtr mbx).pRead = mbx.pRead ∧
        (mbxUpdWritePtr mbx).fifoSize = mbx.fifoSize := by
      unfold mbxUpdWritePtr
      split
      · exact ⟨rfl, rfl⟩
      · exact ⟨rfl, rfl⟩
    have htail := ih (mbxUpdWritePtr mbx) (mem.store mbx.pWrite w)
    exact ⟨htail.1.trans hupd.1, htail.2.trans hupd.2⟩

/-- The words that `n` stores of the driver go to. -/
def writeAddrs (mbx : MailboxParam) : Nat → List Nat
  | 0 => []
  | n + 1 => mbx.pWrite :: writeAddrs (mbxUpdWritePtr mbx) n

theorem mbxWriteWords_touched (mbx : MailboxParam) (mem : MbxMem) (ws : List Word) :
    (mbxWriteWords mbx mem ws).2.touched = mem.touched ++ writeAddrs mbx ws.length := by
  induction ws generalizing mbx mem with
  | nil => simp [mbxWriteWords, writeAddrs]
  | cons w ws ih =>
    have htail := ih (mbxUpdWritePtr mbx) (mem.store mbx.pWrite w)
    simpa [mbxWriteWords, mbxWriteWord, writeAddrs, MbxMem.store] using htail

theorem mbxReadWords_touched (mbx : MailboxParam) (mem : MbxMem) (n : Nat) :
    mem.touched <+: (mbxReadWords mbx mem n).2.2.touched := by
  induction n generalizing mbx mem with
  | zero => exact List.prefix_rfl
  | succ n ih =>
    exact (List.prefix_append mem.touched [mbx.pRead]).trans
      (ih (mbxUpdReadPtr mbx) (mem.load mbx.pRead).2)

theorem pRead_mem_readUpstrmMsg (mbx : MailboxParam) (bytes : Nat → Byte) :
    mbx.pRead ∈ (mbxReadUpstrmMsg mbx ⟨bytes, []⟩).2.2.touched := by
  have hmem : mbx.pRead ∈ (mbxReadWord mbx ⟨bytes, []⟩).2.2.touched := List.mem_singleton_self _
  unfold mbxReadUpstrmMsg
  dsimp only
  split
  next => exact hmem
  next => exact (mbxReadWords_touched _ _ _).subset hmem

/-- With the read pointer at the top, every request of three words is granted: the words behind the
write pointer are taken from a number of bytes. -/
theorem mbxFifoMemReq_granted {base : Nat} {mbx : MailboxParam} (hread : mbx.pRead = base + 31)
    (hwrite : OnGrid base mbx.pWrite) (hsize : mbx.fifoSize = 128) {req : Word} (hreq : req ≤ 3) :
    mbxFifoMemReq mbx req = true := by
  obtain ⟨k, hk, hp⟩ := hwrite
  have hdiff : (((mbx.pRead : Int) - mbx.pWrite) / 4) = k := by omega
  have htable : ∀ j, j ≤ 8 →
      (3 : Word) ≤ ((128 - (BitVec.ofInt 32 (j : Nat) &&& (128 - 1)) : Word).setWidth 8).signExtend 32 := by
    decide
  have hle := BitVec.le_trans hreq (htable k hk)
  simpa [mbxFifoMemReq, mbxFifoMemAvailable, hdiff, hsize] using hle

/-- The device as the driver's own calls leave it. -/
structure DevInv (i : Fin 4) (dev : MpsMbDev) : Prop where
  devId : dev.devId = .voice i
  up : GridParam mbxUpstrmDataFifoBase dev.upstrmFifo
  down : GridParam mbxDnstrmDataFifoBase dev.dwstrmFifo
  read : dev.dwstrmFifo.pRead = mbxDnstrmDataFifoBase + 31
  size : dev.dwstrmFifo.fifoSize = 128

theorem upstrmBase_pos : 0 < mbxUpstrmDataFifoBase := by decide

theorem dnstrmBase_pos : 0 < mbxDnstrmDataFifoBase := by decide

theorem mbxRequired_data (i : Fin 4) (nDataBytes : Word) :
    mbxRequired (dwnstrDataHeader (.voice i) nDataBytes) = if nDataBytes > 1 then 3 else 2 := by
  have htable : ∀ j : Fin 4, mbxRequired (mbxMsgHd 0 (VcpuDevType.voice j).code (1 + 2)) = 3 ∧
      mbxRequired (mbxMsgHd 0 (VcpuDevType.voice j).code (0 + 2)) = 2 := by decide
  unfold dwnstrDataHeader
  split
  next => exact (htable i).1
  next => exact (htable i).2

theorem mbxRequestRetries_granted {mbx : MailboxParam} {req : Word}
    (h : mbxFifoMemReq mbx req = true) :
    mbxRequestRetries mbx req 0 vcpuMaxFifoWriteRetries = 0 := by
  simp [vcpuMaxFifoWriteRetries, mbxRequestRetries, h]

theorem mbxWriteDwnstr_granted {dev : MpsMbDev} (mem : MbxMem) {pData : List Word}
    (h : mbxFifoMemReq dev.dwstrmFifo (BitVec.ofNat 32 (mbxRequired (pData.getD 0 0))) = true) :
    mbxWriteDwnstr dev mem pData =
      (0, { dev with dwstrmFifo :=
          (mbxWriteWords dev.dwstrmFifo mem (pData.take (mbxRequired (pData.getD 0 0)))).1 },
        (mbxWriteWords dev.dwstrmFifo mem (pData.take (mbxRequired (pData.getD 0 0)))).2) := by
  have hgrant := mbxRequestRetries_granted h
  unfold mbxWriteDwnstr
  dsimp only
  rw [hgrant, if_pos (by decide)]

theorem dwnstrDataMsg_take (i : Fin 4) (pData nDataBytes : Word) :
    (dwnstrDataMsg (.voice i) pData nDataBytes).take
        (mbxRequired (dwnstrDataHeader (.voice i) nDataBytes)) =
      dwnstrDataHeader (.voice i) nDataBytes ::
        (pData :: nDataBytes :: List.replicate 28 0).take (if nDataBytes > 1 then 2 else 1) := by
  rw [mbxRequired_data]
  split <;> rfl

/-- A data message is always accepted. -/
theorem mbxWriteDwnstrData_eq {i : Fin 4} {dev : MpsMbDev} (h : DevInv i dev) (mem : MbxMem)
    (pData nDataBytes : Word) :
    ∃ w ws, ws.length = (if nDataBytes > 1 then 2 else 1) ∧
      mbxWriteDwnstrData dev mem pData nDataBytes =
        (0, { dev with dwstrmFifo := (mbxWriteWords dev.dwstrmFifo mem (w :: ws)).1 },
          (mbxWriteWords dev.dwstrmFifo mem (w :: ws)).2) := by
  have hle : BitVec.ofNat 32 (mbxRequired (dwnstrDataHeader (.voice i) nDataBytes)) ≤ 3 := by
    rw [mbxRequired_data]
    split <;> decide
  have hreq := mbxFifoMemReq_granted h.read h.down.write h.size hle
  refine ⟨dwnstrDataHeader (.voice i) nDataBytes,
    (pData :: nDataBytes :: List.replicate 28 0).take (if nDataBytes > 1 then 2 else 1), ?_, ?_⟩
  · rw [List.length_take]
    split <;> rfl
  · have hdata : mbxWriteDwnstrData dev mem pData nDataBytes =
        mbxWriteDwnstr dev mem (dwnstrDataMsg (.voice i) pData nDataBytes) := by
      unfold mbxWriteDwnstrData
      split
      next => rw [h.devId]
      next hne => exact absurd h.devId (hne i)
    have hwrite := @mbxWriteDwnstr_granted dev mem (dwnstrDataMsg (.voice i) pData nDataBytes) hreq
    rw [hdata, hwrite, ← dwnstrDataMsg_take]
    rfl

theorem DevInv.write {i : Fin 4} {dev : MpsMbDev} (h : DevInv i dev) (mem : MbxMem)
    (pData nDataBytes : Word) : DevInv i (mbxWriteDwnstrData dev mem pData nDataBytes).2.1 := by
  obtain ⟨w, ws, -, heq⟩ := mbxWriteDwnstrData_eq h mem pData nDataBytes
  have hkept := mbxWriteWords_kept dev.dwstrmFifo mem (w :: ws)
  rw [heq]
  exact ⟨h.devId, h.up, h.down.writeWords dnstrmBase_pos mem (w :: ws), hkept.1.trans h.read,
    hkept.2.trans h.size⟩

theorem DevInv.readFifo {i : Fin 4} {dev : MpsMbDev} (h : DevInv i dev) (mem : MbxMem) :
    DevInv i (mbxReadUpstrmFifo dev mem).2.1 :=
  ⟨h.devId, h.up.readUpstrmMsg upstrmBase_pos mem, h.down, h.read, h.size⟩

def VcpuInv (s : VcpuMbx) : Prop := ∀ i, DevInv i (s.voiceMb i)

theorem VcpuInv.init (bytes : Nat → Byte) : VcpuInv (mpsInitStructures bytes) := by
  intro i
  have hup : OnGrid mbxUpstrmDataFifoBase (mbxUpstrmDataFifoBase + 31) := OnGrid.top _
  have hdown : OnGrid mbxDnstrmDataFifoBase (mbxDnstrmDataFifoBase + 31) := OnGrid.top _
  exact ⟨rfl, ⟨rfl, rfl, hup, hup⟩, ⟨rfl, rfl, hdown, hdown⟩, rfl, rfl⟩

theorem VcpuInv.update {s : VcpuMbx} {i : Fin 4} {dev : MpsMbDev} (hs : VcpuInv s)
    (hdev : DevInv i dev) (j : Fin 4) : DevInv j (Function.update s.voiceMb i dev j) := by
  by_cases hj : j = i
  · subst hj
    rw [Function.update_self]
    exact hdev
  · rw [Function.update_of_ne hj]
    exact hs j

theorem VcpuInv.step {s t : VcpuMbx} {e : VcpuEvent} (hs : VcpuInv s)
    (h : vcpuStep s e = some t) : VcpuInv t := by
  cases e with
  | writeDwnstrData i pData nDataBytes =>
    cases Option.some.inj h
    exact hs.update ((hs i).write _ pData nDataBytes)
  | readUpstrmFifo i =>
    unfold vcpuStep at h
    dsimp only at h
    split at h
    next =>
      cases Option.some.inj h
      exact hs.update ((hs i).readFifo _)
    next => cases h
  | produce msg write =>
    cases Option.some.inj h
    exact hs
  | consume read =>
    cases Option.some.inj h
    exact hs

theorem not_dwnstrWritten {s : VcpuMbx} (hs : VcpuInv s) (i : Fin 4) (pData nDataBytes : Word) :
    ¬ DwnstrWritten s i pData nDataBytes := by
  intro h
  obtain ⟨w, ws, -, heq⟩ := mbxWriteDwnstrData_eq (hs i) ⟨s.bytes, []⟩ pData nDataBytes
  have hmem : (s.voiceMb i).dwstrmFifo.pWrite ∈ (vcpuWrite s i pData nDataBytes).2.2.touched := by
    rw [vcpuWrite, heq, mbxWriteWords_touched]
    exact List.mem_cons_self
  exact (hs i).down.write.not_fifoWord (by decide) (h.inside _ hmem)

theorem not_upstrmRead {s : VcpuMbx} (hs : VcpuInv s) (i : Fin 4) : ¬ UpstrmRead s i := by
  intro h
  exact (hs i).up.read.not_fifoWord (by decide)
    (h.inside _ (pRead_mem_readUpstrmMsg (s.voiceMb i).upstrmFifo s.bytes))

/-- In every state that the driver and the voice CPU can reach, a call that touches the mailbox is
wrong. -/
theorem vcpuUntouched_iff {s : VcpuMbx} {e : VcpuEvent} (hs : VcpuInv s) :
    VcpuUntouched s e ↔ VcpuStepGood s e := by
  cases e with
  | writeDwnstrData i pData nDataBytes =>
    exact iff_of_false id (not_dwnstrWritten hs i pData nDataBytes)
  | readUpstrmFifo i =>
    constructor
    · exact fun hne heq => absurd heq hne
    · exact fun hgood heq => not_upstrmRead hs i (hgood heq)
  | produce msg write => exact Iff.rfl
  | consume read => exact Iff.rfl

theorem vcpu_mailbox_iff (bytes : Nat → Byte) (es : List VcpuEvent) :
    RunMeets vcpuStep VcpuUntouched (mpsInitStructures bytes) es ↔
      RunMeets vcpuStep VcpuStepGood (mpsInitStructures bytes) es :=
  runMeets_congr vcpuUntouched_iff (fun hs _ h => hs.step h) (VcpuInv.init bytes) es

/-- The first word of the first message is at an odd address. -/
theorem vcpu_first_write_misaligned :
    ¬ RunMeets vcpuStep VcpuStepGood (mpsInitStructures fun _ => 0)
      [.writeDwnstrData 0 0x80001000 160] := by
  intro h
  have hword := h.1.inside 0xBF101537 (by decide +kernel)
  exact absurd hword.1 (by decide)

/-- Nor do the words as the driver counts them make one queue: with its own copy of the write pointer a
second device stores its message over the one that the first has just stored. -/
theorem voice_devices_collide {s t : VcpuMbx} {i j : Fin 4} {pData nDataBytes : Word}
    (hs : VcpuInv s) (hij : i ≠ j) (hsame : (s.voiceMb i).dwstrmFifo = (s.voiceMb j).dwstrmFifo)
    (h : vcpuStep s (.writeDwnstrData i pData nDataBytes) = some t) (pData' nDataBytes' : Word) :
    ∃ a ∈ (vcpuWrite t j pData' nDataBytes').2.2.touched, ∃ m, t.pending = s.pending ++ [m] ∧ a ∈ m := by
  have ht := hs.step h
  obtain ⟨w, ws, -, heq⟩ := mbxWriteDwnstrData_eq (hs i) ⟨s.bytes, []⟩ pData nDataBytes
  obtain ⟨w', ws', -, heq'⟩ := mbxWriteDwnstrData_eq (ht j) ⟨t.bytes, []⟩ pData' nDataBytes'
  have hdev : t.voiceMb j = s.voiceMb j := by
    cases Option.some.inj h
    exact Function.update_of_ne hij.symm _ _
  refine ⟨(s.voiceMb i).dwstrmFifo.pWrite, ?_, writeAddrs (s.voiceMb i).dwstrmFifo (ws.length + 1), ?_,
    List.mem_cons_self⟩
  · rw [vcpuWrite, heq', mbxWriteWords_touched, hdev, hsame]
    exact List.mem_cons_self
  · have hpending : t.pending = if (vcpuWrite s i pData nDataBytes).1 = 0 then
        s.pending ++ [(vcpuWrite s i pData nDataBytes).2.2.touched] else s.pending := by
      cases Option.some.inj h
      rfl
    rw [hpending, vcpuWrite, heq, if_pos rfl, mbxWriteWords_touched]
    rfl

/-- An empty FIFO of 128 bytes counts as 2^32 - 128 free words. -/
theorem mbxFifoMemReq_empty {mbx : MailboxParam} (hempty : mbx.pRead = mbx.pWrite)
    (hsize : mbx.fifoSize = 128) (req : Word) : mbxFifoMemReq mbx req ↔ req ≤ 0xffffff80 := by
  have havail : (mbxFifoMemAvailable mbx).signExtend 32 = 0xffffff80 := by
    simp [mbxFifoMemAvailable, hempty, hsize]
  simp [mbxFifoMemReq, havail]

end DanubeBsp
