import DanubeBsp.Errno
import DanubeBsp.TpeFifoSpace

namespace DanubeBsp

/-- The mailboxes in the shared memory; both wifi channels use the same data mailboxes. -/
inductive TpeMbx
  | upstrmCmd
  | dwstrmCmd
  | upstrmData
  | dwstrmData
  deriving DecidableEq

inductive MpsCpuId
  | cpu0
  | cpu1

/-- Field `msg_type`: the first byte of the big-endian header. -/
def msgType (val0 : Word) : Nat := (val0 >>> 24).toNat

def mbxSize : TpeMbx → Nat
  | .upstrmCmd | .dwstrmCmd => 64
  | .upstrmData | .dwstrmData => 128

/-- The mailbox for a message type, in the direction away from the sending CPU. -/
def sendMbx (cpuId : MpsCpuId) : Nat → Option TpeMbx
  | 0x01 | 0x02 | 0x07 | 0x08 =>
    match cpuId with
    | .cpu0 => some .dwstrmData
    | .cpu1 => some .upstrmData
  | 0x03 | 0x04 | 0x05 | 0x06 | 0x09 | 0x0A =>
    match cpuId with
    | .cpu0 => some .dwstrmCmd
    | .cpu1 => some .upstrmCmd
  | _ => none

def sendBytes (pMsg : Nat → Word) : Nat := mpsMsghdrLen + msgLen (pMsg 1)

/-- The status, the mailboxes and the caller's message, in which the ready bit is set. -/
def ifxMpsdrvMbxSend (mbxs : TpeMbx → MpsFifo) (cpuId : MpsCpuId) (pMsg : Nat → Word) :
    Int × (TpeMbx → MpsFifo) × (Nat → Word) :=
  match sendMbx cpuId (msgType (pMsg 0)) with
  | none => (eNoMsg, mbxs, pMsg)
  | some mbx =>
    let msgBytes := sendBytes pMsg
    if ifxMpsdrvFifoMemRequest (mbxs mbx) (BitVec.ofNat 32 msgBytes) then
      let pMsg := Function.update pMsg 1 (pMsg 1 ||| 0x8000#32)
      let (st, fifo) :=
        ifxMpsdrvFifoWrite (mbxs mbx) (readBlock pMsg 0 ((msgBytes + 3) / 4)) msgBytes
      (if st = .ok then 0 else eNoMem, Function.update mbxs mbx fifo, pMsg)
    else (eAgain, mbxs, pMsg)

/-- The write wraps, marks the entry at the write offset, and then finds no space at the start. -/
def MarksThenFails (fifo : MpsFifo) (length : Nat) : Prop :=
  length ≤ fifo.size ∧ msgReady (fifo.mem (fifo.pwriteOff + 1)) = false ∧
    fifo.preadOff ≤ fifo.pwriteOff ∧
    fifo.size / 4 ≤ fifo.pwriteOff + (length + 3) / 4 + mpsMinMargin ∧
    (fifo.pwriteOff ≠ 0 ∧ msgReady (fifo.mem 1) = true ∨
      fifo.preadOff < (length + 3) / 4 + mpsMinMargin)

/-- The mark is already there. -/
def MarkedAtStart (fifo : MpsFifo) : Prop := fifo.pwriteOff = 0 ∧ fifo.mem 1 = 0x4000#32

theorem markWrapped_eq_self_iff (fifo : MpsFifo) : markWrapped fifo = fifo ↔ MarkedAtStart fifo := by
  constructor
  · intro h
    have hw : fifo.pwriteOff = 0 := (congrArg MpsFifo.pwriteOff h).symm
    have hm : (markWrapped fifo).mem 1 = 0x4000#32 := by
      simp [markWrapped, hw]
    exact ⟨hw, by rw [← hm, h]⟩
  · rintro ⟨hw, hm⟩
    have hmem : Function.update fifo.mem (0 + 1) 0x4000#32 = fifo.mem := by
      rw [← hm, Nat.zero_add, Function.update_eq_self]
    rw [markWrapped, hw, hmem, ← hw]

theorem markWrapped_ready_first (fifo : MpsFifo) :
    msgReady ((markWrapped fifo).mem 1) = true ↔
      fifo.pwriteOff ≠ 0 ∧ msgReady (fifo.mem 1) = true := by
  by_cases hw : fifo.pwriteOff = 0
  · simp [markWrapped, hw, msgReady]
  · have hne : 1 ≠ fifo.pwriteOff + 1 := by omega
    simp only [markWrapped, Function.update_of_ne hne, ne_eq, hw, not_false_eq_true, true_and]

/-- A failed write either does nothing or has left its mark. -/
theorem failed_write_cases (fifo : MpsFifo) (data : List Word) (length : Nat) :
    ((ifxMpsdrvFifoWrite fifo data length).1 = .error →
      (ifxMpsdrvFifoWrite fifo data length).2 = fifo) ∧ ¬ MarksThenFails fifo length ∨
    ifxMpsdrvFifoWrite fifo data length = (.error, markWrapped fifo) ∧
      MarksThenFails fifo length := by
  unfold ifxMpsdrvFifoWrite MarksThenFails
  split
  next hlong => exact .inl ⟨fun _ => rfl, fun h => absurd h.1 (by omega)⟩
  next hlen =>
    split
    next hready =>
      refine .inl ⟨fun _ => rfl, ?_⟩
      intro h
      exact absurd (hready.symm.trans h.2.1) (by decide)
    next hready =>
      have hidle := Bool.eq_false_of_not_eq_true hready
      have hfirst := markWrapped_ready_first fifo
      dsimp only
      split
      next hlt =>
        left
        refine ⟨?_, fun h => absurd h.2.2.1 (by omega)⟩
        split
        next => exact fun _ => rfl
        next => exact nofun
      next hge =>
        split
        next hend =>
          split
          next hone => exact .inr ⟨rfl, by omega, hidle, by omega, hend, .inl (hfirst.mp hone)⟩
          next hone =>
            split
            next hfull =>
              simp only [markWrapped_pwriteOff, markWrapped_preadOff] at hfull
              exact .inr ⟨rfl, by omega, hidle, by omega, hend, .inr (by omega)⟩
            next hfit =>
              simp only [markWrapped_pwriteOff, markWrapped_preadOff] at hfit
              refine .inl ⟨nofun, ?_⟩
              rintro ⟨-, -, -, -, hone' | hfull⟩
              · exact hone (hfirst.mpr hone')
              · omega
        next hroom => exact .inl ⟨nofun, fun h => absurd h.2.2.2.1 (by omega)⟩

theorem failed_write_keeps_iff (fifo : MpsFifo) (data : List Word) (length : Nat) :
    ((ifxMpsdrvFifoWrite fifo data length).1 = .error →
      (ifxMpsdrvFifoWrite fifo data length).2 = fifo) ↔
      (MarksThenFails fifo length → MarkedAtStart fifo) := by
  rcases failed_write_cases fifo data length with ⟨hkeep, hnot⟩ | ⟨heq, hmarks⟩
  · exact iff_of_true hkeep (fun h => absurd h hnot)
  · rw [heq, ← markWrapped_eq_self_iff]
    exact ⟨fun h _ => h rfl, fun h _ => h hmarks⟩

/-- A send passes the write's failure on; the earlier failures come before any change. -/
theorem failed_send_keeps_iff (mbxs : TpeMbx → MpsFifo) (cpuId : MpsCpuId) (pMsg : Nat → Word) :
    ((ifxMpsdrvMbxSend mbxs cpuId pMsg).1 ≠ 0 → (ifxMpsdrvMbxSend mbxs cpuId pMsg).2.1 = mbxs) ↔
      ∀ mbx, sendMbx cpuId (msgType (pMsg 0)) = some mbx →
        ifxMpsdrvFifoMemRequest (mbxs mbx) (BitVec.ofNat 32 (sendBytes pMsg)) = true →
        MarksThenFails (mbxs mbx) (sendBytes pMsg) → MarkedAtStart (mbxs mbx) := by
  unfold ifxMpsdrvMbxSend
  cases hmbx : sendMbx cpuId (msgType (pMsg 0)) with
  | none => simp
  | some mbx =>
    dsimp only
    split
    next hgrant =>
      have hkeep := failed_write_keeps_iff (mbxs mbx)
        (readBlock (Function.update pMsg 1 (pMsg 1 ||| 0x8000#32)) 0 ((sendBytes pMsg + 3) / 4))
        (sendBytes pMsg)
      rcases hw : ifxMpsdrvFifoWrite (mbxs mbx)
        (readBlock (Function.update pMsg 1 (pMsg 1 ||| 0x8000#32)) 0 ((sendBytes pMsg + 3) / 4))
        (sendBytes pMsg) with ⟨st, fifo⟩
      rw [hw] at hkeep
      have hst : (if st = .ok then 0 else eNoMem) ≠ 0 ↔ st = .error := by
        cases st <;> simp [eNoMem]
      dsimp only
      rw [hst, Function.update_eq_self_iff, hkeep]
      constructor
      · intro h mbx' heq _
        cases Option.some.inj heq
        exact h
      · exact fun h => h mbx rfl hgrant
    next hdenied =>
      refine iff_of_true (fun _ => rfl) ?_
      intro mbx' heq hgrant
      cases Option.some.inj heq
      exact absurd hgrant hdenied

/-- The mailboxes between the calls of both CPUs, and the message that each reader holds. -/
structure TpeDev where
  mbxs : TpeMbx → MpsFifo
  held : TpeMbx → Option Nat

inductive TpeDevCall
  | send (cpuId : MpsCpuId) (pMsg : Nat → Word)
  | write (mbx : TpeMbx) (data : List Word) (length : Nat)
  | notEmpty (mbx : TpeMbx)
  | read (mbx : TpeMbx)
  | readPtrInc (mbx : TpeMbx)

def tpeDevStep (s : TpeDev) : TpeDevCall → Option TpeDev
  | .send cpuId pMsg => some { s with mbxs := (ifxMpsdrvMbxSend s.mbxs cpuId pMsg).2.1 }
  | .write mbx data length =>
    some { s with mbxs := Function.update s.mbxs mbx (ifxMpsdrvFifoWrite (s.mbxs mbx) data length).2 }
  | .notEmpty mbx =>
    some { s with mbxs := Function.update s.mbxs mbx (ifxMpsdrvFifoNotEmpty (s.mbxs mbx)).2 }
  | .read mbx =>
    let (held, fifo) := ifxMpsdrvFifoRead (s.mbxs mbx)
    some ⟨Function.update s.mbxs mbx fifo, Function.update s.held mbx held⟩
  | .readPtrInc mbx =>
    (s.held mbx).map fun pos =>
      ⟨Function.update s.mbxs mbx
        (ifxMpsdrvFifoReadPtrInc (s.mbxs mbx) (msg4bytesAt (s.mbxs mbx) pos)),
        Function.update s.held mbx none⟩

def tpeDevInit : TpeDev :=
  ⟨fun mbx => ifxMpsdrvFifoClear ⟨fun _ => 0, 0, 0, mbxSize mbx⟩, fun _ => none⟩

/-- If the call fails, every mailbox is as before. -/
def FailedKeeps (s : TpeDev) : TpeDevCall → Prop
  | .send cpuId pMsg => (ifxMpsdrvMbxSend s.mbxs cpuId pMsg).1 ≠ 0 →
      (ifxMpsdrvMbxSend s.mbxs cpuId pMsg).2.1 = s.mbxs
  | .write mbx data length => (ifxMpsdrvFifoWrite (s.mbxs mbx) data length).1 = .error →
      (ifxMpsdrvFifoWrite (s.mbxs mbx) data length).2 = s.mbxs mbx
  | _ => True

/-- The call sets a new wrap mark for a message that does not fit at the start either. -/
def MarksInVain (s : TpeDev) : TpeDevCall → Prop
  | .send cpuId pMsg => ∃ mbx, sendMbx cpuId (msgType (pMsg 0)) = some mbx ∧
      ifxMpsdrvFifoMemRequest (s.mbxs mbx) (BitVec.ofNat 32 (sendBytes pMsg)) = true ∧
      MarksThenFails (s.mbxs mbx) (sendBytes pMsg) ∧ ¬ MarkedAtStart (s.mbxs mbx)
  | .write mbx _ length => MarksThenFails (s.mbxs mbx) length ∧ ¬ MarkedAtStart (s.mbxs mbx)
  | _ => False

theorem failedKeeps_iff (s : TpeDev) (c : TpeDevCall) : FailedKeeps s c ↔ ¬ MarksInVain s c := by
  cases c with
  | send cpuId pMsg =>
    refine (failed_send_keeps_iff s.mbxs cpuId pMsg).trans ?_
    simp only [MarksInVain, not_exists, not_and, not_not]
  | write mbx data length =>
    refine (failed_write_keeps_iff (s.mbxs mbx) data length).trans ?_
    simp only [MarksInVain, not_and, not_not]
  | notEmpty mbx => simp [FailedKeeps, MarksInVain]
  | read mbx => simp [FailedKeeps, MarksInVain]
  | readPtrInc mbx => simp [FailedKeeps, MarksInVain]

/-- Along every run, from whatever is in the mailboxes, the failed calls all leave the mailboxes as they
were exactly when no call sets a wrap mark for a message that does not fit. -/
theorem tpe_failed_calls_keep_iff (s : TpeDev) (cs : List TpeDevCall) :
    RunMeets tpeDevStep FailedKeeps s cs ↔
      RunMeets tpeDevStep (fun s c => ¬ MarksInVain s c) s cs := by
  have hpoint : FailedKeeps = fun s c => ¬ MarksInVain s c := by
    funext s c
    exact propext (failedKeeps_iff s c)
  rw [hpoint]

/-- A downstream command of 28 bytes in a FIFO of 64 bytes. -/
def longCommand : Nat → Word := fun i => if i = 0 then 0x04000000#32 else if i = 1 then 0x14#32 else 0

theorem tpe_failed_send_marks : ∃ s, tpeDevStep tpeDevInit (.send .cpu0 longCommand) = some s ∧
    (ifxMpsdrvMbxSend s.mbxs .cpu0 longCommand).1 = eNoMem ∧
    (s.mbxs .dwstrmCmd).pwriteOff = 7 ∧
    ((ifxMpsdrvMbxSend s.mbxs .cpu0 longCommand).2.1 .dwstrmCmd).pwriteOff = 0 ∧
    ¬ FailedKeeps s (.send .cpu0 longCommand) := by
  refine ⟨_, rfl, by decide +kernel, by decide +kernel, by decide +kernel, ?_⟩
  intro h
  have hkeep := h (by decide +kernel)
  have hoff := congrArg (fun mbxs : TpeMbx → MpsFifo => (mbxs .dwstrmCmd).pwriteOff) hkeep
  revert hoff
  decide +kernel

end DanubeBsp
