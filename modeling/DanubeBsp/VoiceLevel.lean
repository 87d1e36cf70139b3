import Mathlib.Data.List.Perm.Subperm
import Mathlib.Logic.Function.Basic
import DanubeBsp.Runs
import DanubeBsp.WordMemory

namespace DanubeBsp

inductive MpsBufferState
  | uninitialized
  | empty
  | low
  | ok
  | ov
  | err
  deriving DecidableEq

def mpsBufferMaxLevel : Nat := 64

def mpsDefaultProvisionSegmentsPerMsg : Nat := 12

/-- A buffer that the voice CPU was handed: a segment of a provision message, or the payload of a downstream
data message. -/
inductive CpuBuf
  | segment (buf : Word)
  | payload (buf : Word)
  deriving DecidableEq

def CpuBuf.addr : CpuBuf → Word
  | .segment buf | .payload buf => buf

def CpuBuf.provided : CpuBuf → Bool
  | .segment _ => true
  | .payload _ => false

/-- An upstream voice message: a data message carries one buffer, an address packet
(`CMD_ADDRESS_PACKET`) gives back `plength / 4 - 1` of them. -/
inductive UpMsg
  | data (chan : Nat) (buf : CpuBuf)
  | address (chan : Nat) (bufs : List CpuBuf)
  deriving DecidableEq

def UpMsg.bufs : UpMsg → List CpuBuf
  | .data _ buf => [buf]
  | .address _ bufs => bufs

/-- Where a call of `ifx_mps_bufman_buf_provide` stands. -/
inductive ProvidePc
  | segment (i : Nat)
  | message
  | send
  | testMax
  | add
  | error (j : Nat)
  | up
  deriving DecidableEq

/-- A provision under way; `onDemand` tells the ones for a reader or a writer from those of
`ifx_mps_bufman_init`. -/
structure Provide where
  pc : ProvidePc
  onDemand : Bool
  deriving DecidableEq

/-- `mps_buffer`, the `provide_buffer` semaphore, the upstream voice mailbox and the static arrays of the two
provision routines. `inside` are the provisions under way, the youngest first, since they do not sleep.
`vcpu` are the buffers in the hands of the voice CPU; `announced` (the data message at the head of the mailbox
has been notified), `provided` and `counting` (segments of messages whose `ifx_mps_bufman_inc_level` is not
over) are history. -/
structure VoiceBufs where
  bufLevel : Nat
  bufState : MpsBufferState
  provideBuffer : Nat
  memSegPtr : Nat → Word
  msgData : Nat → Word
  inside : List Provide
  mbx : List UpMsg
  vcpu : List CpuBuf
  freed : List Word
  announced : Bool
  provided : Nat
  counting : Nat

def levelInit : VoiceBufs :=
  ⟨0, .empty, 0, fun _ => 0, fun _ => 0, [], [], [], [], false, 0, 0⟩

/-- `ifx_mps_bufman_get_level`; `none` is `-1`. -/
def bufmanGetLevel (s : VoiceBufs) : Option Nat :=
  if s.bufState ≠ .err then some s.bufLevel else none

def bufmanUpdateState (threshold : Nat) (s : VoiceBufs) : VoiceBufs :=
  if s.bufState = .err then s
  else if mpsBufferMaxLevel < s.bufLevel then { s with bufState := .ov }
  else if threshold ≤ s.bufLevel ∧ s.bufLevel ≤ mpsBufferMaxLevel then { s with bufState := .ok }
  else if 0 < s.bufLevel ∧ s.bufLevel < threshold then { s with bufState := .low }
  else if s.bufLevel = 0 then { s with bufState := .empty }
  else s

def bufmanDecLevel (threshold : Nat) (s : VoiceBufs) (value : Nat) : VoiceBufs :=
  if s.bufLevel < value then s
  else bufmanUpdateState threshold { s with bufLevel := s.bufLevel - value }

/-- The next step of a provision and where it goes on, `none` where it is over. `answer` is the segment that
`malloc` returns, 0 for NULL, or 0 for a message that does not fit into the mailbox. -/
def provideStep (threshold : Nat) (s : VoiceBufs) (answer : Word) (c : Provide) :
    VoiceBufs × Option Provide :=
  match c.pc with
  | .segment i =>
    ({ s with memSegPtr := Function.update s.memSegPtr i answer },
      some { c with pc :=
        if answer = 0 then .error i
        else if i + 1 < mpsDefaultProvisionSegmentsPerMsg then .segment (i + 1)
        else .message })
  | .message => ({ s with msgData := s.memSegPtr }, some { c with pc := .send })
  | .send =>
    if answer = 0 then (s, some { c with pc := .error mpsDefaultProvisionSegmentsPerMsg })
    else
      let bufs := (List.range mpsDefaultProvisionSegmentsPerMsg).map s.msgData
      ({ s with
        vcpu := s.vcpu ++ bufs.map .segment
        provided := s.provided + bufs.length
        counting := s.counting + bufs.length }, some { c with pc := .testMax })
  -- `ifx_mps_bufman_inc_level` tests the level with interrupts on
  | .testMax =>
    if mpsBufferMaxLevel < s.bufLevel + mpsDefaultProvisionSegmentsPerMsg then
      ({ s with counting := s.counting - mpsDefaultProvisionSegmentsPerMsg }, none)
    else (s, some { c with pc := .add })
  | .add =>
    (bufmanUpdateState threshold { s with
      bufLevel := s.bufLevel + mpsDefaultProvisionSegmentsPerMsg
      counting := s.counting - mpsDefaultProvisionSegmentsPerMsg }, none)
  | .error 0 => (s, if c.onDemand then some { c with pc := .up } else none)
  | .error (j + 1) =>
    ({ s with freed := s.freed ++ [s.memSegPtr j] }, some { c with pc := .error j })
  | .up => ({ s with provideBuffer := s.provideBuffer + 1 }, none)

/-- A call of `ifx_mps_bufman_buf_provide` begins by clearing its static array. -/
def VoiceBufs.provide (s : VoiceBufs) (onDemand : Bool) : VoiceBufs :=
  { s with memSegPtr := fun _ => 0, inside := ⟨.segment 0, onDemand⟩ :: s.inside }

/-- The branch of `ifx_mps_mbx_data_upstream` for a data message; the message stays in the mailbox
until it is read. -/
def notifyData (threshold : Nat) (s : VoiceBufs) : VoiceBufs :=
  let s := bufmanDecLevel threshold s 1
  let low := match bufmanGetLevel s with
    | some level => decide (level ≤ threshold)
    | none => false
  { s with
    provideBuffer := if low && s.provideBuffer == 0 then s.provideBuffer + 1 else s.provideBuffer
    announced := true }

/-- `ifx_mps_mbx_data_upstream` from `notify_udq_again` on, with interrupts off: an address packet is taken
out and its buffers freed, a data message is notified. A channel above 3 ends the call. -/
def mbxDataUpstream (threshold : Nat) (s : VoiceBufs) : VoiceBufs :=
  match s.mbx with
  | [] => s
  | .address chan bufs :: rest =>
    if chan < 4 then { s with mbx := rest, freed := s.freed ++ bufs.map CpuBuf.addr } else s
  | .data chan _ :: _ => if chan < 4 then notifyData threshold s else s

/-- A round of `ifx_mps_bufman_init`, `down_trylock` of `provide_buffer` by a reader or a writer, the next step
of the youngest provision, the downstream message of a writer, a message of the voice CPU with buffers that it
holds, a pass of `ifx_mps_mbx_data_upstream` (by the interrupt or behind a read; between two passes interrupts
are on), and the message that a reader takes. The reader has looked for an address packet before, with
interrupts on. -/
inductive LevelEvent
  | init
  | demand
  | step (answer : Word)
  | writeData (buf : Word)
  | send (m : UpMsg)
  | upstream
  | read

def levelStep (threshold : Nat) (s : VoiceBufs) : LevelEvent → Option VoiceBufs
  | .init => some (s.provide false)
  | .demand =>
    if s.provideBuffer = 0 then some s
    else some (VoiceBufs.provide { s with provideBuffer := s.provideBuffer - 1 } true)
  | .step answer =>
    match s.inside with
    | [] => none
    | c :: below =>
      let (t, next) := provideStep threshold s answer c
      some { t with inside := next.toList ++ below }
  | .writeData buf => some { s with vcpu := s.vcpu ++ [.payload buf] }
  | .send m =>
    if m.bufs.Subperm s.vcpu then
      some { s with mbx := s.mbx ++ [m], vcpu := s.vcpu.diff m.bufs }
    else none
  | .upstream => some (mbxDataUpstream threshold s)
  | .read =>
    match s.mbx with
    | [] => none
    | _ :: rest => some { s with mbx := rest, announced := false }

def segments (bufs : List CpuBuf) : Nat := bufs.countP CpuBuf.provided

/-- The messages that the driver has not noticed yet. -/
def VoiceBufs.unnoticed (s : VoiceBufs) : List UpMsg := if s.announced then s.mbx.tail else s.mbx

/-- The segments that the voice CPU was given and that have not come back: those it holds and those in
messages that the driver has not noticed yet. -/
def outstanding (s : VoiceBufs) : Nat := segments s.vcpu + segments (s.unnoticed.flatMap UpMsg.bufs)

/-- The level is the number of segments that are out, up to those of the message being counted. -/
structure LevelExact (s : VoiceBufs) : Prop where
  level : s.bufLevel + s.counting = outstanding s
  counting : s.inside = [] → s.counting = 0
  bounded : s.bufLevel ≤ s.provided

/-- A pass of `ifx_mps_mbx_data_upstream` takes out no address packet with segments, and lowers a level above 0
for a segment that it has not counted before. -/
def UpstreamKept (s : VoiceBufs) : List UpMsg → Prop
  | [] => True
  | .address chan bufs :: _ => chan < 4 → segments bufs = 0
  | .data chan buf :: _ =>
    chan < 4 → s.announced = false ∧ buf.provided = true ∧ 0 < s.bufLevel

/-- Every segment that comes back is counted, once, and no provision is cut off by the maximum or begins inside
another one. -/
def LevelKept (s : VoiceBufs) : LevelEvent → Prop
  | .init => s.inside = []
  | .demand => s.provideBuffer ≠ 0 → s.inside = []
  | .step _ => ∀ c ∈ s.inside.head?, c.pc = .testMax →
      s.bufLevel + mpsDefaultProvisionSegmentsPerMsg ≤ mpsBufferMaxLevel
  | .upstream => UpstreamKept s s.mbx
  | .read => s.announced = true
  | .writeData _ | .send _ => True

instance (s : VoiceBufs) : (mbx : List UpMsg) → Decidable (UpstreamKept s mbx)
  | [] => .isTrue trivial
  | .address _ _ :: _ | .data _ _ :: _ => inferInstanceAs (Decidable (_ → _))

instance (s : VoiceBufs) : (e : LevelEvent) → Decidable (LevelKept s e)
  | .init => inferInstanceAs (Decidable (_ = _))
  | .demand => inferInstanceAs (Decidable (_ → _))
  | .step _ => inferInstanceAs (Decidable (∀ c ∈ s.inside.head?, _))
  | .upstream => inferInstanceAs (Decidable (UpstreamKept s s.mbx))
  | .read => inferInstanceAs (Decidable (_ = _))
  | .writeData _ | .send _ => .isTrue trivial

/-- The segments that the youngest provision has sent and not counted yet. -/
def toCount : List Provide → Nat
  | ⟨.testMax, _⟩ :: _ | ⟨.add, _⟩ :: _ => mpsDefaultProvisionSegmentsPerMsg
  | _ => 0

structure LevelInv (s : VoiceBufs) : Prop where
  inside : s.inside.length ≤ 1
  level : s.bufLevel + s.counting = outstanding s
  counting : s.counting = toCount s.inside
  bounded : outstanding s ≤ s.provided
  head : s.announced = true → ∃ chan buf rest, s.mbx = .data chan buf :: rest

theorem levelInit_inv : LevelInv levelInit :=
  ⟨Nat.zero_le _, rfl, rfl, Nat.le_refl _, fun h => absurd h Bool.false_ne_true⟩

theorem LevelInv.exact {s : VoiceBufs} (h : LevelInv s) : LevelExact s := by
  have hl := h.level
  have hb := h.bounded
  refine ⟨hl, ?_, by omega⟩
  intro hnone
  rw [h.counting, hnone]
  rfl

@[simp] theorem segments_append (as bs : List CpuBuf) :
    segments (as ++ bs) = segments as + segments bs := List.countP_append

theorem segments_provided (bufs : List Word) : segments (bufs.map .segment) = bufs.length := by
  rw [segments, List.countP_map]
  exact List.countP_eq_length.mpr fun _ _ => rfl

theorem bufmanUpdateState_eq (threshold : Nat) (s : VoiceBufs) :
    ∃ state, bufmanUpdateState threshold s = { s with bufState := state } := by
  unfold bufmanUpdateState
  by_cases h₁ : s.bufState = .err
  · exact ⟨s.bufState, if_pos h₁⟩
  · rw [if_neg h₁]
    split
    · exact ⟨_, rfl⟩
    split
    · exact ⟨_, rfl⟩
    split
    · exact ⟨_, rfl⟩
    split
    · exact ⟨_, rfl⟩
    · exact ⟨s.bufState, rfl⟩

theorem bufmanDecLevel_eq (threshold : Nat) (s : VoiceBufs) (value : Nat) (h : value ≤ s.bufLevel) :
    ∃ state, bufmanDecLevel threshold s value =
      { s with bufLevel := s.bufLevel - value, bufState := state } := by
  obtain ⟨state, hu⟩ := bufmanUpdateState_eq threshold { s with bufLevel := s.bufLevel - value }
  refine ⟨state, ?_⟩
  unfold bufmanDecLevel
  rw [if_neg (by omega), hu]

/-- A step that moves a provision on, between the message and its count, or outside both. -/
theorem LevelInv.moved {s t : VoiceBufs} (h : LevelInv s) (hinside : t.inside.length ≤ 1)
    (hlevel : t.bufLevel = s.bufLevel) (hcounting : t.counting = s.counting)
    (hcount : toCount t.inside = toCount s.inside) (hvcpu : t.vcpu = s.vcpu) (hmbx : t.mbx = s.mbx)
    (hann : t.announced = s.announced) (hprov : t.provided = s.provided) : LevelInv t := by
  have hout : outstanding t = outstanding s := by
    simp only [outstanding, VoiceBufs.unnoticed, hvcpu, hmbx, hann]
  refine ⟨hinside, ?_, ?_, ?_, ?_⟩
  · rw [hlevel, hcounting, hout]
    exact h.level
  · rw [hcounting, hcount]
    exact h.counting
  · rw [hout, hprov]
    exact h.bounded
  · rw [hann, hmbx]
    exact h.head

/-- The provision message: its segments are out, and still to be counted. -/
theorem LevelInv.sendMessage {s : VoiceBufs} (h : LevelInv s) {onDemand : Bool}
    (hc : s.inside = [⟨.send, onDemand⟩]) (bufs : List Word)
    (hlen : bufs.length = mpsDefaultProvisionSegmentsPerMsg) :
    LevelInv { s with
      vcpu := s.vcpu ++ bufs.map .segment
      provided := s.provided + bufs.length
      counting := s.counting + bufs.length
      inside := [⟨.testMax, onDemand⟩] } := by
  have hlevel := h.level
  have hcounting := h.counting
  have hbounded := h.bounded
  have hzero : s.counting = 0 := by
    rw [hcounting, hc]
    rfl
  have hout : outstanding { s with
      vcpu := s.vcpu ++ bufs.map .segment
      provided := s.provided + bufs.length
      counting := s.counting + bufs.length
      inside := [⟨.testMax, onDemand⟩] } = outstanding s + bufs.length := by
    simp only [outstanding, VoiceBufs.unnoticed, segments_append, segments_provided]
    omega
  refine ⟨Nat.le_refl _, ?_, ?_, ?_, h.head⟩
  · rw [hout]
    dsimp only
    omega
  · simp only [hzero, hlen, toCount, Nat.zero_add]
  · rw [hout]
    dsimp only
    omega

theorem LevelInv.add {s t : VoiceBufs} (h : LevelInv s) {onDemand : Bool}
    (hc : s.inside = [⟨.add, onDemand⟩])
    (hlevel : t.bufLevel = s.bufLevel + mpsDefaultProvisionSegmentsPerMsg)
    (hcounting : t.counting = s.counting - mpsDefaultProvisionSegmentsPerMsg)
    (hinside : t.inside = []) (hvcpu : t.vcpu = s.vcpu) (hmbx : t.mbx = s.mbx)
    (hann : t.announced = s.announced) (hprov : t.provided = s.provided) : LevelInv t := by
  have hl := h.level
  have hcount : s.counting = mpsDefaultProvisionSegmentsPerMsg := by
    rw [h.counting, hc]
    rfl
  have hout : outstanding t = outstanding s := by
    simp only [outstanding, VoiceBufs.unnoticed, hvcpu, hmbx, hann]
  refine ⟨by simp [hinside], ?_, ?_, ?_, ?_⟩
  · rw [hout]
    omega
  · rw [hcounting, hcount, hinside]
    rfl
  · rw [hout, hprov]
    exact h.bounded
  · rw [hann, hmbx]
    exact h.head

/-- A step of the provision under way. -/
theorem LevelInv.step {s : VoiceBufs} (h : LevelInv s) {threshold : Nat} {answer : Word} {c : Provide}
    {below : List Provide} (hc : s.inside = c :: below)
    (hok : c.pc = .testMax → s.bufLevel + mpsDefaultProvisionSegmentsPerMsg ≤ mpsBufferMaxLevel) :
    LevelInv { (provideStep threshold s answer c).1 with
      inside := (provideStep threshold s answer c).2.toList ++ below } := by
  have hbelow : below = [] := by
    have hinside := h.inside
    rw [hc] at hinside
    exact List.length_eq_zero_iff.mp (Nat.le_zero.mp (Nat.le_of_succ_le_succ hinside))
  subst hbelow
  obtain ⟨pc, onDemand⟩ := c
  cases pc with
  | segment i =>
    simp only [provideStep]
    split_ifs
    · exact h.moved (Nat.le_refl _) rfl rfl (by rw [hc]; rfl) rfl rfl rfl rfl
    · exact h.moved (Nat.le_refl _) rfl rfl (by rw [hc]; rfl) rfl rfl rfl rfl
    · exact h.moved (Nat.le_refl _) rfl rfl (by rw [hc]; rfl) rfl rfl rfl rfl
  | message => exact h.moved (Nat.le_refl _) rfl rfl (by rw [hc]; rfl) rfl rfl rfl rfl
  | send =>
    simp only [provideStep]
    split
    · exact h.moved (Nat.le_refl _) rfl rfl (by rw [hc]; rfl) rfl rfl rfl rfl
    · exact h.sendMessage hc _ (by simp)
  | testMax =>
    simp only [provideStep, if_neg (Nat.not_lt.mpr (hok rfl))]
    exact h.moved (Nat.le_refl _) rfl rfl (by rw [hc]; rfl) rfl rfl rfl rfl
  | add =>
    obtain ⟨state, hu⟩ := bufmanUpdateState_eq threshold { s with
      bufLevel := s.bufLevel + mpsDefaultProvisionSegmentsPerMsg
      counting := s.counting - mpsDefaultProvisionSegmentsPerMsg }
    simp only [provideStep, hu]
    exact h.add hc rfl rfl rfl rfl rfl rfl rfl
  | error j =>
    cases j with
    | zero =>
      cases onDemand with
      | true => exact h.moved (Nat.le_refl _) rfl rfl (by rw [hc]; rfl) rfl rfl rfl rfl
      | false => exact h.moved (Nat.zero_le _) rfl rfl (by rw [hc]; rfl) rfl rfl rfl rfl
    | succ j => exact h.moved (Nat.le_refl _) rfl rfl (by rw [hc]; rfl) rfl rfl rfl rfl
  | up => exact h.moved (Nat.zero_le _) rfl rfl (by rw [hc]; rfl) rfl rfl rfl rfl

/-- A provision that begins while no other one is under way. -/
theorem LevelInv.provide {s : VoiceBufs} (h : LevelInv s) (hnone : s.inside = []) (onDemand : Bool) :
    LevelInv (s.provide onDemand) :=
  h.moved (by simp [VoiceBufs.provide, hnone]) rfl rfl (by simp [VoiceBufs.provide, hnone, toCount]) rfl
    rfl rfl rfl

/-- The notification of a data message that was not notified before. -/
theorem LevelInv.notify {s : VoiceBufs} (h : LevelInv s) (threshold : Nat) {chan : Nat} {buf : CpuBuf}
    {rest : List UpMsg} (hm : s.mbx = .data chan buf :: rest) (hann : s.announced = false)
    (hbuf : buf.provided = true) (hpos : 0 < s.bufLevel) : LevelInv (notifyData threshold s) := by
  have hlevel := h.level
  have hbounded := h.bounded
  have hold : outstanding s = segments s.vcpu + (1 + segments (rest.flatMap UpMsg.bufs)) := by
    have hone : segments [buf] = 1 := by simp [segments, hbuf]
    simp [outstanding, VoiceBufs.unnoticed, hann, hm, UpMsg.bufs, List.flatMap_cons, ← hone,
      ← segments_append]
  obtain ⟨state, hd⟩ := bufmanDecLevel_eq threshold s 1 hpos
  unfold notifyData
  rw [hd]
  refine ⟨h.inside, ?_, h.counting, ?_, fun _ => ⟨chan, buf, rest, hm⟩⟩
  · simp only [outstanding, VoiceBufs.unnoticed, hm, List.tail_cons, if_true]
    omega
  · simp only [outstanding, VoiceBufs.unnoticed, hm, List.tail_cons, if_true]
    omega

theorem LevelInv.upstream {s : VoiceBufs} (h : LevelInv s) (threshold : Nat)
    (hk : UpstreamKept s s.mbx) : LevelInv (mbxDataUpstream threshold s) := by
  unfold mbxDataUpstream
  cases hm : s.mbx with
  | nil => exact h
  | cons m rest =>
    rw [hm] at hk
    cases m with
    | address chan bufs =>
      dsimp only
      split
      next hchan =>
        have hlevel := h.level
        have hbounded := h.bounded
        have hzero := hk hchan
        have hann : s.announced = false := by
          by_contra hann
          obtain ⟨_, _, _, heq⟩ := h.head (Bool.eq_true_of_not_eq_false hann)
          rw [hm] at heq
          cases heq
        have hout : outstanding { s with mbx := rest, freed := s.freed ++ bufs.map CpuBuf.addr } =
            outstanding s := by
          simp [outstanding, VoiceBufs.unnoticed, hann, hm, UpMsg.bufs, hzero]
        refine ⟨h.inside, ?_, h.counting, ?_, fun hyes => absurd (hann.symm.trans hyes) (by decide)⟩
        · rw [hout]
          exact hlevel
        · rw [hout]
          exact hbounded
      next => exact h
    | data chan buf =>
      dsimp only
      split
      next hchan =>
        obtain ⟨hann, hbuf, hpos⟩ := hk hchan
        exact h.notify threshold hm hann hbuf hpos
      next => exact h

theorem LevelInv.send {s : VoiceBufs} (h : LevelInv s) (m : UpMsg) (hm : m.bufs.Subperm s.vcpu) :
    LevelInv { s with mbx := s.mbx ++ [m], vcpu := s.vcpu.diff m.bufs } := by
  have hperm := List.subperm_append_diff_self_of_count_le (List.subperm_ext_iff.mp hm)
  have hsplit : segments m.bufs + segments (s.vcpu.diff m.bufs) = segments s.vcpu := by
    rw [← segments_append]
    exact hperm.countP_eq _
  have hmbx : VoiceBufs.unnoticed { s with mbx := s.mbx ++ [m], vcpu := s.vcpu.diff m.bufs } =
      s.unnoticed ++ [m] := by
    unfold VoiceBufs.unnoticed
    cases hann : s.announced with
    | false => rfl
    | true =>
      obtain ⟨chan, buf, rest, heq⟩ := h.head hann
      simp [heq]
  have hout : outstanding { s with mbx := s.mbx ++ [m], vcpu := s.vcpu.diff m.bufs } =
      outstanding s := by
    simp only [outstanding]
    rw [hmbx, List.flatMap_append, segments_append]
    simp only [List.flatMap_cons, List.flatMap_nil, List.append_nil]
    omega
  refine ⟨h.inside, ?_, h.counting, ?_, ?_⟩
  · rw [hout]
    exact h.level
  · rw [hout]
    exact h.bounded
  · intro hann
    obtain ⟨chan, buf, rest, heq⟩ := h.head hann
    exact ⟨chan, buf, rest ++ [m], by simp [heq]⟩

theorem LevelInv.writeData {s : VoiceBufs} (h : LevelInv s) (buf : Word) :
    LevelInv { s with vcpu := s.vcpu ++ [.payload buf] } := by
  have hout : outstanding { s with vcpu := s.vcpu ++ [.payload buf] } = outstanding s := by
    simp [outstanding, VoiceBufs.unnoticed, segments, CpuBuf.provided]
  refine ⟨h.inside, ?_, h.counting, ?_, h.head⟩
  · rw [hout]
    exact h.level
  · rw [hout]
    exact h.bounded

/-- Reading a notified message takes it out of the mailbox and leaves the level alone. -/
theorem LevelInv.read {s t : VoiceBufs} (h : LevelInv s) {threshold : Nat} (hann : s.announced = true)
    (ht : levelStep threshold s .read = some t) : LevelInv t := by
  obtain ⟨chan, buf, rest, hm⟩ := h.head hann
  simp only [levelStep] at ht
  rw [hm] at ht
  cases Option.some.inj ht
  have hout : outstanding { s with mbx := rest, announced := false } = outstanding s := by
    simp [outstanding, VoiceBufs.unnoticed, hann, hm]
  refine ⟨h.inside, ?_, h.counting, ?_, fun hno => absurd hno Bool.false_ne_true⟩
  · rw [hout]
    exact h.level
  · rw [hout]
    exact h.bounded

theorem levelStep_inv {threshold : Nat} {s t : VoiceBufs} {e : LevelEvent} (h : LevelInv s)
    (hk : LevelKept s e) (hs : levelStep threshold s e = some t) : LevelInv t := by
  cases e with
  | init =>
    cases Option.some.inj hs
    exact h.provide hk false
  | demand =>
    simp only [levelStep] at hs
    split at hs
    next =>
      cases Option.some.inj hs
      exact h
    next hup =>
      cases Option.some.inj hs
      have hdown : LevelInv { s with provideBuffer := s.provideBuffer - 1 } :=
        h.moved h.inside rfl rfl rfl rfl rfl rfl rfl
      exact hdown.provide (hk hup) true
  | step answer =>
    simp only [levelStep] at hs
    cases hc : s.inside with
    | nil => simp [hc] at hs
    | cons c below =>
      rw [hc] at hs
      cases Option.some.inj hs
      refine h.step hc (hk c ?_)
      rw [hc]
      rfl
  | writeData buf =>
    cases Option.some.inj hs
    exact h.writeData buf
  | send m =>
    obtain ⟨hm, ⟨⟩⟩ := Option.ite_none_right_eq_some.mp hs
    exact h.send m hm
  | upstream =>
    cases Option.some.inj hs
    exact h.upstream threshold hk
  | read => exact h.read hk hs

/-- While every segment that comes back is counted once and no provision is cut off or disturbed by another
one, the level is the number of segments that the voice CPU still has. -/
theorem voiceLevel_exact (threshold : Nat) (es : List LevelEvent) (s : VoiceBufs)
    (hk : RunMeets (levelStep threshold) LevelKept levelInit es)
    (h : run (levelStep threshold) levelInit es = some s) : LevelExact s :=
  LevelInv.exact (run_invariant_of_meets levelStep_inv levelInit_inv hk h)

/-- A round of `ifx_mps_bufman_init` that gets its segments and sends them: twelve steps for the segments and
four for the message and its count. -/
def providedTwelve : List LevelEvent :=
  .init :: ((List.range 12).map fun i => .step (BitVec.ofNat 32 (i + 1))) ++ List.replicate 4 (.step 1)

/-- Twelve segments are provided, one comes back with a data message, and a payload goes out and comes back in
an address packet. -/
theorem voiceLevel_exact_small :
    ∃ s, run (levelStep 24) levelInit (providedTwelve ++
        [.send (.data 0 (.segment 5)), .upstream, .read, .demand, .writeData 40,
          .send (.address 0 [.payload 40])]) = some s ∧
      s.bufLevel = 11 ∧ LevelExact s := by
  refine ⟨_, rfl, by decide, ?_⟩
  exact voiceLevel_exact 24 (providedTwelve ++
    [.send (.data 0 (.segment 5)), .upstream, .read, .demand, .writeData 40,
      .send (.address 0 [.payload 40])]) _ (by decide) rfl

/-- An address packet gives two segments back without lowering the level; a second interrupt lowers it again
for the same data message; and one that comes before the segments of the message are counted finds the level 0
and does not lower it. -/
theorem voiceLevel_drifts :
    (∃ s, run (levelStep 24) levelInit (providedTwelve ++
        [.send (.address 0 [.segment 5, .segment 6]), .upstream]) = some s ∧
        s.inside = [] ∧ s.bufLevel = 12 ∧ outstanding s = 10 ∧ ¬ LevelExact s) ∧
      (∃ s, run (levelStep 24) levelInit (providedTwelve ++
        [.send (.data 0 (.segment 5)), .upstream, .send (.data 0 (.segment 6)), .upstream]) = some s ∧
        s.inside = [] ∧ s.bufLevel = 10 ∧ outstanding s = 11 ∧ ¬ LevelExact s) ∧
      ∃ s, run (levelStep 24) levelInit (providedTwelve.dropLast.dropLast ++
        [.send (.data 0 (.segment 5)), .upstream, .step 1, .step 1]) = some s ∧
        s.inside = [] ∧ s.bufLevel = 12 ∧ outstanding s = 11 ∧ ¬ LevelExact s := by
  refine ⟨⟨_, rfl, by decide, by decide, by decide, ?_⟩,
    ⟨_, rfl, by decide, by decide, by decide, ?_⟩, ⟨_, rfl, by decide, by decide, by decide, ?_⟩⟩
  · intro h
    exact absurd h.level (by decide)
  · intro h
    exact absurd h.level (by decide)
  · intro h
    exact absurd h.level (by decide)

end DanubeBsp
