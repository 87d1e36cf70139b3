import DanubeBsp.VoiceFifoRing

namespace DanubeBsp

theorem plength_lt (header : Word) : plength header < 256 := by
  have h : (header &&& 0xff#32).toNat ≤ (0xff#32).toNat := by
    rw [BitVec.toNat_and]
    exact Nat.and_le_right
  exact Nat.lt_succ_of_le h

theorem pendWords_append (pend : List VoiceMessage) (m : VoiceMessage) :
    pendWords (pend ++ [m]) = pendWords pend ++ m.head :: m.payload := by
  simp [pendWords]

theorem VoiceHolds.writeMessage {e a : Nat} {pend : List VoiceMessage} {fifo out : VoiceFifo}
    {m : VoiceMessage} {inInterrupt : Bool} {st : WriteStatus} (he : e ≤ 29)
    (h : VoiceHolds (2 ^ e) a pend fifo)
    (hw : ifxMpsMbxWriteMessage fifo m.msgPtr m.bytes inInterrupt = (st, out)) :
    (st = .ok ∧ VoiceHolds (2 ^ e) a (pend ++ [m]) out) ∨ (st = .eagain ∧ out = fifo) := by
  have hn : 0 < 2 ^ e := Nat.two_pow_pos e
  have hle : 2 ^ e ≤ 2 ^ 29 := Nat.pow_le_pow_right (by decide) he
  have hbytes := m.bytes_length
  have hplen := m.header
  have hlt := plength_lt m.head
  have hpay : m.payload.length + 1 ≤ 64 := by
    rw [hplen] at hlt
    omega
  unfold ifxMpsMbxWriteMessage at hw
  split at hw
  next hreq =>
    left
    rw [requestRetries_lt_iff] at hreq
    have hroom : (pendWords pend).length + (m.payload.length + 1) < 2 ^ e := by
      have havail := memAvailable_offset he h.size h.read h.write h.room
      simp only [ifxMpsFifoMemRequest, decide_eq_true_eq, havail, hbytes] at hreq
      omega
    rw [messageLoads_eq, m.words] at hw
    obtain ⟨hst, hsize, hread, hwrite⟩ := writeWords_spec (m.head :: m.payload) (j := 0)
      (b := a + (pendWords pend).length) hn hle h.size h.write rfl
      (by simp only [List.length_cons]; omega) (by simp only [List.length_cons]; omega)
      (by simp only [List.length_cons]; omega) h.stored
    rw [Nat.mul_zero] at hst hsize hread hwrite
    generalize writeWords fifo 0 (m.head :: m.payload) = copied at *
    have hinc : ifxMpsFifoWritePtrInc copied m.bytes.length = { copied with
        pwriteOff := voiceOffset (2 ^ e)
          (a + (pendWords pend).length + (m.payload.length + 1)) } := by
      have hcut : m.bytes.length % 2 ^ 16 = 4 * (m.payload.length + 1) := by
        rw [hbytes]
        exact Nat.mod_eq_of_lt (by omega)
      simp only [ifxMpsFifoWritePtrInc, hcut, hsize, hwrite, h.size, h.write]
      rw [if_neg (by omega), downIndex_offset hn hle (by omega)]
    simp only [hinc, Prod.mk.injEq] at hw
    obtain ⟨rfl, rfl⟩ := hw
    refine ⟨rfl, hsize.trans h.size, hread.trans h.read, ?_, ?_, ?_⟩
    · rw [pendWords_append, List.length_append, List.length_cons, Nat.add_assoc]
    · rw [pendWords_append, List.length_append, List.length_cons]
      exact hroom
    · rw [pendWords_append, List.length_append]
      exact hst
  next =>
    right
    simp only [Prod.mk.injEq] at hw
    exact ⟨hw.1.symm, hw.2.symm⟩

/-- Reading the oldest message gives its words back and frees its bytes. -/
theorem VoiceHolds.readMessage {e a : Nat} {pend : List VoiceMessage} {fifo : VoiceFifo}
    {m : VoiceMessage} (he : e ≤ 29) (h : VoiceHolds (2 ^ e) a (m :: pend) fifo)
    (hfit : m.payload.length < 63) :
    ∃ out, ifxMpsMbxReadMessage fifo = (m.asRead, out) ∧
      VoiceHolds (2 ^ e) (a + (m.payload.length + 1)) pend out := by
  have hn : 0 < 2 ^ e := Nat.two_pow_pos e
  have hle : 2 ^ e ≤ 2 ^ 29 := Nat.pow_le_pow_right (by decide) he
  have hsplit : pendWords (m :: pend) = [m.head] ++ (m.payload ++ pendWords pend) := rfl
  have hlen : (pendWords (m :: pend)).length =
      1 + (m.payload.length + (pendWords pend).length) := by
    rw [hsplit, List.length_append, List.length_append]
    rfl
  have hroom := h.room
  have hst := h.stored
  rw [hlen, hsplit, ringSlice_append, ringSlice_append] at hst
  obtain ⟨hhead, hst⟩ := List.append_inj hst (by simp)
  obtain ⟨hdata, hrest⟩ := List.append_inj hst (by simp)
  have hcell : ∀ j, j < 64 → j ≤ 2 ^ e →
      ifxMpsFifoRead fifo (4 * j) = fifo.mem (voiceOffset (2 ^ e) (a + j)) := by
    intro j hj hj'
    have hcut : 4 * j % 2 ^ 8 = 4 * j := Nat.mod_eq_of_lt (by omega)
    simp only [ifxMpsFifoRead, hcut, h.size, h.read]
    rw [if_neg (by omega), downAddress_offset hn hle hj']
  have hfirst : ifxMpsFifoRead fifo 0 = m.head := by
    have hc := hcell 0 (by omega) (by omega)
    rw [Nat.mul_zero, Nat.add_zero] at hc
    simpa [hc, ringSlice, voiceCell, voiceOffset_mod] using hhead
  have hwords : (List.range m.payload.length).map (fun j => ifxMpsFifoRead fifo (4 * j + 4)) =
      m.payload := by
    refine Eq.trans (List.map_congr_left ?_) hdata
    intro j hj
    have hj := List.mem_range.mp hj
    have hc := hcell (j + 1) (by omega) (by omega)
    rw [Nat.mul_add_one] at hc
    rw [hc]
    simp only [voiceCell, voiceOffset_mod]
    congr 2
    omega
  have hdiv : plength m.head / 4 = m.payload.length := by rw [m.header]; omega
  have hmod : plength m.head % 4 = 0 := by rw [m.header]; omega
  have hsum : plength m.head + 4 = 4 * (m.payload.length + 1) := by rw [m.header]; omega
  refine ⟨ifxMpsFifoReadPtrInc fifo (4 * (m.payload.length + 1)), ?_, ?_⟩
  · simp only [ifxMpsMbxReadMessage, hfirst, hmod, hdiv, hwords, hsum]
    rw [if_neg (by simp), VoiceMessage.asRead, m.bytes_length]
  · -- the increment fits into its `u8`
    have hcut : 4 * (m.payload.length + 1) % 2 ^ 8 = 4 * (m.payload.length + 1) :=
      Nat.mod_eq_of_lt (by omega)
    have hinc : ifxMpsFifoReadPtrInc fifo (4 * (m.payload.length + 1)) =
        { fifo with preadOff := voiceOffset (2 ^ e) (a + (m.payload.length + 1)) } := by
      simp only [ifxMpsFifoReadPtrInc, hcut, h.size, h.read]
      rw [if_neg (by omega), downIndex_offset hn hle (by omega)]
    rw [hinc]
    refine ⟨h.size, rfl, ?_, by omega, ?_⟩
    · rw [h.write, hlen]
      congr 1
      omega
    · have hpos : a + 1 + m.payload.length = a + (m.payload.length + 1) := by omega
      rw [hpos] at hrest
      exact hrest

/-- The number of bytes of the message fits into the `u8` of the reader's increment. In a FIFO of at
most 256 bytes there is never room for a longer message. -/
def VoiceEvent.Fits (size : Nat) : VoiceEvent → Prop
  | .write m _ => size ≤ 256 ∨ m.bytes.length < 256
  | .read => True

def unreadBytes (pend : List VoiceMessage) : Nat := (pend.map fun m => m.bytes.length).sum

theorem unreadBytes_eq (pend : List VoiceMessage) :
    unreadBytes pend = 4 * (pendWords pend).length := by
  induction pend with
  | nil => rfl
  | cons m pend ih =>
    have hb := m.bytes_length
    have hl : (pendWords (m :: pend)).length = m.payload.length + 1 + (pendWords pend).length := by
      rw [pendWords, List.flatMap_cons, List.length_append, List.length_cons, pendWords]
    have hu : unreadBytes (m :: pend) = m.bytes.length + unreadBytes pend := by
      simp [unreadBytes]
    omega

theorem pendWords_pos {pend : List VoiceMessage} (h : pend ≠ []) : 0 < (pendWords pend).length := by
  obtain ⟨m, rest, rfl⟩ := List.exists_cons_of_ne_nil h
  simp [pendWords]

/-- The write offset is never equal to the read offset while messages are unread. -/
theorem VoiceHolds.notEmpty_iff {n a : Nat} {pend : List VoiceMessage} {fifo : VoiceFifo}
    (hn : 0 < n) (h : VoiceHolds n a pend fifo) :
    fifo.pwriteOff ≠ fifo.preadOff ↔ pend ≠ [] := by
  rw [h.write, h.read]
  constructor
  · intro hne he
    subst he
    exact hne rfl
  · intro hne
    have hpos := pendWords_pos hne
    have hroom := h.room
    exact voiceOffset_ne hn (ringPos_ne (p := a) (by omega) (by omega) (le_refl a) (by omega)
      (by omega))

/-- The mailbox holds the written and not yet received messages. -/
def VoiceInv (n : Nat) (s : VoiceSys) : Prop :=
  ∃ a front pend, VoiceHolds n a pend s.fifo ∧ s.written = front ++ pend ∧
    s.received = front.map VoiceMessage.asRead ∧ ∀ m ∈ pend, m.payload.length < 63

theorem voiceInit_inv {e : Nat} (he : e ≤ 29) (mem : Nat → Word) :
    VoiceInv (2 ^ e) (voiceInit (4 * 2 ^ e) mem) := by
  have hn : 0 < 2 ^ e := Nat.two_pow_pos e
  have hle : 2 ^ e ≤ 2 ^ 29 := Nat.pow_le_pow_right (by decide) he
  have hoff : toU32 ((4 * 2 ^ e : Nat) - 4) = voiceOffset (2 ^ e) 0 := by
    rw [voiceOffset, Nat.zero_mod]
    unfold toU32
    omega
  exact ⟨0, [], [], ⟨rfl, hoff, hoff, hn, rfl⟩, rfl, rfl, by simp⟩

/-- What is in the FIFO is shorter than it, so in a small one every message is short. -/
theorem VoiceHolds.payload_lt {n a : Nat} {pend : List VoiceMessage} {fifo : VoiceFifo}
    (h : VoiceHolds n a pend fifo) {m : VoiceMessage} (hm : m ∈ pend)
    (hfit : 4 * n ≤ 256 ∨ m.bytes.length < 256) : m.payload.length < 63 := by
  have hb := m.bytes_length
  rcases hfit with hsmall | hshort
  · have hroom := h.room
    have hsub : (m.head :: m.payload).length ≤ (pendWords pend).length := by
      rw [pendWords, List.flatMap_def]
      exact (List.sublist_flatten_of_mem
        (List.mem_map_of_mem (f := fun m => m.head :: m.payload) hm)).length_le
    rw [List.length_cons] at hsub
    omega
  · omega

theorem voiceWrite_inv {e : Nat} {s t : VoiceSys} {m : VoiceMessage} {inInterrupt : Bool}
    (he : e ≤ 29) (h : VoiceInv (2 ^ e) s) (hfit : 4 * 2 ^ e ≤ 256 ∨ m.bytes.length < 256)
    (hs : voiceStep s (.write m inInterrupt) = some t) : VoiceInv (2 ^ e) t := by
  obtain ⟨a, front, pend, hh, hq, hr, hall⟩ := h
  simp only [voiceStep] at hs
  rcases hw : ifxMpsMbxWriteMessage s.fifo m.msgPtr m.bytes inInterrupt with ⟨st, out⟩
  rw [hw] at hs
  cases Option.some.inj hs
  obtain ⟨rfl, hh'⟩ | ⟨rfl, rfl⟩ := hh.writeMessage he hw
  · refine ⟨a, front, pend ++ [m], hh', ?_, hr, ?_⟩
    · simp only [if_true, hq, List.append_assoc]
    · intro m' hm'
      obtain hm' | hm' := List.mem_append.mp hm'
      · exact hall m' hm'
      · rw [List.mem_singleton.mp hm']
        exact hh'.payload_lt (List.mem_append_right pend (List.mem_singleton_self m)) hfit
  · exact ⟨a, front, pend, hh, hq, hr, hall⟩

theorem voiceRead_inv {e : Nat} {s t : VoiceSys} (he : e ≤ 29) (h : VoiceInv (2 ^ e) s)
    (hs : voiceStep s .read = some t) : VoiceInv (2 ^ e) t := by
  obtain ⟨a, front, pend, hh, hq, hr, hall⟩ := h
  simp only [voiceStep] at hs
  split at hs
  next hne =>
    have hpend : pend ≠ [] := by
      rw [← hh.notEmpty_iff (Nat.two_pow_pos e)]
      simpa [ifxMpsFifoNotEmpty] using hne
    obtain ⟨m, rest, rfl⟩ := List.exists_cons_of_ne_nil hpend
    obtain ⟨out, hread, hh'⟩ := hh.readMessage he (hall m List.mem_cons_self)
    rw [hread] at hs
    cases Option.some.inj hs
    refine ⟨_, front ++ [m], rest, hh', ?_, ?_, ?_⟩
    · simpa using hq
    · simp [hr]
    · intro m' hm'
      exact hall m' (List.mem_cons_of_mem m hm')
  next => simp at hs

theorem voiceStep_inv {e : Nat} {s t : VoiceSys} {ev : VoiceEvent} (he : e ≤ 29)
    (h : VoiceInv (2 ^ e) s) (hfit : ev.Fits (4 * 2 ^ e)) (hs : voiceStep s ev = some t) :
    VoiceInv (2 ^ e) t := by
  cases ev with
  | write m inInterrupt => exact voiceWrite_inv he h hfit hs
  | read => exact voiceRead_inv he h hs

/-- The voice mailbox, of a size that `size - 4` and a `u32` admit, is a queue of messages: what is
read is what was written, in order, and the free space is exact in every reachable state. -/
theorem voiceFifo_refines_queue (k : Nat) (hk : 2 ≤ k) (hk' : 2 ^ k < 2 ^ 32) (mem : Nat → Word)
    (es : List VoiceEvent) (hfit : ∀ ev ∈ es, ev.Fits (2 ^ k)) (s : VoiceSys)
    (h : run voiceStep (voiceInit (2 ^ k) mem) es = some s) :
    s.received = (s.written.take s.received.length).map VoiceMessage.asRead ∧
      s.received.length ≤ s.written.length ∧
      (s.fifo.preadOff % 4 = 0 ∧ s.fifo.preadOff < 2 ^ k) ∧
      (s.fifo.pwriteOff % 4 = 0 ∧ s.fifo.pwriteOff < 2 ^ k) ∧
      ifxMpsFifoMemAvailable s.fifo + unreadBytes (s.written.drop s.received.length) = 2 ^ k - 1 ∧
      (s.received.length < s.written.length ↔ s.fifo.pwriteOff ≠ s.fifo.preadOff) := by
  have hk32 : k < 32 := (Nat.pow_lt_pow_iff_right (by decide)).mp hk'
  obtain ⟨e, rfl⟩ := Nat.exists_eq_add_of_le' hk
  have he : e ≤ 29 := by omega
  have hn : 0 < 2 ^ e := Nat.two_pow_pos e
  have hpow : 2 ^ (e + 2) = 4 * 2 ^ e := by rw [Nat.pow_add, Nat.mul_comm]
  rw [hpow] at h hfit ⊢
  obtain ⟨a, front, pend, hh, hq, hr, -⟩ := run_invariant_of_meets (voiceStep_inv he)
    (voiceInit_inv he mem) (runMeets_of_forall hfit _) h
  have hlen : s.received.length = front.length := by rw [hr, List.length_map]
  have hoff : ∀ j, voiceOffset (2 ^ e) j % 4 = 0 ∧ voiceOffset (2 ^ e) j < 4 * 2 ^ e :=
    fun j => ⟨Nat.mul_mod_right 4 _, voiceOffset_lt hn j⟩
  refine ⟨?_, ?_, ?_, ?_, ?_, ?_⟩
  · rw [hlen, hq, List.take_left, hr]
  · rw [hlen, hq, List.length_append]
    exact Nat.le_add_right _ _
  · rw [hh.read]
    exact hoff a
  · rw [hh.write]
    exact hoff _
  · have hroom := hh.room
    rw [memAvailable_offset he hh.size hh.read hh.write hh.room, hlen, hq, List.drop_left,
      unreadBytes_eq]
    omega
  · rw [hh.notEmpty_iff hn, hlen, hq, List.length_append, ← List.length_pos_iff]
    omega

/-- The header word and the payload word 0x1020304. -/
def voicePair : VoiceMessage :=
  ⟨0, [0, 0, 0, 4, 1, 2, 3, 4], 4, [0x1020304], rfl, by decide, by decide⟩

/-- One message through a FIFO of 16 bytes. -/
theorem voiceFifo_refines_queue_small :
    ∃ s, run voiceStep (voiceInit (2 ^ 4) fun _ => 0) [.write voicePair false, .read] = some s ∧
      s.received = [.message 4 [0x1020304] 8] ∧
      s.received = (s.written.take s.received.length).map VoiceMessage.asRead := by
  refine ⟨_, rfl, by decide, ?_⟩
  refine (voiceFifo_refines_queue 4 (by decide) (by decide) (fun _ => 0)
    [.write voicePair false, .read] ?_ _ rfl).1
  intro ev hev
  simp only [List.mem_cons, List.not_mem_nil, or_false] at hev
  obtain rfl | rfl := hev
  · left
    decide
  · trivial

/-- The header word and 63 zero words. -/
def voiceLong : VoiceMessage :=
  ⟨0, 0 :: 0 :: 0 :: 252 :: List.replicate 252 0, 252, List.replicate 63 0,
    by decide +kernel, by decide +kernel, by decide⟩

/-- The reader never leaves a message of 256 bytes, for its increment is 0 in a `u8`: two reads give
it twice. In FIFOs of 1 and 2 bytes the first offsets already lie outside. -/
theorem voiceFifo_reads_twice :
    (∃ s, run voiceStep (voiceInit (2 ^ 9) fun _ => 0) [.write voiceLong false, .read, .read] = some s ∧
      s.written.length = 1 ∧ s.received = [voiceLong.asRead, voiceLong.asRead] ∧
      s.received ≠ (s.written.take s.received.length).map VoiceMessage.asRead) ∧
    ∀ k < 2, 2 ^ k ≤ (voiceInit (2 ^ k) fun _ => 0).fifo.preadOff := by
  have h : (run voiceStep (voiceInit (2 ^ 9) fun _ => 0) [.write voiceLong false, .read, .read]).map
      (fun s => (s.written.length, s.received)) =
        some (1, [voiceLong.asRead, voiceLong.asRead]) := by
    decide +kernel
  obtain ⟨s, hs, heq⟩ := Option.map_eq_some_iff.mp h
  simp only [Prod.mk.injEq] at heq
  refine ⟨⟨s, hs, heq.1, heq.2, ?_⟩, by decide⟩
  intro hall
  have hlen := congrArg List.length hall
  rw [heq.2, List.length_map, List.length_take, heq.1] at hlen
  cases hlen

end DanubeBsp
