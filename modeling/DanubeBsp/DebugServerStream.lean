import DanubeBsp.BlockStream
import DanubeBsp.DebugServer

namespace DanubeBsp

section Replies

variable {δ : Type} (mei : MeiDriver δ) (s : DebugServer δ) (m : MPMessage)

theorem MPMessage.length_toBytes : m.toBytes.length = msgRecvLength := rfl

/-- The handling of a message changes neither log. -/
structure SameLogs (s t : DebugServer δ) : Prop where
  handled : t.handled = s.handled
  sent : t.sent = s.sent

theorem readDebug_logs : SameLogs s (readDebug mei s m) := by
  unfold readDebug
  dsimp only
  split_ifs <;> exact ⟨rfl, rfl⟩

theorem dceMessage_logs : SameLogs s (dceMessage mei s m) := by
  unfold dceMessage
  dsimp only
  split_ifs <;> first | exact ⟨rfl, rfl⟩ | exact readDebug_logs mei s m

theorem modemMessage_logs : SameLogs s (modemMessage mei s m) := by
  unfold modemMessage
  dsimp only
  split_ifs <;> exact ⟨rfl, rfl⟩

/-- One message of the right size: one request handled, and one reply of 32 bytes sent. -/
theorem processMessage_logs :
    (processMessage mei s).handled = s.handled ++ [readBlock s.rx 0 msgRecvLength] ∧
      ∃ reply : List Byte, reply.length = msgRecvLength ∧
        (processMessage mei s).sent = s.sent ++ [reply] := by
  have hdce := dceMessage_logs mei s (MPMessage.ofBytes (readBlock s.rx 0 msgRecvLength))
  have hmodem := modemMessage_logs mei s (MPMessage.ofBytes (readBlock s.rx 0 msgRecvLength))
  unfold processMessage
  dsimp only
  split
  next => exact ⟨by rw [hdce.handled], _, MPMessage.length_toBytes _, by rw [hdce.sent]⟩
  next => exact ⟨by rw [hmodem.handled], _, MPMessage.length_toBytes _, by rw [hmodem.sent]⟩

/-- The argument of the ioctl with which a READDEBUG reads, if it reads. -/
def debugRequest (debug : ReadDebugParameter) (m : MPMessage) : Option ReadDebugParameter :=
  let addr : Word := m.iAddress ++ m.iIndex
  let count := (m.iFunction &&& 0x0f#16).toNat
  let size := m.iFunction &&& 0xc000#16
  if size = byteSize then
    some { debug with
      iAddress := addr &&& 0xfffffffc#32
      iReadCount := (byteRead count addr.toNat).1 }
  else if size = wordSize then
    if (wordRead count addr.toNat).1 ≤ 20 then
      some { debug with
        iAddress := addr &&& 0xfffffffc#32
        iReadCount := (wordRead count addr.toNat).1 }
    else none
  else if size = dwordSize then some { debug with iAddress := addr, iReadCount := count }
  else none

/-- The message is no READDEBUG, or the driver returns no more double words than the payload has room
for. -/
def PayloadHolds : Prop :=
  m.iFunction &&& dceCommand ≠ 0 → functionOpcode m = 0x14 →
    ∀ p ∈ debugRequest s.debug m, (mei.readDebug p s.dev).2.iReadCount ≤ 6

/-- Stores past the payload are only added. -/
theorem readDebugInto_past (p : ReadDebugParameter)
    (lay : (Nat → Word) → MPMessage → Nat → MPMessage) :
    ∃ more, (readDebugInto mei s p lay).past = s.past ++ more ∧
      (more = [] ↔ (mei.readDebug p s.dev).2.iReadCount ≤ 6) := by
  unfold readDebugInto newMpPayloadSize
  dsimp only
  split
  next hlong => exact ⟨_, rfl, iff_of_false (List.cons_ne_nil _ _) (by omega)⟩
  next hfits => exact ⟨[], (List.append_nil _).symm, iff_of_true rfl (by omega)⟩

theorem readDebug_past :
    ∃ more, (readDebug mei s m).past = s.past ++ more ∧
      (more = [] ↔ ∀ p ∈ debugRequest s.debug m, (mei.readDebug p s.dev).2.iReadCount ≤ 6) := by
  have hnone : ∃ more, s.past = s.past ++ more ∧
      (more = [] ↔ ∀ p ∈ (none : Option ReadDebugParameter),
        (mei.readDebug p s.dev).2.iReadCount ≤ 6) :=
    ⟨[], (List.append_nil _).symm, iff_of_true rfl fun p hp => by cases hp⟩
  unfold readDebug debugRequest
  dsimp only
  split_ifs
  · simp only [Option.mem_some_iff, forall_eq']
    exact readDebugInto_past mei { s with tx := _ } _ _
  · simp only [Option.mem_some_iff, forall_eq']
    exact readDebugInto_past mei { s with tx := _ } _ _
  · exact hnone
  · simp only [Option.mem_some_iff, forall_eq']
    exact readDebugInto_past mei { s with tx := _ } _ _
  · exact hnone

theorem modemMessage_past : (modemMessage mei s m).past = s.past := by
  unfold modemMessage
  dsimp only
  split_ifs <;> rfl

theorem dceMessage_past (hopcode : functionOpcode m ≠ 0x14) :
    (dceMessage mei s m).past = s.past := by
  unfold dceMessage
  dsimp only
  split_ifs <;> rfl

/-- The handling of a message stores past the payload only if that does not hold what is read. -/
theorem processMessage_past :
    ∃ more, (processMessage mei s).past = s.past ++ more ∧
      (more = [] ↔ PayloadHolds mei s (MPMessage.ofBytes (readBlock s.rx 0 msgRecvLength))) := by
  unfold processMessage PayloadHolds
  dsimp only
  generalize MPMessage.ofBytes (readBlock s.rx 0 msgRecvLength) = m
  split
  next hdce =>
    by_cases hopcode : functionOpcode m = 0x14
    · have hread : dceMessage mei s m = readDebug mei s m := by
        unfold dceMessage
        rw [hopcode]
        rfl
      obtain ⟨more, hmore, hholds⟩ := readDebug_past mei s m
      refine ⟨more, by rw [hread, hmore], ?_⟩
      rw [hholds]
      exact ⟨fun h _ _ => h, fun h => h hdce hopcode⟩
    · refine ⟨[], by rw [dceMessage_past mei s m hopcode, List.append_nil], ?_⟩
      exact iff_of_true rfl fun _ h => absurd h hopcode
  next hmodem =>
    refine ⟨[], by rw [modemMessage_past, List.append_nil], ?_⟩
    exact iff_of_true rfl fun h => absurd h hmodem

end Replies

/-- The requests of a stream, one after the other. -/
def answer {δ : Type} (mei : MeiDriver δ) : DebugServer δ → List (List Byte) → DebugServer δ
  | s, [] => s
  | s, request :: requests =>
    answer mei (processMessage mei { s with rx := writeBlock s.rx 0 request }) requests

/-- The payload has room for what each request reads. -/
def PayloadsHold {δ : Type} (mei : MeiDriver δ) : DebugServer δ → List (List Byte) → Prop
  | _, [] => True
  | s, request :: requests =>
    PayloadHolds mei { s with rx := writeBlock s.rx 0 request } (MPMessage.ofBytes request) ∧
      PayloadsHold mei (processMessage mei { s with rx := writeBlock s.rx 0 request }) requests

/-- A stream of complete requests, and the results of `recv` in which it comes. -/
structure TcpStream where
  requests : List (List Byte)
  complete : ∀ request ∈ requests, request.length = msgRecvLength
  chunks : List (List Byte)
  received : ∀ chunk ∈ chunks, 0 < chunk.length ∧ chunk.length ≤ msgRecvLength
  whole : chunks.flatten = requests.flatten

/-- Every request has been handled, in order, and answered once, as it is without a stream, and nothing
was stored past the replies. -/
structure Answered {δ : Type} (mei : MeiDriver δ) (s : DebugServer δ) (requests : List (List Byte))
    (t : DebugServer δ) : Prop where
  handled : t.handled = s.handled ++ requests
  replies : t.sent = (answer mei s requests).sent
  each : ∃ replies, t.sent = s.sent ++ replies ∧ replies.length = requests.length ∧
    ∀ reply ∈ replies, reply.length = msgRecvLength
  past : t.past = s.past

section Stream

variable {δ : Type} (mei : MeiDriver δ)

theorem answer_logs {s : DebugServer δ} {requests : List (List Byte)}
    (h : ∀ request ∈ requests, request.length = msgRecvLength) :
    (answer mei s requests).handled = s.handled ++ requests ∧
      ∃ replies, (answer mei s requests).sent = s.sent ++ replies ∧
        replies.length = requests.length ∧ ∀ reply ∈ replies, reply.length = msgRecvLength := by
  induction requests generalizing s with
  | nil => exact ⟨(List.append_nil _).symm, [], (List.append_nil _).symm, rfl, by simp⟩
  | cons request requests ih =>
    have hlen := h request List.mem_cons_self
    obtain ⟨hhandled, reply, hreply, hsent⟩ :=
      processMessage_logs mei { s with rx := writeBlock s.rx 0 request }
    obtain ⟨hnext, replies, hreplies, hcount, hall⟩ :=
      @ih (processMessage mei { s with rx := writeBlock s.rx 0 request })
        (fun r hr => h r (List.mem_cons_of_mem request hr))
    have hread : readBlock (writeBlock s.rx 0 request) 0 msgRecvLength = request := by
      rw [← hlen]
      exact readBlock_of_blockAt (blockAt_writeBlock _ _ _)
    refine ⟨?_, reply :: replies, ?_, by simp [hcount], ?_⟩
    · rw [hhandled, hread, List.append_assoc] at hnext
      exact hnext
    · rw [hsent, List.append_assoc] at hreplies
      exact hreplies
    · intro r hr
      obtain rfl | hr := List.mem_cons.mp hr
      · exact hreply
      · exact hall r hr

/-- Nothing is stored past the replies exactly when the payload has room for every request. -/
theorem answer_past {s : DebugServer δ} {requests : List (List Byte)}
    (h : ∀ request ∈ requests, request.length = msgRecvLength) :
    ∃ more, (answer mei s requests).past = s.past ++ more ∧
      (more = [] ↔ PayloadsHold mei s requests) := by
  induction requests generalizing s with
  | nil => exact ⟨[], (List.append_nil _).symm, iff_of_true rfl trivial⟩
  | cons request requests ih =>
    have hread : readBlock (writeBlock s.rx 0 request) 0 msgRecvLength = request := by
      rw [← h request List.mem_cons_self]
      exact readBlock_of_blockAt (blockAt_writeBlock _ _ _)
    obtain ⟨first, hfirst, hholds⟩ :=
      processMessage_past mei { s with rx := writeBlock s.rx 0 request }
    obtain ⟨more, hmore, hrest⟩ := @ih (processMessage mei { s with rx := writeBlock s.rx 0 request })
      (fun r hr => h r (List.mem_cons_of_mem request hr))
    refine ⟨first ++ more, ?_, ?_⟩
    · rw [hfirst, List.append_assoc] at hmore
      exact hmore
    · rw [hread] at hholds
      rw [List.append_eq_nil_iff, hholds, hrest, PayloadsHold]

/-- Results of exactly one message each are the requests. -/
theorem loop_of_full {s : DebugServer δ} {chunks : List (List Byte)}
    (h : ∀ chunk ∈ chunks, chunk.length = msgRecvLength) :
    tcpServerSendnReceiveMessage mei s chunks = answer mei s chunks := by
  induction chunks generalizing s with
  | nil => rfl
  | cons chunk chunks ih =>
    have hlen := h chunk List.mem_cons_self
    have hpos : chunk.length ≠ 0 := by
      rw [hlen]
      decide
    unfold tcpServerSendnReceiveMessage answer
    rw [if_neg hpos]
    dsimp only
    rw [if_pos hlen]
    exact ih (fun c hc => h c (List.mem_cons_of_mem chunk hc))

/-- The loop handles as many requests as there are results of the right length. -/
theorem loop_count {s : DebugServer δ} {chunks : List (List Byte)}
    (h : ∀ chunk ∈ chunks, 0 < chunk.length) :
    (tcpServerSendnReceiveMessage mei s chunks).handled.length =
      s.handled.length + (chunks.filter fun c => c.length = msgRecvLength).length := by
  induction chunks generalizing s with
  | nil => rfl
  | cons chunk chunks ih =>
    have hpos : chunk.length ≠ 0 := Nat.ne_of_gt (h chunk List.mem_cons_self)
    have hrest : ∀ c ∈ chunks, 0 < c.length := fun c hc => h c (List.mem_cons_of_mem chunk hc)
    unfold tcpServerSendnReceiveMessage
    rw [if_neg hpos]
    dsimp only
    by_cases hlen : chunk.length = msgRecvLength
    · obtain ⟨hhandled, -⟩ := processMessage_logs mei { s with rx := writeBlock s.rx 0 chunk }
      rw [if_pos hlen, ih hrest, hhandled, List.filter_cons_of_pos (by simpa using hlen)]
      simp only [List.length_append, List.length_cons, List.length_nil]
      omega
    · rw [if_neg hlen, ih hrest, List.filter_cons_of_neg (by simpa using hlen)]

end Stream

/-- The loop answers the requests exactly when every result of `recv` is one of them, since it does not
put the parts of a message together, and the payload has room for what each of them reads. -/
theorem tcp_server_answers_iff {δ : Type} (mei : MeiDriver δ) (s : DebugServer δ) (st : TcpStream) :
    Answered mei s st.requests (tcpServerSendnReceiveMessage mei s st.chunks) ↔
      (∀ chunk ∈ st.chunks, chunk.length = msgRecvLength) ∧ PayloadsHold mei s st.requests := by
  have hpos : ∀ chunk ∈ st.chunks, 0 < chunk.length := fun c hc => (st.received c hc).1
  obtain ⟨more, hmore, hholds⟩ := answer_past mei (s := s) st.complete
  have hanswer : (∀ chunk ∈ st.chunks, chunk.length = msgRecvLength) →
      tcpServerSendnReceiveMessage mei s st.chunks = answer mei s st.requests := by
    intro h
    have hpos : 0 < msgRecvLength := by decide
    have heq : st.chunks = st.requests := by
      rw [← wholeBlocks_flatten hpos h, st.whole, wholeBlocks_flatten hpos st.complete]
    rw [loop_of_full mei h, heq]
  constructor
  · intro h
    have hcount := loop_count mei (s := s) hpos
    rw [h.handled, List.length_append] at hcount
    have hbytes := length_flatten_blocks st.complete
    have hfull : ∀ chunk ∈ st.chunks, chunk.length = msgRecvLength := by
      apply full_of_count hpos
      rw [st.whole, hbytes]
      congr 1
      omega
    have hpast := h.past
    rw [hanswer hfull, hmore] at hpast
    exact ⟨hfull, hholds.mp (List.append_right_eq_self.mp hpast)⟩
  · intro ⟨hfull, hroom⟩
    obtain ⟨hhandled, hreplies⟩ := answer_logs mei (s := s) st.complete
    rw [hanswer hfull]
    refine ⟨hhandled, rfl, hreplies, ?_⟩
    rw [hmore, hholds.mpr hroom, List.append_nil]

/-- A driver that does nothing. -/
def idleMei : MeiDriver Unit where
  ctl _ d := (d, 0)
  remote _ d := d
  firmware d := d
  readDebug p d := (d, p)
  cmvRead p d := (d, p)
  cmvWrite p d := (d, p)
  cmvWinhost m d := (d, m)

def idleServer : DebugServer Unit := ⟨(), fun _ => 0, .bare 0, ⟨0, 0, fun _ => 0⟩, [], [], []⟩

/-- One request in two results gets no answer, and of two requests in three results a message is handled
that nobody sent. -/
theorem tcp_server_loses_requests :
    (tcpServerSendnReceiveMessage idleMei idleServer
      [List.replicate 20 1#8, List.replicate 12 1#8]).sent = [] ∧
    (tcpServerSendnReceiveMessage idleMei idleServer
      [List.replicate 16 1#8, List.replicate 16 1#8 ++ List.replicate 16 2#8,
        List.replicate 16 2#8]).handled =
      [List.replicate 16 1#8 ++ List.replicate 16 2#8] ∧
    (answer idleMei idleServer [List.replicate 32 1#8]).sent.length = 1 := by
  decide +kernel

end DanubeBsp
