import DanubeBsp.SscTx

namespace DanubeBsp

/-- The port takes over a buffer. -/
def Ssc.accept (s : Ssc) (b : KBuf) : Ssc :=
  { s with
    port := { s.port with txbuf := b.addr, txbufPtr := b.addr, txbufEnd := b.addr + b.len }
    live := s.live ++ [(s.next, b)]
    next := s.next + 1 }

/-- An accepted write: only in transmit mode it sends at once. -/
def Ssc.started (s : Ssc) (b : KBuf) (fifoSpace : Nat) : Ssc :=
  if s.port.modeRxTx = .tx then ((s.accept b).txInt fifoSpace).enableTxirq else s.accept b

theorem Ssc.txbuf_zero {s : Ssc} (hfree : s.port.txbuf = 0) :
    { s with port := { s.port with txbuf := 0 } } = s := by
  rw [← hfree]

theorem Ssc.writeBuf_cases {s : Ssc} (hfree : s.port.txbuf = 0) (b : KBuf) (fifoSpace : Nat) :
    s.writeBuf b fifoSpace = (s, eFault) ∨
      s.port.modeRxTx ≠ .rx ∧ s.writeBuf b fifoSpace = (s.started b fifoSpace, (b.len : Int)) := by
  unfold Ssc.writeBuf Ssc.writeHelper
  by_cases hrx : s.port.modeRxTx = .rx
  · left
    have hneg : eFault < 0 := by decide
    have hs := Ssc.txbuf_zero hfree
    simp only [if_pos hrx, if_pos hneg, hs]
  · right
    have hlen : ¬ (b.len : Int) < 0 := by omega
    refine ⟨hrx, ?_⟩
    unfold Ssc.started
    by_cases htx : s.port.modeRxTx = .tx
    · simp only [htx, reduceCtorEq, ↓reduceIte, hlen, Ssc.accept]
    · simp only [hrx, htx, ↓reduceIte, hlen, Ssc.accept]

theorem Ssc.kwrite_cases (s : Ssc) (b : KBuf) (fifoSpace : Nat) :
    (s.kwrite b fifoSpace).1 = s ∧ ((s.kwrite b fifoSpace).2 = b.len → b.len = 0) ∨
      0 < b.len ∧ s.port.txbuf = 0 ∧ s.port.modeRxTx ≠ .rx ∧
        s.kwrite b fifoSpace = (s.started b fifoSpace, (b.len : Int)) := by
  unfold Ssc.kwrite
  by_cases hlen : b.len = 0
  · simp [hlen]
  · by_cases hfree : s.port.txbuf = 0
    · rcases s.writeBuf_cases hfree b fifoSpace with h | ⟨hmode, h⟩
      · left
        simp [hlen, hfree, h, eFault]
      · right
        simp [hlen, hfree, h, hmode, Nat.pos_of_ne_zero hlen]
    · left
      simp [hlen, hfree, eBusy]

theorem Ssc.write_cases (s : Ssc) (b : KBuf) (allocated copied : Bool) (fifoSpace : Nat) :
    (s.write b allocated copied fifoSpace).1 = s ∧
        ((s.write b allocated copied fifoSpace).2 = b.len → b.len = 0) ∨
      0 < b.len ∧ s.port.txbuf = 0 ∧ s.port.modeRxTx ≠ .rx ∧
        s.write b allocated copied fifoSpace = (s.started b fifoSpace, (b.len : Int)) := by
  by_cases hlen : b.len = 0
  · simp [Ssc.write, hlen]
  · by_cases hfree : s.port.txbuf = 0
    · cases allocated with
      | false =>
        left
        simp [Ssc.write, hlen, hfree, eNoMem]
      | true =>
        cases copied with
        | false =>
          left
          simp [Ssc.write, hlen, hfree, eFault]
        | true => exact s.kwrite_cases b fifoSpace
    · left
      simp [Ssc.write, hlen, hfree, eBusy]

/-- A call of `tx_int` for unsent bytes: the polling loop leaves it out when there are none, and an
interrupt that comes then, its line being opened again behind the last one, sends nothing. -/
def Ssc.txCall (s : Ssc) (fifoSpace : Nat) : Ssc :=
  if s.port.txbufPtr < s.port.txbufEnd then s.txInt fifoSpace else s

/-- The calls of `tx_int` between two states of a run. -/
def callsSince (s t : Ssc) : List (Nat × List TxAccess) := t.calls.drop s.calls.length

def accessesSince (s t : Ssc) : List TxAccess := (callsSince s t).flatMap Prod.snd

/-- From `s` to `t` the port has sent entries of widths `ws` of the buffer. -/
structure Sending (b : KBuf) (s t : Ssc) (ws : List TxWidth) : Prop where
  calls : ∃ cs, t.calls = s.calls ++ cs ∧ cs.flatMap Prod.snd = layOut b.addr ws ∧
    ∀ c ∈ cs, c.2.length ≤ c.1
  ptr : t.port.txbufPtr = b.addr + txSize ws
  bufEnd : t.port.txbufEnd = b.addr + b.len
  size : txSize ws ≤ b.len
  shape : TxShape b.len ws
  txBytes : t.port.txBytes = s.port.txBytes + BitVec.ofNat 32 (txSize ws)
  txbuf : t.port.txbuf = if txSize ws = b.len then 0 else b.addr

@[simp] theorem Ssc.kfree_port (s : Ssc) (addr : Nat) : (s.kfree addr).port = s.port := by
  unfold Ssc.kfree
  split
  · rfl
  · split <;> rfl

@[simp] theorem Ssc.kfree_calls (s : Ssc) (addr : Nat) : (s.kfree addr).calls = s.calls := by
  unfold Ssc.kfree
  split
  · rfl
  · split <;> rfl

theorem Ssc.txInt_port (s : Ssc) (fifoSpace : Nat) :
    (s.txInt fifoSpace).port = (DanubeBsp.txInt s.port fifoSpace).port := by
  unfold Ssc.txInt
  dsimp only
  split
  · rw [Ssc.kfree_port]
  · rfl

theorem Ssc.txInt_calls (s : Ssc) (fifoSpace : Nat) :
    (s.txInt fifoSpace).calls =
      s.calls ++ [(fifoSpace, (DanubeBsp.txInt s.port fifoSpace).out)] := by
  unfold Ssc.txInt
  dsimp only
  split
  · rw [Ssc.kfree_calls]
  · rfl

theorem Sending.txInt {b : KBuf} {s t : Ssc} {ws : List TxWidth} (h : Sending b s t ws)
    (hlt : t.port.txbufPtr < t.port.txbufEnd) (fifoSpace : Nat) :
    ∃ us, Sending b s (t.txInt fifoSpace) us := by
  obtain ⟨vs, hpass, hcases⟩ := txInt_cases t.port fifoSpace
  obtain ⟨cs, hcs, hflat, hentries⟩ := h.calls
  have hremaining : t.port.txbufEnd - t.port.txbufPtr = b.len - txSize ws := by
    rw [h.ptr, h.bufEnd]
    omega
  rw [hremaining] at hpass
  have hout : (DanubeBsp.txInt t.port fifoSpace).out = layOut t.port.txbufPtr vs := by
    rcases hcases with ⟨_, he⟩ | ⟨_, he⟩ <;> rw [he]
  have hcalls : ∃ cs, (t.txInt fifoSpace).calls = s.calls ++ cs ∧
      cs.flatMap Prod.snd = layOut b.addr (ws ++ vs) ∧ ∀ c ∈ cs, c.2.length ≤ c.1 := by
    refine ⟨cs ++ [(fifoSpace, layOut t.port.txbufPtr vs)], ?_, ?_, ?_⟩
    · rw [Ssc.txInt_calls, hcs, hout, List.append_assoc]
    · simp [hflat, layOut_append, h.ptr]
    · intro c hc
      rcases List.mem_append.mp hc with hc | hc
      · exact hentries c hc
      · cases List.mem_singleton.mp hc
        rw [layOut_length]
        exact hpass.length
  have hsize := hpass.size
  have hptr := h.ptr
  have hend := h.bufEnd
  have hle := h.size
  have hbytes : t.port.txBytes + BitVec.ofNat 32 (txSize vs) =
      s.port.txBytes + BitVec.ofNat 32 (txSize (ws ++ vs)) := by
    rw [h.txBytes, txSize_append, BitVec.ofNat_add, BitVec.add_assoc]
  refine ⟨ws ++ vs, hcalls, ?_, ?_, ?_, h.shape.append hpass.shape hsize, ?_, ?_⟩
  · rcases hcases with ⟨_, he⟩ | ⟨_, he⟩ <;>
      simp only [Ssc.txInt_port, he, SscPort.sent, txSize_append, hptr, Nat.add_assoc]
  · rcases hcases with ⟨_, he⟩ | ⟨_, he⟩ <;> simp only [Ssc.txInt_port, he, SscPort.sent, hend]
  · rw [txSize_append]
    omega
  · rcases hcases with ⟨_, he⟩ | ⟨_, he⟩ <;> simp only [Ssc.txInt_port, he, SscPort.sent, hbytes]
  · have htxbuf := h.txbuf
    rw [txSize_append]
    rcases hcases with ⟨hmore, he⟩ | ⟨hdone, he⟩
    · rw [← hremaining] at hpass
      have hunsent := hpass.unsent hlt hmore
      simp only [Ssc.txInt_port, he, SscPort.sent]
      rw [htxbuf, if_neg (by omega), if_neg (by omega)]
    · simp only [Ssc.txInt_port, he]
      rw [if_pos (by omega)]

theorem Sending.txCall {b : KBuf} {s t : Ssc} {ws : List TxWidth} (h : Sending b s t ws)
    (fifoSpace : Nat) : ∃ us, Sending b s (t.txCall fifoSpace) us := by
  unfold Ssc.txCall
  split
  next hlt => exact h.txInt hlt fifoSpace
  next => exact ⟨ws, h⟩

theorem Sending.enableTxirq {b : KBuf} {s t : Ssc} {ws : List TxWidth} (h : Sending b s t ws) :
    Sending b s t.enableTxirq ws := by
  unfold Ssc.enableTxirq
  split
  · exact ⟨h.calls, h.ptr, h.bufEnd, h.size, h.shape, h.txBytes, h.txbuf⟩
  · exact h

theorem Ssc.accept_sending (s : Ssc) {b : KBuf} (hlen : 0 < b.len) :
    Sending b s (s.accept b) [] where
  calls := ⟨[], by simp [Ssc.accept], rfl, by simp⟩
  ptr := rfl
  bufEnd := rfl
  size := Nat.zero_le _
  shape := TxShape.nil _
  txBytes := by simp [Ssc.accept]
  txbuf := by
    rw [txSize_nil, if_neg (by omega)]
    rfl

theorem Ssc.started_sending (s : Ssc) {b : KBuf} (hlen : 0 < b.len) (fifoSpace : Nat) :
    ∃ ws, Sending b s (s.started b fifoSpace) ws := by
  have haccept := s.accept_sending hlen
  unfold Ssc.started
  split
  · have hlt : (s.accept b).port.txbufPtr < (s.accept b).port.txbufEnd := by
      rw [haccept.ptr, haccept.bufEnd, txSize_nil]
      omega
    obtain ⟨ws, hws⟩ := haccept.txInt hlt fifoSpace
    exact ⟨ws, hws.enableTxirq⟩
  · exact ⟨[], haccept⟩

theorem Sending.calls_foldl {b : KBuf} {s t : Ssc} {ws : List TxWidth} (h : Sending b s t ws)
    (fifoSpaces : List Nat) : ∃ us, Sending b s (fifoSpaces.foldl Ssc.txCall t) us := by
  induction fifoSpaces generalizing t ws with
  | nil => exact ⟨ws, h⟩
  | cons fifoSpace fifoSpaces ih =>
    obtain ⟨us, hus⟩ := h.txCall fifoSpace
    exact ih hus

/-- The transfer of a buffer between two states of the port. -/
structure SscTxExact (mem : Nat → Byte) (b : KBuf) (s t : Ssc) : Prop where
  sent : ∀ pre, pre <+: accessesSince s t → sentBytes mem pre <+: readBlock mem b.addr b.len
  complete : t.port.txbuf = 0 ↔
    sentBytes mem (accessesSince s t) = readBlock mem b.addr b.len
  counted : t.port.txBytes =
    s.port.txBytes + BitVec.ofNat 32 (sentBytes mem (accessesSince s t)).length
  entries : ∀ c ∈ callsSince s t, c.2.length ≤ c.1
  widths : (accessesSince s t).Pairwise fun x y => y.width = .w32 → x.width = .w32

theorem Sending.exact {b : KBuf} {s t : Ssc} {ws : List TxWidth} (h : Sending b s t ws)
    (mem : Nat → Byte) : SscTxExact mem b s t := by
  obtain ⟨cs, hcs, hflat, hentries⟩ := h.calls
  have hsince : callsSince s t = cs := by rw [callsSince, hcs, List.drop_left]
  have haccesses : accessesSince s t = layOut b.addr ws := by rw [accessesSince, hsince, hflat]
  have hbytes : sentBytes mem (accessesSince s t) = readBlock mem b.addr (txSize ws) := by
    rw [haccesses, sentBytes_layOut]
  have hsplit : readBlock mem b.addr b.len = readBlock mem b.addr (txSize ws) ++
      readBlock mem (b.addr + txSize ws) (b.len - txSize ws) := by
    rw [← readBlock_add, Nat.add_sub_cancel' h.size]
  refine ⟨?_, ?_, ?_, ?_, ?_⟩
  · intro pre hpre
    obtain ⟨rest, hrest⟩ := hpre
    have hprefix : sentBytes mem pre <+: sentBytes mem (accessesSince s t) := by
      rw [← hrest]
      simp [sentBytes]
    rw [hbytes] at hprefix
    rw [hsplit]
    exact hprefix.trans (List.prefix_append _ _)
  · rw [hbytes, h.txbuf]
    constructor
    · intro hzero
      have hpos := b.pos
      split at hzero
      next hsize => rw [hsize]
      next => omega
    · intro hwhole
      have hlength := congrArg List.length hwhole
      rw [readBlock_length, readBlock_length] at hlength
      rw [if_pos hlength]
  · rw [hbytes, readBlock_length]
    exact h.txBytes
  · rw [hsince]
    exact hentries
  · rw [haccesses]
    have hpairs := h.shape.pairwise
    rw [← layOut_width b.addr ws] at hpairs
    exact List.pairwise_map.mp hpairs

/-- The bytes that leave for an accepted write are the buffer's, in order, whatever room the calls of
`tx_int` find in the FIFO. -/
theorem ssc_tx_stream_exact (mem : Nat → Byte) {s u : Ssc} {b : KBuf} {fifoSpace : Nat}
    {allocated copied : Bool} (hlen : 0 < b.len)
    (hwrite : s.kwrite b fifoSpace = (u, (b.len : Int)) ∨
      s.write b allocated copied fifoSpace = (u, (b.len : Int)))
    (fifoSpaces : List Nat) : SscTxExact mem b s (fifoSpaces.foldl Ssc.txCall u) := by
  have hu : u = s.started b fifoSpace := by
    rcases hwrite with h | h
    · rcases s.kwrite_cases b fifoSpace with ⟨_, hret⟩ | ⟨_, _, _, haccept⟩
      · have hzero := hret (by rw [h])
        omega
      · rw [h] at haccept
        exact (Prod.mk.inj haccept).1
    · rcases s.write_cases b allocated copied fifoSpace with ⟨_, hret⟩ | ⟨_, _, _, haccept⟩
      · have hzero := hret (by rw [h])
        omega
      · rw [h] at haccept
        exact (Prod.mk.inj haccept).1
  obtain ⟨ws, hws⟩ := s.started_sending hlen fifoSpace
  rw [← hu] at hws
  obtain ⟨us, hus⟩ := hws.calls_foldl fifoSpaces
  exact hus.exact mem

/-- Seven bytes leave as a word, a half-word and a byte when the FIFO takes one entry at a time. -/
theorem ssc_tx_stream_seven :
    ∃ u, sscStart.kwrite ⟨0x1000, 7, by decide⟩ 1 = (u, 7) ∧
      SscTxExact (fun a => BitVec.ofNat 8 a) ⟨0x1000, 7, by decide⟩ sscStart
        ([1, 0, 1, 1].foldl Ssc.txCall u) ∧
      ([1, 0, 1, 1].foldl Ssc.txCall u).port.txbuf = 0 := by
  refine ⟨_, rfl, ?_, rfl⟩
  exact @ssc_tx_stream_exact _ sscStart _ ⟨0x1000, 7, by decide⟩ 1 true true (by decide) (Or.inl rfl)
    [1, 0, 1, 1]

end DanubeBsp
