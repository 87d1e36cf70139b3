import DanubeBsp.MeiHdlc

namespace DanubeBsp

/-- A response that the modem holds: its length and its bytes. -/
structure HdlcResponse where
  length : Half
  bytes : Nat → Byte

/-- The modem while it holds a response. A read of `INFO` 83 at index 3 gives the length, and a read of
`INFO` 82 the words that it asks for. Everything else is open, also which calls fail. -/
structure HdlcModem (σ : Type*) extends Modem σ where
  response : HdlcResponse
  lengthRead : ∀ s rx s', winhost s (readCMV infoGroup 83 3 1) = (.ok rx, s') →
    rx 4 = response.length
  dataRead : ∀ (s : σ) (index : Half) (size : Nat) (rx : Nat → Half) (s' : σ), size ≤ 12 →
    winhost s (readCMV infoGroup 82 index size) = (.ok rx, s') →
      ∀ i, i < size → rx (4 + i) = halfAt response.bytes (index.toNat + i)

/-- `memcpy` of `n` bytes from `CMVMSG[4]` on to `pkt + at`. -/
def copyMessage (pkt : Nat → Byte) (current n : Nat) (rx : Nat → Half) : Nat → Byte := fun k =>
  if current ≤ k ∧ k < current + n then
    (halfBytes (rx (4 + (k - current) / 2))).getD ((k - current) % 2) 0
  else pkt k

/-- What a read returns, the packet in the caller's memory, the number of reads of the inner loop, and
the modem afterwards. -/
structure HdlcReceived (σ : Type*) where
  ret : Int
  pkt : Nat → Byte
  reads : Nat
  modem : σ

section

variable {σ : Type*} (m : Modem σ)

/-- The inner loop of `ifx_mei_hdlc_read`, from byte `current` of the packet on. -/
def hdlcFetch (pktLen current : Nat) (pkt : Nat → Byte) (reads : Nat) (s : σ) : HdlcReceived σ :=
  if current < pktLen then
    let msgReadLen :=
      if pktLen - current > msgLength * 2 - 8 then msgLength * 2 - 8 else pktLen - current
    match m.winhost s
        (readCMV infoGroup 82 (BitVec.ofNat 16 (current / 2)) ((msgReadLen + 1) / 2)) with
    | (.error e, s) => ⟨e.value, pkt, reads + 1, s⟩
    | (.ok rx, s) =>
      hdlcFetch pktLen (current + msgReadLen) (copyMessage pkt current msgReadLen rx) (reads + 1) s
  else ⟨current, pkt, reads, s⟩
termination_by pktLen - current
decreasing_by
  unfold msgLength
  split <;> omega

/-- What `ifx_mei_hdlc_read` does once a response is there. -/
def hdlcReadResponse (maxLen : Int) (pkt : Nat → Byte) (s : σ) : HdlcReceived σ :=
  match m.winhost s (readCMV infoGroup 83 3 1) with
  | (.error _, s) => ⟨eIo, pkt, 0, s⟩
  | (.ok rx, s) =>
    if maxLen < (rx 4).toNat then ⟨eNoMem, pkt, 0, s⟩
    else hdlcFetch m (rx 4).toNat 0 pkt 0 s

/-- The outer loop of `ifx_mei_hdlc_read`, with the tries that are left and the last `ret`. -/
def hdlcReadLoop (maxLen : Int) (pkt : Nat → Byte) : Nat → Int → σ → HdlcReceived σ
  | 0, ret, s => ⟨ret, pkt, 0, s⟩
  | tries + 1, _, s =>
    let status := ifxMeHdlcStatus m s
    if status.1 = meHdlcRespRcvd then hdlcReadResponse m maxLen pkt status.2
    else hdlcReadLoop maxLen pkt tries eNoData (m.sleep status.2)

def ifxMeiHdlcRead (maxLen : Int) (pkt : Nat → Byte) (s : σ) : HdlcReceived σ :=
  hdlcReadLoop m maxLen pkt 10 0 s

end

/-- The response is in the caller's memory, and nothing behind it was written. -/
structure Reassembled (resp : HdlcResponse) (maxLen : Int) (pkt : Nat → Byte) {σ : Type*}
    (r : HdlcReceived σ) : Prop where
  ret : r.ret = resp.length.toNat
  limit : (resp.length.toNat : Int) ≤ maxLen
  bytes : ∀ k, k < resp.length.toNat → r.pkt k = resp.bytes k
  frame : ∀ k, resp.length.toNat ≤ k → r.pkt k = pkt k
  reads : r.reads = (resp.length.toNat + 23) / 24

theorem CmvFailure.value_neg (e : CmvFailure) : e.value < 0 := by
  cases e <;> decide

section

variable {σ : Type*} {m : HdlcModem σ}

theorem halfAt_bytes (data : Nat → Byte) (i k : Nat) (hk : k < 2) :
    (halfBytes (halfAt data i)).getD k 0 = data (2 * i + k) := by
  rw [halfAt, halfBytes_beHalf]
  have hcases : k = 0 ∨ k = 1 := by omega
  rcases hcases with rfl | rfl
  · rfl
  · rfl

/-- A piece that starts at an even byte is copied as the response has it. -/
theorem copyMessage_piece {pkt : Nat → Byte} {current n : Nat} {rx : Nat → Half} {s s' : σ}
    (heven : 2 ∣ current) (hcurrent : current / 2 < 2 ^ 16) (hn : n ≤ 24)
    (h : m.winhost s (readCMV infoGroup 82 (BitVec.ofNat 16 (current / 2)) ((n + 1) / 2)) =
      (.ok rx, s')) (k : Nat) :
    copyMessage pkt current n rx k =
      if current ≤ k ∧ k < current + n then m.response.bytes k else pkt k := by
  unfold copyMessage
  by_cases hk : current ≤ k ∧ k < current + n
  · have hindex : (BitVec.ofNat 16 (current / 2)).toNat = current / 2 := by
      rw [BitVec.toNat_ofNat]
      exact Nat.mod_eq_of_lt hcurrent
    rw [if_pos hk, if_pos hk, m.dataRead s _ _ rx s' (by omega) h ((k - current) / 2) (by omega),
      hindex, halfAt_bytes _ _ _ (Nat.mod_lt _ (by decide))]
    congr 1
    omega
  · rw [if_neg hk, if_neg hk]

theorem pieceSize_cases {pktLen current : Nat} (hlt : current < pktLen) :
    ∃ n, (if pktLen - current > msgLength * 2 - 8 then msgLength * 2 - 8 else pktLen - current) =
      n ∧ 0 < n ∧ n ≤ 24 ∧ current + n ≤ pktLen ∧ (n = 24 ∨ current + n = pktLen) := by
  have hmsg : msgLength * 2 - 8 = 24 := rfl
  rw [hmsg]
  by_cases hc : pktLen - current > 24
  · rw [if_pos hc]
    exact ⟨24, rfl, by omega, by omega, by omega, .inl rfl⟩
  · rw [if_neg hc]
    exact ⟨_, rfl, by omega, by omega, by omega, .inr (by omega)⟩

/-- The inner loop: an error, or the response from byte `current` on, in pieces of 24 bytes. -/
theorem hdlcFetch_spec {current : Nat} {pkt : Nat → Byte} {reads : Nat} {s : σ}
    (hcurrent : current % 24 = 0 ∨ current = m.response.length.toNat)
    (hle : current ≤ m.response.length.toNat) :
    let r := hdlcFetch m.toModem m.response.length.toNat current pkt reads s
    r.ret < 0 ∨ (r.ret = m.response.length.toNat ∧
      (∀ k, r.pkt k = if current ≤ k ∧ k < m.response.length.toNat then m.response.bytes k
        else pkt k) ∧
      r.reads = reads + (m.response.length.toNat - current + 23) / 24) := by
  have hlen := m.response.length.isLt
  generalize hleft : m.response.length.toNat - current = left
  induction left using Nat.strong_induction_on generalizing current pkt reads s with
  | _ left ih =>
    subst hleft
    unfold hdlcFetch
    by_cases hlt : current < m.response.length.toNat
    · have hstart : current % 24 = 0 := hcurrent.resolve_right (ne_of_lt hlt)
      obtain ⟨n, hn, hpos, hsmall, hfit, hpiece⟩ := pieceSize_cases hlt
      rw [if_pos hlt, hn]
      dsimp only
      split
      next e s' _ => exact .inl e.value_neg
      next rx s' hread =>
        have hcopy := @copyMessage_piece σ m pkt current n rx s s' (by omega) (by omega) hsmall hread
        have hrest := @ih (m.response.length.toNat - (current + n)) (by omega) (current + n)
          (copyMessage pkt current n rx) (reads + 1) s' (by omega) hfit rfl
        refine hrest.imp_right ?_
        rintro ⟨hret, hbytes, hreads⟩
        refine ⟨hret, ?_, by omega⟩
        intro k
        rw [hbytes, hcopy]
        by_cases hk : current + n ≤ k ∧ k < m.response.length.toNat
        · rw [if_pos hk, if_pos (by omega)]
        · rw [if_neg hk]
          by_cases hk' : current ≤ k ∧ k < current + n
          · rw [if_pos hk', if_pos (by omega)]
          · rw [if_neg hk', if_neg (by omega)]
    · rw [if_neg hlt]
      have hend : current = m.response.length.toNat := by omega
      refine .inr ⟨by rw [hend], ?_, ?_⟩
      · intro k
        rw [if_neg (by omega)]
      · dsimp only
        omega

theorem hdlcReadResponse_spec (maxLen : Int) (pkt : Nat → Byte) (s : σ) :
    (hdlcReadResponse m.toModem maxLen pkt s).ret < 0 ∨
      Reassembled m.response maxLen pkt (hdlcReadResponse m.toModem maxLen pkt s) := by
  unfold hdlcReadResponse
  split
  next => exact .inl (show eIo < 0 by decide)
  next rx s' hread =>
    rw [m.lengthRead s rx s' hread]
    split
    next => exact .inl (show eNoMem < 0 by decide)
    next hlimit =>
      refine (hdlcFetch_spec (.inl rfl) (Nat.zero_le _)).imp_right ?_
      rintro ⟨hret, hbytes, hreads⟩
      refine ⟨hret, not_lt.mp hlimit, ?_, ?_, ?_⟩
      · intro k hk
        rw [hbytes, if_pos ⟨Nat.zero_le k, hk⟩]
      · intro k hk
        rw [hbytes, if_neg (by omega)]
      · rw [hreads, Nat.zero_add, Nat.sub_zero]

theorem hdlcReadLoop_spec (maxLen : Int) (pkt : Nat → Byte) (tries : Nat) {ret : Int} {s : σ}
    (htries : 0 < tries ∨ ret < 0) :
    (hdlcReadLoop m.toModem maxLen pkt tries ret s).ret < 0 ∨
      Reassembled m.response maxLen pkt (hdlcReadLoop m.toModem maxLen pkt tries ret s) := by
  induction tries generalizing ret s with
  | zero => exact .inl (htries.resolve_left (by omega))
  | succ tries ih =>
    rw [hdlcReadLoop]
    split
    next => exact hdlcReadResponse_spec maxLen pkt _
    next => exact ih (.inr (by decide))

/-- `ifx_mei_hdlc_read` returns an error or the whole response of the modem and nothing else. -/
theorem hdlc_read_reassembles (m : HdlcModem σ) (maxLen : Int) (pkt : Nat → Byte) (s : σ) :
    (ifxMeiHdlcRead m.toModem maxLen pkt s).ret < 0 ∨
      Reassembled m.response maxLen pkt (ifxMeiHdlcRead m.toModem maxLen pkt s) :=
  hdlcReadLoop_spec maxLen pkt 10 (.inl (by decide))

end

/-- A modem in showtime that has a response and answers every request. -/
def answeringModem (resp : HdlcResponse) : HdlcModem Unit where
  showtime := fun _ => true
  winhost := fun _ msg =>
    (.ok fun i =>
      if msg.getD 2 0 = 83 then resp.length
      else if msg.getD 2 0 = 82 then halfAt resp.bytes ((msg.getD 3 0).toNat + (i - 4))
      else 4#16, ())
  sleep := id
  response := resp
  lengthRead := by
    rintro s rx s' h
    cases h
    rfl
  dataRead := by
    rintro s index size rx s' - h i -
    cases h
    have hindex : (readCMV infoGroup 82 index size).getD 3 0 = index := rfl
    have haddress : (readCMV infoGroup 82 index size).getD 2 0 = 82 := rfl
    simp only [hindex, haddress, if_neg (show ¬(82 : Half) = 83 by decide), if_true,
      Nat.add_sub_cancel_left]

theorem hdlcFetch_answered (resp : HdlcResponse) {pktLen current : Nat} (hle : current ≤ pktLen)
    (pkt : Nat → Byte) (reads : Nat) :
    (hdlcFetch (answeringModem resp).toModem pktLen current pkt reads ()).ret = pktLen := by
  generalize hleft : pktLen - current = left
  induction left using Nat.strong_induction_on generalizing current pkt reads with
  | _ left ih =>
    unfold hdlcFetch
    by_cases hlt : current < pktLen
    · obtain ⟨n, hn, hpos, -, hfit, -⟩ := pieceSize_cases hlt
      rw [if_pos hlt, hn]
      exact ih (pktLen - (current + n)) (by omega) hfit _ _ rfl
    · rw [if_neg hlt]
      have hend : current = pktLen := by omega
      rw [hend]

theorem hdlcRead_answered (resp : HdlcResponse) {maxLen : Int} (hmax : resp.length.toNat ≤ maxLen)
    (pkt : Nat → Byte) :
    (ifxMeiHdlcRead (answeringModem resp).toModem maxLen pkt ()).ret = resp.length.toNat := by
  have hrx : (answeringModem resp).winhost () (readCMV statGroup 14 0 1) =
      (.ok fun _ => 4#16, ()) := rfl
  have hstatus : ifxMeHdlcStatus (answeringModem resp).toModem () = (meHdlcRespRcvd, ()) := by
    unfold ifxMeHdlcStatus
    rw [hrx]
    rfl
  have hlength : (answeringModem resp).winhost () (readCMV infoGroup 83 3 1) =
      (.ok fun _ => resp.length, ()) := rfl
  rw [ifxMeiHdlcRead, hdlcReadLoop, hstatus, if_pos rfl, hdlcReadResponse, hlength]
  dsimp only
  rw [if_neg (not_lt.mpr hmax)]
  exact hdlcFetch_answered resp (Nat.zero_le _) pkt 0

end DanubeBsp
