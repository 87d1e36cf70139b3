import DanubeBsp.ByteOrder
import DanubeBsp.Errno

namespace DanubeBsp

/-- `MSG_LENGTH`, in words of 16 bits. -/
def msgLength : Nat := 16

def h2dCmvRead : Byte := 0x00#8

def h2dCmvWrite : Byte := 0x04#8

def cntlGroup : Byte := 1#8

def statGroup : Byte := 2#8

def infoGroup : Byte := 3#8

/-- The words of a message that lie in memory from `data` on. -/
def halfAt (data : Nat → Byte) (i : Nat) : Half := beHalf (data (2 * i)) (data (2 * i + 1))

/-- `makeCMV`: what it writes from `CMVMSG` on. The payload is copied with the whole `size`, also
where that is more than the message has. -/
def makeCMV (opcode group : Byte) (address index : Half) (size : Nat) (data : Nat → Byte) :
    List Half :=
  let header : List Half :=
    [(opcode.setWidth 16 <<< 4) + BitVec.ofNat 16 (size % 16),
      ((if index = 0 then 0#16 else 1#16) <<< 7) + (group &&& 0x7f#8).setWidth 16, address, index]
  let payload := if opcode = h2dCmvWrite then (List.range size).map (halfAt data) else []
  header ++ payload ++ List.replicate (msgLength - 4 - payload.length) 0#16

/-- A request without data, where `data` is a null pointer. -/
def readCMV (group : Byte) (address index : Half) (size : Nat) : List Half :=
  makeCMV h2dCmvRead group address index size fun _ => 0

def halfMem (h : Half) : Nat → Byte := fun k => (halfBytes h).getD k 0

/-- How the CMV ioctl fails: in `down_interruptible`, or in `meiCMV`. -/
inductive CmvFailure
  | restart
  | failure

def CmvFailure.value : CmvFailure → Int
  | .restart => eRestartSys
  | .failure => -1

/-- All that the HDLC functions see of the driver and the modem: the `showtime` flag and the ioctl
`DANUBE_MEI_CMV_WINHOST` with its answer, which both may change with every call and every sleep. -/
structure Modem (σ : Type*) where
  showtime : σ → Bool
  winhost : σ → List Half → Except CmvFailure (Nat → Half) × σ
  sleep : σ → σ

def meHdlcIdle : Int := 0

def meHdlcMsgQueued : Int := 2

def meHdlcMsgSent : Int := 3

def meHdlcRespRcvd : Int := 4

inductive MeResolved
  | unresolved
  | resolved
  | popEocFail
  deriving DecidableEq

section

variable {σ : Type*} (m : Modem σ)

def ifxMeHdlcStatus (s : σ) : Int × σ :=
  if !m.showtime s then (eNetReset, s)
  else
    match m.winhost s (readCMV statGroup 14 0 1) with
    | (.error _, s) => (eIo, s)
    | (.ok rx, s) => ((rx 4 &&& 0x0f#16).toNat, s)

def ifxMeIsResloved (status : Int) (s : σ) : MeResolved × σ :=
  if status = meHdlcMsgQueued ∨ status = meHdlcMsgSent then (.unresolved, s)
  else if status = meHdlcIdle then
    match m.winhost s (readCMV cntlGroup 2 0 1) with
    | (.error _, s) => (.popEocFail, s)
    | (.ok rx, s) => (if rx 4 &&& 1#16 ≠ 0 then .unresolved else .resolved, s)
  else (.resolved, s)

/-- The two messages of `_ifx_mei_hdlc_send` that carry the packet: the data and its length. -/
def hdlcDataCMV (pkt : Nat → Byte) (pktLen : Half) : List Half :=
  makeCMV h2dCmvWrite infoGroup 81 0 ((pktLen.toNat + 1) / 2) pkt

def hdlcLengthCMV (pktLen : Half) : List Half :=
  makeCMV h2dCmvWrite infoGroup 83 2 1 (halfMem pktLen)

/-- What a send returns, the messages that it has built, and the modem afterwards. -/
structure HdlcSent (σ : Type*) where
  ret : Int
  built : List (List Half)
  modem : σ

/-- `_ifx_mei_hdlc_send`; `len` goes to a `u16` first. -/
def ifxMeiHdlcSendPacket (pkt : Nat → Byte) (len maxLength : Int) (s : σ) : HdlcSent σ :=
  let pktLen := BitVec.ofInt 16 len
  if maxLength < pktLen.toNat then ⟨eNoBufs, [], s⟩
  else
    let data := hdlcDataCMV pkt pktLen
    match m.winhost s data with
    | (.error _, s) => ⟨eIo, [data], s⟩
    | (.ok _, s) =>
      let length := hdlcLengthCMV pktLen
      match m.winhost s length with
      | (.error _, s) => ⟨eIo, [data, length], s⟩
      | (.ok _, s) =>
        let start := makeCMV h2dCmvWrite cntlGroup 2 0 1 (halfMem 1)
        match m.winhost s start with
        | (.error _, s) => ⟨eIo, [data, length, start], s⟩
        | (.ok _, s) => ⟨0, [data, length, start], s⟩

/-- What `ifx_mei_hdlc_send` does once the modem is ready. -/
def hdlcSendReady (pkt : Nat → Byte) (len : Int) (s : σ) : HdlcSent σ :=
  match m.winhost s (readCMV infoGroup 83 0 1) with
  | (.error _, s) => ⟨eIo, [], s⟩
  | (.ok rx, s) => ifxMeiHdlcSendPacket m pkt len (rx 4).toNat s

def hdlcPoll (s : σ) : MeResolved × σ :=
  let r := ifxMeHdlcStatus m s
  ifxMeIsResloved m r.1 r.2

/-- The loop of `ifx_mei_hdlc_send`. A result of `none` means that the given number of rounds was not
enough. No round changes `retry`. -/
def hdlcSendLoop (pkt : Nat → Byte) (len : Int) (retry : Nat) : Nat → σ → Option (HdlcSent σ)
  | rounds, s =>
    if retry < 10 then
      match rounds with
      | 0 => none
      | rounds + 1 =>
        match hdlcPoll m s with
        | (.resolved, s) => some (hdlcSendReady m pkt len s)
        | (_, s) => hdlcSendLoop pkt len retry rounds (m.sleep s)
    else some ⟨eBusy, [], s⟩

/-- `ifx_mei_hdlc_send` with a bound on the rounds. -/
def ifxMeiHdlcSend (pkt : Nat → Byte) (len : Int) (rounds : Nat) (s : σ) : Option (HdlcSent σ) :=
  hdlcSendLoop m pkt len 0 rounds s

/-- The modem before round `k`, as long as it was never ready. -/
def polled (s : σ) : Nat → σ
  | 0 => s
  | k + 1 => polled (m.sleep (hdlcPoll m s).2) k

/-- By its answers in a round the modem is ready: it is not in showtime or does not answer to the status
request; or it has no message under way, and if it is idle then it answers that the start bit is clear. -/
def HdlcReady (s : σ) : Prop :=
  m.showtime s = false ∨
    match m.winhost s (readCMV statGroup 14 0 1) with
    | (.error _, _) => True
    | (.ok rx, s) =>
      rx 4 &&& 0x0f#16 ≠ 2#16 ∧ rx 4 &&& 0x0f#16 ≠ 3#16 ∧
        (rx 4 &&& 0x0f#16 = 0#16 →
          ∃ rx', (m.winhost s (readCMV cntlGroup 2 0 1)).1 = .ok rx' ∧ rx' 4 &&& 1#16 = 0#16)

/-- The call returns within ten rounds, with `-EBUSY` when no round finds the modem ready. -/
def SendGivesUp (pkt : Nat → Byte) (len : Int) (s : σ) : Prop :=
  ∃ r, ifxMeiHdlcSend m pkt len 10 s = some r ∧
    ((∀ k, k < 10 → ¬HdlcReady m (polled m s k)) → r.ret = eBusy)

variable {m}

/-- A status is the number in the low bits of the answer. -/
theorem hdlcStatus_eq_iff (h : Half) {n : Nat} (hn : n < 2 ^ 16) :
    ((h.toNat : Int) = (n : Int)) ↔ h = BitVec.ofNat 16 n := by
  rw [Int.natCast_inj, ← BitVec.toNat_inj, BitVec.toNat_ofNat, Nat.mod_eq_of_lt hn]

/-- A round of the loop resolves the poll exactly when the modem is ready. -/
theorem hdlcPoll_resolved_iff {s : σ} : (hdlcPoll m s).1 = .resolved ↔ HdlcReady m s := by
  unfold hdlcPoll ifxMeHdlcStatus HdlcReady
  cases hshow : m.showtime s with
  | false => exact iff_of_true rfl (.inl rfl)
  | true =>
    simp only [Bool.not_true, Bool.false_eq_true, if_false, reduceCtorEq, false_or]
    rcases m.winhost s (readCMV statGroup 14 0 1) with ⟨answer, s'⟩
    cases answer with
    | error e => exact iff_of_true rfl trivial
    | ok rx =>
      have hqueued : ((rx 4 &&& 0x0f#16).toNat : Int) = 2 ↔ rx 4 &&& 0x0f#16 = 2#16 :=
        hdlcStatus_eq_iff _ (by decide)
      have hsent : ((rx 4 &&& 0x0f#16).toNat : Int) = 3 ↔ rx 4 &&& 0x0f#16 = 3#16 :=
        hdlcStatus_eq_iff _ (by decide)
      have hidle : ((rx 4 &&& 0x0f#16).toNat : Int) = 0 ↔ rx 4 &&& 0x0f#16 = 0#16 :=
        hdlcStatus_eq_iff _ (by decide)
      dsimp only
      unfold ifxMeIsResloved meHdlcMsgQueued meHdlcMsgSent meHdlcIdle
      by_cases hbusy : rx 4 &&& 0x0f#16 = 2#16 ∨ rx 4 &&& 0x0f#16 = 3#16
      · rw [if_pos (hbusy.imp hqueued.mpr hsent.mpr)]
        refine iff_of_false (by simp) ?_
        intro h
        exact hbusy.elim h.1 h.2.1
      · obtain ⟨hnotQueued, hnotSent⟩ := not_or.mp hbusy
        rw [if_neg fun h => hbusy (h.imp hqueued.mp hsent.mp)]
        by_cases hzero : rx 4 &&& 0x0f#16 = 0#16
        · rw [if_pos (hidle.mpr hzero)]
          rcases m.winhost s' (readCMV cntlGroup 2 0 1) with ⟨control, s''⟩
          cases control with
          | error e =>
            refine iff_of_false (by simp) ?_
            intro h
            obtain ⟨rx', hrx', -⟩ := h.2.2 hzero
            cases hrx'
          | ok rx' =>
            dsimp only
            by_cases hstart : rx' 4 &&& 1#16 = 0
            · rw [if_neg (not_not.mpr hstart)]
              exact iff_of_true rfl ⟨hnotQueued, hnotSent, fun _ => ⟨rx', rfl, hstart⟩⟩
            · rw [if_pos hstart]
              refine iff_of_false (by simp) ?_
              intro h
              obtain ⟨rx'', hrx'', hclear⟩ := h.2.2 hzero
              cases hrx''
              exact hstart hclear
        · rw [if_neg fun h => hzero (hidle.mp h)]
          exact iff_of_true rfl ⟨hnotQueued, hnotSent, fun h => absurd h hzero⟩

theorem hdlcSendLoop_resolved {pkt : Nat → Byte} {len : Int} {retry rounds : Nat} {s : σ}
    (hretry : retry < 10) (h : HdlcReady m s) :
    hdlcSendLoop m pkt len retry (rounds + 1) s =
      some (hdlcSendReady m pkt len (hdlcPoll m s).2) := by
  rw [← hdlcPoll_resolved_iff] at h
  rw [hdlcSendLoop, if_pos hretry]
  generalize hdlcPoll m s = r at h ⊢
  obtain ⟨res, s'⟩ := r
  cases h
  rfl

theorem hdlcSendLoop_unresolved {pkt : Nat → Byte} {len : Int} {retry rounds : Nat} {s : σ}
    (hretry : retry < 10) (h : ¬HdlcReady m s) :
    hdlcSendLoop m pkt len retry (rounds + 1) s =
      hdlcSendLoop m pkt len retry rounds (m.sleep (hdlcPoll m s).2) := by
  rw [← hdlcPoll_resolved_iff] at h
  rw [hdlcSendLoop, if_pos hretry]
  generalize hdlcPoll m s = r at h ⊢
  obtain ⟨res, s'⟩ := r
  cases res with
  | unresolved => rfl
  | resolved => exact absurd rfl h
  | popEocFail => rfl

/-- With `retry` below its bound the loop only ends in a round that finds the modem ready. -/
theorem hdlcSendLoop_returns_iff {pkt : Nat → Byte} {len : Int} {retry rounds : Nat} {s : σ}
    (hretry : retry < 10) :
    (∃ r, hdlcSendLoop m pkt len retry rounds s = some r) ↔
      ∃ k, k < rounds ∧ HdlcReady m (polled m s k) := by
  induction rounds generalizing s with
  | zero =>
    rw [hdlcSendLoop, if_pos hretry]
    refine iff_of_false ?_ ?_
    · rintro ⟨r, hr⟩
      cases hr
    · rintro ⟨k, hk, -⟩
      omega
  | succ rounds ih =>
    by_cases hready : HdlcReady m s
    · rw [hdlcSendLoop_resolved hretry hready]
      exact iff_of_true ⟨_, rfl⟩ ⟨0, Nat.succ_pos _, hready⟩
    · rw [hdlcSendLoop_unresolved hretry hready, ih]
      constructor
      · rintro ⟨k, hk, hk'⟩
        exact ⟨k + 1, by omega, hk'⟩
      · rintro ⟨k, hk, hk'⟩
        cases k with
        | zero => exact absurd hk' hready
        | succ k => exact ⟨k, by omega, hk'⟩

variable (m)

/-- `ifx_mei_hdlc_send` gives up after ten rounds exactly when it need not: one of them finds the
modem ready. -/
theorem hdlc_send_gives_up_iff (pkt : Nat → Byte) (len : Int) (s : σ) :
    SendGivesUp m pkt len s ↔ ∃ k, k < 10 ∧ HdlcReady m (polled m s k) := by
  have hreturns : (∃ r, ifxMeiHdlcSend m pkt len 10 s = some r) ↔
      ∃ k, k < 10 ∧ HdlcReady m (polled m s k) := hdlcSendLoop_returns_iff (by decide)
  constructor
  · rintro ⟨r, hr, -⟩
    exact hreturns.mp ⟨r, hr⟩
  · rintro ⟨k, hk, hready⟩
    obtain ⟨r, hr⟩ := hreturns.mpr ⟨k, hk, hready⟩
    exact ⟨r, hr, fun hnever => absurd hready (hnever k hk)⟩

/-- A modem in showtime whose HDLC status is always `ME_HDLC_MSG_QUEUED`. -/
def queuedModem : Modem Unit where
  showtime := fun _ => true
  winhost := fun _ _ => (.ok fun _ => 2#16, ())
  sleep := id

theorem queued_modem_polled_forever : ¬SendGivesUp queuedModem (fun _ => 0) 4 () := by
  rintro ⟨r, hr, -⟩
  obtain ⟨k, -, hready⟩ := (hdlcSendLoop_returns_iff (show 0 < 10 by decide)).mp ⟨r, hr⟩
  rcases hready with hshow | hanswer
  · cases hshow
  · exact hanswer.1 rfl

/-- The size field of a message, and the payload that it announces. -/
def cmvSize (msg : List Half) : Nat := (msg.getD 0 0 &&& 0xf#16).toNat

def cmvPayload (msg : List Half) : List Half := (msg.drop 4).take (cmvSize msg)

/-- The two messages carry the packet `pkt[0..len)`, and the first one fits. -/
structure CarriesPacket (pkt : Nat → Byte) (len : Int) (data length : List Half) : Prop where
  size : cmvSize data = ((BitVec.ofInt 16 len).toNat + 1) / 2
  inside : data.length ≤ msgLength
  length : ((length.getD 4 0).toNat : Int) = len
  bytes : ((cmvPayload data).flatMap halfBytes).take len.toNat = (List.range len.toNat).map pkt

/-- The send is refused, or it builds a data message that fits and together with the length message
carries the packet. -/
def SendFits (pkt : Nat → Byte) (len : Int) (maxLength : Half) (s : σ) : Prop :=
  let r := ifxMeiHdlcSendPacket m pkt len maxLength.toNat s
  (r.ret = eNoBufs ∧ r.built = []) ∨
    ∃ rest, r.built = hdlcDataCMV pkt (BitVec.ofInt 16 len) :: rest ∧
      CarriesPacket pkt len (hdlcDataCMV pkt (BitVec.ofInt 16 len))
        (hdlcLengthCMV (BitVec.ofInt 16 len))

section Packet

variable (pkt : Nat → Byte)

theorem beHalf_halfBytes (h : Half) : halfAt (halfMem h) 0 = h := by
  apply BitVec.eq_of_getLsbD_eq
  intro i hi
  have hcases : halfAt (halfMem h) 0 = h.extractLsb' 8 8 ++ h.extractLsb' 0 8 := rfl
  rw [hcases, BitVec.getLsbD_append]
  split
  next hlow => simp [hlow]
  next hlow =>
    have hin : i - 8 < 8 := by omega
    have hpos : 8 + (i - 8) = i := by omega
    simp [hin, hpos]

theorem halfBytes_beHalf (b₀ b₁ : Byte) : halfBytes (beHalf b₀ b₁) = [b₀, b₁] := by
  have hhigh : (beHalf b₀ b₁).extractLsb' 8 8 = b₀ := by
    ext i hi
    simp only [beHalf, BitVec.getElem_extractLsb', BitVec.getLsbD_append]
    rw [if_neg (by omega), Nat.add_sub_cancel_left, BitVec.getLsbD_eq_getElem hi]
  have hlow : (beHalf b₀ b₁).extractLsb' 0 8 = b₁ := by
    ext i hi
    simp only [beHalf, BitVec.getElem_extractLsb', BitVec.getLsbD_append]
    rw [if_pos (by omega), Nat.zero_add, BitVec.getLsbD_eq_getElem hi]
  rw [halfBytes, hhigh, hlow]

theorem halves_bytes (n : Nat) :
    ((List.range n).map (halfAt pkt)).flatMap halfBytes = (List.range (2 * n)).map pkt := by
  induction n with
  | zero => rfl
  | succ n ih =>
    rw [List.range_succ, List.map_append, List.flatMap_append, ih, Nat.mul_succ, List.range_succ,
      List.range_succ, List.map_append, List.map_append]
    simp [halfAt, halfBytes_beHalf]

theorem hdlcDataCMV_length (pktLen : Half) :
    (hdlcDataCMV pkt pktLen).length = max msgLength (4 + (pktLen.toNat + 1) / 2) := by
  simp [hdlcDataCMV, makeCMV, msgLength]
  omega

theorem hdlcDataCMV_size (pktLen : Half) :
    cmvSize (hdlcDataCMV pkt pktLen) = (pktLen.toNat + 1) / 2 % 16 := by
  have hfield : ∀ k, k < 16 → ((h2dCmvWrite.setWidth 16 <<< 4) + BitVec.ofNat 16 k &&& 0xf#16).toNat =
      k := by decide
  exact hfield _ (Nat.mod_lt _ (by decide))

theorem hdlcLengthCMV_length (pktLen : Half) : (hdlcLengthCMV pktLen).getD 4 0 = pktLen :=
  beHalf_halfBytes pktLen

theorem carriesPacket_short {len : Int} (hpos : 0 ≤ len) (hle : len ≤ 24) :
    CarriesPacket pkt len (hdlcDataCMV pkt (BitVec.ofInt 16 len))
      (hdlcLengthCMV (BitVec.ofInt 16 len)) := by
  have hlen : (BitVec.ofInt 16 len).toNat = len.toNat := by
    rw [BitVec.toNat_ofInt]
    omega
  have hsize : cmvSize (hdlcDataCMV pkt (BitVec.ofInt 16 len)) = (len.toNat + 1) / 2 := by
    rw [hdlcDataCMV_size, hlen]
    omega
  have hpayload : cmvPayload (hdlcDataCMV pkt (BitVec.ofInt 16 len)) =
      (List.range ((len.toNat + 1) / 2)).map (halfAt pkt) := by
    rw [cmvPayload, hsize, hdlcDataCMV, makeCMV, hlen, if_pos rfl, List.append_assoc, List.drop_append_of_le_length (by simp)]
    simp
  refine ⟨?_, ?_, ?_, ?_⟩
  · rw [hsize, hlen]
  · rw [hdlcDataCMV_length, hlen]
    simp only [msgLength]
    omega
  · rw [hdlcLengthCMV_length, hlen]
    omega
  · rw [hpayload, halves_bytes, ← List.map_take, List.take_range]
    congr 2
    omega

end Packet

/-- What `ifx_mei_hdlc_send` builds for the packet, it builds with a maximum that the modem reports. -/
theorem hdlcSendLoop_built {pkt : Nat → Byte} {len : Int} {retry rounds : Nat} {s : σ}
    {r : HdlcSent σ} (h : hdlcSendLoop m pkt len retry rounds s = some r) :
    r.built = [] ∨ ∃ (maxLength : Half) (s' : σ),
      r = ifxMeiHdlcSendPacket m pkt len maxLength.toNat s' := by
  induction rounds generalizing s with
  | zero =>
    rw [hdlcSendLoop] at h
    split at h
    next => cases h
    next =>
      cases Option.some.inj h
      exact .inl rfl
  | succ rounds ih =>
    by_cases hretry : retry < 10
    · by_cases hready : HdlcReady m s
      · rw [hdlcSendLoop_resolved hretry hready] at h
        cases Option.some.inj h
        unfold hdlcSendReady
        split
        next => exact .inl rfl
        next rx s' _ => exact .inr ⟨rx 4, s', rfl⟩
      · rw [hdlcSendLoop_unresolved hretry hready] at h
        exact ih h
    · rw [hdlcSendLoop, if_neg hretry] at h
      cases Option.some.inj h
      exact .inl rfl

/-- Without a refusal the data message is built, whatever the modem answers. -/
theorem ifxMeiHdlcSendPacket_built {pkt : Nat → Byte} {len maxLength : Int} {s : σ}
    (h : ¬maxLength < (BitVec.ofInt 16 len).toNat) :
    ∃ rest, (ifxMeiHdlcSendPacket m pkt len maxLength s).built =
      hdlcDataCMV pkt (BitVec.ofInt 16 len) :: rest := by
  unfold ifxMeiHdlcSendPacket
  rw [if_neg h]
  dsimp only
  split
  next => exact ⟨_, rfl⟩
  next =>
    split
    next => exact ⟨_, rfl⟩
    next =>
      split
      next => exact ⟨_, rfl⟩
      next => exact ⟨_, rfl⟩

/-- The message fits and carries the packet exactly when the modem's maximum is below the lower 16
bits of the length, or the packet has at most 24 bytes. -/
theorem hdlc_packet_fits_iff (pkt : Nat → Byte) (len : Int) (maxLength : Half) (s : σ) :
    SendFits m pkt len maxLength s ↔
      (maxLength.toNat : Int) < len % 2 ^ 16 ∨ (0 ≤ len ∧ len ≤ 24) := by
  have hmod : ((BitVec.ofInt 16 len).toNat : Int) = len % 2 ^ 16 := by
    rw [BitVec.toNat_ofInt]
    omega
  unfold SendFits
  by_cases hrefused : (maxLength.toNat : Int) < (BitVec.ofInt 16 len).toNat
  · refine iff_of_true (.inl ?_) (.inl (hmod ▸ hrefused))
    rw [ifxMeiHdlcSendPacket, if_pos hrefused]
    exact ⟨rfl, rfl⟩
  · obtain ⟨rest, hbuilt⟩ := @ifxMeiHdlcSendPacket_built _ m pkt _ _ s hrefused
    simp only [hbuilt]
    constructor
    · rintro (⟨-, hnil⟩ | ⟨rest', -, hcarries⟩)
      · cases hnil
      · have hinside := hcarries.inside
        have hlength := hcarries.length
        rw [hdlcDataCMV_length] at hinside
        rw [hdlcLengthCMV_length] at hlength
        simp only [msgLength] at hinside
        exact .inr (by omega)
    · rintro (hlt | ⟨hpos, hle⟩)
      · exact absurd (hmod ▸ hlt) hrefused
      · exact .inr ⟨rest, rfl, carriesPacket_short pkt hpos hle⟩

/-- 26 bytes with a maximum of 64: the copy of the payload ends behind the message. -/
theorem long_packet_overruns : ¬SendFits queuedModem (fun _ => 0) 26 64#16 () := by
  rintro (⟨hret, -⟩ | ⟨rest, -, hcarries⟩)
  · exact absurd hret (by decide)
  · exact absurd hcarries.inside (by decide)

end

end DanubeBsp
