import DanubeBsp.VoiceUpstream

namespace DanubeBsp

/-- `mps_message` as a read returns it. -/
structure MpsPkg where
  pData : Word
  nDataBytes : Word
  rtpPaylOffset : Word
  cmdType : Nat
  deriving DecidableEq

/-- The upstream mailbox of the device, the downstream data mailbox, the count of `provide_buffer` and
the buffers that came from `mps_buffer.malloc`. -/
structure ReadState where
  up : UpstreamState
  down : VoiceFifo
  provideBuffer : Nat
  malloced : List Word

/-- What the call finds outside: whether the device has an `up_callback`, the buffers that `malloc`
returns for a provision until it fails and for a command, and the buffer size. -/
structure ReadEnv where
  callback : Bool
  alloc : List Word
  cmdBuffer : Word
  bufSize : Word
  inInterrupt : Bool

/-- The provision on behalf of the reader. -/
def provideOnRead (env : ReadEnv) (s : ReadState) : ReadState :=
  if s.provideBuffer = 0 then s
  else
    let segments := env.alloc.take provisionSegments
    match ifxMpsBufmanBufProvide s.down env.alloc env.bufSize env.inInterrupt with
    | (true, down) =>
      { s with down, provideBuffer := s.provideBuffer - 1, malloced := s.malloced ++ segments }
    | (false, down) =>
      { s with down, malloced := s.malloced ++ segments
               up := { s.up with freed := s.up.freed ++ segments.reverse } }

/-- The data of a voice message: a pointer and a size. -/
def voiceMessage (header : Word) (data : Nat → Word) : MpsPkg :=
  { pData := kseg0addr (data 0), nDataBytes := data 1, rtpPaylOffset := 0
    cmdType := msgHdType header }

/-- `ifx_mps_mbx_read`; the inner `none` is `ERROR`. The call itself has no result when it stores
behind its message buffer, copies a command to the null pointer or does not return within `fuel` passes
of the notifier. The upper layer's callback is a call of its own. -/
def ifxMpsMbxRead (fuel : Nat) (devId : MpsDevices) (env : ReadEnv) (s : ReadState) :
    Option (Option MpsPkg × ReadState) :=
  if msgHdType (ifxMpsFifoRead s.up.fifo 0) = cmdAddressPacket then some (none, s)
  else
    let call := readMessageCall s.up.fifo s.up.irq
    let s := { s with up := { s.up with fifo := call.fifo, irq := call.irq } }
    if call.ret ≠ 0 then some (none, s)
    else if maxUpstrmDatawords < call.stores.length then none
    else
      match devId with
      | .unknown => some (none, s)
      | .command =>
        if env.cmdBuffer = 0 then none
        else
          let fifo := if ifxMpsFifoNotEmpty s.up.fifo then minSpaceUpdate s.up.fifo else s.up.fifo
          some (some ⟨env.cmdBuffer, BitVec.ofNat 32 (plength call.header + 4), 0,
            msgHdType call.header⟩,
            { s with up := { s.up with fifo }, malloced := s.malloced ++ [env.cmdBuffer] })
      | _ =>
        let pkg := voiceMessage call.header call.data
        let s := provideOnRead env s
        if env.callback then some (some pkg, s)
        else
          match ifxMpsMbxDataUpstream fuel s.up with
          | some (up, _) => some (some pkg, { s with up })
          | none => none

/-- The unread words begin with a whole message for the channel. An address packet is for the driver,
whatever its channel field says. -/
structure OwnMessage (chan : Fin 4) (ws : List Word) (header : Word) (payload rest : List Word) :
    Prop where
  words : ws = header :: payload ++ rest
  whole : plength header = 4 * payload.length
  mine : msgHdChan header = chan
  data : msgHdType header ≠ cmdAddressPacket

/-- The read of a channel takes exactly its own message from the head of the mailbox and returns it;
without one it fails and changes neither the mailbox nor the buffers. -/
structure ReadsOwn (chan : Fin 4) (env : ReadEnv) (s : ReadState) : Prop where
  own : ∀ header payload rest, OwnMessage chan (unreadWords s.up.fifo) header payload rest →
    ∃ fuel t, ifxMpsMbxRead fuel (channelDevice chan) env s =
        some (some (voiceMessage header (payload.getD · 0)), t) ∧
      unreadWords t.up.fifo = rest
  other : (¬ ∃ header payload rest, OwnMessage chan (unreadWords s.up.fifo) header payload rest) →
    ∃ fuel t, ifxMpsMbxRead fuel (channelDevice chan) env s = some (none, t) ∧
      t.up.fifo = s.up.fifo ∧ t.up.freed = s.up.freed ∧ t.malloced = s.malloced

theorem OwnMessage.unique {chan : Fin 4} {ws : List Word} {header header' : Word}
    {payload rest payload' rest' : List Word} (h : OwnMessage chan ws header payload rest)
    (h' : OwnMessage chan ws header' payload' rest') :
    header = header' ∧ payload = payload' ∧ rest = rest' := by
  have heq := h.words.symm.trans h'.words
  rw [List.cons_append, List.cons_append] at heq
  obtain ⟨rfl, htail⟩ := List.cons.inj heq
  have hlen : payload.length = payload'.length := by
    have hw := h.whole
    have hw' := h'.whole
    omega
  obtain ⟨rfl, rfl⟩ := List.append_inj htail hlen
  exact ⟨rfl, rfl, rfl⟩

@[simp] theorem provideOnRead_fifo (env : ReadEnv) (s : ReadState) :
    (provideOnRead env s).up.fifo = s.up.fifo := by
  unfold provideOnRead
  split
  next => rfl
  next =>
    dsimp only
    split
    next => rfl
    next => rfl

theorem mbxRead_address (env : ReadEnv) {s : ReadState}
    (h : msgHdType (ifxMpsFifoRead s.up.fifo 0) = cmdAddressPacket) (fuel : Nat)
    (devId : MpsDevices) : ifxMpsMbxRead fuel devId env s = some (none, s) := if_pos h

theorem mbxRead_odd (env : ReadEnv) {s : ReadState}
    (h : msgHdType (ifxMpsFifoRead s.up.fifo 0) ≠ cmdAddressPacket)
    (h4 : plength (ifxMpsFifoRead s.up.fifo 0) % 4 ≠ 0) (fuel : Nat) (devId : MpsDevices) :
    ifxMpsMbxRead fuel devId env s = some (none, { s with up := { s.up with irq := false } }) := by
  unfold ifxMpsMbxRead
  rw [if_neg h, readMessageCall_odd _ h4]
  rfl

/-- What a voice device does once the message has been read. -/
def voiceRead (fuel : Nat) (env : ReadEnv) (call : ReadCall) (s : ReadState) :
    Option (Option MpsPkg × ReadState) :=
  let pkg := voiceMessage call.header call.data
  let s := provideOnRead env { s with up := { s.up with fifo := call.fifo, irq := call.irq } }
  if env.callback then some (some pkg, s)
  else
    match ifxMpsMbxDataUpstream fuel s.up with
    | some (up, _) => some (some pkg, { s with up })
    | none => none

theorem mbxRead_voice {env : ReadEnv} {s : ReadState}
    (h : msgHdType (ifxMpsFifoRead s.up.fifo 0) ≠ cmdAddressPacket)
    (h4 : plength (ifxMpsFifoRead s.up.fifo 0) % 4 = 0) (fuel : Nat) (chan : Fin 4) :
    ifxMpsMbxRead fuel (channelDevice chan) env s =
      if maxUpstrmDatawords < (readMessageCall s.up.fifo s.up.irq).stores.length then none
      else voiceRead fuel env (readMessageCall s.up.fifo s.up.irq) s := by
  unfold ifxMpsMbxRead
  rw [if_neg h]
  dsimp only
  have hret : (readMessageCall s.up.fifo s.up.irq).ret = 0 := by rw [readMessageCall_whole _ h4]
  rw [if_neg (not_not.mpr hret)]
  congr 1
  match chan with
  | 0 => rfl
  | 1 => rfl
  | 2 => rfl
  | 3 => rfl

/-- A word that looks like the header of a data message is taken for one: no error is reported. -/
theorem mbxRead_ne_error {env : ReadEnv} {s : ReadState}
    (h : msgHdType (ifxMpsFifoRead s.up.fifo 0) ≠ cmdAddressPacket)
    (h4 : plength (ifxMpsFifoRead s.up.fifo 0) % 4 = 0) (fuel : Nat) (chan : Fin 4) (t : ReadState) :
    ifxMpsMbxRead fuel (channelDevice chan) env s ≠ some (none, t) := by
  rw [mbxRead_voice h h4]
  unfold voiceRead
  dsimp only
  split
  next => nofun
  next =>
    split
    next => nofun
    next =>
      split
      next => nofun
      next => nofun

/-- The read of a channel's own message: exactly the message is taken before the notifier runs. -/
theorem mbxRead_own (f : UpstreamData) {chan : Fin 4} (env : ReadEnv) {s : ReadState}
    (hs : s.up.fifo = f.fifo) {header : Word} {payload rest : List Word}
    (hown : OwnMessage chan (unreadWords s.up.fifo) header payload rest) :
    ∃ (f' : UpstreamData) (call : ReadCall), unreadWords f'.fifo = rest ∧ call.fifo = f'.fifo ∧
      voiceMessage call.header call.data = voiceMessage header (payload.getD · 0) ∧
      ∀ fuel, ifxMpsMbxRead fuel (channelDevice chan) env s = voiceRead fuel env call s := by
  rw [hs] at hown
  have hlt := unreadWords_length_lt f
  rw [hown.words] at hlt
  simp only [List.cons_append, List.length_cons, List.length_append] at hlt
  have hhead : ifxMpsFifoRead f.fifo 0 = header := by
    have h := unreadWords_head? f (by rw [hown.words]; exact List.cons_ne_nil _ _)
    rw [hown.words] at h
    exact (Option.some.inj h).symm
  obtain ⟨f', hrest, stores, hdata, hcall⟩ :=
    readMessageCall_head f s.up.irq hown.words hown.whole
  refine ⟨f', readMessageCall f.fifo s.up.irq, hrest, by rw [hcall], ?_, ?_⟩
  · rw [hcall]
    simp only [voiceMessage, ReadCall.data, hdata]
  · intro fuel
    have htype : msgHdType (ifxMpsFifoRead s.up.fifo 0) ≠ cmdAddressPacket := by
      rw [hs, hhead]
      exact hown.data
    have h4 : plength (ifxMpsFifoRead s.up.fifo 0) % 4 = 0 := by
      rw [hs, hhead, hown.whole]
      omega
    have hcount := congrArg List.length hdata
    rw [List.length_map] at hcount
    rw [mbxRead_voice htype h4, hs, if_neg]
    rw [hcall, maxUpstrmDatawords]
    dsimp only
    omega

/-- After the own message the notifier takes nothing more exactly when no address packet follows, or
when it does not run. -/
theorem voiceRead_takes_iff (f' : UpstreamData) (env : ReadEnv) {call : ReadCall}
    (hcall : call.fifo = f'.fifo) (s : ReadState) :
    (∃ fuel t, voiceRead fuel env call s = some (some (voiceMessage call.header call.data), t) ∧
        unreadWords t.up.fifo = unreadWords f'.fifo) ↔
      env.callback = true ∨ ∀ next ∈ (unreadWords f'.fifo).head?, ¬ AddressHead next := by
  have hfifo : (provideOnRead env { s with up := { s.up with fifo := call.fifo, irq := call.irq } }).up.fifo =
      f'.fifo := by rw [provideOnRead_fifo, hcall]
  by_cases hcb : env.callback = true
  · refine iff_of_true ⟨0, _, ?_, congrArg unreadWords hfifo⟩ (.inl hcb)
    unfold voiceRead
    dsimp only
    rw [if_pos hcb]
  generalize hp : provideOnRead env
    { s with up := { s.up with fifo := call.fifo, irq := call.irq } } = p at hfifo
  obtain ⟨⟨fifo, freed, irq⟩, down, provideBuffer, malloced⟩ := p
  subst hfifo
  have hread : ∀ fuel, voiceRead fuel env call s =
      match ifxMpsMbxDataUpstream fuel ⟨f'.fifo, freed, irq⟩ with
      | some (up, _) => some (some (voiceMessage call.header call.data),
          ⟨up, down, provideBuffer, malloced⟩)
      | none => none := by
    intro fuel
    unfold voiceRead
    dsimp only
    rw [hp, if_neg hcb]
  constructor
  · rintro ⟨fuel, t, hrun, hsame⟩
    right
    rw [hread] at hrun
    cases hup : ifxMpsMbxDataUpstream fuel ⟨f'.fifo, freed, irq⟩ with
    | none =>
      rw [hup] at hrun
      cases hrun
    | some r =>
      rw [hup] at hrun
      obtain ⟨_, rfl⟩ := Prod.mk.inj (Option.some.inj hrun)
      rw [← hsame]
      exact dataUpstream_end_head hup
  · intro h
    have hstop := h.resolve_left hcb
    obtain ⟨u, how, hdone, hsame⟩ := upstreamRound_stops f' freed irq hstop
    have hup : ifxMpsMbxDataUpstream 1 ⟨f'.fifo, freed, irq⟩ = some (u, how) := by
      rw [ifxMpsMbxDataUpstream, hdone]
    refine ⟨1, ⟨u, down, provideBuffer, malloced⟩, ?_, hsame⟩
    rw [hread, hup]

theorem readsOwn_iff (chan : Fin 4) (env : ReadEnv) (f : UpstreamData) (freed : List Word)
    (irq : Bool) (down : VoiceFifo) (provideBuffer : Nat) (malloced : List Word) :
    ReadsOwn chan env ⟨⟨f.fifo, freed, irq⟩, down, provideBuffer, malloced⟩ ↔
      (∃ header payload rest, OwnMessage chan (unreadWords f.fifo) header payload rest ∧
        (env.callback = true ∨ ∀ next ∈ rest.head?, ¬ AddressHead next)) ∨
      ((¬ ∃ header payload rest, OwnMessage chan (unreadWords f.fifo) header payload rest) ∧
        (msgHdType (ifxMpsFifoRead f.fifo 0) = cmdAddressPacket ∨
          plength (ifxMpsFifoRead f.fifo 0) % 4 ≠ 0)) := by
  by_cases hex : ∃ header payload rest, OwnMessage chan (unreadWords f.fifo) header payload rest
  · obtain ⟨header, payload, rest, hown⟩ := hex
    obtain ⟨f', call, rfl, hcall, hpkg, hread⟩ := mbxRead_own f env
      (s := ⟨⟨f.fifo, freed, irq⟩, down, provideBuffer, malloced⟩) rfl hown
    have htakes := voiceRead_takes_iff f' env hcall
      ⟨⟨f.fifo, freed, irq⟩, down, provideBuffer, malloced⟩
    constructor
    · intro h
      obtain ⟨fuel, t, hrun, hsame⟩ := h.own header payload _ hown
      rw [hread, ← hpkg] at hrun
      exact .inl ⟨header, payload, _, hown, htakes.mp ⟨fuel, t, hrun, hsame⟩⟩
    · rintro (⟨header', payload', rest', hown', hnext⟩ | ⟨hnone, _⟩)
      · obtain ⟨rfl, rfl, rfl⟩ := hown.unique hown'
        obtain ⟨fuel, t, hrun, hsame⟩ := htakes.mpr hnext
        refine ⟨?_, fun hnone => absurd ⟨_, _, _, hown⟩ hnone⟩
        intro header'' payload'' rest'' hown''
        obtain ⟨rfl, rfl, rfl⟩ := hown.unique hown''
        exact ⟨fuel, t, by rw [hread, hrun, hpkg], hsame⟩
      · exact absurd ⟨_, _, _, hown⟩ hnone
  · constructor
    · intro h
      refine .inr ⟨hex, ?_⟩
      obtain ⟨fuel, t, hrun, _⟩ := h.other hex
      by_contra hcon
      push Not at hcon
      exact mbxRead_ne_error (s := ⟨⟨f.fifo, freed, irq⟩, down, provideBuffer, malloced⟩) hcon.1
        hcon.2 fuel chan t hrun
    · rintro (⟨header, payload, rest, hown, _⟩ | ⟨_, herror⟩)
      · exact absurd ⟨_, _, _, hown⟩ hex
      · refine ⟨fun header payload rest hown => absurd ⟨_, _, _, hown⟩ hex, ?_⟩
        intro _
        by_cases htype : msgHdType (ifxMpsFifoRead f.fifo 0) = cmdAddressPacket
        · have hrun := mbxRead_address env
            (s := ⟨⟨f.fifo, freed, irq⟩, down, provideBuffer, malloced⟩) htype 0 (channelDevice chan)
          exact ⟨0, _, hrun, rfl, rfl, rfl⟩
        · have hrun := mbxRead_odd env
            (s := ⟨⟨f.fifo, freed, irq⟩, down, provideBuffer, malloced⟩) htype
            (herror.resolve_left htype) 0 (channelDevice chan)
          exact ⟨0, _, hrun, rfl, rfl, rfl⟩

/-- A mailbox with one data message of channel 1. -/
def foreignMailbox : ReadState :=
  { up :=
      { fifo := { mem := fun a => if a = 124 then 0x04010008#32 else 0x00001000#32, preadOff := 124
                  pwriteOff := 112, size := 128, minSpace := 128 }
        freed := [], irq := true }
    down := ifxMpsFifoClear { mem := fun _ => 0, preadOff := 0, pwriteOff := 0, size := 128
                              minSpace := 128 }
    provideBuffer := 0
    malloced := [] }

theorem foreignMailbox_read_by_channel_zero :
    ¬ ReadsOwn 0 ⟨true, [], 0, 0x200#32, false⟩ foreignMailbox := by
  intro h
  have hwords : unreadWords foreignMailbox.up.fifo =
      [0x04010008#32, 0x00001000#32, 0x00001000#32] := by decide +kernel
  have hnone : ¬ ∃ header payload rest,
      OwnMessage 0 (unreadWords foreignMailbox.up.fifo) header payload rest := by
    rintro ⟨header, payload, rest, hown⟩
    obtain ⟨rfl, _⟩ := List.cons.inj (hwords.symm.trans hown.words)
    exact absurd hown.mine (by decide)
  obtain ⟨fuel, t, hrun, _⟩ := h.other hnone
  exact mbxRead_ne_error (s := foreignMailbox) (by decide +kernel) (by decide +kernel) fuel 0 t hrun

end DanubeBsp
