import Mathlib.Logic.Relation
import DanubeBsp.VoiceRead
import DanubeBsp.VoiceWrite

namespace DanubeBsp

/-- Field `type` of the message header. -/
def msgHdType (header : Word) : Nat := ((header >>> 24) &&& 0x1f#32).toNat

/-- Field `chan` of the message header. -/
def msgHdChan (header : Word) : Nat := ((header >>> 16) &&& 0xf#32).toNat

def cmdAddressPacket : Nat := 0x8

/-- `KSEG0ADDR`. -/
def kseg0addr (a : Word) : Word := physaddr a ||| 0x80000000#32

/-- The device of a channel field. -/
def channelDevice : Nat → MpsDevices
  | 0 => .voice0
  | 1 => .voice1
  | 2 => .voice2
  | 3 => .voice3
  | _ => .unknown

def ifxMpsMbxGetMessageChannel (fifo : VoiceFifo) : MpsDevices :=
  channelDevice (msgHdChan (ifxMpsFifoRead fifo 0))

/-- `msg->data` after a read: the message was cleared before. -/
def ReadCall.data (c : ReadCall) (i : Nat) : Word := (c.stores.map Prod.snd).getD i 0

/-- The segments that the dispatch loop hands to `mps_buffer.free`; the last word of an address packet
is the segment size. -/
def ReadCall.segments (c : ReadCall) : List Word :=
  (List.range (plength c.header / 4 - 1)).map fun i => kseg0addr (c.data i)

/-- Neither the stores of the read nor the loads of the dispatch loop go behind `msg.data`. -/
def ReadCall.insideData (c : ReadCall) : Bool :=
  decide (c.stores.length ≤ maxUpstrmDatawords) &&
    decide (plength c.header / 4 - 1 ≤ maxUpstrmDatawords)

/-- The upstream data mailbox, the arguments of `mps_buffer.free` so far and the interrupt enable
bit. -/
structure UpstreamState where
  fifo : VoiceFifo
  freed : List Word
  irq : Bool

inductive UpstreamEnd
  | empty
  | invalidChannel
  | notified (channel : MpsDevices)
  deriving DecidableEq

/-- One pass from the label `notify_udq_again`. After `behind`, an access behind `msg` on the stack,
the source says nothing about what the call does. -/
inductive UpstreamRound
  | again (s : UpstreamState)
  | done (s : UpstreamState) (how : UpstreamEnd)
  | behind

/-- The `min_space` statistic. -/
def minSpaceUpdate (fifo : VoiceFifo) : VoiceFifo :=
  let available := ifxMpsFifoMemAvailable fifo
  { fifo with minSpace := if fifo.minSpace < available then available else fifo.minSpace }

def upstreamRound (s : UpstreamState) : UpstreamRound :=
  let flags := s.irq
  if ifxMpsFifoNotEmpty s.fifo then
    if ifxMpsMbxGetMessageChannel s.fifo = .unknown then
      -- this return leaves out `restore_flags`
      .done { s with irq := false } .invalidChannel
    else
      let channel := ifxMpsMbxGetMessageChannel s.fifo
      let fifo := minSpaceUpdate s.fifo
      if msgHdType (ifxMpsFifoRead fifo 0) = cmdAddressPacket then
        -- the result of the read is not looked at
        let call := readMessageCall fifo false
        if call.insideData then
          .again { fifo := call.fifo, freed := s.freed ++ call.segments, irq := flags }
        else .behind
      else .done { s with fifo, irq := flags } (.notified channel)
  else .done { s with irq := flags } .empty

/-- `ifx_mps_mbx_data_upstream`, up to the notification of the channel, within `fuel` passes. -/
def ifxMpsMbxDataUpstream : Nat → UpstreamState → Option (UpstreamState × UpstreamEnd)
  | 0, _ => none
  | fuel + 1, s =>
    match upstreamRound s with
    | .again s' => ifxMpsMbxDataUpstream fuel s'
    | .done s' how => some (s', how)
    | .behind => none

/-- The upstream data FIFO; the voice CPU writes whole words. -/
structure UpstreamData extends UpstreamFifo where
  dataSize : fifo.size = mbxDataFifoSize
  write : fifo.pwriteOff < mbxDataFifoSize
  readWord : fifo.preadOff % 4 = 0
  writeWord : fifo.pwriteOff % 4 = 0

/-- The words from the read offset down to the write offset. -/
def unreadWords (fifo : VoiceFifo) : List Word :=
  (List.range ((fifo.preadOff + fifo.size - fifo.pwriteOff) % fifo.size / 4)).map fun j =>
    fifo.mem ((fifo.preadOff + fifo.size - 4 * j) % fifo.size)

/-- The head of the FIFO is an address packet that the dispatch loop takes out. -/
def AddressHead (header : Word) : Prop :=
  channelDevice (msgHdChan header) ≠ .unknown ∧ msgHdType header = cmdAddressPacket

structure AddressPacket where
  head : Word
  payload : List Word
  kind : AddressHead head
  whole : plength head = 4 * payload.length

def AddressPacket.words (p : AddressPacket) : List Word := p.head :: p.payload

/-- The buffers that the packet gives back. -/
def AddressPacket.segments (p : AddressPacket) : List Word := p.payload.dropLast.map kseg0addr

/-- Whole address packets up to the end or to a header at which the loop ends. -/
def WholeAddressPackets (ws : List Word) : Prop :=
  ∃ packets : List AddressPacket, ∃ rest : List Word,
    ws = packets.flatMap AddressPacket.words ++ rest ∧ ∀ header ∈ rest.head?, ¬ AddressHead header

/-- The states at the label `notify_udq_again` in a call that starts in `s`. -/
def UpstreamReaches (s t : UpstreamState) : Prop :=
  Relation.ReflTransGen (fun a b => upstreamRound a = .again b) s t

/-- The call ends; every pass that starts again takes exactly one address packet off the unread words,
gives its buffers back and leaves fewer words. -/
structure UpstreamDispatch (s : UpstreamState) : Prop where
  ends : ∃ fuel t how, ifxMpsMbxDataUpstream fuel s = some (t, how)
  shrinks : ∀ t u, UpstreamReaches s t → upstreamRound t = .again u →
    (unreadWords u.fifo).length < (unreadWords t.fifo).length
  once : ∀ t u, UpstreamReaches s t → upstreamRound t = .again u →
    ∃ p : AddressPacket, unreadWords t.fifo = p.words ++ unreadWords u.fifo ∧
      u.freed = t.freed ++ p.segments

@[simp] theorem minSpaceUpdate_read (fifo : VoiceFifo) (offset : Nat) :
    ifxMpsFifoRead (minSpaceUpdate fifo) offset = ifxMpsFifoRead fifo offset := rfl

theorem unreadWords_length (f : UpstreamData) :
    4 * (unreadWords f.fifo).length =
      (f.fifo.preadOff + mbxDataFifoSize - f.fifo.pwriteOff) % mbxDataFifoSize := by
  have hr := f.readWord
  have hw := f.writeWord
  simp only [unreadWords, List.length_map, List.length_range, f.dataSize, mbxDataFifoSize]
  omega

theorem unreadWords_length_lt (f : UpstreamData) : (unreadWords f.fifo).length < 32 := by
  have h := unreadWords_length f
  simp only [mbxDataFifoSize] at h
  omega

theorem notEmpty_iff_unread (f : UpstreamData) :
    ifxMpsFifoNotEmpty f.fifo = true ↔ unreadWords f.fifo ≠ [] := by
  have hlen := unreadWords_length f
  have hi := f.inside
  have hw := f.write
  simp only [f.dataSize, mbxDataFifoSize] at hlen hi hw
  rw [← List.length_pos_iff_ne_nil]
  simp only [ifxMpsFifoNotEmpty, bne_iff_ne]
  omega

/-- The word `j` words below the read offset. -/
theorem fifoRead_word (f : UpstreamData) {j : Nat} (hj : j ≤ 32) :
    ifxMpsFifoRead f.fifo (4 * j) =
      f.fifo.mem ((f.fifo.preadOff + f.fifo.size - 4 * j) % f.fifo.size) := by
  have hi := f.inside
  have hcut : 4 * j % 2 ^ 8 = 4 * j := Nat.mod_eq_of_lt (by omega)
  have hle : 4 * j ≤ f.fifo.size := by
    simp only [f.dataSize, mbxDataFifoSize]
    omega
  unfold ifxMpsFifoRead
  dsimp only
  rw [hcut, if_neg (by omega), downAddress_eq hi f.small hle]
  congr 1
  simp only [f.dataSize, mbxDataFifoSize] at hi hle ⊢
  split
  next => omega
  next => omega

theorem unreadWords_getElem? (f : UpstreamData) {j : Nat} (hj : j < (unreadWords f.fifo).length) :
    (unreadWords f.fifo)[j]? = some (ifxMpsFifoRead f.fifo (4 * j)) := by
  have hlt := unreadWords_length_lt f
  rw [fifoRead_word f (by omega)]
  simp only [unreadWords, List.length_map, List.length_range] at hj ⊢
  rw [List.getElem?_map, List.getElem?_range hj]
  rfl

theorem unreadWords_head? (f : UpstreamData) (hne : unreadWords f.fifo ≠ []) :
    (unreadWords f.fifo).head? = some (ifxMpsFifoRead f.fifo 0) := by
  rw [List.head?_eq_getElem?]
  exact unreadWords_getElem? f (List.length_pos_iff_ne_nil.mpr hne)

/-- A read moves the index down by the words it took, all modulo the size. -/
theorem readPtrInc_words (f : UpstreamData) {k : Nat} (hk : k < 32) :
    (ifxMpsFifoReadPtrInc f.fifo (4 * k)).preadOff =
      (f.fifo.preadOff + mbxDataFifoSize - 4 * k) % mbxDataFifoSize := by
  have hi := f.inside
  have hcut : 4 * k % 2 ^ 8 = 4 * k := Nat.mod_eq_of_lt (by omega)
  rw [readPtrInc_preadOff, hcut]
  simp only [f.dataSize, mbxDataFifoSize] at hi ⊢
  rw [if_neg (by omega)]
  split
  next => omega
  next => omega

section ReadOn

variable (f : UpstreamData) (k : Nat)

theorem readOn_inside : (ifxMpsFifoReadPtrInc f.fifo (4 * k)).preadOff <
    (ifxMpsFifoReadPtrInc f.fifo (4 * k)).size := by
  rw [readPtrInc_size]
  exact readPtrInc_inside f.toUpstreamFifo _

theorem readOn_small : (ifxMpsFifoReadPtrInc f.fifo (4 * k)).size ≤ 2 ^ 31 := by
  rw [readPtrInc_size]
  exact f.small

theorem readOn_dataSize : (ifxMpsFifoReadPtrInc f.fifo (4 * k)).size = mbxDataFifoSize := by
  rw [readPtrInc_size]
  exact f.dataSize

theorem readOn_write : (ifxMpsFifoReadPtrInc f.fifo (4 * k)).pwriteOff < mbxDataFifoSize := by
  rw [readPtrInc_pwriteOff]
  exact f.write

theorem readOn_readWord (hk : k < 32) :
    (ifxMpsFifoReadPtrInc f.fifo (4 * k)).preadOff % 4 = 0 := by
  have hr := f.readWord
  rw [readPtrInc_words f hk]
  simp only [mbxDataFifoSize]
  omega

theorem readOn_writeWord : (ifxMpsFifoReadPtrInc f.fifo (4 * k)).pwriteOff % 4 = 0 := by
  rw [readPtrInc_pwriteOff]
  exact f.writeWord

/-- The data FIFO after `k` words were taken. -/
def UpstreamData.afterWords (hk : k < 32) : UpstreamData where
  fifo := ifxMpsFifoReadPtrInc f.fifo (4 * k)
  inside := readOn_inside f k
  small := readOn_small f k
  dataSize := readOn_dataSize f k
  write := readOn_write f k
  readWord := readOn_readWord f k hk
  writeWord := readOn_writeWord f k

end ReadOn

theorem afterWords_unread (f : UpstreamData) {k : Nat} (hk : k < 32)
    (hle : k ≤ (unreadWords f.fifo).length) :
    unreadWords (f.afterWords k hk).fifo = (unreadWords f.fifo).drop k := by
  have hlen := unreadWords_length f
  have hlen' := unreadWords_length (f.afterWords k hk)
  have hpre : (f.afterWords k hk).fifo.preadOff = _ := readPtrInc_words f hk
  have hwr : (f.afterWords k hk).fifo.pwriteOff = _ := readPtrInc_pwriteOff f.fifo (4 * k)
  have hsz : (f.afterWords k hk).fifo.size = _ := readPtrInc_size f.fifo (4 * k)
  have hmem : (f.afterWords k hk).fifo.mem = _ := readPtrInc_mem f.fifo (4 * k)
  have hi := f.inside
  have hw := f.write
  rw [hpre, hwr] at hlen'
  simp only [f.dataSize, mbxDataFifoSize] at hlen hlen' hi hw hpre
  apply List.ext_getElem?
  intro j
  rw [List.getElem?_drop]
  by_cases hj : j < (unreadWords (f.afterWords k hk).fifo).length
  · have hkj : k + j < (unreadWords f.fifo).length := by omega
    have hlt := unreadWords_length_lt f
    rw [unreadWords_getElem? _ hj, unreadWords_getElem? f hkj, fifoRead_word _ (by omega),
      fifoRead_word f (by omega), hmem, hsz, hpre, f.dataSize]
    simp only [mbxDataFifoSize]
    congr 2
    omega
  · rw [List.getElem?_eq_none (by omega), List.getElem?_eq_none (by omega)]

/-- Taking more words than there are wraps the read offset around the write offset. -/
theorem afterWords_grows (f : UpstreamData) {k : Nat} (hk : k < 32)
    (hlt : (unreadWords f.fifo).length < k) :
    (unreadWords f.fifo).length < (unreadWords (f.afterWords k hk).fifo).length := by
  have hlen := unreadWords_length f
  have hlen' := unreadWords_length (f.afterWords k hk)
  have hpre : (f.afterWords k hk).fifo.preadOff = _ := readPtrInc_words f hk
  have hwr : (f.afterWords k hk).fifo.pwriteOff = _ := readPtrInc_pwriteOff f.fifo (4 * k)
  have hi := f.inside
  have hw := f.write
  rw [hpre, hwr] at hlen'
  simp only [f.dataSize, mbxDataFifoSize] at hlen hlen' hi hw
  omega

def UpstreamData.withStatistic (f : UpstreamData) : UpstreamData :=
  { f with fifo := minSpaceUpdate f.fifo, inside := f.inside, small := f.small
           dataSize := f.dataSize, write := f.write, readWord := f.readWord
           writeWord := f.writeWord }

theorem payloadStores_words (f : UpstreamData) {header : Word} {payload rest : List Word}
    (hu : unreadWords f.fifo = header :: payload ++ rest) :
    (payloadStores f.fifo (4 * payload.length)).map Prod.snd = payload := by
  have hlt := unreadWords_length_lt f
  have hlen : (unreadWords f.fifo).length = payload.length + rest.length + 1 := by
    rw [hu]
    simp only [List.cons_append, List.length_cons, List.length_append]
  have hround : (4 * payload.length + 3) / 4 = payload.length := by omega
  rw [payloadStores, hround, List.map_map]
  apply List.ext_getElem?
  intro j
  by_cases hj : j < payload.length
  · have hword := unreadWords_getElem? f (by omega : j + 1 < (unreadWords f.fifo).length)
    rw [hu, List.cons_append, List.getElem?_cons_succ, List.getElem?_append_left hj] at hword
    rw [hword, List.getElem?_map, List.getElem?_range hj]
    rfl
  · rw [List.getElem?_eq_none (by simp; omega), List.getElem?_eq_none (by omega)]

theorem ReadCall.segments_eq {c : ReadCall} {p : AddressPacket} (hhead : c.header = p.head)
    (hdata : c.stores.map Prod.snd = p.payload) : c.segments = p.segments := by
  have hcount : plength c.header / 4 - 1 = p.payload.length - 1 := by
    rw [hhead, p.whole]
    omega
  rw [ReadCall.segments, AddressPacket.segments, hcount, List.dropLast_eq_take]
  apply List.ext_getElem?
  intro i
  by_cases hi : i < p.payload.length - 1
  · rw [List.getElem?_map, List.getElem?_map, List.getElem?_range hi, List.getElem?_take_of_lt hi,
      Option.map_some, ReadCall.data, hdata, List.getD_eq_getElem?_getD]
    rw [List.getElem?_eq_getElem (by omega), Option.getD_some, Option.map_some]
  · rw [List.getElem?_eq_none (by simp; omega), List.getElem?_eq_none (by simp; omega)]

/-- A read takes the whole message at the head and leaves the other unread words. -/
theorem readMessageCall_head (f : UpstreamData) (irq : Bool) {header : Word}
    {payload rest : List Word} (hu : unreadWords f.fifo = header :: payload ++ rest)
    (hwhole : plength header = 4 * payload.length) :
    ∃ f' : UpstreamData, unreadWords f'.fifo = rest ∧
      ∃ stores : List (Nat × Word), stores.map Prod.snd = payload ∧
        readMessageCall f.fifo irq =
          { ret := 0, header, stores, bytes := some (4 * payload.length + 4), fifo := f'.fifo, irq } := by
  have hlt := unreadWords_length_lt f
  have hhead : ifxMpsFifoRead f.fifo 0 = header := by
    have h := unreadWords_head? f (by rw [hu]; exact List.cons_ne_nil _ _)
    rw [hu] at h
    exact (Option.some.inj h).symm
  have hlen : (unreadWords f.fifo).length = payload.length + rest.length + 1 := by
    rw [hu]
    simp only [List.cons_append, List.length_cons, List.length_append]
  have hk : payload.length + 1 < 32 := by omega
  have h4 : plength (ifxMpsFifoRead f.fifo 0) % 4 = 0 := by
    rw [hhead, hwhole]
    omega
  have hcall := readMessageCall_whole irq h4
  rw [hhead, hwhole] at hcall
  refine ⟨f.afterWords (payload.length + 1) hk, ?_, _, payloadStores_words f hu, ?_⟩
  · rw [afterWords_unread f hk (by omega), hu]
    exact List.drop_left' rfl
  · exact hcall

/-- The pass over a whole address packet takes it out and frees its buffers. -/
theorem upstreamRound_packet (f : UpstreamData) (freed : List Word) (irq : Bool)
    {p : AddressPacket} {rest : List Word} (hu : unreadWords f.fifo = p.words ++ rest) :
    ∃ f' : UpstreamData, unreadWords f'.fifo = rest ∧
      upstreamRound ⟨f.fifo, freed, irq⟩ = .again ⟨f'.fifo, freed ++ p.segments, irq⟩ := by
  have hne : unreadWords f.fifo ≠ [] := by
    rw [hu]
    exact List.cons_ne_nil _ _
  have hhead : ifxMpsFifoRead f.fifo 0 = p.head := by
    have h := unreadWords_head? f hne
    rw [hu] at h
    exact (Option.some.inj h).symm
  have hlen := unreadWords_length_lt f
  rw [hu] at hlen
  simp only [AddressPacket.words, List.cons_append, List.length_cons, List.length_append] at hlen
  obtain ⟨f', hrest, stores, hdata, hcall⟩ := readMessageCall_head f.withStatistic false hu p.whole
  change readMessageCall (minSpaceUpdate f.fifo) false = _ at hcall
  have hseg : (readMessageCall (minSpaceUpdate f.fifo) false).segments = p.segments :=
    ReadCall.segments_eq (by rw [hcall]) (by rw [hcall]; exact hdata)
  have hinside : (readMessageCall (minSpaceUpdate f.fifo) false).insideData = true := by
    have hcount := congrArg List.length hdata
    rw [List.length_map] at hcount
    simp only [ReadCall.insideData, hcall, p.whole, hcount, maxUpstrmDatawords, Bool.and_eq_true,
      decide_eq_true_eq]
    omega
  refine ⟨f', hrest, ?_⟩
  have hnotEmpty := (notEmpty_iff_unread f).mpr hne
  unfold upstreamRound
  dsimp only
  rw [if_pos hnotEmpty, ifxMpsMbxGetMessageChannel, minSpaceUpdate_read, hhead,
    if_neg p.kind.1, if_pos p.kind.2, if_pos hinside, hseg, hcall]

/-- Where no address packet is at the head the call ends and takes nothing. -/
theorem upstreamRound_stops (f : UpstreamData) (freed : List Word) (irq : Bool)
    (h : ∀ header ∈ (unreadWords f.fifo).head?, ¬ AddressHead header) :
    ∃ t how, upstreamRound ⟨f.fifo, freed, irq⟩ = .done t how ∧
      unreadWords t.fifo = unreadWords f.fifo := by
  unfold upstreamRound
  dsimp only
  split
  next hne =>
    have hhead := unreadWords_head? f ((notEmpty_iff_unread f).mp hne)
    have hstop := h _ hhead
    split
    next => exact ⟨_, _, rfl, rfl⟩
    next hchan =>
      rw [minSpaceUpdate_read, if_neg (fun htype => hstop ⟨hchan, htype⟩)]
      exact ⟨_, _, rfl, rfl⟩
  next => exact ⟨_, _, rfl, rfl⟩

/-- With an address packet at the head no pass ends. -/
theorem upstreamRound_not_done {f : UpstreamData} {freed : List Word} {irq : Bool}
    (h : ¬ ∀ header ∈ (unreadWords f.fifo).head?, ¬ AddressHead header) (t : UpstreamState)
    (how : UpstreamEnd) : upstreamRound ⟨f.fifo, freed, irq⟩ ≠ .done t how := by
  push Not at h
  obtain ⟨header, hheader, hkind⟩ := h
  have hunread : unreadWords f.fifo ≠ [] := by
    intro hnil
    simp [hnil] at hheader
  have hhead := Option.some.inj ((unreadWords_head? f hunread).symm.trans hheader)
  unfold upstreamRound
  dsimp only
  rw [if_pos ((notEmpty_iff_unread f).mpr hunread), ifxMpsMbxGetMessageChannel,
    minSpaceUpdate_read, hhead, if_neg hkind.1, if_pos hkind.2]
  split
  next => nofun
  next => nofun

/-- A read that stays inside the message buffer takes less than the FIFO. -/
theorem readWords_lt {fifo : VoiceFifo} {header : Word} {bytes : Option Nat} {ret : Int}
    {out : VoiceFifo} {c : ReadCall} {irq : Bool}
    (hc : c = { ret, header, stores := payloadStores fifo (plength header), bytes, fifo := out, irq })
    (hinside : c.insideData = true) (h4 : plength header % 4 = 0) : plength header / 4 + 1 < 32 := by
  rw [hc] at hinside
  simp only [ReadCall.insideData, payloadStores, List.length_map, List.length_range,
    maxUpstrmDatawords, Bool.and_eq_true, decide_eq_true_eq] at hinside
  omega

theorem addressPacket_of_unread {ws : List Word} {header : Word} (hhead : ws.head? = some header)
    (hkind : AddressHead header) (h4 : plength header % 4 = 0)
    (hle : plength header / 4 + 1 ≤ ws.length) :
    ∃ p : AddressPacket, ∃ rest, ws = p.words ++ rest := by
  obtain ⟨tail, rfl⟩ := List.head?_eq_some_iff.mp hhead
  rw [List.length_cons] at hle
  refine ⟨⟨header, tail.take (plength header / 4), hkind, ?_⟩, tail.drop (plength header / 4), ?_⟩
  · rw [List.length_take]
    omega
  · simp only [AddressPacket.words, List.cons_append, List.take_append_drop]

/-- A pass that starts again found an address header and read a message. -/
theorem upstreamRound_again_inv {s u : UpstreamState} (h : upstreamRound s = .again u) :
    ifxMpsFifoNotEmpty s.fifo = true ∧ AddressHead (ifxMpsFifoRead s.fifo 0) ∧
      (readMessageCall (minSpaceUpdate s.fifo) false).insideData = true ∧
      u.fifo = (readMessageCall (minSpaceUpdate s.fifo) false).fifo := by
  unfold upstreamRound at h
  dsimp only at h
  split at h
  next hne =>
    split at h
    next => cases h
    next hchan =>
      split at h
      next htype =>
        split at h
        next hinside =>
          obtain rfl := UpstreamRound.again.inj h
          exact ⟨hne, ⟨hchan, htype⟩, hinside, rfl⟩
        next => cases h
      next => cases h
  next => cases h

/-- The FIFO after a pass that starts again: unchanged behind an odd length, else moved by the length
in the header. -/
theorem upstreamRound_fifo {f : UpstreamData} {freed : List Word} {irq : Bool} {u : UpstreamState}
    (h : upstreamRound ⟨f.fifo, freed, irq⟩ = .again u) :
    (plength (ifxMpsFifoRead f.fifo 0) % 4 ≠ 0 ∧ u.fifo = f.withStatistic.fifo) ∨
      (plength (ifxMpsFifoRead f.fifo 0) % 4 = 0 ∧
        ∃ hk : plength (ifxMpsFifoRead f.fifo 0) / 4 + 1 < 32,
          u.fifo = (f.withStatistic.afterWords (plength (ifxMpsFifoRead f.fifo 0) / 4 + 1) hk).fifo) := by
  obtain ⟨_, _, hinside, hfifo⟩ := upstreamRound_again_inv h
  by_cases h4 : plength (ifxMpsFifoRead (minSpaceUpdate f.fifo) 0) % 4 = 0
  · have hcall := readMessageCall_whole false h4
    have hk := readWords_lt hcall hinside h4
    have hsum : plength (ifxMpsFifoRead (minSpaceUpdate f.fifo) 0) + 4 =
        4 * (plength (ifxMpsFifoRead (minSpaceUpdate f.fifo) 0) / 4 + 1) := by omega
    rw [hcall, hsum] at hfifo
    exact .inr ⟨h4, hk, hfifo⟩
  · rw [readMessageCall_odd false h4] at hfifo
    exact .inl ⟨h4, hfifo⟩

/-- It made the FIFO shorter only if the whole packet was there. -/
theorem upstreamRound_again {f : UpstreamData} {freed : List Word} {irq : Bool} {u : UpstreamState}
    (h : upstreamRound ⟨f.fifo, freed, irq⟩ = .again u)
    (hshrink : (unreadWords u.fifo).length < (unreadWords f.fifo).length) :
    ∃ p : AddressPacket, ∃ rest, unreadWords f.fifo = p.words ++ rest := by
  obtain ⟨hne, hkind, _, _⟩ := upstreamRound_again_inv h
  have hhead := unreadWords_head? f ((notEmpty_iff_unread f).mp hne)
  obtain ⟨_, hfifo⟩ | ⟨h4, hk, hfifo⟩ := upstreamRound_fifo h
  · rw [hfifo] at hshrink
    exact absurd hshrink (lt_irrefl _)
  · rw [hfifo] at hshrink
    have hle : plength (ifxMpsFifoRead f.fifo 0) / 4 + 1 ≤ (unreadWords f.fifo).length := by
      by_contra hlt
      have hgrow := afterWords_grows f.withStatistic hk (Nat.lt_of_not_le hlt)
      exact absurd hshrink (Nat.lt_asymm hgrow)
    exact addressPacket_of_unread hhead hkind h4 hle

/-- A pass keeps the offsets inside the FIFO and on words. -/
theorem upstreamRound_data {f : UpstreamData} {freed : List Word} {irq : Bool} {u : UpstreamState}
    (h : upstreamRound ⟨f.fifo, freed, irq⟩ = .again u) : ∃ f' : UpstreamData, u.fifo = f'.fifo := by
  obtain ⟨_, hfifo⟩ | ⟨_, _, hfifo⟩ := upstreamRound_fifo h
  · exact ⟨_, hfifo⟩
  · exact ⟨_, hfifo⟩

theorem WholeAddressPackets.cases {ws : List Word} (h : WholeAddressPackets ws) :
    (∀ header ∈ ws.head?, ¬ AddressHead header) ∨
      ∃ p : AddressPacket, ∃ rest, ws = p.words ++ rest ∧ WholeAddressPackets rest := by
  obtain ⟨packets, rest, rfl, hstop⟩ := h
  cases packets with
  | nil => exact .inl hstop
  | cons p packets =>
    refine .inr ⟨p, packets.flatMap AddressPacket.words ++ rest, ?_, packets, rest, rfl, hstop⟩
    rw [List.flatMap_cons, List.append_assoc]

theorem WholeAddressPackets.cons (p : AddressPacket) {rest : List Word}
    (h : WholeAddressPackets rest) : WholeAddressPackets (p.words ++ rest) := by
  obtain ⟨packets, rest, rfl, hstop⟩ := h
  refine ⟨p :: packets, rest, ?_, hstop⟩
  rw [List.flatMap_cons, List.append_assoc]

/-- What a pass that starts again does when the unread words begin with whole packets. -/
theorem WholeAddressPackets.again {f : UpstreamData} {freed : List Word} {irq : Bool}
    {u : UpstreamState} (hw : WholeAddressPackets (unreadWords f.fifo))
    (h : upstreamRound ⟨f.fifo, freed, irq⟩ = .again u) :
    ∃ p : AddressPacket, ∃ f' : UpstreamData,
      u = ⟨f'.fifo, freed ++ p.segments, irq⟩ ∧
        unreadWords f.fifo = p.words ++ unreadWords f'.fifo ∧
        WholeAddressPackets (unreadWords f'.fifo) := by
  obtain hstop | ⟨p, rest, hu, hrest⟩ := hw.cases
  · obtain ⟨t, how, hdone, _⟩ := upstreamRound_stops f freed irq hstop
    rw [hdone] at h
    cases h
  · obtain ⟨f', hf', hround⟩ := upstreamRound_packet f freed irq hu
    rw [hround] at h
    subst hf'
    exact ⟨p, f', (UpstreamRound.again.inj h).symm, hu, hrest⟩

/-- The states of the loop over whole packets. -/
def PacketsLeft (s : UpstreamState) : Prop :=
  ∃ f : UpstreamData, s.fifo = f.fifo ∧ WholeAddressPackets (unreadWords f.fifo)

theorem PacketsLeft.again {t u : UpstreamState} (ht : PacketsLeft t)
    (h : upstreamRound t = .again u) :
    PacketsLeft u ∧ ∃ p : AddressPacket, unreadWords t.fifo = p.words ++ unreadWords u.fifo ∧
      u.freed = t.freed ++ p.segments := by
  obtain ⟨fifo, freed, irq⟩ := t
  obtain ⟨f, rfl, hw⟩ := ht
  obtain ⟨p, f', rfl, hu, hrest⟩ := hw.again h
  exact ⟨⟨f', rfl, hrest⟩, p, hu, rfl⟩

theorem PacketsLeft.reaches {s t : UpstreamState} (hs : PacketsLeft s)
    (h : UpstreamReaches s t) : PacketsLeft t := by
  induction h with
  | refl => exact hs
  | tail _ hround ih => exact (ih.again hround).1

/-- A round over whole packets ends the call or takes a packet off. -/
theorem PacketsLeft.round {s : UpstreamState} (hs : PacketsLeft s) :
    (∃ t how, upstreamRound s = .done t how) ∨
      ∃ u, upstreamRound s = .again u ∧ PacketsLeft u ∧
        (unreadWords u.fifo).length < (unreadWords s.fifo).length := by
  obtain ⟨fifo, freed, irq⟩ := s
  obtain ⟨f, rfl, hw⟩ := hs
  obtain hstop | ⟨p, rest, hu, hrest⟩ := hw.cases
  · obtain ⟨t, how, hdone, _⟩ := upstreamRound_stops f freed irq hstop
    exact .inl ⟨t, how, hdone⟩
  · obtain ⟨f', hf', hround⟩ := upstreamRound_packet f freed irq hu
    subst hf'
    refine .inr ⟨_, hround, ⟨f', rfl, hrest⟩, ?_⟩
    simp only [hu, AddressPacket.words, List.cons_append, List.length_cons, List.length_append]
    omega

/-- Over whole packets the loop ends: the induction is on the number of unread words. -/
theorem PacketsLeft.ends {n : Nat} {s : UpstreamState} (hs : PacketsLeft s)
    (hn : (unreadWords s.fifo).length ≤ n) :
    ∃ t how, ifxMpsMbxDataUpstream (n + 1) s = some (t, how) := by
  induction n generalizing s with
  | zero =>
    obtain ⟨t, how, hdone⟩ | ⟨u, -, -, hlt⟩ := hs.round
    · exact ⟨t, how, by rw [ifxMpsMbxDataUpstream, hdone]⟩
    · omega
  | succ n ih =>
    obtain ⟨t, how, hdone⟩ | ⟨u, hround, hu, hlt⟩ := hs.round
    · exact ⟨t, how, by rw [ifxMpsMbxDataUpstream, hdone]⟩
    · obtain ⟨t, how, hrun⟩ := ih hu (by omega)
      exact ⟨t, how, by rw [ifxMpsMbxDataUpstream, hround]; exact hrun⟩

/-- A call that ends with every pass shrinking the unread words went over whole packets. -/
theorem packets_of_ends {fuel : Nat} {f : UpstreamData} {freed : List Word} {irq : Bool}
    {t : UpstreamState} {how : UpstreamEnd}
    (hrun : ifxMpsMbxDataUpstream fuel ⟨f.fifo, freed, irq⟩ = some (t, how))
    (hshrink : ∀ v u, UpstreamReaches ⟨f.fifo, freed, irq⟩ v → upstreamRound v = .again u →
      (unreadWords u.fifo).length < (unreadWords v.fifo).length) :
    WholeAddressPackets (unreadWords f.fifo) := by
  induction fuel generalizing f freed irq with
  | zero => cases hrun
  | succ fuel ih =>
    rw [ifxMpsMbxDataUpstream] at hrun
    by_cases hstop : ∀ header ∈ (unreadWords f.fifo).head?, ¬ AddressHead header
    · exact ⟨[], unreadWords f.fifo, rfl, hstop⟩
    cases hround : upstreamRound ⟨f.fifo, freed, irq⟩ with
    | again u =>
      rw [hround] at hrun
      obtain ⟨p, rest, hu⟩ := upstreamRound_again hround
        (hshrink _ u Relation.ReflTransGen.refl hround)
      obtain ⟨f', hf', hpacket⟩ := upstreamRound_packet f freed irq hu
      obtain rfl := UpstreamRound.again.inj (hround.symm.trans hpacket)
      have hrest := ih hrun (fun v u hv => hshrink v u (Relation.ReflTransGen.head hround hv))
      rw [hu, ← hf']
      exact hrest.cons p
    | done u end' => exact absurd hround (upstreamRound_not_done hstop u end')
    | behind =>
      rw [hround] at hrun
      cases hrun

/-- The call never ends in front of an address packet. -/
theorem dataUpstream_end_head {fuel : Nat} {f : UpstreamData} {freed : List Word} {irq : Bool}
    {t : UpstreamState} {how : UpstreamEnd}
    (hrun : ifxMpsMbxDataUpstream fuel ⟨f.fifo, freed, irq⟩ = some (t, how)) :
    ∀ header ∈ (unreadWords t.fifo).head?, ¬ AddressHead header := by
  induction fuel generalizing f freed irq with
  | zero => cases hrun
  | succ fuel ih =>
    rw [ifxMpsMbxDataUpstream] at hrun
    by_cases hstop : ∀ header ∈ (unreadWords f.fifo).head?, ¬ AddressHead header
    · obtain ⟨u, end', hdone, hsame⟩ := upstreamRound_stops f freed irq hstop
      rw [hdone] at hrun
      obtain ⟨rfl, rfl⟩ := Prod.mk.inj (Option.some.inj hrun)
      rw [hsame]
      exact hstop
    cases hround : upstreamRound ⟨f.fifo, freed, irq⟩ with
    | again u =>
      rw [hround] at hrun
      obtain ⟨fifo, freed', irq'⟩ := u
      obtain ⟨f', rfl⟩ := upstreamRound_data hround
      exact ih hrun
    | done u end' => exact absurd hround (upstreamRound_not_done hstop u end')
    | behind =>
      rw [hround] at hrun
      cases hrun

theorem dataUpstream_dispatch_iff (f : UpstreamData) (freed : List Word) (irq : Bool) :
    UpstreamDispatch ⟨f.fifo, freed, irq⟩ ↔ WholeAddressPackets (unreadWords f.fifo) := by
  constructor
  · intro h
    obtain ⟨fuel, t, how, hrun⟩ := h.ends
    exact packets_of_ends hrun h.shrinks
  · intro hw
    have hs : PacketsLeft ⟨f.fifo, freed, irq⟩ := ⟨f, rfl, hw⟩
    refine ⟨⟨_, hs.ends (le_refl _)⟩, ?_, ?_⟩
    · intro t u ht hround
      obtain ⟨_, p, hu, _⟩ := (hs.reaches ht).again hround
      rw [hu]
      simp only [AddressPacket.words, List.cons_append, List.length_cons, List.length_append]
      omega
    · intro t u ht hround
      exact ((hs.reaches ht).again hround).2

/-- An upstream data FIFO whose only message is an address packet of odd length. -/
def oddPacket : UpstreamState :=
  { fifo := { mem := fun _ => 0x08000003#32, preadOff := 124, pwriteOff := 116, size := 128
              minSpace := 128 }
    freed := [], irq := true }

theorem oddPacket_never_ends :
    (∀ fuel, ifxMpsMbxDataUpstream fuel oddPacket = none) ∧ ¬ UpstreamDispatch oddPacket := by
  have hround : upstreamRound oddPacket = .again oddPacket := rfl
  constructor
  · intro fuel
    induction fuel with
    | zero => rfl
    | succ fuel ih =>
      rw [ifxMpsMbxDataUpstream, hround]
      exact ih
  · intro h
    exact absurd (h.shrinks _ _ Relation.ReflTransGen.refl hround) (lt_irrefl _)

end DanubeBsp
