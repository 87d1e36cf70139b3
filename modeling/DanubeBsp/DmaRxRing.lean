import DanubeBsp.DmaRx

namespace DanubeBsp

/-- The log lengths are the absolute positions of `curr_desc` and of the hardware; the `i`-th
buffer of the allocator serves position `i`. -/
structure RxInv (s : RxSys) : Prop where
  pos : 0 < s.ch.descLen
  curr : s.ch.currDesc = s.delivered.length % s.ch.descLen
  hw : s.hw = s.arrived.length % s.ch.descLen
  deliveredLe : s.delivered.length ≤ s.arrived.length
  room : s.arrived.length ≤ s.delivered.length + s.ch.descLen
  done : ∀ i, s.delivered.length ≤ i → i < s.arrived.length →
    (s.ch.desc (i % s.ch.descLen)).done = true ∧
      s.arrived[i]? = some (s.ch.packetAt (i % s.ch.descLen))
  own : ∀ i, s.arrived.length ≤ i → i < s.delivered.length + s.ch.descLen →
    (s.ch.desc (i % s.ch.descLen)).dmaOwn = true
  buffer : ∀ i, s.delivered.length ≤ i → i < s.delivered.length + s.ch.descLen →
    ∃ b, s.buffers[i]? = some b ∧ (s.ch.desc (i % s.ch.descLen)).dataPointer = cphysaddr b.addr ∧
      s.ch.opt (i % s.ch.descLen) = b.opt
  order : s.delivered = s.arrived.take s.delivered.length
  count : s.buffers.length = s.delivered.length + s.ch.descLen

/-- A registration whose allocations all succeed gives every descriptor to the hardware. -/
theorem rxRegister_spec (packetSize : Word) {alloc : Nat → Option RxBuffer} {n : Nat}
    (h : ∀ j, j < n → (alloc j).isSome) :
    (rxRegister packetSize alloc n).2.2 = true ∧ ∀ j b, j < n → alloc j = some b →
      (rxRegister packetSize alloc n).1 j = rxRegisterDesc packetSize b ∧
      (rxRegister packetSize alloc n).2.1 j = b.opt := by
  induction n with
  | zero => exact ⟨rfl, fun j b hj => absurd hj (Nat.not_lt_zero j)⟩
  | succ n ih =>
    obtain ⟨hgoing, hdesc⟩ := ih fun j hj => h j (by omega)
    obtain ⟨b, hb⟩ := Option.isSome_iff_exists.mp (h n (by omega))
    rcases hr : rxRegister packetSize alloc n with ⟨desc, opt, going⟩
    rw [hr] at hgoing hdesc
    have hgoing : going = true := hgoing
    subst hgoing
    have hstep : rxRegister packetSize alloc (n + 1) =
        (Function.update desc n (rxRegisterDesc packetSize b), Function.update opt n b.opt, true) := by
      simp only [rxRegister, hr, hb]
    rw [hstep]
    refine ⟨rfl, ?_⟩
    intro j c hj hc
    by_cases he : j = n
    · subst j
      rw [hb] at hc
      cases Option.some.inj hc
      exact ⟨Function.update_self _ _ _, Function.update_self _ _ _⟩
    · obtain ⟨hd, ho⟩ := hdesc j c (by omega) hc
      exact ⟨(Function.update_of_ne he _ _).trans hd, (Function.update_of_ne he _ _).trans ho⟩

theorem filterMap_range_getElem {α : Type} {f : Nat → Option α} {n : Nat}
    (h : ∀ j, j < n → (f j).isSome) :
    ((List.range n).filterMap f).length = n ∧ ∀ j, j < n → ((List.range n).filterMap f)[j]? = f j := by
  induction n with
  | zero => exact ⟨rfl, fun j hj => absurd hj (Nat.not_lt_zero j)⟩
  | succ n ih =>
    obtain ⟨hlen, hget⟩ := ih fun j hj => h j (by omega)
    obtain ⟨b, hb⟩ := Option.isSome_iff_exists.mp (h n (by omega))
    rw [List.range_succ, List.filterMap_append, List.filterMap_cons_some hb, List.filterMap_nil]
    refine ⟨by rw [List.length_append, hlen]; rfl, ?_⟩
    intro j hj
    by_cases he : j = n
    · subst j
      rw [List.getElem?_append_right (by omega), hlen, hb]
      simp
    · rw [List.getElem?_append_left (by omega)]
      exact hget j (by omega)

theorem rxInit_inv {descLen : Nat} {packetSize : Word} {alloc : Nat → Option RxBuffer}
    (hpos : 0 < descLen) (hreg : ∀ j, j < descLen → (alloc j).isSome) :
    RxInv (rxInit descLen packetSize alloc) := by
  obtain ⟨-, hdesc⟩ := rxRegister_spec packetSize hreg
  obtain ⟨hlen, hget⟩ := filterMap_range_getElem hreg
  refine ⟨hpos, (Nat.zero_mod _).symm, (Nat.zero_mod _).symm, le_refl 0, Nat.zero_le _, ?_, ?_, ?_,
    rfl, by simpa [rxInit] using hlen⟩
  · intro i _ hi
    exact absurd hi (Nat.not_lt_zero i)
  · intro i _ hi
    have hi : i < 0 + descLen := hi
    obtain ⟨b, hb⟩ := Option.isSome_iff_exists.mp (hreg i (by omega))
    have hd := (hdesc i b (by omega) hb).1
    change ((rxRegister packetSize alloc descLen).1 (i % descLen)).dmaOwn = true
    rw [Nat.mod_eq_of_lt (by omega), hd]
    exact rxRegisterDesc_dmaOwn _ _
  · intro i _ hi
    have hi : i < 0 + descLen := hi
    obtain ⟨b, hb⟩ := Option.isSome_iff_exists.mp (hreg i (by omega))
    obtain ⟨hd, ho⟩ := hdesc i b (by omega) hb
    refine ⟨b, (hget i (by omega)).trans hb, ?_, ?_⟩
    · change ((rxRegister packetSize alloc descLen).1 (i % descLen)).dataPointer = _
      rw [Nat.mod_eq_of_lt (by omega), hd]
      rfl
    · change (rxRegister packetSize alloc descLen).2.1 (i % descLen) = _
      rw [Nat.mod_eq_of_lt (by omega), ho]

theorem rxArrive_inv {s t : RxSys} {status : Word} (h : RxInv s) (hs : rxArrive s status = some t) :
    RxInv t := by
  have hpos := h.pos
  have hle := h.deliveredLe
  have hroom := h.room
  simp only [rxArrive] at hs
  split at hs
  next hown =>
    cases Option.some.inj hs
    have hlt : s.arrived.length < s.delivered.length + s.ch.descLen := by
      by_contra hge
      have he : s.arrived.length = s.delivered.length + s.ch.descLen := by omega
      obtain ⟨hdone, -⟩ := h.done s.delivered.length (le_refl _) (by omega)
      rw [h.hw, he, Nat.add_mod_right] at hown
      simp [DmaDesc.done, hown] at hdone
    have hother : ∀ i, s.delivered.length ≤ i → i < s.delivered.length + s.ch.descLen →
        i ≠ s.arrived.length → i % s.ch.descLen ≠ s.hw := by
      intro i hi hi' hne
      rw [h.hw]
      exact ringPos_ne hi hi' hle hlt hne
    refine ⟨hpos, h.curr, ?_, ?_, ?_, ?_, ?_, ?_, ?_, h.count⟩
    · simp only [h.hw, List.length_append, List.length_singleton, Nat.mod_add_mod]
    · simp only [List.length_append, List.length_singleton]
      omega
    · simp only [List.length_append, List.length_singleton]
      omega
    · intro i hi hi'
      simp only [List.length_append, List.length_singleton] at hi'
      dsimp only at hi ⊢
      by_cases hlast : i = s.arrived.length
      · rw [hlast, ← h.hw, List.getElem?_concat_length, Function.update_self]
        exact ⟨completed_status _ _, rfl⟩
      · obtain ⟨hdone, hget⟩ := h.done i hi (by omega)
        have hne := hother i hi (by omega) hlast
        rw [List.getElem?_append_left (by omega), hget, Function.update_of_ne hne]
        refine ⟨hdone, ?_⟩
        simp only [RxChan.packetAt, Function.update_of_ne hne]
    · intro i hi hi'
      simp only [List.length_append, List.length_singleton] at hi
      dsimp only at hi' ⊢
      rw [Function.update_of_ne (hother i (by omega) hi' (by omega))]
      exact h.own i (by omega) hi'
    · intro i hi hi'
      dsimp only at hi hi' ⊢
      obtain ⟨b, hb, hd, ho⟩ := h.buffer i hi hi'
      refine ⟨b, hb, ?_, ho⟩
      by_cases hlast : i = s.arrived.length
      · rw [hlast, ← h.hw] at hd ⊢
        rw [Function.update_self]
        exact hd
      · rw [Function.update_of_ne (hother i hi hi' hlast)]
        exact hd
    · dsimp only
      rw [List.take_append_of_le_length hle]
      exact h.order
  next => simp at hs

/-- A read that finds a completed descriptor and gets a buffer delivers the oldest packet. -/
theorem RxInv.deliver {s : RxSys} {b : RxBuffer} (h : RxInv s)
    (hdone : (s.ch.desc s.ch.currDesc).done = true) : RxInv (rxRead s (some b)) := by
  have hpos := h.pos
  have hle := h.deliveredLe
  have hroom := h.room
  have hlt : s.delivered.length < s.arrived.length := by
    by_contra hge
    have hown := h.own s.delivered.length (by omega) (by omega)
    rw [← h.curr] at hown
    simp [DmaDesc.done, hown] at hdone
  obtain ⟨-, hget⟩ := h.done s.delivered.length (le_refl _) hlt
  obtain ⟨c, hc, hptr, hopt⟩ := h.buffer s.delivered.length (le_refl _) (by omega)
  rw [← h.curr] at hget hptr
  have hnonnull : (s.ch.packetAt s.ch.currDesc).dataptr ≠ 0 := by
    rw [RxChan.packetAt, hptr]
    exact kernelVa_cphysaddr_ne_zero _
  have hread : rxRead s (some b) = { s with
      ch := rxAdvance { s.ch with
        opt := Function.update s.ch.opt s.ch.currDesc b.opt
        desc := Function.update s.ch.desc s.ch.currDesc (rxDesc s.ch.packetSize b) }
      delivered := s.delivered ++ [s.ch.packetAt s.ch.currDesc]
      buffers := s.buffers ++ [b] } := by
    simpa [rxRead, dmaDeviceRead, hdone] using hnonnull
  have hother : ∀ i, s.delivered.length + 1 ≤ i → i < s.delivered.length + s.ch.descLen →
      i % s.ch.descLen ≠ s.ch.currDesc := by
    intro i hi hi'
    rw [h.curr]
    exact ringPos_ne (p := s.delivered.length) (by omega) hi' (le_refl _) (by omega) (by omega)
  rw [hread]
  refine ⟨hpos, ?_, h.hw, ?_, ?_, ?_, ?_, ?_, ?_, ?_⟩
  · simp only [rxAdvance, h.curr, List.length_append, List.length_singleton]
    exact ringNext_end hpos _
  · simp only [List.length_append, List.length_singleton]
    omega
  · simp only [rxAdvance, List.length_append, List.length_singleton]
    omega
  · intro i hi hi'
    simp only [List.length_append, List.length_singleton] at hi
    dsimp only [rxAdvance] at hi' ⊢
    obtain ⟨hd, hg⟩ := h.done i (by omega) hi'
    have hne := hother i hi (by omega)
    simp only [RxChan.packetAt, Function.update_of_ne hne]
    exact ⟨hd, hg⟩
  · intro i hi hi'
    simp only [rxAdvance, List.length_append, List.length_singleton] at hi'
    dsimp only [rxAdvance] at hi ⊢
    by_cases hlast : i = s.delivered.length + s.ch.descLen
    · rw [hlast, Nat.add_mod_right, ← h.curr, Function.update_self]
      exact rxDesc_dmaOwn _ _
    · rw [Function.update_of_ne (hother i (by omega) (by omega))]
      exact h.own i hi (by omega)
  · intro i hi hi'
    simp only [rxAdvance, List.length_append, List.length_singleton] at hi hi'
    dsimp only [rxAdvance]
    by_cases hlast : i = s.delivered.length + s.ch.descLen
    · refine ⟨b, ?_, ?_, ?_⟩
      · rw [hlast, ← h.count, List.getElem?_concat_length]
      · rw [hlast, Nat.add_mod_right, ← h.curr, Function.update_self]
        rfl
      · rw [hlast, Nat.add_mod_right, ← h.curr, Function.update_self]
    · obtain ⟨c, hc, hd, ho⟩ := h.buffer i (by omega) (by omega)
      have hne := hother i (by omega) (by omega)
      refine ⟨c, ?_, ?_, ?_⟩
      · rw [List.getElem?_append_left (by rw [h.count]; omega)]
        exact hc
      · rw [Function.update_of_ne hne]
        exact hd
      · rw [Function.update_of_ne hne]
        exact ho
  · simp only [List.length_append, List.length_singleton]
    rw [List.take_add_one, hget, ← h.order]
    rfl
  · have hcount := h.count
    simp only [rxAdvance, List.length_append, List.length_singleton]
    omega

/-- The allocator serves every read that finds a completed descriptor. -/
def ReadHasBuffer (s : RxSys) : RxEvent → Prop
  | .arrive _ => True
  | .read alloc => (s.ch.desc s.ch.currDesc).done = true → alloc.isSome

theorem rxRead_empty {s : RxSys} {alloc : Option RxBuffer}
    (hdone : ¬ (s.ch.desc s.ch.currDesc).done = true) : rxRead s alloc = s := by
  simp [rxRead, dmaDeviceRead, hdone]

theorem rxStep_inv {s t : RxSys} {e : RxEvent} (h : RxInv s) (hok : ReadHasBuffer s e)
    (hs : rxStep s e = some t) : RxInv t := by
  cases e with
  | arrive status => exact rxArrive_inv h hs
  | read alloc =>
    cases Option.some.inj hs
    by_cases hdone : (s.ch.desc s.ch.currDesc).done = true
    · obtain ⟨b, rfl⟩ := Option.isSome_iff_exists.mp (hok hdone)
      exact h.deliver hdone
    · rw [rxRead_empty hdone]
      exact h

/-- The packets handed over and those waiting from `curr_desc` on are the arrived ones in order;
the driver owns exactly the waiting descriptors, and every other one has a buffer of its own. -/
structure RxDelivers (s : RxSys) : Prop where
  inOrder : s.delivered ++ ringSlice s.ch.descLen s.ch.packetAt s.ch.currDesc
    (s.arrived.length - s.delivered.length) = s.arrived
  completed : ∀ k, k < s.arrived.length - s.delivered.length →
    (s.ch.desc ((s.ch.currDesc + k) % s.ch.descLen)).done = true
  driverOwned : ∀ k, k < s.ch.descLen →
    ((s.ch.desc ((s.ch.currDesc + k) % s.ch.descLen)).dmaOwn = false ↔
      k < s.arrived.length - s.delivered.length)
  buffered : ∀ k, s.arrived.length - s.delivered.length ≤ k → k < s.ch.descLen →
    ∃ b, s.buffers[s.delivered.length + k]? = some b ∧
      (s.ch.desc ((s.ch.currDesc + k) % s.ch.descLen)).dataPointer = cphysaddr b.addr ∧
      s.ch.opt ((s.ch.currDesc + k) % s.ch.descLen) = b.opt

theorem RxInv.delivers {s : RxSys} (h : RxInv s) : RxDelivers s := by
  have hle := h.deliveredLe
  have hroom := h.room
  have hslot : ∀ k, (s.ch.currDesc + k) % s.ch.descLen = (s.delivered.length + k) % s.ch.descLen := by
    intro k
    rw [h.curr, Nat.mod_add_mod]
  refine ⟨?_, ?_, ?_, ?_⟩
  · have hslice : ringSlice s.ch.descLen s.ch.packetAt s.ch.currDesc
        (s.arrived.length - s.delivered.length) = s.arrived.drop s.delivered.length := by
      rw [h.curr, ringSlice_mod]
      apply List.ext_getElem
      · simp
      · intro k hk hk'
        simp only [ringSlice_length] at hk
        obtain ⟨-, hget⟩ := h.done (s.delivered.length + k) (by omega) (by omega)
        obtain ⟨hi, he⟩ := List.getElem?_eq_some_iff.mp hget
        simp [ringSlice, he]
    rw [hslice]
    have htake := h.order
    exact (congrArg (· ++ _) htake).trans (List.take_append_drop _ _)
  · intro k hk
    rw [hslot]
    exact (h.done _ (by omega) (by omega)).1
  · intro k hk
    rw [hslot]
    by_cases hn : k < s.arrived.length - s.delivered.length
    · obtain ⟨hdone, -⟩ := h.done (s.delivered.length + k) (by omega) (by omega)
      simp only [DmaDesc.done, Bool.and_eq_true, Bool.not_eq_true'] at hdone
      exact iff_of_true hdone.1 hn
    · have hown := h.own (s.delivered.length + k) (by omega) (by omega)
      exact iff_of_false (by simp [hown]) hn
  · intro k hk hk'
    rw [hslot]
    exact h.buffer _ (by omega) (by omega)

/-- In every run in which the allocator serves the registration and every read that finds a
packet, each packet is delivered once, in order, and the ring stays complete. -/
theorem dmaRx_delivers_once (descLen : Nat) (packetSize : Word) (alloc : Nat → Option RxBuffer)
    (hpos : 0 < descLen) (hreg : ∀ j, j < descLen → (alloc j).isSome) (es : List RxEvent) (s : RxSys)
    (hok : RunMeets rxStep ReadHasBuffer (rxInit descLen packetSize alloc) es)
    (h : run rxStep (rxInit descLen packetSize alloc) es = some s) : RxDelivers s :=
  (run_invariant_of_meets rxStep_inv (rxInit_inv hpos hreg) hok h).delivers

def rxBufferAt (j : Nat) : Option RxBuffer := some ⟨0x80100000 + BitVec.ofNat 32 (j * 2048), 0, j⟩

theorem dmaRx_delivers_once_small :
    ∃ s, run rxStep (rxInit 2 1536 rxBufferAt) [.arrive 60, .read (some ⟨0x80200000, 0, 9⟩)] =
      some s ∧ s.delivered = [⟨60, 0x80100000, 0⟩] ∧ RxDelivers s := by
  refine ⟨_, rfl, by decide, ?_⟩
  refine dmaRx_delivers_once 2 1536 rxBufferAt (by decide) (fun _ _ => rfl)
    [.arrive 60, .read (some ⟨0x80200000, 0, 9⟩)] _ ?_ rfl
  refine ⟨trivial, fun t ht => ⟨fun _ => rfl, fun _ _ => trivial⟩⟩

/-- One packet arrives and its read gets no buffer: it is not handed over, its descriptor stays with
the driver, and `curr_desc` has moved past it. It comes one revolution later, after a packet that
arrived after it. -/
theorem dmaRx_failed_alloc_skips_packet :
    (∃ s, run rxStep (rxInit 2 1536 rxBufferAt) [.arrive 60, .read none] = some s ∧
      s.arrived = [⟨60, 0x80100000, 0⟩] ∧ s.delivered = [] ∧ s.ch.currDesc = 1 ∧
      (s.ch.desc 0).dmaOwn = false ∧ ¬ RxDelivers s) ∧
    ∃ s, run rxStep (rxInit 2 1536 rxBufferAt) [.arrive 60, .read none, .arrive 61,
        .read (some ⟨0x80200000, 0, 9⟩), .read (some ⟨0x80300000, 0, 9⟩)] = some s ∧
      s.arrived = [⟨60, 0x80100000, 0⟩, ⟨61, 0x80100800, 1⟩] ∧
      s.delivered = [⟨61, 0x80100800, 1⟩, ⟨60, 0x80100000, 0⟩] := by
  constructor
  · refine ⟨_, rfl, by decide, rfl, rfl, by decide, ?_⟩
    intro h
    have howned := (h.driverOwned 0 (by decide)).mpr (by decide)
    exact absurd howned (by decide)
  · exact ⟨_, rfl, by decide, by decide⟩

end DanubeBsp
