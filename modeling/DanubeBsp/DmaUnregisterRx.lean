import DanubeBsp.DmaUnregister
import DanubeBsp.DmaRxRing

namespace DanubeBsp

/-- The descriptor loop of `dma_device_unregister` over a receive channel: nothing is cleared. -/
def rxUnregisterLoop : Nat → RxChan → List FreeCall
  | 0, _ => []
  | n + 1, ch => rxUnregisterLoop n ch ++ slotFree ch.desc ch.opt n

/-- The descriptors after the loop of `dma_device_register`, the buffers it took from the allocator
and whether no allocation has failed yet. -/
structure RxRefill where
  desc : Nat → DmaDesc
  opt : Nat → Word
  taken : List RxBuffer
  going : Bool

/-- The descriptor loop of `dma_device_register` over what the descriptors hold already. -/
def rxRefill (packetSize : Word) (alloc : Nat → Option RxBuffer) (desc : Nat → DmaDesc)
    (opt : Nat → Word) : Nat → RxRefill
  | 0 => ⟨desc, opt, [], true⟩
  | n + 1 =>
    let f := rxRefill packetSize alloc desc opt n
    match f.going, alloc n with
    | true, some b =>
      ⟨Function.update f.desc n (rxRegisterDesc packetSize b), Function.update f.opt n b.opt,
        f.taken ++ [b], true⟩
    | _, _ => { f with going := false }

/-- A receive ring over several registrations, with the buffers that the unregistrations freed. -/
structure RxLife where
  sys : RxSys
  released : List FreeCall

inductive RxLifeEvent
  | use (e : RxEvent)
  | reopen (alloc : Nat → Option RxBuffer)

/-- The device is unregistered and registered again, with `control` set to `DANUBE_DMA_CH_ON` by its
driver in between. -/
def rxReopen (l : RxLife) (alloc : Nat → Option RxBuffer) : RxLife :=
  let ch := l.sys.ch
  let f := rxRefill ch.packetSize alloc ch.desc ch.opt ch.descLen
  { sys := { l.sys with
      ch := { ch with desc := f.desc, opt := f.opt, currDesc := 0 }
      hw := 0
      buffers := l.sys.buffers ++ f.taken }
    released := l.released ++ rxUnregisterLoop ch.descLen ch }

def rxLifeStep (l : RxLife) : RxLifeEvent → Option RxLife
  | .use e => (rxStep l.sys e).map fun s => { l with sys := s }
  | .reopen alloc => some (rxReopen l alloc)

/-- A channel that has never been registered. -/
def rxLifeInit (descLen : Nat) (packetSize : Word) : RxLife :=
  { sys :=
      { ch := { desc := fun _ => .zero, opt := fun _ => 0, descLen, currDesc := 0, packetSize }
        hw := 0, arrived := [], delivered := [], buffers := [] }
    released := [] }

/-- The call that gives a buffer of the allocator back. -/
def RxBuffer.owed (b : RxBuffer) : FreeCall := ⟨kernelVa (cphysaddr b.addr), b.opt⟩

def RxPacket.buffer (p : RxPacket) : FreeCall := ⟨p.dataptr, p.opt⟩

/-- The buffers handed to the upper layers, those freed and those that the next unregistration
would free. -/
def RxLife.accounted (l : RxLife) : List FreeCall :=
  l.sys.delivered.map RxPacket.buffer ++ l.released ++ rxUnregisterLoop l.sys.ch.descLen l.sys.ch

/-- A registration gives a new buffer to every descriptor that held one before. -/
def RefillsHeld (l : RxLife) : RxLifeEvent → Prop
  | .use _ => True
  | .reopen alloc => ∀ j, j < l.sys.ch.descLen → (l.sys.ch.desc j).holdsBuffer →
      ∀ i, i ≤ j → (alloc i).isSome

theorem rxUnregisterLoop_eq (n : Nat) (ch : RxChan) :
    rxUnregisterLoop n ch = (List.range n).flatMap (slotFree ch.desc ch.opt) := by
  induction n with
  | zero => rfl
  | succ n ih =>
    rw [rxUnregisterLoop, ih, List.range_succ, List.flatMap_append]
    simp

/-- The registration of a channel whose descriptors are zero. -/
theorem rxRegister_eq_refill (packetSize : Word) (alloc : Nat → Option RxBuffer) (n : Nat) :
    rxRegister packetSize alloc n =
      ((rxRefill packetSize alloc (fun _ => .zero) (fun _ => 0) n).desc,
        (rxRefill packetSize alloc (fun _ => .zero) (fun _ => 0) n).opt,
        (rxRefill packetSize alloc (fun _ => .zero) (fun _ => 0) n).going) := by
  induction n with
  | zero => rfl
  | succ n ih =>
    rw [rxRegister, ih, rxRefill]
    cases hg : (rxRefill packetSize alloc (fun _ => .zero) (fun _ => 0) n).going <;>
      cases ha : alloc n <;> rfl

/-- The loop fills the descriptors up to the first failed allocation and leaves the others. -/
structure RxRefilled (packetSize : Word) (alloc : Nat → Option RxBuffer) (desc : Nat → DmaDesc)
    (opt : Nat → Word) (n : Nat) (f : RxRefill) : Prop where
  le : f.taken.length ≤ n
  going : f.going = true ↔ f.taken.length = n
  stopped : f.taken.length < n → alloc f.taken.length = none
  filled : ∀ j b, f.taken[j]? = some b → alloc j = some b ∧
    f.desc j = rxRegisterDesc packetSize b ∧ f.opt j = b.opt
  kept : ∀ j, f.taken.length ≤ j → f.desc j = desc j ∧ f.opt j = opt j

theorem rxRefill_filled (packetSize : Word) (alloc : Nat → Option RxBuffer) (desc : Nat → DmaDesc)
    (opt : Nat → Word) (n : Nat) :
    RxRefilled packetSize alloc desc opt n (rxRefill packetSize alloc desc opt n) := by
  induction n with
  | zero =>
    refine ⟨le_refl 0, iff_of_true rfl rfl, fun h => absurd h (Nat.lt_irrefl 0), ?_, ?_⟩
    · intro j b hj
      simp [rxRefill] at hj
    · exact fun _ _ => ⟨rfl, rfl⟩
  | succ n ih =>
    have hle := ih.le
    rw [rxRefill]
    split
    next b hg ha =>
      have hn := ih.going.mp hg
      refine ⟨?_, ?_, ?_, ?_, ?_⟩
      · simp [hn]
      · simp [hn]
      · intro hlt
        simp [hn] at hlt
      · intro j c hj
        dsimp only at hj ⊢
        by_cases he : j = n
        · rw [he, List.getElem?_append_right (by omega), hn, Nat.sub_self] at hj
          cases Option.some.inj hj
          rw [he]
          exact ⟨ha, Function.update_self _ _ _, Function.update_self _ _ _⟩
        · have hlt := (List.getElem?_eq_some_iff.mp hj).1
          simp only [List.length_append, List.length_singleton] at hlt
          rw [List.getElem?_append_left (by omega)] at hj
          rw [Function.update_of_ne he, Function.update_of_ne he]
          exact ih.filled j c hj
      · intro j hj
        simp only [List.length_append, List.length_singleton] at hj
        dsimp only
        rw [Function.update_of_ne (by omega), Function.update_of_ne (by omega)]
        exact ih.kept j (by omega)
    next hnot =>
      refine ⟨?_, ?_, ?_, ih.filled, ih.kept⟩
      · exact Nat.le_succ_of_le hle
      · simp only [Bool.false_eq_true, false_iff]
        omega
      · intro _
        by_cases hlt : (rxRefill packetSize alloc desc opt n).taken.length < n
        · exact ih.stopped hlt
        · have hn : (rxRefill packetSize alloc desc opt n).taken.length = n := by omega
          rw [hn]
          cases ha : alloc n with
          | none => rfl
          | some b => exact absurd ha (hnot b (ih.going.mpr hn))

/-- A descriptor is refilled exactly when no allocation up to its own has failed. -/
theorem RxRefilled.lt_iff {packetSize : Word} {alloc : Nat → Option RxBuffer}
    {desc : Nat → DmaDesc} {opt : Nat → Word} {n j : Nat} {f : RxRefill}
    (h : RxRefilled packetSize alloc desc opt n f) (hj : j < n) :
    j < f.taken.length ↔ ∀ i, i ≤ j → (alloc i).isSome := by
  constructor
  · intro hlt i hi
    have hb := (h.filled i _ (List.getElem?_eq_getElem (by omega))).1
    rw [hb]
    rfl
  · intro hall
    by_contra hge
    have hnone := h.stopped (by omega)
    have hsome := hall _ (by omega : f.taken.length ≤ j)
    rw [hnone] at hsome
    exact absurd hsome Bool.false_ne_true

/-- Two functions that differ at one index only have flat images that differ at one place. -/
theorem flatMap_range_replace {α : Type} {f g : Nat → List α} {n i : Nat} (hi : i < n)
    (h : ∀ j, j ≠ i → g j = f j) : ∃ front back,
    (List.range n).flatMap f = front ++ f i ++ back ∧
      (List.range n).flatMap g = front ++ g i ++ back := by
  have hsame : ∀ l : List Nat, i ∉ l → l.flatMap g = l.flatMap f := by
    intro l hl
    refine List.flatMap_congr ?_
    intro j hj
    exact h j (fun he => hl (he ▸ hj))
  induction n with
  | zero => omega
  | succ n ih =>
    rw [List.range_succ, List.flatMap_append, List.flatMap_append]
    by_cases hlt : i < n
    · obtain ⟨front, back, hf, hg⟩ := ih hlt
      refine ⟨front, back ++ f n, ?_, ?_⟩
      · simp [hf]
      · simp [hg, h n (by omega)]
    · have he : i = n := by omega
      subst he
      refine ⟨(List.range i).flatMap f, [], by simp, ?_⟩
      rw [hsame (List.range i) (by simp)]
      simp

theorem rxRegisterDesc_dataLength (packetSize : Word) (b : RxBuffer) :
    dataLength (rxRegisterDesc packetSize b) = packetSize &&& 0xffff#32 := by
  apply BitVec.eq_of_getLsbD_eq
  intro i hi
  simp only [dataLength, rxRegisterDesc, BitVec.getLsbD_and, BitVec.getLsbD_or,
    BitVec.getLsbD_shiftLeft]
  interval_cases i <;> simp

theorem rxDesc_dataLength (packetSize : Word) (b : RxBuffer) :
    dataLength (rxDesc packetSize b) = packetSize &&& 0xffff#32 := by
  apply BitVec.eq_of_getLsbD_eq
  intro i hi
  simp only [dataLength, rxDesc, BitVec.getLsbD_and, BitVec.getLsbD_or, BitVec.getLsbD_shiftLeft]
  interval_cases i <;> simp

/-- What every sequence of uses and registrations keeps. The hardware owns no descriptor of length
zero, and the buffers accounted for are those of the allocator with a list of surplus ones. -/
structure RxLifeInv (l : RxLife) : Prop where
  curr : l.sys.ch.currDesc < l.sys.ch.descLen
  size : 0 < l.sys.ch.packetSize &&& 0xffff#32
  lengths : ∀ j, (l.sys.ch.desc j).dmaOwn = true → 0 < dataLength (l.sys.ch.desc j)
  pointers : ∀ j, ∃ a, (l.sys.ch.desc j).dataPointer = cphysaddr a
  books : ∃ surplus, l.accounted.Perm (l.sys.buffers.map RxBuffer.owed ++ surplus)

/-- The buffers accounted for beyond those that the allocator gave. -/
def RxLife.surplus (l : RxLife) : Nat := l.accounted.length - l.sys.buffers.length

theorem rxLifeInit_accounted (descLen : Nat) (packetSize : Word) :
    (rxLifeInit descLen packetSize).accounted = [] := by
  have hempty : (List.range descLen).flatMap (slotFree (fun _ => .zero) (fun _ => 0)) = [] := by
    rw [List.flatMap_eq_nil_iff]
    intro j _
    simp [slotFree, DmaDesc.holdsBuffer, DmaDesc.done, DmaDesc.dmaOwn, DmaDesc.complete,
      DmaDesc.zero]
  rw [RxLife.accounted, rxUnregisterLoop_eq]
  exact hempty

theorem rxLifeInit_inv {descLen : Nat} {packetSize : Word} (hpos : 0 < descLen)
    (hsize : 0 < packetSize &&& 0xffff#32) : RxLifeInv (rxLifeInit descLen packetSize) := by
  refine ⟨hpos, hsize, ?_, fun _ => ⟨0, rfl⟩, [], ?_⟩
  · intro j hown
    exact absurd hown (by simp [rxLifeInit, DmaDesc.zero, DmaDesc.dmaOwn])
  · rw [rxLifeInit_accounted]
    exact List.Perm.refl _

/-- A packet that arrives does not change which buffer its descriptor holds. -/
theorem slotFree_arrive {desc : Nat → DmaDesc} {i : Nat} (opt : Nat → Word) (status : Word)
    (hown : (desc i).dmaOwn = true) (hlen : 0 < dataLength (desc i)) :
    slotFree (Function.update desc i
      ⟨(status &&& 0x7fffffff#32) ||| 0x40000000#32, (desc i).dataPointer⟩) opt =
      slotFree desc opt := by
  have hbefore := DmaDesc.holdsBuffer_of_own hown hlen
  have hafter := DmaDesc.holdsBuffer_of_done (completed_status status (desc i).dataPointer)
  funext j
  by_cases hj : j = i
  · subst hj
    rw [slotFree_of_holds hbefore, slotFree_of_holds (by rw [Function.update_self, hafter]),
      Function.update_self]
  · simp only [slotFree, Function.update_of_ne hj]

theorem rxArrive_life {l : RxLife} {t : RxSys} {status : Word} (h : RxLifeInv l)
    (hs : rxArrive l.sys status = some t) :
    RxLifeInv { l with sys := t } ∧ ({ l with sys := t } : RxLife).surplus = l.surplus := by
  simp only [rxArrive] at hs
  split at hs
  next hown =>
    cases Option.some.inj hs
    clear hs
    have hlen := h.lengths l.sys.hw hown
    have hslots := slotFree_arrive l.sys.ch.opt status hown hlen
    refine ⟨⟨h.curr, h.size, ?_, ?_, ?_⟩, ?_⟩
    · intro j hj
      dsimp only at hj ⊢
      by_cases he : j = l.sys.hw
      · have hdone := completed_status status (l.sys.ch.desc l.sys.hw).dataPointer
        rw [he, Function.update_self] at hj
        simp [DmaDesc.done, hj] at hdone
      · rw [Function.update_of_ne he] at hj ⊢
        exact h.lengths j hj
    · intro j
      dsimp only
      by_cases he : j = l.sys.hw
      · rw [he, Function.update_self]
        exact h.pointers l.sys.hw
      · rw [Function.update_of_ne he]
        exact h.pointers j
    · obtain ⟨surplus, hperm⟩ := h.books
      refine ⟨surplus, ?_⟩
      simp only [RxLife.accounted, rxUnregisterLoop_eq, hslots] at hperm ⊢
      exact hperm
    · simp only [RxLife.surplus, RxLife.accounted, rxUnregisterLoop_eq, hslots]
  next => simp at hs

/-- A read hands over the buffer of its descriptor and puts the new one there. -/
theorem rxRead_life {l : RxLife} {b : RxBuffer} (h : RxLifeInv l)
    (hdone : (l.sys.ch.desc l.sys.ch.currDesc).done = true) :
    RxLifeInv { l with sys := rxRead l.sys (some b) } ∧
      ({ l with sys := rxRead l.sys (some b) } : RxLife).surplus = l.surplus := by
  obtain ⟨a, ha⟩ := h.pointers l.sys.ch.currDesc
  have hnonnull : (l.sys.ch.packetAt l.sys.ch.currDesc).dataptr ≠ 0 := by
    rw [RxChan.packetAt, ha]
    exact kernelVa_cphysaddr_ne_zero a
  have hread : rxRead l.sys (some b) = { l.sys with
      ch := rxAdvance { l.sys.ch with
        opt := Function.update l.sys.ch.opt l.sys.ch.currDesc b.opt
        desc := Function.update l.sys.ch.desc l.sys.ch.currDesc (rxDesc l.sys.ch.packetSize b) }
      delivered := l.sys.delivered ++ [l.sys.ch.packetAt l.sys.ch.currDesc]
      buffers := l.sys.buffers ++ [b] } := by
    simpa [rxRead, dmaDeviceRead, hdone] using hnonnull
  have hlen : 0 < dataLength (rxDesc l.sys.ch.packetSize b) := by
    rw [rxDesc_dataLength]
    exact h.size
  have hother : ∀ j, j ≠ l.sys.ch.currDesc →
      slotFree (Function.update l.sys.ch.desc l.sys.ch.currDesc (rxDesc l.sys.ch.packetSize b))
        (Function.update l.sys.ch.opt l.sys.ch.currDesc b.opt) j =
        slotFree l.sys.ch.desc l.sys.ch.opt j := by
    intro j hj
    simp only [slotFree, Function.update_of_ne hj]
  obtain ⟨front, back, hf, hg⟩ := flatMap_range_replace h.curr hother
  rw [slotFree_of_holds (DmaDesc.holdsBuffer_of_done hdone)] at hf
  have hheld := DmaDesc.holdsBuffer_of_own (rxDesc_dmaOwn l.sys.ch.packetSize b) hlen
  rw [slotFree_of_holds (by rw [Function.update_self, hheld]), Function.update_self,
    Function.update_self] at hg
  obtain ⟨surplus, hperm⟩ := h.books
  have hperm' : ({ l with sys := rxRead l.sys (some b) } : RxLife).accounted.Perm
      ((rxRead l.sys (some b)).buffers.map RxBuffer.owed ++ surplus) := by
    rw [List.perm_iff_count] at hperm ⊢
    intro c
    have hc := hperm c
    simp only [RxLife.accounted, rxUnregisterLoop_eq, hread, rxAdvance, hf, hg, List.map_append,
      List.map_cons, List.map_nil, List.count_append] at hc ⊢
    have hp : (l.sys.ch.packetAt l.sys.ch.currDesc).buffer =
        ⟨kernelVa (l.sys.ch.desc l.sys.ch.currDesc).dataPointer, l.sys.ch.opt l.sys.ch.currDesc⟩ :=
      rfl
    have hb : b.owed = ⟨kernelVa (rxDesc l.sys.ch.packetSize b).dataPointer, b.opt⟩ := rfl
    rw [hp, hb]
    omega
  refine ⟨⟨?_, ?_, ?_, ?_, surplus, hperm'⟩, ?_⟩
  · have hcurr := h.curr
    rw [hread]
    dsimp only [rxAdvance]
    split
    next => omega
    next => omega
  · rw [hread]
    exact h.size
  · rw [hread]
    intro j hj
    dsimp only [rxAdvance] at hj ⊢
    by_cases he : j = l.sys.ch.currDesc
    · rw [he, Function.update_self]
      exact hlen
    · rw [Function.update_of_ne he] at hj ⊢
      exact h.lengths j hj
  · rw [hread]
    intro j
    dsimp only [rxAdvance]
    by_cases he : j = l.sys.ch.currDesc
    · rw [he, Function.update_self]
      exact ⟨b.addr, rfl⟩
    · rw [Function.update_of_ne he]
      exact h.pointers j
  · have hlen := hperm.length_eq
    have hlen' := hperm'.length_eq
    simp only [List.length_append, List.length_map] at hlen hlen'
    rw [RxLife.surplus, RxLife.surplus]
    dsimp only at hlen' ⊢
    omega

/-- A read that gets no buffer moves on and leaves the packet's buffer in its descriptor. -/
theorem rxRead_none {s : RxSys} (hdone : (s.ch.desc s.ch.currDesc).done = true) :
    rxRead s none = { s with ch := rxAdvance s.ch } := by
  simp [rxRead, dmaDeviceRead, hdone]

theorem rxStep_life {l : RxLife} {t : RxSys} {e : RxEvent} (h : RxLifeInv l)
    (hs : rxStep l.sys e = some t) :
    RxLifeInv { l with sys := t } ∧ ({ l with sys := t } : RxLife).surplus = l.surplus := by
  cases e with
  | arrive status => exact rxArrive_life h hs
  | read alloc =>
    cases Option.some.inj hs
    by_cases hdone : (l.sys.ch.desc l.sys.ch.currDesc).done = true
    · cases alloc with
      | some b => exact rxRead_life h hdone
      | none =>
        have hcurr := h.curr
        rw [rxRead_none hdone]
        refine ⟨⟨?_, h.size, h.lengths, h.pointers, ?_⟩, ?_⟩
        · dsimp only [rxAdvance]
          split
          next => omega
          next => omega
        · simpa only [RxLife.accounted, rxUnregisterLoop_eq, rxAdvance] using h.books
        · simp only [RxLife.surplus, RxLife.accounted, rxUnregisterLoop_eq, rxAdvance]
    · rw [rxRead_empty hdone]
      exact ⟨h, rfl⟩

/-- The buffers that the next unregistration would free a second time. -/
def staleBuffers (ch : RxChan) (filled : Nat) : List FreeCall :=
  ((List.range ch.descLen).drop filled).flatMap (slotFree ch.desc ch.opt)

/-- After a registration the descriptors hold the buffers taken and, where it stopped early, the
old ones that the unregistration has just freed. -/
theorem rxRefill_held {ch : RxChan} {alloc : Nat → Option RxBuffer} {f : RxRefill}
    (hsize : 0 < ch.packetSize &&& 0xffff#32)
    (h : RxRefilled ch.packetSize alloc ch.desc ch.opt ch.descLen f) :
    (List.range ch.descLen).flatMap (slotFree f.desc f.opt) =
      f.taken.map RxBuffer.owed ++ staleBuffers ch f.taken.length := by
  have hle := h.le
  have hnew : ((List.range ch.descLen).take f.taken.length).flatMap (slotFree f.desc f.opt) =
      f.taken.map RxBuffer.owed := by
    rw [List.take_range, Nat.min_eq_left hle]
    have heach : ∀ j b, f.taken[j]? = some b → slotFree f.desc f.opt j = [b.owed] := by
      intro j b hj
      obtain ⟨-, hdesc, hopt⟩ := h.filled j b hj
      have hheld : (f.desc j).holdsBuffer = true := by
        rw [hdesc]
        refine DmaDesc.holdsBuffer_of_own (rxRegisterDesc_dmaOwn _ _) ?_
        rw [rxRegisterDesc_dataLength]
        exact hsize
      rw [slotFree_of_holds hheld, hdesc, hopt]
      rfl
    rw [List.map_eq_flatMap, List.flatMap_def, List.flatMap_def]
    congr 1
    apply List.ext_getElem
    · simp
    · intro j hj hj'
      simp only [List.length_map] at hj'
      simpa using heach j _ (List.getElem?_eq_getElem hj')
  have hold : ((List.range ch.descLen).drop f.taken.length).flatMap (slotFree f.desc f.opt) =
      staleBuffers ch f.taken.length := by
    refine List.flatMap_congr ?_
    intro j hj
    obtain ⟨k, hk, hj⟩ := List.getElem_of_mem hj
    simp only [List.getElem_drop, List.getElem_range] at hj
    obtain ⟨hd, ho⟩ := h.kept j (by omega)
    simp only [slotFree, hd, ho]
  rw [← hnew, ← hold, ← List.flatMap_append, List.take_append_drop]

theorem staleBuffers_eq_nil_iff {ch : RxChan} {n : Nat} (hn : n ≤ ch.descLen) :
    staleBuffers ch n = [] ↔
      ∀ j, j < ch.descLen → (ch.desc j).holdsBuffer = true → j < n := by
  rw [staleBuffers, List.flatMap_eq_nil_iff]
  constructor
  · intro h j hj hheld
    by_contra hge
    have hmem : j ∈ (List.range ch.descLen).drop n :=
      List.mem_drop_iff_getElem.mpr ⟨j - n, by simp; omega, by simp; omega⟩
    have hnil := h j hmem
    rw [slotFree_of_holds hheld] at hnil
    exact absurd hnil (List.cons_ne_nil _ _)
  · intro h j hj
    obtain ⟨k, hk, hj⟩ := List.getElem_of_mem hj
    simp only [List.getElem_drop, List.getElem_range, List.length_drop, List.length_range] at hk hj
    rw [slotFree, if_neg]
    intro hheld
    have := h j (by omega) hheld
    omega

theorem rxReopen_life {l : RxLife} (h : RxLifeInv l) (alloc : Nat → Option RxBuffer) :
    RxLifeInv (rxReopen l alloc) ∧ l.surplus ≤ (rxReopen l alloc).surplus ∧
      (RefillsHeld l (.reopen alloc) ↔ (rxReopen l alloc).surplus = l.surplus) := by
  obtain ⟨f, hf⟩ : ∃ f, rxRefill l.sys.ch.packetSize alloc l.sys.ch.desc l.sys.ch.opt
      l.sys.ch.descLen = f := ⟨_, rfl⟩
  have hfill := rxRefill_filled l.sys.ch.packetSize alloc l.sys.ch.desc l.sys.ch.opt
    l.sys.ch.descLen
  rw [hf] at hfill
  have hheld := rxRefill_held h.size hfill
  obtain ⟨surplus, hperm⟩ := h.books
  have hperm' : (rxReopen l alloc).accounted.Perm ((rxReopen l alloc).sys.buffers.map RxBuffer.owed
      ++ (surplus ++ staleBuffers l.sys.ch f.taken.length)) := by
    rw [List.perm_iff_count] at hperm ⊢
    intro c
    have hc := hperm c
    simp only [RxLife.accounted, rxUnregisterLoop_eq, rxReopen, hf, hheld, List.map_append,
      List.count_append] at hc ⊢
    omega
  have hlen := hperm.length_eq
  have hlen' := hperm'.length_eq
  simp only [List.length_append, List.length_map] at hlen hlen'
  have hcount : (rxReopen l alloc).surplus =
      l.surplus + (staleBuffers l.sys.ch f.taken.length).length := by
    rw [RxLife.surplus, RxLife.surplus]
    omega
  refine ⟨⟨?_, h.size, ?_, ?_, _, hperm'⟩, by omega, ?_⟩
  · have hcurr := h.curr
    change 0 < l.sys.ch.descLen
    omega
  · intro j hown
    simp only [rxReopen, hf] at hown ⊢
    by_cases hj : j < f.taken.length
    · obtain ⟨-, hdesc, -⟩ := hfill.filled j _ (List.getElem?_eq_getElem hj)
      rw [hdesc, rxRegisterDesc_dataLength]
      exact h.size
    · obtain ⟨hd, -⟩ := hfill.kept j (by omega)
      rw [hd] at hown ⊢
      exact h.lengths j hown
  · intro j
    simp only [rxReopen, hf]
    by_cases hj : j < f.taken.length
    · obtain ⟨-, hdesc, -⟩ := hfill.filled j _ (List.getElem?_eq_getElem hj)
      rw [hdesc]
      exact ⟨_, rfl⟩
    · obtain ⟨hd, -⟩ := hfill.kept j (by omega)
      rw [hd]
      exact h.pointers j
  · rw [hcount, Nat.add_eq_left, List.length_eq_zero_iff, staleBuffers_eq_nil_iff hfill.le]
    refine forall_congr' fun j => forall_congr' fun hj => forall_congr' fun _ => ?_
    exact (hfill.lt_iff hj).symm

theorem RxLifeInv.balanced {l : RxLife} (h : RxLifeInv l) :
    l.accounted.Perm (l.sys.buffers.map RxBuffer.owed) ↔ l.surplus = 0 := by
  obtain ⟨surplus, hperm⟩ := h.books
  have hlen := hperm.length_eq
  rw [List.length_append, List.length_map] at hlen
  rw [RxLife.surplus]
  constructor
  · intro hp
    have hl := hp.length_eq
    rw [List.length_map] at hl
    omega
  · intro hm
    have hnil : surplus = [] := List.length_eq_zero_iff.mp (by omega)
    simpa [hnil] using hperm

theorem rxLifeStep_inv {l m : RxLife} {e : RxLifeEvent} (h : RxLifeInv l)
    (hs : rxLifeStep l e = some m) : RxLifeInv m := by
  cases e with
  | use e =>
    obtain ⟨s, hstep, rfl⟩ := Option.map_eq_some_iff.mp hs
    exact (rxStep_life h hstep).1
  | reopen alloc =>
    cases Option.some.inj hs
    exact (rxReopen_life h alloc).1

theorem rxLifeStep_surplus {l m : RxLife} {e : RxLifeEvent} (h : RxLifeInv l)
    (hs : rxLifeStep l e = some m) :
    l.surplus ≤ m.surplus ∧ (RefillsHeld l e ↔ m.surplus = l.surplus) := by
  cases e with
  | use e =>
    obtain ⟨s, hstep, rfl⟩ := Option.map_eq_some_iff.mp hs
    have hsame := (rxStep_life h hstep).2
    exact ⟨hsame.ge, iff_of_true trivial hsame⟩
  | reopen alloc =>
    cases Option.some.inj hs
    exact (rxReopen_life h alloc).2

/-- Over any sequence of arrivals, reads and registrations, with whatever the allocator answers, the
buffers handed over, those freed and those that the next unregistration frees are exactly those of
the allocator, each once, if and only if every registration refilled the descriptors that held a
buffer: reads that get no buffer lose none, while a registration that stops early has the buffers
of the descriptors behind it freed twice. -/
theorem dmaRx_unregister_books (descLen : Nat) (packetSize : Word) (hpos : 0 < descLen)
    (hsize : 0 < packetSize &&& 0xffff#32) (es : List RxLifeEvent) (l : RxLife)
    (h : run rxLifeStep (rxLifeInit descLen packetSize) es = some l) :
    l.accounted.Perm (l.sys.buffers.map RxBuffer.owed) ↔
      RunMeets rxLifeStep RefillsHeld (rxLifeInit descLen packetSize) es := by
  have hinit := rxLifeInit_inv hpos hsize
  have hinv := run_invariant rxLifeStep_inv hinit h
  obtain ⟨-, hmeets⟩ := runMeets_iff_measure (m := RxLife.surplus) rxLifeStep_inv
    (fun hi hs => (rxLifeStep_surplus hi hs).1) (fun hi hs => (rxLifeStep_surplus hi hs).2) hinit h
  have hnone : (rxLifeInit descLen packetSize).surplus = 0 := by
    rw [RxLife.surplus, rxLifeInit_accounted]
    rfl
  rw [hinv.balanced, hmeets, hnone]

/-- The second registration gets a buffer for the first descriptor only: the old buffer of the
second one is freed by both unregistrations. -/
theorem dmaRx_unregister_books_small :
    ∃ l, run rxLifeStep (rxLifeInit 2 1536) [.reopen rxBufferAt, .use (.arrive 60),
        .use (.read none), .reopen fun j => if j = 0 then rxBufferAt 5 else none,
        .reopen rxBufferAt] = some l ∧
      l.released.count ⟨0x80100800, 1⟩ = 2 ∧
      ¬ l.accounted.Perm (l.sys.buffers.map RxBuffer.owed) := by
  refine ⟨_, rfl, by decide, ?_⟩
  intro hperm
  have hmeets := (dmaRx_unregister_books 2 1536 (by decide) (by decide)
    [.reopen rxBufferAt, .use (.arrive 60), .use (.read none),
      .reopen fun j => if j = 0 then rxBufferAt 5 else none, .reopen rxBufferAt] _ rfl).mp hperm
  have hreopen := (((hmeets.2 _ rfl).2 _ rfl).2 _ rfl).1
  exact absurd (hreopen 1 (by decide) (by decide) 1 (le_refl 1)) (by decide)

end DanubeBsp
