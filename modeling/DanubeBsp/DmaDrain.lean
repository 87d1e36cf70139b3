import DanubeBsp.DmaWfq

namespace DanubeBsp

section Rings

variable {cfg : DmaConfig} {r : RxRing} {alloc : Nat → Option RxBuffer}

theorem RxRing.ahead_zero (r : RxRing) : r.ahead 0 = r.head := by
  rw [RxRing.ahead, Nat.add_zero, Nat.mod_eq_of_lt r.inRing, RxRing.head]

theorem rxDeliverable_not_dmaOwn {d : DmaDesc} (h : rxDeliverable cfg d = true) :
    d.dmaOwn = false := by
  simp only [rxDeliverable, DmaDesc.done, Bool.and_eq_true, Bool.not_eq_true'] at h
  exact h.1.1

theorem rxDeliverable_done {d : DmaDesc} (h : rxDeliverable cfg d = true) : d.done = true := by
  simp only [rxDeliverable, Bool.and_eq_true] at h
  exact h.1

theorem rxAdvance_currDesc (r : RxRing) :
    (rxAdvance r.ch).currDesc = (r.ch.currDesc + 1) % r.ch.descLen := by
  have hr := r.inRing
  simp only [rxAdvance]
  split
  next h => rw [h, Nat.mod_self]
  next h => rw [Nat.mod_eq_of_lt (by omega)]

/-- What a read of a completed descriptor leaves in its place. -/
def refilled (r : RxRing) : Option RxBuffer → DmaDesc
  | some b => rxDesc r.ch.packetSize b
  | none => r.head

theorem RxRing.read_ch (h : r.head.done = true) (a : Option RxBuffer) :
    (r.read a).ch.desc = Function.update r.ch.desc r.ch.currDesc (refilled r a) ∧
      (r.read a).ch.currDesc = (r.ch.currDesc + 1) % r.ch.descLen ∧
      (r.read a).ch.descLen = r.ch.descLen := by
  have hdone : (r.ch.desc r.ch.currDesc).done = true := h
  cases a with
  | none =>
    have hch : (r.read none).ch = rxAdvance r.ch := by
      change (dmaDeviceRead r.ch none).2 = _
      simp only [dmaDeviceRead, hdone, if_true]
    rw [hch]
    refine ⟨?_, rxAdvance_currDesc r, rfl⟩
    change r.ch.desc = Function.update r.ch.desc r.ch.currDesc r.head
    rw [RxRing.head, Function.update_eq_self]
  | some b =>
    have hch : (r.read (some b)).ch = rxAdvance { r.ch with
        opt := Function.update r.ch.opt r.ch.currDesc b.opt
        desc := Function.update r.ch.desc r.ch.currDesc (rxDesc r.ch.packetSize b) } := by
      change (dmaDeviceRead r.ch (some b)).2 = _
      simp only [dmaDeviceRead, hdone, if_true]
    rw [hch]
    exact ⟨rfl, rxAdvance_currDesc r, rfl⟩

theorem RxRing.read_size (h : r.head.done = true) (a : Option RxBuffer) :
    (r.read a).size = r.size := (r.read_ch h a).2.2

/-- A read moves every other descriptor one place nearer. -/
theorem RxRing.read_ahead (h : r.head.done = true) (a : Option RxBuffer) {j : Nat}
    (hj : j + 1 < r.size) : (r.read a).ahead j = r.ahead (j + 1) := by
  have hr := r.inRing
  obtain ⟨hdesc, hcurr, hlen⟩ := r.read_ch h a
  have hj : j + 1 < r.ch.descLen := hj
  have hne : (r.ch.currDesc + (j + 1)) % r.ch.descLen ≠ r.ch.currDesc := by
    by_cases hlt : r.ch.currDesc + (j + 1) < r.ch.descLen
    · rw [Nat.mod_eq_of_lt hlt]
      omega
    · rw [Nat.mod_eq_sub_mod (by omega), Nat.mod_eq_of_lt (by omega)]
      omega
  rw [RxRing.ahead, hdesc, hcurr, hlen, Nat.mod_add_mod, Nat.add_assoc, Nat.add_comm 1 j,
    Function.update_of_ne hne, RxRing.ahead]

/-- The descriptor that was read is now the last of the ring. -/
theorem RxRing.read_ahead_last (h : r.head.done = true) (a : Option RxBuffer) :
    (r.read a).ahead (r.size - 1) = refilled r a := by
  have hr := r.inRing
  obtain ⟨hdesc, hcurr, hlen⟩ := r.read_ch h a
  have hlast : r.ch.currDesc + 1 + (r.size - 1) = r.ch.currDesc + r.ch.descLen := by
    have hsize : r.size = r.ch.descLen := rfl
    omega
  rw [RxRing.ahead, hdesc, hcurr, hlen, Nat.mod_add_mod, hlast, Nat.add_mod_right,
    Nat.mod_eq_of_lt hr, Function.update_self]

/-- `k` reads bring the channel to a descriptor of the hardware. -/
inductive DrainsIn (cfg : DmaConfig) (handler : Bool) (alloc : Nat → Option RxBuffer) :
    Nat → RxRing → Nat → Prop
  | owned {n : Nat} {r : RxRing} (h : r.head.dmaOwn = true) : DrainsIn cfg handler alloc n r 0
  | read {n k : Nat} {r : RxRing} (hh : handler = true) (h : rxDeliverable cfg r.head = true)
      (hk : DrainsIn cfg handler alloc (n + 1) (r.read (alloc n)) k) :
      DrainsIn cfg handler alloc n r (k + 1)

theorem RxRing.size_pos (r : RxRing) : 0 < r.size := lt_of_le_of_lt (Nat.zero_le _) r.inRing

/-- The reads reach a descriptor of the hardware before they are round the ring. -/
theorem drainsIn_of_owned {k : Nat} (n : Nat) (hk : k < r.size)
    (hbefore : ∀ j, j < k → rxDeliverable cfg (r.ahead j) = true)
    (hown : (r.ahead k).dmaOwn = true) : DrainsIn cfg true alloc n r k := by
  induction k generalizing n r with
  | zero =>
    rw [r.ahead_zero] at hown
    exact .owned hown
  | succ k ih =>
    have hhead : rxDeliverable cfg r.head = true := r.ahead_zero ▸ hbefore 0 (by omega)
    have hdone := rxDeliverable_done hhead
    refine .read rfl hhead (ih (n + 1) ?_ ?_ ?_)
    · rw [r.read_size hdone]
      omega
    · intro j hj
      rw [r.read_ahead hdone _ (by omega)]
      exact hbefore (j + 1) (by omega)
    · rw [r.read_ahead hdone _ hk]
      exact hown

/-- A full ring in which a read has just put a new buffer: the reads come round to it. -/
theorem drainsIn_of_refill (n : Nat) {b : RxBuffer}
    (hall : ∀ j, j < r.size → rxDeliverable cfg (r.ahead j) = true) (hb : alloc n = some b) :
    ∃ k, DrainsIn cfg true alloc n r k := by
  have hpos := r.size_pos
  have hhead : rxDeliverable cfg r.head = true := r.ahead_zero ▸ hall 0 hpos
  have hdone := rxDeliverable_done hhead
  refine ⟨r.size - 1 + 1, .read rfl hhead (drainsIn_of_owned _ ?_ ?_ ?_)⟩
  · rw [r.read_size hdone]
    omega
  · intro j hj
    rw [r.read_ahead hdone _ (by omega)]
    exact hall (j + 1) (by omega)
  · rw [r.read_ahead_last hdone, hb]
    exact rxDesc_dmaOwn _ _

theorem drainsIn_of_alloc {m : Nat} (n : Nat)
    (hall : ∀ j, j < r.size → rxDeliverable cfg (r.ahead j) = true)
    (hm : (alloc (n + m)).isSome = true) : ∃ k, DrainsIn cfg true alloc n r k := by
  induction m generalizing n r with
  | zero =>
    obtain ⟨b, hb⟩ := Option.isSome_iff_exists.mp hm
    exact drainsIn_of_refill n hall hb
  | succ m ih =>
    cases hn : alloc n with
    | some b => exact drainsIn_of_refill n hall hn
    | none =>
      have hhead : rxDeliverable cfg r.head = true := r.ahead_zero ▸ hall 0 r.size_pos
      have hdone := rxDeliverable_done hhead
      have hall' : ∀ j, j < (r.read (alloc n)).size →
          rxDeliverable cfg ((r.read (alloc n)).ahead j) = true := by
        intro j hj
        rw [r.read_size hdone] at hj
        by_cases hlast : j + 1 < r.size
        · rw [r.read_ahead hdone _ hlast]
          exact hall (j + 1) hlast
        · have hj : j = r.size - 1 := by omega
          rw [hj, r.read_ahead_last hdone, hn]
          exact hhead
      obtain ⟨k, hk⟩ := ih (n + 1) hall' (by rwa [Nat.add_assoc, Nat.add_comm 1 m])
      exact ⟨k + 1, .read rfl hhead hk⟩

/-- The other direction, one read back: the slot just read is a descriptor of the hardware only
after an allocation, and a packet only without one. -/
theorem RingDrains.unread (h : rxDeliverable cfg r.head = true) {n : Nat}
    (hd : RingDrains cfg (fun m => alloc (n + 1 + m)) (r.read (alloc n))) :
    RingDrains cfg (fun m => alloc (n + m)) r := by
  have hdone := rxDeliverable_done h
  have hown := rxDeliverable_not_dmaOwn h
  have hpos := r.size_pos
  have hshift : ∀ {k}, k < r.size →
      (∀ j, j < k → rxDeliverable cfg ((r.read (alloc n)).ahead j) = true) →
      ∀ j, j ≤ k → j < r.size → rxDeliverable cfg (r.ahead j) = true := by
    intro k hk hbefore j hj hj'
    cases j with
    | zero => rwa [r.ahead_zero]
    | succ j =>
      rw [← r.read_ahead hdone (alloc n) hj']
      exact hbefore j (by omega)
  obtain ⟨k, hk, hbefore, hkown⟩ | ⟨hall, m, hm⟩ := hd
  · rw [r.read_size hdone] at hk
    by_cases hlast : k + 1 < r.size
    · left
      refine ⟨k + 1, hlast, ?_, ?_⟩
      · intro j hj
        exact hshift hk hbefore j (by omega) (by omega)
      · rwa [← r.read_ahead hdone (alloc n) hlast]
    · right
      refine ⟨fun j hj => hshift hk hbefore j (by omega) hj, 0, ?_⟩
      have hk : k = r.size - 1 := by omega
      rw [hk, r.read_ahead_last hdone] at hkown
      cases hn : alloc n with
      | some b => simp [hn]
      | none =>
        rw [hn] at hkown
        exact absurd (hown.symm.trans hkown) Bool.false_ne_true
  · right
    rw [r.read_size hdone] at hall
    refine ⟨?_, m + 1, ?_⟩
    · intro j hj
      exact hshift (by omega : r.size - 1 < r.size) (fun i hi => hall i (by omega)) j (by omega) hj
    · dsimp only
      rwa [← Nat.add_assoc, Nat.add_right_comm]

theorem exists_drainsIn_iff {handler : Bool} {n : Nat} :
    (∃ k, DrainsIn cfg handler alloc n r k) ↔
      r.head.dmaOwn = true ∨ (handler = true ∧ RingDrains cfg (fun m => alloc (n + m)) r) := by
  constructor
  · rintro ⟨k, hk⟩
    induction hk with
    | owned h => exact .inl h
    | @read n k r hh h _ ih =>
      right
      refine ⟨hh, RingDrains.unread h ?_⟩
      obtain hown | ⟨-, hd⟩ := ih
      · exact .inl ⟨0, RxRing.size_pos _, fun j hj => absurd hj (Nat.not_lt_zero j),
          (RxRing.ahead_zero _).symm ▸ hown⟩
      · exact hd
  · rintro (hown | ⟨rfl, ⟨k, hk, hbefore, hown⟩ | ⟨hall, m, hm⟩⟩)
    · exact ⟨0, .owned hown⟩
    · exact ⟨k, drainsIn_of_owned n hk hbefore hown⟩
    · exact drainsIn_of_alloc n hall hm

end Rings

end DanubeBsp
