import DanubeBsp.DmaTx

namespace DanubeBsp

/-- The log lengths are the absolute positions of the three ring indices: the descriptors up to
the completed count are done, those up to the accepted count belong to the hardware, and the
remaining ones are cleared. -/
structure TxInv (txBurstLen : ℕ+) (s : TxSys) : Prop where
  pos : 0 < s.ch.descLen
  prev : s.ch.prevDesc = s.freed.length % s.ch.descLen
  hw : s.hw = s.completed % s.ch.descLen
  curr : s.ch.currDesc = s.accepted.length % s.ch.descLen
  freedLe : s.freed.length ≤ s.completed
  completedLe : s.completed ≤ s.accepted.length
  room : s.accepted.length ≤ s.freed.length + s.ch.descLen
  done : ∀ i, s.freed.length ≤ i → i < s.completed →
    (s.ch.desc (i % s.ch.descLen)).done = true
  pending : ∀ i, s.completed ≤ i → i < s.accepted.length →
    (s.ch.desc (i % s.ch.descLen)).dmaOwn = true
  free : ∀ i, s.accepted.length ≤ i → i < s.freed.length + s.ch.descLen →
    s.ch.desc (i % s.ch.descLen) = .zero
  owed : ∀ i p, s.freed.length ≤ i → s.accepted[i]? = some p →
    FreeCall.mk (kernelVa (s.ch.desc (i % s.ch.descLen)).dataPointer)
      (s.ch.opt (i % s.ch.descLen)) = owedFree txBurstLen p
  order : s.freed = (s.accepted.take s.freed.length).map (owedFree txBurstLen)

theorem txInit_inv {txBurstLen : ℕ+} {descLen : Nat} (opt : Nat → Word) (hpos : 0 < descLen) :
    TxInv txBurstLen (txInit descLen opt) := by
  refine ⟨hpos, ?_, ?_, ?_, le_refl 0, le_refl 0, Nat.zero_le _, ?_, ?_, fun _ _ _ => rfl, ?_, rfl⟩
  · exact (Nat.zero_mod _).symm
  · exact (Nat.zero_mod _).symm
  · exact (Nat.zero_mod _).symm
  · intro i _ hi
    exact absurd hi (Nat.not_lt_zero i)
  · intro i _ hi
    exact absurd hi (Nat.not_lt_zero i)
  · intro i p _ hp
    simp [txInit] at hp

/-- The reclaimed state of a run: the packet at `prev_desc` is freed. -/
def reclaimed (s : TxSys) : TxSys :=
  { s with ch := (reclaimOne s.ch).1, freed := s.freed ++ [(reclaimOne s.ch).2] }

theorem TxInv.reclaimOne {txBurstLen : ℕ+} {s : TxSys} (h : TxInv txBurstLen s)
    (hlt : s.freed.length < s.completed) : TxInv txBurstLen (reclaimed s) := by
  have hlen : (reclaimed s).freed.length = s.freed.length + 1 := by simp [reclaimed]
  have hpos := h.pos
  have hle := h.completedLe
  have hroom := h.room
  have hdl : (reclaimed s).ch.descLen = s.ch.descLen := rfl
  have hother : ∀ i, s.freed.length + 1 ≤ i → i < s.freed.length + s.ch.descLen →
      (reclaimed s).ch.desc (i % s.ch.descLen) = s.ch.desc (i % s.ch.descLen) := by
    intro i hi hi'
    have hne := ringPos_ne (p := s.freed.length) (by omega) hi' (le_refl _)
      (by omega) (by omega : i ≠ s.freed.length)
    rw [← h.prev] at hne
    exact Function.update_of_ne hne _ _
  obtain ⟨p, hp⟩ : ∃ p, s.accepted[s.freed.length]? = some p :=
    ⟨_, List.getElem?_eq_getElem (by omega)⟩
  have howed := h.owed s.freed.length p (le_refl _) hp
  rw [← h.prev] at howed
  refine ⟨hpos, ?_, h.hw, h.curr, ?_, hle, ?_, ?_, ?_, ?_, ?_, ?_⟩
  · rw [hlen]
    change (s.ch.prevDesc + 1) % s.ch.descLen = _
    rw [h.prev, Nat.mod_add_mod, hdl]
  · rw [hlen]
    exact hlt
  · rw [hlen, hdl]
    change s.accepted.length ≤ _
    omega
  · intro i hi hi'
    rw [hlen] at hi
    have hi' : i < s.completed := hi'
    rw [hdl, hother i hi (by omega)]
    exact h.done i (by omega) hi'
  · intro i hi hi'
    have hi : s.completed ≤ i := hi
    have hi' : i < s.accepted.length := hi'
    rw [hdl, hother i (by omega) (by omega)]
    exact h.pending i hi hi'
  · intro i hi hi'
    have hi : s.accepted.length ≤ i := hi
    rw [hlen, hdl] at hi'
    rw [hdl]
    by_cases hlast : i = s.freed.length + s.ch.descLen
    · rw [hlast, Nat.add_mod_right, ← h.prev]
      exact Function.update_self _ _ _
    · rw [hother i (by omega) (by omega)]
      exact h.free i hi (by omega)
  · intro i q hi hq
    rw [hlen] at hi
    have hq : s.accepted[i]? = some q := hq
    have hi' : i < s.accepted.length := (List.getElem?_eq_some_iff.mp hq).1
    rw [hdl, hother i hi (by omega)]
    exact h.owed i q (by omega) hq
  · rw [hlen]
    change s.freed ++ [(DanubeBsp.reclaimOne s.ch).2] = _
    have hcall : (DanubeBsp.reclaimOne s.ch).2 = owedFree txBurstLen p := howed
    rw [hcall]
    change _ = (s.accepted.take (s.freed.length + 1)).map (owedFree txBurstLen)
    rw [List.take_add_one, hp, List.map_append, ← h.order]
    rfl

/-- When everything completed is reclaimed, the loop condition fails. -/
theorem TxInv.head_not_done {txBurstLen : ℕ+} {s : TxSys} (h : TxInv txBurstLen s)
    (heq : s.freed.length = s.completed) : (s.ch.desc s.ch.prevDesc).done = false := by
  have hpos := h.pos
  rw [h.prev]
  by_cases hlt : s.freed.length < s.accepted.length
  · have hown := h.pending s.freed.length (by omega) hlt
    simp [DmaDesc.done, hown]
  · rw [h.free s.freed.length (by omega) (by omega)]
    rfl

/-- The reclaim loop ends within the given fuel and frees exactly the completed packets. -/
theorem TxInv.reclaim {txBurstLen : ℕ+} {fuel : Nat} {s : TxSys} (h : TxInv txBurstLen s)
    (hfuel : s.completed - s.freed.length < fuel) :
    ∃ ch freed, reclaim fuel s.ch = some (ch, freed) ∧
      TxInv txBurstLen { s with ch := ch, freed := s.freed ++ freed } ∧
      (s.freed ++ freed).length = s.completed ∧ ch.descLen = s.ch.descLen := by
  induction fuel generalizing s with
  | zero => omega
  | succ fuel ih =>
    have hle := h.freedLe
    by_cases heq : s.freed.length = s.completed
    · refine ⟨s.ch, [], ?_, ?_, by simpa using heq, rfl⟩
      · rw [DanubeBsp.reclaim, if_neg (by rw [h.head_not_done heq]; decide)]
      · simpa using h
    · have hlt : s.freed.length < s.completed := by omega
      have hdone := h.done s.freed.length (le_refl _) hlt
      rw [← h.prev] at hdone
      have hlen : (reclaimed s).freed.length = s.freed.length + 1 := by simp [reclaimed]
      have hcomp : (reclaimed s).completed = s.completed := rfl
      obtain ⟨ch, freed, hr, hinv, hl, hdl⟩ := ih (h.reclaimOne hlt) (by omega)
      refine ⟨ch, (DanubeBsp.reclaimOne s.ch).2 :: freed, ?_, ?_, ?_, hdl⟩
      · have hr' : DanubeBsp.reclaim fuel (DanubeBsp.reclaimOne s.ch).1 = some (ch, freed) := hr
        rw [DanubeBsp.reclaim, if_pos hdone, hr']
        rfl
      · simpa [reclaimed] using hinv
      · simpa [reclaimed] using hl

theorem reclaim_nil {fuel : Nat} {ch ch' : TxChan} (h : reclaim fuel ch = some (ch', [])) :
    ch' = ch := by
  cases fuel with
  | zero => simp [reclaim] at h
  | succ fuel =>
    rw [reclaim] at h
    split at h
    next =>
      obtain ⟨⟨c, f⟩, -, hc⟩ := Option.bind_eq_some_iff.mp h
      simp at hc
    next =>
      cases Option.some.inj h
      rfl

theorem TxInv.submit {txBurstLen : ℕ+} {s : TxSys} {p : TxPacket} (h : TxInv txBurstLen s)
    (hlt : s.accepted.length < s.freed.length + s.ch.descLen) :
    TxInv txBurstLen { s with ch := submit txBurstLen s.ch p, accepted := s.accepted ++ [p] } := by
  have hpos := h.pos
  have hfc := h.freedLe
  have hca := h.completedLe
  have hother : ∀ i, s.freed.length ≤ i → i < s.freed.length + s.ch.descLen →
      i ≠ s.accepted.length → i % s.ch.descLen ≠ s.ch.currDesc := by
    intro i hi hi' hne
    rw [h.curr]
    exact ringPos_ne hi hi' (by omega) hlt hne
  refine ⟨hpos, h.prev, h.hw, ?_, hfc, ?_, ?_, ?_, ?_, ?_, ?_, ?_⟩
  · simp only [DanubeBsp.submit, h.curr, List.length_append, List.length_singleton]
    exact ringNext_end hpos _
  · simp only [List.length_append, List.length_singleton]
    omega
  · simp only [DanubeBsp.submit, List.length_append, List.length_singleton]
    omega
  · intro i hi hi'
    dsimp only [DanubeBsp.submit] at hi hi' ⊢
    rw [Function.update_of_ne (hother i hi (by omega) (by omega))]
    exact h.done i hi hi'
  · intro i hi hi'
    simp only [List.length_append, List.length_singleton] at hi'
    dsimp only [DanubeBsp.submit] at hi ⊢
    by_cases hlast : i = s.accepted.length
    · rw [hlast, ← h.curr, Function.update_self]
      exact txStatus_dmaOwn _ _ _
    · rw [Function.update_of_ne (hother i (by omega) (by omega) hlast)]
      exact h.pending i hi (by omega)
  · intro i hi hi'
    simp only [List.length_append, List.length_singleton] at hi
    dsimp only [DanubeBsp.submit] at hi' ⊢
    rw [Function.update_of_ne (hother i (by omega) hi' (by omega))]
    exact h.free i (by omega) hi'
  · intro i q hi hq
    dsimp only [DanubeBsp.submit] at hi hq ⊢
    by_cases hlast : i = s.accepted.length
    · rw [hlast, List.getElem?_concat_length] at hq
      cases Option.some.inj hq
      rw [hlast, ← h.curr, Function.update_self, Function.update_self]
      rfl
    · have hi' : i < (s.accepted ++ [p]).length := (List.getElem?_eq_some_iff.mp hq).1
      simp only [List.length_append, List.length_singleton] at hi'
      rw [List.getElem?_append_left (by omega)] at hq
      have hne := hother i hi (by omega) hlast
      rw [Function.update_of_ne hne, Function.update_of_ne hne]
      exact h.owed i q hi hq
  · dsimp only
    rw [List.take_append_of_le_length (by omega)]
    exact h.order

theorem txComplete_inv {txBurstLen : ℕ+} {s t : TxSys} {status : Word} (h : TxInv txBurstLen s)
    (hs : txComplete s status = some t) : TxInv txBurstLen t := by
  have hpos := h.pos
  have hfc := h.freedLe
  have hca := h.completedLe
  have hroom := h.room
  simp only [txComplete] at hs
  split at hs
  next hown =>
    cases Option.some.inj hs
    have hlt : s.completed < s.accepted.length := by
      by_contra hge
      rw [h.hw] at hown
      by_cases hfull : s.completed < s.freed.length + s.ch.descLen
      · rw [h.free s.completed (by omega) hfull] at hown
        exact absurd hown (by decide)
      · have he : s.completed = s.freed.length + s.ch.descLen := by omega
        have hdone := h.done s.freed.length (le_refl _) (by omega)
        rw [he, Nat.add_mod_right] at hown
        simp [DmaDesc.done, hown] at hdone
    have hother : ∀ i, s.freed.length ≤ i → i < s.freed.length + s.ch.descLen →
        i ≠ s.completed → i % s.ch.descLen ≠ s.hw := by
      intro i hi hi' hne
      rw [h.hw]
      exact ringPos_ne hi hi' hfc (by omega) hne
    refine ⟨hpos, h.prev, ?_, h.curr, by dsimp only; omega, hlt, hroom, ?_, ?_, ?_, ?_, h.order⟩
    · simp only [h.hw, Nat.mod_add_mod]
    · intro i hi hi'
      dsimp only at hi hi' ⊢
      by_cases hlast : i = s.completed
      · rw [hlast, ← h.hw, Function.update_self]
        exact completed_status _ _
      · rw [Function.update_of_ne (hother i hi (by omega) hlast)]
        exact h.done i hi (by omega)
    · intro i hi hi'
      dsimp only at hi hi' ⊢
      rw [Function.update_of_ne (hother i (by omega) (by omega) (by omega))]
      exact h.pending i (by omega) hi'
    · intro i hi hi'
      dsimp only at hi hi' ⊢
      rw [Function.update_of_ne (hother i (by omega) hi' (by omega))]
      exact h.free i hi hi'
    · intro i q hi hq
      dsimp only at hi hq ⊢
      have howed := h.owed i q hi hq
      have hi' : i < s.accepted.length := (List.getElem?_eq_some_iff.mp hq).1
      by_cases hlast : i = s.completed
      · rw [hlast, ← h.hw] at howed ⊢
        rw [Function.update_self]
        exact howed
      · rw [Function.update_of_ne (hother i hi (by omega) hlast)]
        exact howed
  next => simp at hs

/-- A write always returns; it frees everything completed so far, and a refused write changes
nothing at all. -/
theorem TxInv.write {txBurstLen : ℕ+} {s : TxSys} (h : TxInv txBurstLen s) (p : TxPacket) :
    ∃ w, dmaDeviceWrite txBurstLen s.ch p = some w ∧
      (w.queued = false → w.chan = s.ch ∧ w.freed = []) ∧
      (s.freed ++ w.freed).length = s.completed ∧ TxInv txBurstLen (afterWrite s p w) := by
  have hroom := h.room
  have hfc := h.freedLe
  have hca := h.completedLe
  obtain ⟨ch, freed, hr, hinv, hlen, hdl⟩ := h.reclaim (by omega : _ < s.ch.descLen + 1)
  have hcurr := hinv.curr
  dsimp only at hcurr
  by_cases hfree : s.accepted.length < (s.freed ++ freed).length + ch.descLen
  · have hzero := hinv.free s.accepted.length (le_refl _) hfree
    dsimp only at hzero
    rw [← hcurr] at hzero
    have hnot : ¬ ((ch.desc ch.currDesc).dmaOwn || (ch.desc ch.currDesc).complete) = true := by
      rw [hzero]
      decide
    refine ⟨queuePacket txBurstLen ch p freed, by rw [dmaDeviceWrite, hr]; rfl, ?_⟩
    simp only [afterWrite, queuePacket, if_neg hnot]
    exact ⟨fun hq => absurd hq (by decide), hlen, by simpa using hinv.submit (p := p) hfree⟩
  · have hnil : freed = [] := by
      rw [hdl, List.length_append] at hfree
      exact List.length_eq_zero_iff.mp (by omega)
    subst hnil
    have hch := reclaim_nil hr
    subst hch
    have hpos := h.pos
    rw [List.append_nil] at hfree hlen
    have hown := h.pending s.freed.length (by omega) (by omega)
    have hslot : s.ch.currDesc = s.freed.length % s.ch.descLen := by
      have he : s.accepted.length = s.freed.length + s.ch.descLen := by omega
      rw [h.curr, he, Nat.add_mod_right]
    rw [← hslot] at hown
    refine ⟨queuePacket txBurstLen s.ch p [], by rw [dmaDeviceWrite, hr]; rfl, ?_⟩
    simp only [afterWrite, queuePacket, hown, Bool.true_or, if_true]
    exact ⟨by simp, by simpa using hlen, by simpa using h⟩

theorem txStep_inv {txBurstLen : ℕ+} {s t : TxSys} {e : TxEvent} (h : TxInv txBurstLen s)
    (hs : txStep txBurstLen s e = some t) : TxInv txBurstLen t := by
  cases e with
  | write p =>
    obtain ⟨w, hw, -, -, hinv⟩ := h.write p
    simp only [txStep, hw, Option.map_some] at hs
    cases Option.some.inj hs
    exact hinv
  | complete status => exact txComplete_inv h hs

/-- The accounting of a transmit ring, read off its indices. -/
structure TxAccounting (txBurstLen : ℕ+) (s : TxSys) : Prop where
  unreclaimed : ringSlice s.ch.descLen s.ch.opt s.ch.prevDesc (s.accepted.length - s.freed.length) =
    (s.accepted.drop s.freed.length).map TxPacket.opt
  span : (s.ch.prevDesc + (s.accepted.length - s.freed.length)) % s.ch.descLen = s.ch.currDesc
  fits : s.accepted.length - s.freed.length ≤ s.ch.descLen
  completedFirst : ∀ k, k < s.completed - s.freed.length →
    (s.ch.desc ((s.ch.prevDesc + k) % s.ch.descLen)).done = true
  pendingNext : ∀ k, s.completed - s.freed.length ≤ k → k < s.accepted.length - s.freed.length →
    (s.ch.desc ((s.ch.prevDesc + k) % s.ch.descLen)).dmaOwn = true
  othersFree : ∀ k, s.accepted.length - s.freed.length ≤ k → k < s.ch.descLen →
    s.ch.desc ((s.ch.prevDesc + k) % s.ch.descLen) = .zero
  freedInOrder : s.freed = (s.accepted.take s.freed.length).map (owedFree txBurstLen)
  freedCompleted : s.freed.length ≤ s.completed
  completedAccepted : s.completed ≤ s.accepted.length

theorem TxInv.unreclaimed {txBurstLen : ℕ+} {s : TxSys} (h : TxInv txBurstLen s) :
    ringSlice s.ch.descLen s.ch.opt s.ch.prevDesc (s.accepted.length - s.freed.length) =
      (s.accepted.drop s.freed.length).map TxPacket.opt := by
  rw [h.prev, ringSlice_mod]
  apply List.ext_getElem
  · simp
  · intro k hk hk'
    simp only [ringSlice_length] at hk
    have hi : s.freed.length + k < s.accepted.length := by omega
    have howed := h.owed (s.freed.length + k) _ (by omega) (List.getElem?_eq_getElem hi)
    have hopt := congrArg FreeCall.opt howed
    simpa [ringSlice, owedFree] using hopt

theorem TxInv.accounting {txBurstLen : ℕ+} {s : TxSys} (h : TxInv txBurstLen s) :
    TxAccounting txBurstLen s := by
  have hfc := h.freedLe
  have hca := h.completedLe
  have hroom := h.room
  have hslot : ∀ k, (s.ch.prevDesc + k) % s.ch.descLen = (s.freed.length + k) % s.ch.descLen := by
    intro k
    rw [h.prev, Nat.mod_add_mod]
  refine ⟨h.unreclaimed, ?_, by omega, ?_, ?_, ?_, h.order, hfc, hca⟩
  · have he : s.freed.length + (s.accepted.length - s.freed.length) = s.accepted.length := by omega
    rw [hslot, he]
    exact h.curr.symm
  · intro k hk
    rw [hslot]
    exact h.done _ (by omega) (by omega)
  · intro k hk hk'
    rw [hslot]
    exact h.pending _ (by omega) (by omega)
  · intro k hk hk'
    rw [hslot]
    exact h.free _ (by omega) (by omega)

/-- For every sequence of writes and completions the ring accounts for all accepted packets, and
the next write returns, has freed everything completed, and changes nothing when it is refused. -/
theorem dmaTx_accounting (txBurstLen : ℕ+) (descLen : Nat) (opt : Nat → Word) (hpos : 0 < descLen)
    (es : List TxEvent) (s : TxSys) (h : run (txStep txBurstLen) (txInit descLen opt) es = some s) :
    TxAccounting txBurstLen s ∧ ∀ p, ∃ w t, dmaDeviceWrite txBurstLen s.ch p = some w ∧
      txStep txBurstLen s (.write p) = some t ∧ t.freed.length = s.completed ∧
      (w.queued = false → t = s) := by
  have hinv := run_invariant txStep_inv (txInit_inv opt hpos) h
  refine ⟨hinv.accounting, ?_⟩
  intro p
  obtain ⟨w, hw, hrefused, hlen, -⟩ := hinv.write p
  refine ⟨w, afterWrite s p w, hw, by simp only [txStep, hw, Option.map_some], hlen, ?_⟩
  intro hq
  obtain ⟨hch, hf⟩ := hrefused hq
  simp [afterWrite, hq, hch, hf]

/-- A ring of two descriptors: submit, complete, submit again. -/
theorem dmaTx_accounting_small :
    ∃ s, run (txStep 8) (txInit 2 fun _ => 0) [.write ⟨0x80001004, 60, 1⟩, .complete 0,
        .write ⟨0x80002000, 64, 2⟩] = some s ∧ s.freed = [⟨0x80001000, 1⟩] ∧ TxAccounting 8 s := by
  refine ⟨_, rfl, by decide, ?_⟩
  exact (dmaTx_accounting 8 2 (fun _ => 0) (by decide) [.write ⟨0x80001004, 60, 1⟩, .complete 0,
    .write ⟨0x80002000, 64, 2⟩] _ rfl).1

end DanubeBsp
