import DanubeBsp.SscRead

namespace DanubeBsp

@[simp] theorem storeWord_length (v : Word) : (storeWord v).length = 4 := rfl

@[simp] theorem storeTail_length (v : Word) (validCnt : Nat) :
    (storeTail v validCnt).length = validCnt := by
  simp [storeTail]

theorem rxWords_length (level bytes : Nat) (fifo : List (List Byte)) :
    (rxWords level bytes fifo).out.length + (rxWords level bytes fifo).bytes = bytes := by
  induction level generalizing bytes fifo with
  | zero => simp [rxWords]
  | succ level ih =>
    by_cases hfour : 4 ≤ bytes
    · have hrest := ih (bytes - 4) fifo.tail
      simp only [rxWords, if_pos hfour, List.length_append, storeWord_length]
      omega
    · simp [rxWords, hfour]

theorem rxTail_length_le (level bytes : Nat) (fifo : List (List Byte)) :
    (rxTail level bytes fifo).length ≤ bytes := by
  induction fifo generalizing bytes with
  | nil => simp [rxTail]
  | cons e fifo ih =>
    rw [rxTail]
    split
    · have hrest := ih (bytes - if bytes < e.length then bytes else e.length)
      simp only [List.length_append, storeTail_length]
      split_ifs at hrest ⊢ with hlt
      · omega
      · omega
    · simp

/-- `rx_int` never stores past the end of the buffer. -/
theorem rxStored_length_le (bytes level : Nat) (fifo : List (List Byte)) :
    (rxStored bytes level fifo).length ≤ bytes := by
  have hwords := rxWords_length level bytes fifo
  have htail := rxTail_length_le (rxWords level bytes fifo).level (rxWords level bytes fifo).bytes
    (rxWords level bytes fifo).fifo
  simp only [rxStored, List.length_append]
  omega

theorem rxWords_single {level bytes n : Nat} (hlevel : bytes < level) (hn : bytes ≤ n) :
    0 < (rxWords level bytes (List.replicate n [0#8])).level ∧
      ∃ m, (rxWords level bytes (List.replicate n [0#8])).bytes ≤ m ∧
        (rxWords level bytes (List.replicate n [0#8])).fifo = List.replicate m [0#8] := by
  induction level generalizing bytes n with
  | zero => omega
  | succ level ih =>
    by_cases hfour : 4 ≤ bytes
    · have hrest := ih (show bytes - 4 < level by omega) (show bytes - 4 ≤ n - 1 by omega)
      simpa only [rxWords, if_pos hfour, List.tail_replicate] using hrest
    · simp only [rxWords, if_neg hfour]
      exact ⟨Nat.succ_pos level, n, hn, rfl⟩

theorem rxTail_single {level bytes n : Nat} (hlevel : 0 < level) (hn : bytes ≤ n) :
    (rxTail level bytes (List.replicate n [0#8])).length = bytes := by
  induction n generalizing bytes with
  | zero => simp [rxTail, Nat.le_zero.mp hn]
  | succ n ih =>
    rw [List.replicate_succ, rxTail]
    by_cases hpos : 0 < bytes
    · have hone : ¬bytes < 1 := by omega
      have hrest := ih (show bytes - 1 ≤ n by omega)
      simp only [List.length_singleton, hpos, hlevel, ne_eq, one_ne_zero, not_false_eq_true,
        and_self, if_true, if_neg hone, List.length_append, storeTail_length, hrest]
      omega
    · simp only [hpos, false_and, if_false, List.length_nil]
      omega

/-- A FIFO with enough entries fills the buffer. -/
theorem rxStored_single (bytes : Nat) :
    (rxStored bytes (bytes + 1) (List.replicate bytes [0#8])).length = bytes := by
  obtain ⟨hlevel, m, hm, hfifo⟩ := rxWords_single (Nat.lt_succ_self bytes) (Nat.le_refl bytes)
  have hwords := rxWords_length (bytes + 1) bytes (List.replicate bytes [0#8])
  have htail := rxTail_single hlevel hm
  rw [rxStored, List.length_append, hfifo, htail]
  omega

theorem rxAdvance_cursors (p : SscPort) (n : Nat) :
    (p.rxAdvance n).rxbuf = p.rxbuf ∧ (p.rxAdvance n).rxbufPtr = p.rxbufPtr + n ∧
      (p.rxAdvance n).rxbufEnd = p.rxbufEnd := by
  unfold SscPort.rxAdvance
  dsimp only
  split
  · exact ⟨rfl, rfl, rfl⟩
  · exact ⟨rfl, rfl, rfl⟩

/-- `tx_int` leaves the receiving side alone. -/
theorem txInt_rx (p : SscPort) (fifoSpace : Nat) :
    (txInt p fifoSpace).port.rxbuf = p.rxbuf ∧ (txInt p fifoSpace).port.rxbufPtr = p.rxbufPtr ∧
      (txInt p fifoSpace).port.rxbufEnd = p.rxbufEnd ∧ (txInt p fifoSpace).port.rxirq = p.rxirq := by
  unfold txInt
  dsimp only
  split_ifs
  · exact ⟨rfl, rfl, rfl, rfl⟩
  · exact ⟨rfl, rfl, rfl, rfl⟩
  · exact ⟨rfl, rfl, rfl, rfl⟩

/-- The call has its buffer and the cursors of the port are in it. A length that wraps the size of the
buffer also wraps its end. -/
structure SscRead.Reading (s : SscRead) : Prop where
  kmem : s.kmem ≠ 0
  rxbuf : s.port.rxbuf = s.kmem
  freed : s.freed = []
  copied : s.copied = []
  ptr : s.port.rxbufPtr = s.kmem + s.stored.length
  fits : s.len.toNat + 3 < 2 ^ 32 → s.len.toNat ≤ kmallocMax ∧ s.stored.length ≤ s.len.toNat ∧
    s.port.rxbufEnd = s.kmem + s.len.toNat
  wraps : 2 ^ 32 ≤ s.len.toNat + 3 → s.stored = [] ∧ s.port.rxbufEnd < s.kmem

/-- The call has returned `ret`. -/
structure SscRead.Returned (s : SscRead) (ret : Int) : Prop where
  result : s.kmem ≠ 0 ∧ ret = s.len.toNat ∧ s.copied = s.stored ∧ s.stored.length = s.len.toNat ∨
    ret < 0 ∧ s.copied = []
  freed : s.freed = if s.kmem = 0 then [] else [s.kmem]
  released : s.kmem ≠ 0 → s.port.rxbuf = 0 ∧ s.port.rxirq = false

def ReadInv (s : SscRead) : Prop :=
  match s.pc with
  | .start => s.kmem = 0 ∧ s.freed = [] ∧ s.copied = []
  | .wait => s.Reading ∧ (s.port.rxirq = true ∨ s.signal = true ∨ s.Full)
  | .copy ret => s.Reading ∧ s.Full ∧ ret = s.stored.length
  | .done ret => s.Returned ret

theorem SscRead.Reading.full_length {s : SscRead} (h : s.Reading) (hfull : s.Full)
    (hfit : s.len.toNat + 3 < 2 ^ 32) : s.stored.length = s.len.toNat := by
  obtain ⟨_, hle, hend⟩ := h.fits hfit
  have hptr := h.ptr
  have hfull' : s.port.rxbufEnd ≤ s.port.rxbufPtr := hfull
  omega

theorem SscRead.Reading.length_le {s : SscRead} (h : s.Reading) :
    s.stored.length ≤ s.len.toNat := by
  by_cases hfit : s.len.toNat + 3 < 2 ^ 32
  · exact (h.fits hfit).2.1
  · simp [(h.wraps (by omega)).1]

theorem SscRead.Reading.rxInt {s : SscRead} (h : s.Reading) (level : Nat)
    (fifo : List (List Byte)) : (s.rxInt level fifo).Reading := by
  have hle := rxStored_length_le (s.port.rxbufEnd - s.port.rxbufPtr) level fifo
  have hptr := h.ptr
  have hlength : (s.stored ++ rxStored (s.port.rxbufEnd - s.port.rxbufPtr) level fifo).length =
      s.stored.length + (rxStored (s.port.rxbufEnd - s.port.rxbufPtr) level fifo).length :=
    List.length_append
  obtain ⟨hrxbuf, hrxbufPtr, hrxbufEnd⟩ := rxAdvance_cursors s.port
    (rxStored (s.port.rxbufEnd - s.port.rxbufPtr) level fifo).length
  refine ⟨h.kmem, hrxbuf.trans h.rxbuf, h.freed, h.copied, ?_, ?_, ?_⟩
  · refine hrxbufPtr.trans ?_
    show _ = s.kmem + (s.stored ++ rxStored _ level fifo).length
    omega
  · intro hfit
    obtain ⟨hmax, hstored, hend⟩ := h.fits hfit
    refine ⟨hmax, ?_, hrxbufEnd.trans hend⟩
    show (s.stored ++ rxStored _ level fifo).length ≤ s.len.toNat
    omega
  · intro hwrap
    obtain ⟨hstored, hend⟩ := h.wraps hwrap
    refine ⟨?_, lt_of_eq_of_lt hrxbufEnd hend⟩
    show s.stored ++ rxStored _ level fifo = []
    apply List.eq_nil_of_length_eq_zero
    have hnil := congrArg List.length hstored
    rw [List.length_nil] at hnil
    omega

theorem SscRead.rxInt_rxirq {s : SscRead} (level : Nat) (fifo : List (List Byte))
    (hirq : s.port.rxirq = true) : (s.rxInt level fifo).port.rxirq = true ∨
      (s.rxInt level fifo).Full := by
  unfold SscRead.Full
  simp only [SscRead.rxInt, SscPort.rxAdvance]
  split
  next hfull => exact Or.inr hfull
  next => exact Or.inl hirq

theorem SscRead.rxInt_full {s : SscRead} (hfull : s.Full) (level : Nat) (fifo : List (List Byte)) :
    (s.rxInt level fifo).Full ∧ (s.rxInt level fifo).stored = s.stored := by
  have hfull' : s.port.rxbufEnd ≤ s.port.rxbufPtr := hfull
  have hle := rxStored_length_le (s.port.rxbufEnd - s.port.rxbufPtr) level fifo
  have hnil : rxStored (s.port.rxbufEnd - s.port.rxbufPtr) level fifo = [] := by
    apply List.eq_nil_of_length_eq_zero
    omega
  unfold SscRead.Full
  simp only [SscRead.rxInt, SscPort.rxAdvance, hnil, List.length_nil, Nat.add_zero, List.append_nil, if_pos hfull',
    and_true]
  exact hfull'

theorem SscRead.Reading.of_rx {s t : SscRead} (h : s.Reading) (hrxbuf : t.port.rxbuf = s.port.rxbuf)
    (hptr : t.port.rxbufPtr = s.port.rxbufPtr) (hend : t.port.rxbufEnd = s.port.rxbufEnd)
    (hrest : t.kmem = s.kmem ∧ t.len = s.len ∧ t.stored = s.stored ∧ t.freed = s.freed ∧
      t.copied = s.copied) : t.Reading := by
  obtain ⟨hkmem, hlen, hstored, hfreed, hcopied⟩ := hrest
  constructor
  · rw [hkmem]; exact h.kmem
  · rw [hrxbuf, hkmem]; exact h.rxbuf
  · rw [hfreed]; exact h.freed
  · rw [hcopied]; exact h.copied
  · rw [hptr, hkmem, hstored]; exact h.ptr
  · rw [hlen, hstored, hend, hkmem]; exact h.fits
  · rw [hlen, hstored, hend, hkmem]; exact h.wraps

/-- A wait that no interrupt can end. -/
structure SscRead.Stuck (s : SscRead) : Prop where
  wait : s.pc = .wait
  room : ¬s.Full
  signal : s.signal = false
  rxirq : s.port.rxirq = false

theorem SscRead.Stuck.step {s t : SscRead} {e : SscReadEvent} (hs : s.Stuck) (he : e ≠ .signal)
    (h : sscReadStep s e = some t) : t.Stuck := by
  have hroom : ¬s.port.rxbufEnd ≤ s.port.rxbufPtr := hs.room
  cases e with
  | enter rxbuf fifoSpace todo => simp [sscReadStep, hs.wait] at h
  | look =>
    simp only [sscReadStep, hs.wait, if_true, SscRead.look, if_neg hroom, hs.signal,
      if_neg Bool.false_ne_true] at h
    cases Option.some.inj h
    exact hs
  | leave copies => simp [sscReadStep, hs.wait] at h
  | rxInt level fifo => simp [sscReadStep, hs.rxirq] at h
  | txInt fifoSpace =>
    obtain ⟨_, ht⟩ := Option.ite_none_right_eq_some.mp h
    cases Option.some.inj ht
    obtain ⟨_, hptr, hend, hirq⟩ := txInt_rx s.port fifoSpace
    refine ⟨hs.wait, ?_, hs.signal, hirq.trans hs.rxirq⟩
    show ¬(txInt s.port fifoSpace).port.rxbufEnd ≤ (txInt s.port fifoSpace).port.rxbufPtr
    rwa [hptr, hend]
  | abort =>
    cases Option.some.inj h
    exact ⟨hs.wait, hs.room, hs.signal, rfl⟩
  | signal => exact absurd rfl he

theorem SscRead.Stuck.not_canReturn {s : SscRead} (hs : s.Stuck) : ¬s.CanReturn := by
  intro ⟨es, t, ret, hno, hrun, hpc⟩
  have ht : t.Stuck := by
    clear hpc
    induction es generalizing s with
    | nil => cases Option.some.inj hrun; exact hs
    | cons e es ih =>
      obtain ⟨u, hu, hrun⟩ := run_cons hrun
      have hne : e ≠ .signal := fun heq => hno (heq ▸ List.mem_cons_self)
      exact ih (hs.step hne hu) (fun hmem => hno (List.mem_cons_of_mem e hmem)) hrun
  exact SscReadPc.noConfusion (ht.wait.symm.trans hpc)

theorem SscRead.look_copy {s : SscRead} (h : s.Full ∨ s.signal = true) :
    ∃ ret, s.look.pc = .copy ret := by
  unfold SscRead.look
  by_cases hfull : s.port.rxbufEnd ≤ s.port.rxbufPtr
  · exact ⟨_, by rw [if_pos hfull]⟩
  · have hsignal : s.signal = true := h.resolve_left hfull
    exact ⟨eRestartSys, by rw [if_neg hfull, if_pos hsignal]⟩

theorem SscRead.canReturn_of_look {s : SscRead} (hpc : s.pc = .wait)
    (h : s.Full ∨ s.signal = true) : s.CanReturn := by
  obtain ⟨ret, hret⟩ := SscRead.look_copy h
  refine ⟨[.look, .leave 0], s.look.leave ret 0, _, by simp, ?_, rfl⟩
  simp [run, sscReadStep, hpc, hret]

theorem SscRead.canReturn_of_step {s t : SscRead} {e : SscReadEvent} (he : e ≠ .signal)
    (h : sscReadStep s e = some t) (ht : t.CanReturn) : s.CanReturn := by
  obtain ⟨es, u, ret, hno, hrun, hu⟩ := ht
  refine ⟨e :: es, u, ret, ?_, ?_, hu⟩
  · intro hmem
    rcases List.mem_cons.mp hmem with heq | hmem
    · exact he heq.symm
    · exact hno hmem
  · simpa [run, List.foldlM_cons, h] using hrun

theorem SscRead.canReturn_of_rxirq {s : SscRead} (hpc : s.pc = .wait)
    (hirq : s.port.rxirq = true) : s.CanReturn := by
  have hlength := rxStored_single (s.port.rxbufEnd - s.port.rxbufPtr)
  have hfull : (s.rxInt (s.port.rxbufEnd - s.port.rxbufPtr + 1)
      (List.replicate (s.port.rxbufEnd - s.port.rxbufPtr) [0#8])).Full := by
    unfold SscRead.Full
    simp only [SscRead.rxInt, SscPort.rxAdvance, hlength]
    split
    next hle => exact hle
    next hlt => exact absurd (by omega) hlt
  have hstep : sscReadStep s (.rxInt (s.port.rxbufEnd - s.port.rxbufPtr + 1)
      (List.replicate (s.port.rxbufEnd - s.port.rxbufPtr) [0#8])) = some _ := if_pos hirq
  exact SscRead.canReturn_of_step (by simp) hstep
    (SscRead.canReturn_of_look (show (s.rxInt _ _).pc = .wait from hpc) (Or.inl hfull))

theorem ReadInv.clean {s : SscRead} (h : ReadInv s) : ReadClean s := by
  unfold ReadInv at h
  refine ⟨?_, ?_, ?_, ?_, ?_⟩
  · intro ret hpc
    rw [hpc] at h
    obtain ⟨hreading, _, rfl⟩ := h
    have hle := hreading.length_le
    omega
  · intro ret hpc
    rw [hpc] at h
    exact h.result.imp And.right id
  · intro ret hpc
    rw [hpc] at h
    exact h.freed
  · intro ret hpc
    rw [hpc] at h
    exact h.released
  · intro hpc
    rw [hpc] at h
    rcases h.2 with hirq | hsignal | hfull
    · exact SscRead.canReturn_of_rxirq hpc hirq
    · exact SscRead.canReturn_of_look hpc (Or.inr hsignal)
    · exact SscRead.canReturn_of_look hpc (Or.inl hfull)

theorem SscRead.rxirq_wait {s : SscRead} (h : ReadClean s) (hpc : s.pc = .wait) :
    s.port.rxirq = true ∨ s.signal = true ∨ s.Full := by
  by_contra hno
  obtain ⟨hirq, hsignal, hroom⟩ : s.port.rxirq ≠ true ∧ s.signal ≠ true ∧ ¬s.Full := by
    simpa only [not_or] using hno
  have hstuck : s.Stuck :=
    ⟨hpc, hroom, Bool.not_eq_true _ ▸ hsignal, Bool.not_eq_true _ ▸ hirq⟩
  exact hstuck.not_canReturn (h.returns hpc)

/-- The helper waits with its cursors on the buffer, or it fails. -/
theorem SscRead.helper_cases (s : SscRead) (fifoSpace : Nat) (todo : Bool) :
    (¬s.Accepts todo ∧ ∃ code < 0, (s.helper fifoSpace todo).pc = .copy code) ∨
      s.Accepts todo ∧ ∃ p : SscPort, p.rxbuf = s.port.rxbuf ∧ p.rxbufPtr = s.port.rxbuf ∧
        p.rxbufEnd = (s.port.rxbuf + s.len.toNat) % 2 ^ 32 ∧ p.rxirq = true ∧
        s.helper fifoSpace todo = { s with port := p, stored := [], pc := .wait } := by
  have hfault : eFault < 0 := by decide
  have hbusy : eBusy < 0 := by decide
  by_cases htx : s.port.modeRxTx = .tx
  · left
    refine ⟨?_, eFault, hfault, ?_⟩
    · simp only [SscRead.Accepts, htx, not_false_eq_true]
    · rw [SscRead.helper, if_pos htx]
  rw [SscRead.helper, if_neg htx]
  by_cases hrxtx : s.port.modeRxTx = .rxtx
  · have hacc : s.Accepts todo ↔ ¬(s.port.txbuf = 0 ∨ s.port.txbuf ≠ s.port.txbufPtr ∨
        s.port.txbufEnd ≠ (s.len.toNat + s.port.txbuf) % 2 ^ 32) := by
      simp only [SscRead.Accepts, hrxtx, not_or, ne_eq, not_not]
    rw [hacc]
    simp only [if_pos hrxtx]
    by_cases hmatch : s.port.txbuf = 0 ∨ s.port.txbuf ≠ s.port.txbufPtr ∨
        s.port.txbufEnd ≠ (s.len.toNat + s.port.txbuf) % 2 ^ 32
    · exact Or.inl ⟨not_not.mpr hmatch, eFault, hfault, by rw [if_pos hmatch]⟩
    · rw [if_neg hmatch]
      refine Or.inr ⟨hmatch, _, ?_, ?_, ?_, ?_, rfl⟩
      · split
        · exact (txInt_rx _ fifoSpace).1
        · exact (txInt_rx _ fifoSpace).1
      · split
        · exact (txInt_rx _ fifoSpace).2.1
        · exact (txInt_rx _ fifoSpace).2.1
      · split
        · exact (txInt_rx _ fifoSpace).2.2.1
        · exact (txInt_rx _ fifoSpace).2.2.1
      · rfl
  · have hacc : s.Accepts todo ↔ todo = false := by
      unfold SscRead.Accepts
      split
      next h => exact absurd h htx
      next h => exact absurd h hrxtx
      next => exact Iff.rfl
    rw [hacc]
    simp only [if_neg hrxtx]
    cases todo with
    | true => exact Or.inl ⟨by decide, eBusy, hbusy, by rw [if_pos rfl]⟩
    | false =>
      rw [if_neg Bool.false_ne_true]
      refine Or.inr ⟨rfl, _, ?_, ?_, ?_, ?_, rfl⟩
      · rfl
      · rfl
      · rfl
      · rfl

/-- The end of the buffer of `kmalloc`: only a length of which `kmalloc` sees the rest wraps it. -/
theorem kmalloc_end {len : Word} {addr : Nat} (h : KmallocReturns (len + 3#32) addr)
    (hne : addr ≠ 0) :
    (len.toNat + 3 < 2 ^ 32 →
      len.toNat ≤ kmallocMax ∧ (addr + len.toNat) % 2 ^ 32 = addr + len.toNat) ∧
      (2 ^ 32 ≤ len.toNat + 3 → (addr + len.toNat) % 2 ^ 32 < addr) := by
  obtain ⟨hword, hmax, hspace⟩ := h.resolve_left hne
  have hlen := len.isLt
  have hsize : (len + 3#32).toNat = (len.toNat + 3) % 2 ^ 32 := by
    rw [BitVec.toNat_add]
    rfl
  rw [hsize] at hmax hspace
  unfold kmallocMax at *
  constructor
  · intro hfit
    omega
  · intro hwrap
    omega

theorem readInv_enter {s : SscRead} {rxbuf : Nat} (hs : ReadInv s) (hpc : s.pc = .start)
    (hkmem : KmallocReturns (s.len + 3#32) rxbuf) (fifoSpace : Nat) (todo : Bool)
    (hok : s.port.rxbuf = 0 → rxbuf ≠ 0 → s.Accepts todo) :
    ReadInv (s.enter rxbuf fifoSpace todo) := by
  have hbusy : eBusy < 0 := by decide
  have hnomem : eNoMem < 0 := by decide
  unfold ReadInv at hs
  rw [hpc] at hs
  obtain ⟨hzero, hfreed, hcopied⟩ := hs
  have hearly (code : Int) (hcode : code < 0) : ReadInv { s with pc := .done code } := by
    refine ⟨Or.inr ⟨hcode, hcopied⟩, ?_, fun hne => absurd hzero hne⟩
    simp only [hzero, if_true]
    exact hfreed
  unfold SscRead.enter
  by_cases hrx : s.port.rxbuf = 0
  · by_cases hne : rxbuf = 0
    · rw [if_neg (not_not.mpr hrx), if_pos hne]
      exact hearly eNoMem hnomem
    · rw [if_neg (not_not.mpr hrx), if_neg hne]
      rcases SscRead.helper_cases
        { s with port := { s.port with rxbuf := rxbuf }, kmem := rxbuf } fifoSpace todo with
        ⟨hrefuse, _⟩ | ⟨_, p, hp, hptr, hend, hirq, heq⟩
      · exact absurd (hok hrx hne) hrefuse
      · obtain ⟨hfits, hwraps⟩ := kmalloc_end hkmem hne
        rw [heq]
        refine ⟨⟨hne, hp, hfreed, hcopied, hptr, ?_, ?_⟩, Or.inl hirq⟩
        · intro hfit
          obtain ⟨hmax, hmod⟩ := hfits hfit
          exact ⟨hmax, Nat.zero_le _, hend.trans hmod⟩
        · intro hwrap
          exact ⟨rfl, lt_of_eq_of_lt hend (hwraps hwrap)⟩
  · rw [if_pos hrx]
    exact hearly eBusy hbusy

theorem readInv_look {s : SscRead} (hs : ReadInv s) (hpc : s.pc = .wait)
    (hok : ¬s.Full → s.signal = false) : ReadInv s.look := by
  have hinv := hs
  unfold ReadInv at hs
  rw [hpc] at hs
  obtain ⟨hreading, _⟩ := hs
  unfold SscRead.look
  by_cases hfull : s.port.rxbufEnd ≤ s.port.rxbufPtr
  · rw [if_pos hfull]
    have hptr := hreading.ptr
    have hrxbuf := hreading.rxbuf
    refine ⟨hreading.of_rx rfl rfl rfl ⟨rfl, rfl, rfl, rfl, rfl⟩, hfull, ?_⟩
    show (s.port.rxbufPtr : Int) - s.port.rxbuf = s.stored.length
    omega
  · rw [if_neg hfull, hok hfull, if_neg Bool.false_ne_true]
    exact hinv

theorem readInv_leave {s : SscRead} {ret : Int} (hs : ReadInv s) (hpc : s.pc = .copy ret)
    {copies : Nat} (hfit : s.len.toNat + 3 < 2 ^ 32) (hcopies : s.len.toNat ≤ copies ∨ copies = 0) :
    ReadInv (s.leave ret copies) := by
  have hfault : eFault < 0 := by decide
  unfold ReadInv at hs
  rw [hpc] at hs
  obtain ⟨hreading, hfull, hret⟩ := hs
  have hlength := hreading.full_length hfull hfit
  have hnonneg : ¬ret < 0 := by omega
  have hnat : ret.toNat = s.stored.length := by omega
  unfold SscRead.leave
  simp only [if_neg hnonneg, hnat]
  refine ⟨?_, ?_, fun _ => ⟨rfl, rfl⟩⟩
  · rcases hcopies with hall | hnone
    · have hmin : min copies s.stored.length = s.stored.length := by omega
      left
      refine ⟨hreading.kmem, ?_, ?_, hlength⟩
      · rw [hmin, if_pos hret.symm, hret, hlength]
      · show s.stored.take (min copies s.stored.length) = s.stored
        rw [hmin, List.take_length]
    · by_cases hzero : s.len.toNat = 0
      · left
        have hnil : s.stored = [] := List.eq_nil_of_length_eq_zero (hlength.trans hzero)
        refine ⟨hreading.kmem, ?_, ?_, hlength⟩
        · simp [hret, hnil, hzero]
        · simp [hnil]
      · right
        have hpart : ¬((min copies s.stored.length : Nat) : Int) = ret := by omega
        rw [if_neg hpart]
        refine ⟨hfault, ?_⟩
        simp [hnone]
  · show s.freed ++ [s.port.rxbuf] = if s.kmem = 0 then [] else [s.kmem]
    rw [hreading.freed, hreading.rxbuf, if_neg hreading.kmem]
    rfl

/-- The events that are not the call's own keep the invariant wherever it is. -/
theorem readInv_quiet {s t : SscRead} (hs : ReadInv s) (hrxbuf : t.port.rxbuf = s.port.rxbuf)
    (hptr : t.port.rxbufPtr = s.port.rxbufPtr) (hend : t.port.rxbufEnd = s.port.rxbufEnd)
    (hpc : t.pc = s.pc)
    (hrest : t.kmem = s.kmem ∧ t.len = s.len ∧ t.stored = s.stored ∧ t.freed = s.freed ∧
      t.copied = s.copied)
    (hirq : s.port.rxirq = false → t.port.rxirq = false)
    (hwait : s.pc = .wait → s.port.rxirq = true ∨ s.signal = true ∨ s.Full →
      t.port.rxirq = true ∨ t.signal = true ∨ t.Full) : ReadInv t := by
  obtain ⟨hkmem, hlen, hstored, hfreed, hcopied⟩ := hrest
  have hfull : s.Full → t.Full := by
    intro h
    show t.port.rxbufEnd ≤ t.port.rxbufPtr
    rw [hptr, hend]
    exact h
  unfold ReadInv at hs ⊢
  rw [hpc]
  cases hcase : s.pc with
  | start =>
    rw [hcase] at hs
    simp only at hs ⊢
    rwa [hkmem, hfreed, hcopied]
  | wait =>
    rw [hcase] at hs
    exact ⟨hs.1.of_rx hrxbuf hptr hend ⟨hkmem, hlen, hstored, hfreed, hcopied⟩, hwait hcase hs.2⟩
  | copy ret =>
    rw [hcase] at hs
    obtain ⟨hreading, hfull', hret⟩ := hs
    refine ⟨hreading.of_rx hrxbuf hptr hend ⟨hkmem, hlen, hstored, hfreed, hcopied⟩, hfull hfull', ?_⟩
    rw [hstored]
    exact hret
  | done ret =>
    rw [hcase] at hs
    refine ⟨?_, ?_, ?_⟩
    · rw [hkmem, hlen, hcopied, hstored]
      exact hs.result
    · rw [hfreed, hkmem]
      exact hs.freed
    · rw [hkmem]
      intro hne
      obtain ⟨hfree, hoff⟩ := hs.released hne
      exact ⟨hrxbuf.trans hfree, hirq hoff⟩

theorem readInv_rxInt {s : SscRead} (hs : ReadInv s) (hirq : s.port.rxirq = true) (level : Nat)
    (fifo : List (List Byte)) : ReadInv (s.rxInt level fifo) := by
  have hpc : (s.rxInt level fifo).pc = s.pc := rfl
  unfold ReadInv at hs ⊢
  rw [hpc]
  cases hcase : s.pc with
  | start =>
    rw [hcase] at hs
    exact hs
  | wait =>
    rw [hcase] at hs
    refine ⟨hs.1.rxInt level fifo, ?_⟩
    rcases SscRead.rxInt_rxirq level fifo hirq with hon | hfull
    · exact Or.inl hon
    · exact Or.inr (Or.inr hfull)
  | copy ret =>
    rw [hcase] at hs
    obtain ⟨hreading, hfull, hret⟩ := hs
    obtain ⟨hfull', hstored⟩ := SscRead.rxInt_full hfull level fifo
    exact ⟨hreading.rxInt level fifo, hfull', by rw [hstored]; exact hret⟩
  | done ret =>
    rw [hcase] at hs
    -- the interrupt is that of another read, the call has had no buffer
    have hzero : s.kmem = 0 := by
      by_contra hne
      exact Bool.false_ne_true ((hs.released hne).2.symm.trans hirq)
    refine ⟨?_, hs.freed, fun hne => absurd hzero hne⟩
    rcases hs.result with ⟨hne, _⟩ | herror
    · exact absurd hzero hne
    · exact Or.inr herror

theorem readInv_step {s t : SscRead} {e : SscReadEvent} (hs : ReadInv s)
    (hok : ReadUndisturbed s e) (h : sscReadStep s e = some t) : ReadInv t := by
  cases e with
  | enter rxbuf fifoSpace todo =>
    obtain ⟨⟨hpc, hkmem⟩, ht⟩ := Option.ite_none_right_eq_some.mp h
    cases Option.some.inj ht
    exact readInv_enter hs hpc hkmem fifoSpace todo (hok hpc hkmem)
  | look =>
    obtain ⟨hpc, ht⟩ := Option.ite_none_right_eq_some.mp h
    cases Option.some.inj ht
    exact readInv_look hs hpc (hok hpc)
  | leave copies =>
    cases hpc : s.pc with
    | copy ret =>
      simp only [sscReadStep, hpc] at h
      cases Option.some.inj h
      obtain ⟨hfit, hcopies⟩ := hok ret hpc
      exact readInv_leave hs hpc hfit hcopies
    | start | wait | done ret => simp [sscReadStep, hpc] at h
  | rxInt level fifo =>
    obtain ⟨hirq, ht⟩ := Option.ite_none_right_eq_some.mp h
    cases Option.some.inj ht
    exact readInv_rxInt hs hirq level fifo
  | txInt fifoSpace =>
    obtain ⟨_, ht⟩ := Option.ite_none_right_eq_some.mp h
    cases Option.some.inj ht
    obtain ⟨hrxbuf, hptr, hend, hirq⟩ := txInt_rx s.port fifoSpace
    refine readInv_quiet hs hrxbuf hptr hend rfl ⟨rfl, rfl, rfl, rfl, rfl⟩ hirq.trans ?_
    intro _ hends
    rw [SscRead.Full] at hends ⊢
    simp only [hirq, hptr, hend]
    exact hends
  | abort =>
    cases Option.some.inj h
    refine readInv_quiet hs rfl rfl rfl rfl ⟨rfl, rfl, rfl, rfl, rfl⟩ (fun _ => rfl) ?_
    intro hpc _
    exact Or.inr ((hok hpc).symm)
  | signal =>
    cases Option.some.inj h
    refine readInv_quiet hs rfl rfl rfl rfl ⟨rfl, rfl, rfl, rfl, rfl⟩ id ?_
    intro _ _
    exact Or.inr (Or.inl rfl)

theorem readUndisturbed_of_none {s : SscRead} {e : SscReadEvent} (h : sscReadStep s e = none) :
    ReadUndisturbed s e := by
  cases e with
  | enter rxbuf fifoSpace todo =>
    intro hpc hkmem
    simp [sscReadStep, hpc, hkmem] at h
  | look =>
    intro hpc
    simp [sscReadStep, hpc] at h
  | leave copies =>
    intro ret hpc
    simp [sscReadStep, hpc] at h
  | abort => cases h
  | rxInt level fifo => trivial
  | txInt fifoSpace => trivial
  | signal => trivial

theorem readUndisturbed_of_clean {s t : SscRead} {e : SscReadEvent} (hs : ReadInv s)
    (h : sscReadStep s e = some t) (ht : ReadClean t) : ReadUndisturbed s e := by
  cases e with
  | enter rxbuf fifoSpace todo =>
    intro hpc hkmem hrx hne
    by_contra hrefuse
    simp only [sscReadStep, hpc, hkmem, and_self, if_true, SscRead.enter, ne_eq, hrx,
      not_true_eq_false, if_false, hne] at h
    cases Option.some.inj h
    rcases SscRead.helper_cases
      { s with port := { s.port with rxbuf := rxbuf }, kmem := rxbuf } fifoSpace todo with
      ⟨_, code, hneg, hcopy⟩ | ⟨haccept, _⟩
    · have hlen := (ht.copyLen code hcopy).1
      omega
    · exact hrefuse haccept
  | look =>
    intro hpc hroom
    by_contra hsignal
    have hroom' : ¬s.port.rxbufEnd ≤ s.port.rxbufPtr := hroom
    have htrue : s.signal = true := by simpa using hsignal
    simp only [sscReadStep, hpc, if_true, SscRead.look, if_neg hroom', htrue] at h
    cases Option.some.inj h
    have hlen := (ht.copyLen eRestartSys rfl).1
    exact absurd hlen (by decide)
  | leave copies =>
    intro ret hpc
    simp only [sscReadStep, hpc] at h
    cases Option.some.inj h
    unfold ReadInv at hs
    rw [hpc] at hs
    obtain ⟨hreading, hfull, hret⟩ := hs
    have hnonneg : ¬ret < 0 := by omega
    have hnat : ret.toNat = s.stored.length := by omega
    have hresult := ht.result _ rfl
    simp only [SscRead.leave, if_neg hnonneg, hnat] at hresult
    by_cases hfit : s.len.toNat + 3 < 2 ^ 32
    · refine ⟨hfit, ?_⟩
      have hlength := hreading.full_length hfull hfit
      rcases hresult with ⟨_, hcopied, _⟩ | ⟨_, hcopied⟩
      · have htake := congrArg List.length hcopied
        rw [List.length_take] at htake
        omega
      · have htake := congrArg List.length hcopied
        rw [List.length_take, List.length_nil] at htake
        omega
    · have hnil := (hreading.wraps (by omega)).1
      simp only [hnil, List.length_nil, Nat.min_zero, hret, if_true] at hresult
      omega
  | abort =>
    intro hpc
    cases Option.some.inj h
    rcases SscRead.rxirq_wait ht hpc with hirq | hsignal | hfull
    · exact absurd hirq Bool.false_ne_true
    · exact Or.inr hsignal
    · exact Or.inl hfull
  | rxInt level fifo => trivial
  | txInt fifoSpace => trivial
  | signal => trivial

theorem readInv_start (p : SscPort) (len : Word) : ReadInv (sscReadStart p len) := ⟨rfl, rfl, rfl⟩

theorem ssc_read_clean_iff (p : SscPort) (len : Word) (es : List SscReadEvent) :
    RunMeets sscReadStep ReadUndisturbed (sscReadStart p len) es ↔
      ∀ pre t, pre <+: es → run sscReadStep (sscReadStart p len) pre = some t → ReadClean t :=
  runMeets_iff_states ReadInv.clean readInv_step readUndisturbed_of_clean
    (fun _ h => readUndisturbed_of_none h) (readInv_start p len) es

/-- The code of a busy controller goes to `copy_to_user` as the length, and the user gets another. -/
theorem ssc_read_copies_error :
    (¬∀ pre t, pre <+: [SscReadEvent.enter 0x80100000 0 true] →
      run sscReadStep (sscReadStart { sscInit with modeRxTx := .rx } 4#32) pre = some t →
      ReadClean t) ∧
    (run sscReadStep (sscReadStart { sscInit with modeRxTx := .rx } 4#32)
      [.enter 0x80100000 0 true, .leave 4]).map SscRead.pc = some (.done eFault) := by
  refine ⟨?_, rfl⟩
  intro h
  have hclean := h [.enter 0x80100000 0 true] _ (List.prefix_refl _) rfl
  exact absurd (hclean.copyLen eBusy rfl).1 (by decide)

end DanubeBsp
