import DanubeBsp.SscCalls
import DanubeBsp.SscStream

namespace DanubeBsp

/-- A call that holds what an interrupt would spoil: a write between its first and its last store, or the
local variables of `tx_int`. -/
def SscCall.critical : SscCall → Bool
  | .copyFromUser _ | .mode _ _ | .txbufPtr _ | .txbufEnd _ | .fail _ _ => true
  | .txInt _ (.words _ _ _) | .txInt _ (.half _ _) | .txInt _ (.byte _ _) => true
  | _ => false

/-- No call, or none but that of `i`, is at such a place. -/
def SscRun.Quiet (s : SscRun) : Prop := ∀ j c, s.inside j = some c → c.critical = false

def SscRun.QuietBut (s : SscRun) (i : Nat) : Prop :=
  ∀ j c, j ≠ i → s.inside j = some c → c.critical = false

/-- Unsent bytes are bytes of a live buffer, unless a write has stored the first cursor only, and every
buffer that was accepted is either still the port's or freed, once. -/
structure SscTxOwned (s : SscRun) : Prop where
  live : (∀ i b, s.inside i ≠ some (.txbufEnd b)) → s.ssc.port.txbufPtr < s.ssc.port.txbufEnd →
    s.ssc.port.txbuf ≠ 0 ∧ s.ssc.port.txbuf ≤ s.ssc.port.txbufPtr ∧
      ∃ b ∈ s.ssc.live, b.2.addr = s.ssc.port.txbuf ∧ s.ssc.port.txbufEnd = b.2.addr + b.2.len
  once : ∀ id < s.ssc.next, s.ssc.freed.count id + (s.ssc.live.map Prod.fst).count id = 1
  fault : s.ssc.fault = false

/-- No interrupt that finds room, and nobody else's step, abort, close or open comes while a call is at such
a place, and a write that stores `txbuf` finds it free. -/
def SscUndisturbed (s : SscRun) : SscRunEvent → Prop
  | .call (.txInterrupt fifoSpace) => s.ssc.port.txirq = true → 0 < fifoSpace → s.Quiet
  | .call .abort | .call .close => s.Quiet
  | .call .open => s.ssc.port.portIsOpen = 0 → s.Quiet
  | .step i _ => s.QuietBut i ∧
      ∀ b, s.inside i = some (.claim b) ∨ s.inside i = some (.alloc b) → s.ssc.port.txbuf = 0
  | _ => True

/-- No abort and no close with unsent bytes, and no open behind an accepted write. -/
def SscTxSettled (s : SscRun) : SscRunEvent → Prop
  | .call .open => s.ssc.port.portIsOpen = 0 → s.ssc.port.txbufEnd = 0
  | .call .close | .call .abort => s.ssc.port.txbufEnd ≤ s.ssc.port.txbufPtr
  | _ => True

/-- The event leaves the buffer owned. -/
def SscStepOwned (s : SscRun) (e : SscRunEvent) : Prop := ∀ t, sscRunStep s e = some t → SscTxOwned t

/-- The accepted buffers are live or freed once, and nothing was read or freed wrongly. -/
structure SscBooks (s : Ssc) : Prop where
  once : ∀ id, s.freed.count id + (s.live.map Prod.fst).count id = if id < s.next then 1 else 0
  fault : s.fault = false

/-- The port holds the one live buffer, with the cursor in it, or none. -/
structure SscTxInv (s : Ssc) : Prop where
  held : s.port.txbuf ≠ 0 → ∃ id b, s.live = [(id, b)] ∧ b.addr = s.port.txbuf ∧
    s.port.txbuf ≤ s.port.txbufPtr ∧ s.port.txbufPtr ≤ s.port.txbufEnd ∧
    s.port.txbufEnd = b.addr + b.len
  idle : s.port.txbuf = 0 → s.live = [] ∧ s.port.txbufPtr = s.port.txbufEnd
  books : SscBooks s

theorem SscTxInv.ptr_le {s : Ssc} (h : SscTxInv s) : s.port.txbufPtr ≤ s.port.txbufEnd := by
  by_cases hbuf : s.port.txbuf = 0
  · exact Nat.le_of_eq (h.idle hbuf).2
  · obtain ⟨_, _, _, _, _, hle, _⟩ := h.held hbuf
    exact hle

theorem SscTxInv.unsent {s : Ssc} (h : SscTxInv s) (hlt : s.port.txbufPtr < s.port.txbufEnd) :
    s.port.txbuf ≠ 0 := by
  intro hbuf
  have hptr := (h.idle hbuf).2
  omega

theorem SscBooks.freed {s : Ssc} (h : SscBooks s) {id : Nat} {b : KBuf} (hlive : s.live = [(id, b)])
    (i : Nat) :
    (s.freed ++ [id]).count i + (([] : List (Nat × KBuf)).map Prod.fst).count i =
      if i < s.next then 1 else 0 := by
  have honce := h.once i
  rw [hlive] at honce
  simpa [List.count_append] using honce

theorem Ssc.readable_layOut {s : Ssc} {id : Nat} {b : KBuf} (hlive : s.live = [(id, b)]) {a : Nat}
    {ws : List TxWidth} (hlo : b.addr ≤ a) (hhi : a + txSize ws ≤ b.addr + b.len) :
    (layOut a ws).all s.readable = true := by
  rw [List.all_eq_true]
  intro x hx
  have hx := layOut_within hx
  simp only [Ssc.readable, hlive, List.any_cons, List.any_nil, Bool.or_false, decide_eq_true_eq]
  omega

theorem Ssc.kfree_only {s : Ssc} {id : Nat} {b : KBuf} (hlive : s.live = [(id, b)]) :
    s.kfree b.addr = { s with live := [], freed := s.freed ++ [id] } := by
  have hpos : b.addr ≠ 0 := Nat.ne_of_gt b.pos
  simp [Ssc.kfree, hpos, hlive]

theorem Ssc.kfree_setPort (s : Ssc) (p : SscPort) (addr : Nat) :
    { s.kfree addr with port := p } = Ssc.kfree { s with port := p } addr := by
  unfold Ssc.kfree
  split
  · rfl
  · dsimp only
    split <;> rfl

/-- Freeing what `txbuf` has pointed to, when nothing is unsent, settles the port. -/
theorem SscTxInv.release {s t : Ssc} (h : SscTxInv s) (hdone : s.port.txbufEnd ≤ s.port.txbufPtr)
    (hbuf : t.port.txbuf = 0) (hptr : t.port.txbufPtr = s.port.txbufPtr)
    (hend : t.port.txbufEnd = s.port.txbufEnd) (hlive : t.live = s.live) (hfreed : t.freed = s.freed)
    (hnext : t.next = s.next) (hfault : t.fault = s.fault) : SscTxInv (t.kfree s.port.txbuf) := by
  have hle := h.ptr_le
  have heq : t.port.txbufPtr = t.port.txbufEnd := by omega
  by_cases hnull : s.port.txbuf = 0
  · have hsame : t.kfree s.port.txbuf = t := by simp [Ssc.kfree, hnull]
    rw [hsame]
    refine ⟨fun hne => absurd hbuf hne, fun _ => ⟨hlive.trans (h.idle hnull).1, heq⟩, ?_, ?_⟩
    · rw [hlive, hfreed, hnext]
      exact h.books.once
    · rw [hfault]
      exact h.books.fault
  · obtain ⟨id, b, hheld, haddr, -⟩ := h.held hnull
    rw [← haddr, Ssc.kfree_only (hlive.trans hheld)]
    refine ⟨fun hne => absurd hbuf hne, fun _ => ⟨rfl, heq⟩, ?_, ?_⟩
    · simp only [hfreed, hnext]
      exact h.books.freed hheld
    · simp only [hfault]
      exact h.books.fault

/-- Two ports that differ in nothing that the transmit side uses. -/
structure SameTx (s t : Ssc) : Prop where
  txbuf : t.port.txbuf = s.port.txbuf
  ptr : t.port.txbufPtr = s.port.txbufPtr
  bufEnd : t.port.txbufEnd = s.port.txbufEnd
  live : t.live = s.live
  freed : t.freed = s.freed
  next : t.next = s.next
  fault : t.fault = s.fault

theorem SscBooks.frame {s t : Ssc} (h : SscBooks s) (hsame : SameTx s t) : SscBooks t := by
  refine ⟨?_, hsame.fault.trans h.fault⟩
  rw [hsame.live, hsame.freed, hsame.next]
  exact h.once

theorem SscTxInv.frame {s t : Ssc} (h : SscTxInv s) (hsame : SameTx s t) : SscTxInv t := by
  refine ⟨?_, ?_, h.books.frame hsame⟩
  · rw [hsame.txbuf, hsame.ptr, hsame.bufEnd, hsame.live]
    exact h.held
  · rw [hsame.txbuf, hsame.ptr, hsame.bufEnd, hsame.live]
    exact h.idle

theorem Ssc.txInt_zero (s : Ssc) : SameTx s (s.txInt 0) := by
  simp only [Ssc.txInt, DanubeBsp.txInt]
  exact ⟨rfl, rfl, rfl, rfl, rfl, rfl, by simp⟩

theorem Ssc.enableTxirq_same (s : Ssc) : SameTx s s.enableTxirq := by
  unfold Ssc.enableTxirq
  split <;> exact ⟨rfl, rfl, rfl, rfl, rfl, rfl, rfl⟩

theorem Ssc.rxInt_same (s : Ssc) (n : Nat) : SameTx s (s.rxInt n) := by
  unfold Ssc.rxInt
  dsimp only
  split <;> exact ⟨rfl, rfl, rfl, rfl, rfl, rfl, rfl⟩

theorem Ssc.kread_same (s : Ssc) (kbuf len : Nat) : SameTx s (s.kread kbuf len).1 := by
  unfold Ssc.kread
  split_ifs <;> exact ⟨rfl, rfl, rfl, rfl, rfl, rfl, rfl⟩

/-- `ifx_ssc_read` touches the transmit side by its call of `tx_int` only. -/
theorem Ssc.read_same (s : Ssc) (rxbuf len : Nat) (busy : Bool) :
    SameTx s (s.read rxbuf len 0 busy).1 := by
  have htx := Ssc.txInt_zero { s with port := { s.port with rxbufPtr := rxbuf, rxbufEnd := rxbuf + len } }
  have hen := Ssc.enableTxirq_same
    (Ssc.txInt { s with port := { s.port with rxbufPtr := rxbuf, rxbufEnd := rxbuf + len } } 0)
  unfold Ssc.read
  dsimp only
  split_ifs
  · exact ⟨rfl, rfl, rfl, rfl, rfl, rfl, rfl⟩
  · exact ⟨rfl, rfl, rfl, rfl, rfl, rfl, rfl⟩
  · exact ⟨rfl, rfl, rfl, rfl, rfl, rfl, rfl⟩
  · exact ⟨rfl, rfl, rfl, rfl, rfl, rfl, rfl⟩
  · exact ⟨hen.txbuf.trans htx.txbuf, hen.ptr.trans htx.ptr, hen.bufEnd.trans htx.bufEnd,
      hen.live.trans htx.live, hen.freed.trans htx.freed, hen.next.trans htx.next,
      hen.fault.trans htx.fault⟩
  · exact ⟨rfl, rfl, rfl, rfl, rfl, rfl, rfl⟩
  · exact ⟨rfl, rfl, rfl, rfl, rfl, rfl, rfl⟩

/-- The cursor moves on within the unsent bytes. -/
theorem SscTxInv.advance {s t : Ssc} {k : Nat} (h : SscTxInv s)
    (hk : s.port.txbufPtr + k ≤ s.port.txbufEnd) (hbuf : t.port.txbuf = s.port.txbuf)
    (hptr : t.port.txbufPtr = s.port.txbufPtr + k) (hend : t.port.txbufEnd = s.port.txbufEnd)
    (hlive : t.live = s.live) (hfreed : t.freed = s.freed) (hnext : t.next = s.next)
    (hfault : t.fault = s.fault) : SscTxInv t := by
  refine ⟨?_, ?_, ?_, ?_⟩
  · rw [hbuf, hptr, hend, hlive]
    intro hne
    obtain ⟨id, b, hheld, haddr, hlo, -, hb⟩ := h.held hne
    exact ⟨id, b, hheld, haddr, by omega, hk, hb⟩
  · rw [hbuf, hptr, hend, hlive]
    intro hnull
    have hidle := h.idle hnull
    exact ⟨hidle.1, by omega⟩
  · rw [hlive, hfreed, hnext]
    exact h.books.once
  · rw [hfault]
    exact h.books.fault

/-- What lies before `txbuf_end` can be read. -/
theorem SscTxInv.readable {s : Ssc} (h : SscTxInv s) {ws : List TxWidth}
    (hsize : s.port.txbufPtr + txSize ws ≤ s.port.txbufEnd) :
    (layOut s.port.txbufPtr ws).all s.readable = true := by
  by_cases hnil : ws = []
  · rw [hnil]
    rfl
  · have hpos := txSize_pos hnil
    obtain ⟨id, b, hlive, haddr, hlo, -, hb⟩ := h.held (h.unsent (by omega))
    exact Ssc.readable_layOut hlive (by omega) (by omega)

/-- A call of `tx_int` in the interrupt reads the live buffer only, and frees it behind its last byte. -/
theorem SscTxInv.txInt {s : Ssc} (h : SscTxInv s) (fifoSpace : Nat) :
    SscTxInv (s.txInt fifoSpace) := by
  obtain ⟨ws, hpass, hcases⟩ := txInt_cases s.port fifoSpace
  have hle := h.ptr_le
  have hsize := hpass.size
  have hroom : s.port.txbufPtr + txSize ws ≤ s.port.txbufEnd := by omega
  have hread := h.readable hroom
  rcases hcases with ⟨-, he⟩ | ⟨hdone, he⟩
  · simp only [Ssc.txInt, he]
    exact h.advance hroom rfl rfl rfl rfl rfl rfl (by simp [hread])
  · simp only [Ssc.txInt, he]
    have hsent : SscTxInv { s with port := s.port.sent ws } :=
      h.advance hroom rfl rfl rfl rfl rfl rfl rfl
    exact hsent.release hdone rfl rfl rfl rfl rfl rfl (by simp [hread])

theorem SscTxInv.txHandler {s : Ssc} (h : SscTxInv s) (fifoSpace : Nat) :
    SscTxInv (s.txHandler fifoSpace) := by
  have hle := h.ptr_le
  have hnot : ¬ (fifoSpace ≠ 0 ∧ s.port.txbufEnd < s.port.txbufPtr) := by omega
  have hcall := h.txInt fifoSpace
  simp only [Ssc.txHandler, if_neg hnot]
  exact hcall.frame ⟨rfl, rfl, rfl, rfl, rfl, rfl, rfl⟩

theorem SscTxInv.abort {s : Ssc} (h : SscTxInv s) (hle : s.port.txbufEnd ≤ s.port.txbufPtr) :
    SscTxInv s.abort := by
  unfold Ssc.abort
  dsimp only
  split
  · exact h.frame ⟨rfl, rfl, rfl, rfl, rfl, rfl, rfl⟩
  · rw [Ssc.kfree_port, Ssc.kfree_setPort]
    exact h.release hle rfl rfl rfl rfl rfl rfl rfl

theorem SscTxInv.close {s : Ssc} (h : SscTxInv s) (hle : s.port.txbufEnd ≤ s.port.txbufPtr) :
    SscTxInv s.close.1 := by
  have hdisabled : SscTxInv { s with port := { s.port with enabled := false } } :=
    h.frame ⟨rfl, rfl, rfl, rfl, rfl, rfl, rfl⟩
  exact (hdisabled.abort hle).frame ⟨rfl, rfl, rfl, rfl, rfl, rfl, rfl⟩

theorem SscTxInv.open {s : Ssc} (h : SscTxInv s)
    (hend : s.port.portIsOpen = 0 → s.port.txbufEnd = 0) : SscTxInv s.open.1 := by
  unfold Ssc.open
  split
  · exact h
  next hclosed =>
    have hzero := hend (by simpa using hclosed)
    have hptr : 0 = s.port.txbufPtr := by
      have hle := h.ptr_le
      omega
    exact h.frame ⟨rfl, hptr, rfl, rfl, rfl, rfl, rfl⟩

/-- What holds while `tx_int` has counted its accesses. -/
def TxPcOk (s : Ssc) : Option TxIntPc → Prop
  | some (.words i fill _) =>
    SscTxInv s ∧ 4 * i ≤ fill ∧ s.port.txbufPtr + (fill - 4 * i) ≤ s.port.txbufEnd
  | some (.half fill _) | some (.byte fill _) =>
    SscTxInv s ∧ s.port.txbufPtr + fill ≤ s.port.txbufEnd
  | _ => SscTxInv s

theorem SscTxInv.push {s : Ssc} (h : SscTxInv s) {w : TxWidth}
    (hroom : s.port.txbufPtr + w.size ≤ s.port.txbufEnd) : SscTxInv (s.push w) := by
  have hread := @SscTxInv.readable _ h [w] (by simpa using hroom)
  simp only [layOut, List.all_cons, List.all_nil, Bool.and_true] at hread
  exact h.advance hroom rfl rfl rfl rfl rfl rfl (by simp [Ssc.push, hread])

theorem SscTxInv.txDone {s : Ssc} (h : SscTxInv s) : SscTxInv s.txDone := by
  unfold Ssc.txDone
  split
  next hdone =>
    dsimp only
    rw [Ssc.kfree_port, Ssc.kfree_setPort]
    exact h.release hdone rfl rfl rfl rfl rfl rfl rfl
  next => exact h

theorem txIntStep_ok {s : Ssc} {pc : TxIntPc} (h : TxPcOk s (some pc)) (answer : Nat) :
    TxPcOk (txIntStep s answer pc).1 (txIntStep s answer pc).2 := by
  cases pc with
  | level =>
    simp only [txIntStep]
    split
    · exact h
    · exact h
  | fill fifoSpace =>
    have hs : SscTxInv s := h
    have hle := hs.ptr_le
    simp only [txIntStep, if_neg (Nat.not_lt.mpr hle), TxPcOk]
    refine ⟨hs, Nat.zero_le _, ?_⟩
    split <;> omega
  | words i fill fifoSpace =>
    obtain ⟨hs, hi, hroom⟩ := h
    simp only [txIntStep]
    split
    next hmore =>
      refine ⟨hs.push (by simp only [TxWidth.size]; omega), by omega, ?_⟩
      simp only [Ssc.push, TxWidth.size]
      omega
    next hdone =>
      refine ⟨hs.frame ⟨rfl, rfl, rfl, rfl, rfl, rfl, rfl⟩, ?_⟩
      dsimp only
      omega
  | half fill fifoSpace =>
    obtain ⟨hs, hroom⟩ := h
    simp only [txIntStep]
    split
    next hmore =>
      refine ⟨hs.push (by simp only [TxWidth.size]; omega), ?_⟩
      simp only [Ssc.push, TxWidth.size]
      omega
    next => exact ⟨hs, hroom⟩
  | byte fill fifoSpace =>
    obtain ⟨hs, hroom⟩ := h
    simp only [txIntStep]
    split
    next hmore => exact hs.push (by simp only [TxWidth.size]; omega)
    next => exact hs
  | check => exact SscTxInv.txDone h

/-- What holds at the place of a call, while nobody else is at a critical one. -/
def SscWindow (s : Ssc) : Option SscCall → Prop
  | some (.copyFromUser b) | some (.mode b _) | some (.txbufPtr b) | some (.fail b _) =>
    s.port.txbuf = b.addr ∧ s.port.txbufPtr = s.port.txbufEnd ∧ s.live = [] ∧ SscBooks s
  | some (.txbufEnd b) =>
    s.port.txbuf = b.addr ∧ s.port.txbufPtr = b.addr ∧ s.live = [] ∧ SscBooks s
  | some (.txInt _ pc) => TxPcOk s (some pc)
  | _ => SscTxInv s

theorem SscWindow.of_inv {s : Ssc} (h : SscTxInv s) {c : Option SscCall}
    (hc : ∀ d ∈ c, d.critical = false) : SscWindow s c := by
  cases c with
  | none => exact h
  | some d =>
    have hd := hc d rfl
    cases d with
    | txInt caller pc => cases pc <;> first | exact h | cases hd
    | _ => first | exact h | cases hd

theorem SscWindow.inv {s : Ssc} {c : Option SscCall} (h : SscWindow s c)
    (hc : ∀ d ∈ c, d.critical = false) : SscTxInv s := by
  cases c with
  | none => exact h
  | some d =>
    have hd := hc d rfl
    cases d with
    | txInt caller pc => cases pc <;> first | exact h | cases hd
    | _ => first | exact h | cases hd

/-- The store of `txbuf` opens the window of a write. -/
theorem SscTxInv.claimed {s : Ssc} (h : SscTxInv s) (hfree : s.port.txbuf = 0) (b : KBuf) :
    SscWindow { s with port := { s.port with txbuf := b.addr } } (some (.copyFromUser b)) :=
  ⟨rfl, (h.idle hfree).2, (h.idle hfree).1, h.books.once, h.books.fault⟩

/-- The store of `txbuf_end` closes it. -/
theorem SscBooks.accepted {s : Ssc} (h : SscBooks s) {b : KBuf} (hbuf : s.port.txbuf = b.addr)
    (hptr : s.port.txbufPtr = b.addr) (hlive : s.live = []) :
    SscTxInv { s with
      port := { s.port with txbufEnd := b.len + s.port.txbuf }
      live := s.live ++ [(s.next, b)]
      next := s.next + 1 } := by
  refine ⟨?_, ?_, ?_, h.fault⟩
  · intro _
    refine ⟨s.next, b, by simp [hlive], hbuf.symm, ?_, ?_, ?_⟩
    · exact Nat.le_of_eq (hbuf.trans hptr.symm)
    · dsimp only
      omega
    · dsimp only
      omega
  · intro hzero
    exact absurd (hbuf.symm.trans hzero) (Nat.ne_of_gt b.pos)
  · intro id
    have honce := h.once id
    simp only [hlive, List.map_nil, List.count_nil, Nat.add_zero] at honce
    simp only [hlive, List.nil_append, List.map_cons, List.map_nil, List.count_singleton]
    by_cases hid : s.next = id
    · simp [hid] at honce ⊢
      omega
    · have hlt : id < s.next + 1 ↔ id < s.next := by omega
      simp [hid, hlt, honce]

theorem sscCallStep_window {s : Ssc} {c : SscCall} (h : SscWindow s (some c))
    (hfree : ∀ b, c = .claim b ∨ c = .alloc b → s.port.txbuf = 0) (answer : Nat) :
    SscWindow (sscCallStep s answer c).1 (sscCallStep s answer c).2 := by
  cases c with
  | claim b => exact SscTxInv.claimed h (hfree b (.inl rfl)) b
  | alloc b =>
    have hs : SscTxInv s := h
    have hnull := hfree b (.inr rfl)
    simp only [sscCallStep]
    split
    · exact hs.frame ⟨hnull.symm, rfl, rfl, rfl, rfl, rfl, rfl⟩
    · exact hs.claimed hnull b
  | copyFromUser b =>
    simp only [sscCallStep]
    split
    · exact h
    · exact h
  | mode b user =>
    simp only [sscCallStep]
    split
    · exact h
    · exact h
  | txbufPtr b =>
    obtain ⟨hbuf, -, hlive, hbooks⟩ := h
    exact ⟨hbuf, hbuf, hlive, hbooks.once, hbooks.fault⟩
  | txbufEnd b =>
    obtain ⟨hbuf, hptr, hlive, hbooks⟩ := h
    exact hbooks.accepted hbuf hptr hlive
  | start =>
    simp only [sscCallStep]
    split
    · exact h
    · exact h
  | fail b user =>
    obtain ⟨hbuf, hptr, hlive, hbooks⟩ := h
    have hown : ¬ (user = true ∧ s.port.txbuf ≠ b.addr) := fun hne => hne.2 hbuf
    simp only [sscCallStep, if_neg hown]
    exact ⟨fun hne => absurd rfl hne, fun _ => ⟨hlive, hptr⟩, hbooks.once, hbooks.fault⟩
  | txInt caller pc =>
    have hnext := txIntStep_ok h answer
    simp only [sscCallStep]
    split
    next t pc' ht =>
      rw [ht] at hnext
      exact hnext
    next t ht =>
      rw [ht] at hnext
      cases caller <;> exact hnext
  | enable caller =>
    have hs : SscTxInv s := h
    simp only [sscCallStep]
    split
    · exact (hs.frame s.enableTxirq_same).frame ⟨rfl, rfl, rfl, rfl, rfl, rfl, rfl⟩
    · exact hs.frame s.enableTxirq_same
  | rxInt =>
    have hs : SscTxInv s := h
    exact (hs.frame (s.rxInt_same answer)).frame ⟨rfl, rfl, rfl, rfl, rfl, rfl, rfl⟩

theorem TxPcOk.frame {s t : Ssc} {pc : Option TxIntPc} (h : TxPcOk s pc) (hsame : SameTx s t) :
    TxPcOk t pc := by
  cases pc with
  | none => exact SscTxInv.frame h hsame
  | some pc =>
    have hptr := hsame.ptr
    have hend := hsame.bufEnd
    cases pc with
    | words i fill fifoSpace => exact ⟨h.1.frame hsame, h.2.1, by rw [hptr, hend]; exact h.2.2⟩
    | half fill fifoSpace => exact ⟨h.1.frame hsame, by rw [hptr, hend]; exact h.2⟩
    | byte fill fifoSpace => exact ⟨h.1.frame hsame, by rw [hptr, hend]; exact h.2⟩
    | level => exact SscTxInv.frame h hsame
    | fill fifoSpace => exact SscTxInv.frame h hsame
    | check => exact SscTxInv.frame h hsame

theorem SscWindow.frame {s t : Ssc} {c : Option SscCall} (h : SscWindow s c) (hsame : SameTx s t) :
    SscWindow t c := by
  cases c with
  | none => exact SscTxInv.frame h hsame
  | some c =>
    cases c with
    | copyFromUser b | mode b user | txbufPtr b | fail b user =>
      obtain ⟨hbuf, hptr, hlive, hbooks⟩ := h
      refine ⟨hsame.txbuf.trans hbuf, ?_, hsame.live.trans hlive, hbooks.frame hsame⟩
      rw [hsame.ptr, hsame.bufEnd]
      exact hptr
    | txbufEnd b =>
      obtain ⟨hbuf, hptr, hlive, hbooks⟩ := h
      exact ⟨hsame.txbuf.trans hbuf, hsame.ptr.trans hptr, hsame.live.trans hlive, hbooks.frame hsame⟩
    | txInt caller pc => exact TxPcOk.frame h hsame
    | claim b | alloc b => exact SscTxInv.frame h hsame
    | start | rxInt => exact SscTxInv.frame h hsame
    | enable caller => exact SscTxInv.frame h hsame

theorem TxPcOk.inv {s : Ssc} {pc : Option TxIntPc} (h : TxPcOk s pc) : SscTxInv s := by
  cases pc with
  | none => exact h
  | some pc => cases pc <;> first | exact h | exact h.1

/-- Only a write between its two cursors has unsent bytes that are not the buffer's. -/
theorem SscWindow.owned {s : Ssc} {c : Option SscCall} (h : SscWindow s c) :
    SscBooks s ∧ (SscTxInv s ∨ s.port.txbufPtr = s.port.txbufEnd ∨ ∃ b, c = some (.txbufEnd b)) := by
  have hinv : SscTxInv s → SscBooks s ∧
      (SscTxInv s ∨ s.port.txbufPtr = s.port.txbufEnd ∨ ∃ b, c = some (.txbufEnd b)) :=
    fun hs => ⟨hs.books, .inl hs⟩
  cases c with
  | none => exact hinv h
  | some c =>
    cases c with
    | copyFromUser b | mode b user | txbufPtr b | fail b user =>
      exact ⟨h.2.2.2, .inr (.inl h.2.1)⟩
    | txbufEnd b => exact ⟨h.2.2.2, .inr (.inr ⟨b, rfl⟩)⟩
    | txInt caller pc => exact hinv (TxPcOk.inv h)
    | claim b | alloc b => exact hinv h
    | start | rxInt => exact hinv h
    | enable caller => exact hinv h

/-- One call at most is at a critical place, and what it relies on holds. -/
structure SscRunInv (s : SscRun) : Prop where
  quiet : s.Quiet → SscTxInv s.ssc
  window : ∀ i c, s.inside i = some c → c.critical = true → s.QuietBut i ∧ SscWindow s.ssc (some c)

theorem SscTxInv.live_of_unsent {s : Ssc} (h : SscTxInv s)
    (hlt : s.port.txbufPtr < s.port.txbufEnd) :
    s.port.txbuf ≠ 0 ∧ s.port.txbuf ≤ s.port.txbufPtr ∧
      ∃ b ∈ s.live, b.2.addr = s.port.txbuf ∧ s.port.txbufEnd = b.2.addr + b.2.len := by
  have hbuf := h.unsent hlt
  obtain ⟨id, b, hlive, haddr, hptr, -, hend⟩ := h.held hbuf
  exact ⟨hbuf, hptr, (id, b), by simp [hlive], haddr, hend⟩

theorem SscRunInv.owned {s : SscRun} (h : SscRunInv s) : SscTxOwned s := by
  have hwindow : ∃ c, (∀ b, c = some (.txbufEnd b) → ∃ i, s.inside i = some (.txbufEnd b)) ∧
      SscWindow s.ssc c := by
    by_cases hquiet : s.Quiet
    · exact ⟨none, fun b hb => absurd hb (by simp), h.quiet hquiet⟩
    · simp only [SscRun.Quiet, not_forall, Bool.not_eq_false] at hquiet
      obtain ⟨i, c, hc, hcrit⟩ := hquiet
      refine ⟨some c, fun b hb => ⟨i, ?_⟩, (h.window i c hc hcrit).2⟩
      rw [hc, hb]
  obtain ⟨c, hplace, hc⟩ := hwindow
  obtain ⟨hbooks, hcases⟩ := hc.owned
  refine ⟨?_, ?_, hbooks.fault⟩
  · intro hnot hlt
    obtain hinv | hptr | ⟨b, hb⟩ := hcases
    · exact hinv.live_of_unsent hlt
    · omega
    · obtain ⟨i, hi⟩ := hplace b hb
      exact absurd hi (hnot i b)
  · intro id hid
    rw [hbooks.once id, if_pos hid]

theorem SscRunInv.frame {s : SscRun} (h : SscRunInv s) {t : Ssc} (hsame : SameTx s.ssc t) :
    SscRunInv { s with ssc := t } :=
  ⟨fun hquiet => (h.quiet hquiet).frame hsame,
    fun i c hc hcrit => ⟨(h.window i c hc hcrit).1, (h.window i c hc hcrit).2.frame hsame⟩⟩

theorem SscRunInv.of_quiet {s : SscRun} (hquiet : s.Quiet) {t : Ssc} (ht : SscTxInv t) :
    SscRunInv { s with ssc := t } :=
  ⟨fun _ => ht, fun i c hc hcrit => absurd hcrit (by simp [hquiet i c hc])⟩

/-- A call that begins is not at a critical place yet. -/
theorem SscRunInv.enter {s : SscRun} (h : SscRunInv s) {i : Nat} {c : SscCall}
    (hi : s.inside i = none) (hc : c.critical = false) : SscRunInv (s.enter i c) := by
  have hold : ∀ j d, s.inside j = some d → (s.enter i c).inside j = some d := by
    intro j d hd
    have hne : j ≠ i := by
      rintro rfl
      rw [hi] at hd
      cases hd
    exact (Function.update_of_ne hne _ _).trans hd
  have hnew : ∀ j d, (s.enter i c).inside j = some d → d.critical = true → s.inside j = some d := by
    intro j d hd hcrit
    simp only [SscRun.enter] at hd
    by_cases hj : j = i
    · subst hj
      rw [Function.update_self] at hd
      cases hd
      rw [hc] at hcrit
      cases hcrit
    · rwa [Function.update_of_ne hj] at hd
  refine ⟨fun hquiet => h.quiet fun j d hd => hquiet j d (hold j d hd), ?_⟩
  intro j d hd hcrit
  obtain ⟨hbut, hwindow⟩ := h.window j d (hnew j d hd hcrit) hcrit
  refine ⟨?_, hwindow⟩
  intro k e hk he
  by_contra hecrit
  rw [Bool.not_eq_false] at hecrit
  have hfalse := hbut k e hk (hnew k e he hecrit)
  rw [hfalse] at hecrit
  cases hecrit

/-- A step of a call that is alone at a critical place, if it is at one. -/
theorem SscRunInv.advance {s : SscRun} (h : SscRunInv s) {i answer : Nat} {c : SscCall}
    (hi : s.inside i = some c) (hbut : s.QuietBut i)
    (hfree : ∀ b, c = .claim b ∨ c = .alloc b → s.ssc.port.txbuf = 0) :
    SscRunInv ⟨(sscCallStep s.ssc answer c).1,
      Function.update s.inside i (sscCallStep s.ssc answer c).2⟩ := by
  have hwindow : SscWindow s.ssc (some c) := by
    by_cases hcrit : c.critical = true
    · exact (h.window i c hi hcrit).2
    · rw [Bool.not_eq_true] at hcrit
      have hquiet : s.Quiet := by
        intro j d hd
        by_cases hj : j = i
        · subst hj
          cases hi.symm.trans hd
          exact hcrit
        · exact hbut j d hj hd
      refine SscWindow.of_inv (h.quiet hquiet) ?_
      intro d hd
      cases hd
      exact hcrit
  have hnext := sscCallStep_window hwindow hfree answer
  have hbut' : SscRun.QuietBut ⟨(sscCallStep s.ssc answer c).1,
      Function.update s.inside i (sscCallStep s.ssc answer c).2⟩ i := by
    intro j d hj hd
    simp only [Function.update_of_ne hj] at hd
    exact hbut j d hj hd
  constructor
  · intro hquiet
    refine hnext.inv ?_
    intro d hd
    exact hquiet i d ((Function.update_self _ _ _).trans hd)
  · intro j d hd hcrit
    by_cases hj : j = i
    · subst hj
      simp only [Function.update_self] at hd
      rw [hd] at hnext
      exact ⟨hbut', hnext⟩
    · have hfalse := hbut' j d hj hd
      rw [hfalse] at hcrit
      cases hcrit

theorem SscRunInv.read {s : SscRun} (h : SscRunInv s) {i : Nat} (hi : s.inside i = none)
    (rxbuf len : Nat) (busy : Bool) : SscRunInv (s.read i rxbuf len busy) := by
  unfold SscRun.read
  dsimp only
  split
  · have hsame : SameTx s.ssc { s.ssc with port := { s.ssc.port with
        rxbuf := rxbuf, rxbufPtr := rxbuf, rxbufEnd := rxbuf + len } } :=
      ⟨rfl, rfl, rfl, rfl, rfl, rfl, rfl⟩
    exact (h.frame hsame).enter hi rfl
  · exact h.frame (s.ssc.read_same rxbuf len busy)

theorem SscRunInv.call {s t : SscRun} {e : SscEvent} (h : SscRunInv s)
    (hund : SscUndisturbed s (.call e)) (hok : SscTxSettled s (.call e))
    (ht : sscRunStep s (.call e) = some t) : SscRunInv t := by
  obtain ⟨hwhole, ht⟩ := Option.ite_none_right_eq_some.mp ht
  obtain ⟨u, hu, rfl⟩ := Option.map_eq_some_iff.mp ht
  cases e with
  | «open» =>
    cases Option.some.inj hu
    by_cases hopen : s.ssc.port.portIsOpen = 0
    · exact SscRunInv.of_quiet (hund hopen) ((h.quiet (hund hopen)).open hok)
    · have hsame : s.ssc.open.1 = s.ssc := by simp [Ssc.open, hopen]
      rw [hsame]
      exact h
  | close =>
    cases Option.some.inj hu
    exact SscRunInv.of_quiet hund ((h.quiet hund).close hok)
  | abort =>
    cases Option.some.inj hu
    exact SscRunInv.of_quiet hund ((h.quiet hund).abort hok)
  | txInterrupt fifoSpace =>
    obtain ⟨hirq, ⟨⟩⟩ := Option.ite_none_right_eq_some.mp hu
    by_cases hroom : 0 < fifoSpace
    · exact SscRunInv.of_quiet (hund hirq hroom) ((h.quiet (hund hirq hroom)).txHandler fifoSpace)
    · have hzero : fifoSpace = 0 := by omega
      have hsame := s.ssc.txInt_zero
      subst hzero
      refine h.frame ?_
      simp only [Ssc.txHandler, ne_eq, not_true_eq_false, false_and, if_false]
      exact ⟨hsame.txbuf, hsame.ptr, hsame.bufEnd, hsame.live, hsame.freed, hsame.next, hsame.fault⟩
  | modeSet mode =>
    cases Option.some.inj hu
    exact h.frame ⟨rfl, rfl, rfl, rfl, rfl, rfl, rfl⟩
  | kread kbuf len =>
    cases Option.some.inj hu
    exact h.frame (s.ssc.kread_same kbuf len)
  | pollDone =>
    obtain ⟨_, ⟨⟩⟩ := Option.ite_none_right_eq_some.mp hu
    exact h.frame ⟨rfl, rfl, rfl, rfl, rfl, rfl, rfl⟩
  | readDone =>
    obtain ⟨_, ⟨⟩⟩ := Option.ite_none_right_eq_some.mp hu
    exact h.frame ⟨rfl, rfl, rfl, rfl, rfl, rfl, rfl⟩
  | rxInterrupt n =>
    obtain ⟨_, ⟨⟩⟩ := Option.ite_none_right_eq_some.mp hu
    have hsame := s.ssc.rxInt_same n
    exact h.frame ⟨hsame.txbuf, hsame.ptr, hsame.bufEnd, hsame.live, hsame.freed, hsame.next,
      hsame.fault⟩
  | kwrite b fifoSpace => cases hwhole
  | write b allocated copied fifoSpace => cases hwhole
  | poll fifoSpace n => cases hwhole
  | read rxbuf len fifoSpace busy => cases hwhole

theorem sscRunStep_inv {s t : SscRun} {e : SscRunEvent} (h : SscRunInv s) (hund : SscUndisturbed s e)
    (hok : SscTxSettled s e) (ht : sscRunStep s e = some t) : SscRunInv t := by
  cases e with
  | call e => exact h.call hund hok ht
  | kwrite i b =>
    simp only [sscRunStep] at ht
    split_ifs at ht with hi hbusy
    · cases ht
      exact h
    · cases ht
      exact h.enter (not_not.mp hi) rfl
  | write i b =>
    simp only [sscRunStep] at ht
    split_ifs at ht with hi hbusy
    · cases ht
      exact h
    · cases ht
      exact h.enter (not_not.mp hi) rfl
  | poll i =>
    obtain ⟨⟨hi, -, -⟩, ⟨⟩⟩ := Option.ite_none_right_eq_some.mp ht
    have hsame : SameTx s.ssc { s.ssc with reader := none } := ⟨rfl, rfl, rfl, rfl, rfl, rfl, rfl⟩
    have hstart := h.frame hsame
    dsimp only
    split
    · exact hstart.enter hi rfl
    · exact hstart.enter hi rfl
  | read i rxbuf len busy =>
    simp only [sscRunStep] at ht
    split_ifs at ht with hi
    cases ht
    exact h.read (not_not.mp hi) rxbuf len busy
  | step i answer =>
    simp only [sscRunStep] at ht
    cases hi : s.inside i with
    | none => simp [hi] at ht
    | some c =>
      rw [hi] at ht
      cases Option.some.inj ht
      refine h.advance hi hund.1 ?_
      intro b hb
      refine hund.2 b ?_
      rw [hi]
      exact hb.imp (congrArg some) (congrArg some)

theorem Ssc.abort_cursors (s : Ssc) :
    s.abort.port.txbuf = 0 ∧ s.abort.port.txbufPtr = s.port.txbufPtr ∧
      s.abort.port.txbufEnd = s.port.txbufEnd := by
  unfold Ssc.abort
  dsimp only
  split
  next hbuf => exact ⟨hbuf, rfl, rfl⟩
  next => exact ⟨rfl, by simp, by simp⟩

/-- With no write between its cursors, a port without a buffer has nothing unsent. -/
theorem SscTxOwned.settled_of_cursors {s t : SscRun} (ht : SscTxOwned t) (hquiet : s.Quiet)
    (hinside : t.inside = s.inside) (hbuf : t.ssc.port.txbuf = 0)
    (hptr : t.ssc.port.txbufPtr = s.ssc.port.txbufPtr)
    (hend : t.ssc.port.txbufEnd = s.ssc.port.txbufEnd) :
    s.ssc.port.txbufEnd ≤ s.ssc.port.txbufPtr := by
  by_contra hlt
  refine (ht.live ?_ (by omega)).1 hbuf
  intro i b hi
  rw [hinside] at hi
  cases hquiet i _ hi

theorem sscRunStep_settled {s t : SscRun} {e : SscRunEvent} (hund : SscUndisturbed s e)
    (h : sscRunStep s e = some t) (ht : SscTxOwned t) : SscTxSettled s e := by
  cases e with
  | call e =>
    obtain ⟨_, h⟩ := Option.ite_none_right_eq_some.mp h
    obtain ⟨u, hu, rfl⟩ := Option.map_eq_some_iff.mp h
    cases e with
    | «open» =>
      intro hclosed
      cases Option.some.inj hu
      have hquiet : s.Quiet := hund hclosed
      by_contra hend
      have hopen : s.ssc.open.1.port.txbufPtr = 0 ∧
          s.ssc.open.1.port.txbufEnd = s.ssc.port.txbufEnd := by
        simp [Ssc.open, hclosed]
      have hlive := ht.live (fun i b hi => by cases hquiet i _ hi) (by dsimp only; omega)
      dsimp only at hlive
      omega
    | close =>
      cases Option.some.inj hu
      obtain ⟨hbuf, hptr, hend⟩ :=
        Ssc.abort_cursors { s.ssc with port := { s.ssc.port with enabled := false } }
      exact ht.settled_of_cursors hund rfl hbuf hptr hend
    | abort =>
      cases Option.some.inj hu
      obtain ⟨hbuf, hptr, hend⟩ := s.ssc.abort_cursors
      exact ht.settled_of_cursors hund rfl hbuf hptr hend
    | _ => trivial
  | _ => trivial

theorem sscRunStep_none {s : SscRun} {e : SscRunEvent} (h : sscRunStep s e = none) :
    SscTxSettled s e := by
  cases e with
  | call e =>
    cases e with
    | «open» => cases h
    | close => cases h
    | abort => cases h
    | _ => trivial
  | _ => trivial

theorem sscTxSettled_iff {s : SscRun} {e : SscRunEvent} (h : SscRunInv s)
    (hund : SscUndisturbed s e) : SscTxSettled s e ↔ SscStepOwned s e := by
  constructor
  · intro hok t ht
    exact (sscRunStep_inv h hund hok ht).owned
  · intro howned
    cases ht : sscRunStep s e with
    | none => exact sscRunStep_none ht
    | some t => exact sscRunStep_settled hund ht (howned t ht)

theorem sscRunStart_inv : SscRunInv sscRunStart :=
  ⟨fun _ => ⟨fun h => absurd rfl h, fun _ => ⟨rfl, rfl⟩, fun _ => by simp [sscRunStart, sscStart], rfl⟩,
    fun _ _ hc => by cases hc⟩

/-- Along the runs in which nothing comes between the stores of a write or between what `tx_int` has counted
and its last test, the transmit buffer is owned properly in every state exactly when no abort or close finds
unsent bytes and no open comes behind an accepted write. -/
theorem ssc_tx_owned_iff (es : List SscRunEvent) :
    RunMeets sscRunStep (fun s e => SscUndisturbed s e ∧ SscTxSettled s e) sscRunStart es ↔
      RunMeets sscRunStep (fun s e => SscUndisturbed s e ∧ SscStepOwned s e) sscRunStart es := by
  refine @runMeets_congr _ _ _ _ _ SscRunInv ?_ ?_ _ sscRunStart_inv es
  · intro s e h
    exact and_congr_right fun hund => sscTxSettled_iff h hund
  · intro s t e h hok ht
    exact sscRunStep_inv h hok.1 hok.2 ht

/-- Open, write in combined mode, abort, and a polling read: `tx_int` reads the freed buffer. With the
interrupt opened again behind a first write, one that comes when a second has stored `txbuf` frees the new
buffer. -/
theorem ssc_abort_then_read_faults :
    (∃ t, run sscRunStep sscRunStart ([.call .open, .kwrite 0 ⟨0x1000, 8, by decide⟩] ++
          List.replicate 5 (.step 0 0) ++
          [.call .abort, .call (.kread 0x2000 8), .poll 0, .step 0 8, .step 0 0, .step 0 0]) = some t ∧
        t.ssc.freed = [0] ∧ t.ssc.fault = true ∧ ¬ SscTxOwned t) ∧
      ∃ t, run sscRunStep sscRunStart ([.call .open, .call (.modeSet .tx),
          .kwrite 0 ⟨0x1000, 8, by decide⟩] ++ List.replicate 5 (.step 0 0) ++
          [.step 0 0, .step 0 0, .call (.txInterrupt 8), .kwrite 0 ⟨0x2000, 8, by decide⟩, .step 0 0,
            .call (.txInterrupt 8)]) = some t ∧
        t.ssc.freed = [0] ∧ t.ssc.port.txbuf = 0 ∧ t.ssc.fault = true ∧ ¬ SscTxOwned t := by
  refine ⟨⟨_, rfl, rfl, rfl, ?_⟩, ⟨_, rfl, rfl, rfl, rfl, ?_⟩⟩
  · intro h
    exact absurd h.fault (by decide)
  · intro h
    exact absurd h.fault (by decide)

end DanubeBsp
