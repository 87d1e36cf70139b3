import DanubeBsp.SscOwner

namespace DanubeBsp

/-- What the holder of the port calls between its open and its close. -/
def SscEvent.isTransfer : SscEvent → Bool
  | .open | .close | .abort | .txInterrupt _ | .rxInterrupt _ => false
  | _ => true

def SscEvent.isIrq : SscEvent → Bool
  | .txInterrupt _ | .rxInterrupt _ => true
  | _ => false

/-- The port and its users: `holders` have opened it, `calls` are the calls of `danube_eeprom_kread` and
`danube_eeprom_kwrite` between their open and their close, and `owner` is whose write the buffer of the
port is. A close by a user who does not hold the port sets `foreignClose`, one that frees a buffer of
another user sets `foreignFree`. -/
structure SscUsers where
  ssc : Ssc
  holders : List Nat
  calls : List Nat
  owner : Option Nat
  foreignClose : Bool
  foreignFree : Bool

def sscUsersStart : SscUsers := ⟨sscStart, [], [], none, false, false⟩

inductive SscUserEvent
  | open (user : Nat)
  | close (user : Nat)
  | eepromOpen (user : Nat)
  | eepromClose (user : Nat)
  | transfer (user : Nat) (e : SscEvent)
  | irq (e : SscEvent)
  deriving DecidableEq

/-- `ifx_ssc_open` for a user. -/
def SscUsers.open (s : SscUsers) (user : Nat) : SscUsers :=
  { s with
    ssc := s.ssc.open.1
    holders := if s.ssc.open.2 = 0 then user :: s.holders else s.holders }

/-- `ifx_ssc_close` for a user. -/
def SscUsers.close (s : SscUsers) (user : Nat) : SscUsers :=
  { s with
    ssc := s.ssc.close.1
    holders := s.holders.erase user
    foreignClose := s.foreignClose || !decide (user ∈ s.holders)
    foreignFree := s.foreignFree || decide (s.ssc.port.txbuf ≠ 0 ∧ s.owner ≠ some user) }

/-- A user closes only what it has opened. The EEPROM calls close the port at their common exit, also
when it is their open that has failed. -/
def sscUsersStep (s : SscUsers) : SscUserEvent → Option SscUsers
  | .open user => if user ∉ s.calls then some (s.open user) else none
  | .close user => if user ∈ s.holders ∧ user ∉ s.calls then some (s.close user) else none
  | .eepromOpen user =>
    if user ∉ s.holders ∧ user ∉ s.calls then
      some { s.open user with calls := user :: s.calls }
    else none
  | .eepromClose user =>
    if user ∈ s.calls then some { s.close user with calls := s.calls.erase user } else none
  | .transfer user e =>
    if user ∈ s.holders ∧ e.isTransfer = true then
      (sscStep s.ssc e).map fun t =>
        { s with ssc := t, owner := if s.ssc.port.txbuf = 0 then some user else s.owner }
    else none
  | .irq e => if e.isIrq then (sscStep s.ssc e).map fun t => { s with ssc := t } else none

/-- The port is open for one user at most, and nobody else closes it or frees its buffer. -/
structure SscExclusive (s : SscUsers) : Prop where
  single : s.holders.length ≤ 1
  portIsOpen : s.ssc.port.portIsOpen = s.holders.length
  foreignClose : s.foreignClose = false
  foreignFree : s.foreignFree = false

/-- The EEPROM calls find the port closed. -/
def EepromFindsClosed (s : SscUsers) : SscUserEvent → Prop
  | .eepromOpen _ => s.ssc.port.portIsOpen = 0
  | _ => True

instance (s : SscUsers) : (e : SscUserEvent) → Decidable (EepromFindsClosed s e)
  | .eepromOpen _ => inferInstanceAs (Decidable (_ = _))
  | .open _ | .close _ | .eepromClose _ | .transfer _ _ | .irq _ => inferInstanceAs (Decidable True)

theorem Ssc.txInt_portIsOpen (s : Ssc) (fifoSpace : Nat) :
    (s.txInt fifoSpace).port.portIsOpen = s.port.portIsOpen := by
  rw [Ssc.txInt_port]
  obtain ⟨ws, _, ⟨_, he⟩ | ⟨_, he⟩⟩ := txInt_cases s.port fifoSpace
  · rw [he]
    rfl
  · rw [he]
    rfl

theorem Ssc.txInt_txbuf {s : Ssc} {fifoSpace : Nat} (h : (s.txInt fifoSpace).port.txbuf ≠ 0) :
    s.port.txbuf ≠ 0 := by
  rw [Ssc.txInt_port] at h
  obtain ⟨ws, _, ⟨_, he⟩ | ⟨_, he⟩⟩ := txInt_cases s.port fifoSpace
  · rw [he] at h
    exact h
  · rw [he] at h
    exact absurd rfl h

theorem Ssc.txHandler_portIsOpen (s : Ssc) (fifoSpace : Nat) :
    (s.txHandler fifoSpace).port.portIsOpen = s.port.portIsOpen := by
  simp only [Ssc.txHandler]
  split
  · rfl
  · exact s.txInt_portIsOpen fifoSpace

theorem Ssc.txHandler_txbuf {s : Ssc} {fifoSpace : Nat}
    (h : (s.txHandler fifoSpace).port.txbuf ≠ 0) : s.port.txbuf ≠ 0 := by
  simp only [Ssc.txHandler] at h
  split at h
  · exact absurd rfl h
  · exact Ssc.txInt_txbuf h

theorem Ssc.enableTxirq_portIsOpen (s : Ssc) :
    s.enableTxirq.port.portIsOpen = s.port.portIsOpen := by
  unfold Ssc.enableTxirq
  split <;> rfl

theorem Ssc.started_portIsOpen (s : Ssc) (b : KBuf) (fifoSpace : Nat) :
    (s.started b fifoSpace).port.portIsOpen = s.port.portIsOpen := by
  unfold Ssc.started
  split
  · rw [Ssc.enableTxirq_portIsOpen, Ssc.txInt_portIsOpen]
    rfl
  · rfl

theorem Ssc.rxInt_port (s : Ssc) (n : Nat) :
    (s.rxInt n).port.portIsOpen = s.port.portIsOpen ∧ (s.rxInt n).port.txbuf = s.port.txbuf := by
  unfold Ssc.rxInt
  dsimp only
  split <;> exact ⟨rfl, rfl⟩

theorem Ssc.read_portIsOpen (s : Ssc) (rxbuf len fifoSpace : Nat) (busy : Bool) :
    (s.read rxbuf len fifoSpace busy).1.port.portIsOpen = s.port.portIsOpen := by
  unfold Ssc.read
  dsimp only
  split_ifs <;> simp only [Ssc.enableTxirq_portIsOpen, Ssc.txInt_portIsOpen]

theorem Ssc.abort_portIsOpen (s : Ssc) : s.abort.port.portIsOpen = s.port.portIsOpen := by
  unfold Ssc.abort
  dsimp only
  split
  · rfl
  · rw [Ssc.kfree_port]

theorem Ssc.close_portIsOpen (s : Ssc) : s.close.1.port.portIsOpen = s.port.portIsOpen - 1 := by
  unfold Ssc.close
  dsimp only
  rw [Ssc.abort_portIsOpen]

theorem sscStep_portIsOpen {s t : Ssc} {e : SscEvent} (h : sscStep s e = some t)
    (hopen : e ≠ .open) (hclose : e ≠ .close) : t.port.portIsOpen = s.port.portIsOpen := by
  cases e with
  | «open» => exact absurd rfl hopen
  | close => exact absurd rfl hclose
  | abort =>
    cases Option.some.inj h
    exact s.abort_portIsOpen
  | modeSet mode => cases Option.some.inj h; rfl
  | kwrite b fifoSpace =>
    cases Option.some.inj h
    rcases s.kwrite_cases b fifoSpace with ⟨he, _⟩ | ⟨_, _, _, he⟩
    · rw [he]
    · rw [he, Ssc.started_portIsOpen]
  | write b allocated copied fifoSpace =>
    cases Option.some.inj h
    rcases s.write_cases b allocated copied fifoSpace with ⟨he, _⟩ | ⟨_, _, _, he⟩
    · rw [he]
    · rw [he, Ssc.started_portIsOpen]
  | kread kbuf len =>
    cases Option.some.inj h
    unfold Ssc.kread
    split_ifs <;> rfl
  | poll fifoSpace n =>
    obtain ⟨_, ⟨⟩⟩ := Option.ite_none_right_eq_some.mp h
    unfold Ssc.poll
    dsimp only
    rw [(Ssc.rxInt_port _ n).1]
    split
    · rw [Ssc.txInt_portIsOpen]
    · rfl
  | pollDone =>
    obtain ⟨_, ⟨⟩⟩ := Option.ite_none_right_eq_some.mp h
    rfl
  | read rxbuf len fifoSpace busy =>
    cases Option.some.inj h
    exact s.read_portIsOpen rxbuf len fifoSpace busy
  | readDone =>
    obtain ⟨_, ⟨⟩⟩ := Option.ite_none_right_eq_some.mp h
    rfl
  | txInterrupt fifoSpace =>
    obtain ⟨_, ⟨⟩⟩ := Option.ite_none_right_eq_some.mp h
    exact s.txHandler_portIsOpen fifoSpace
  | rxInterrupt n =>
    obtain ⟨_, ⟨⟩⟩ := Option.ite_none_right_eq_some.mp h
    exact (s.rxInt_port n).1

theorem sscStep_irq_txbuf {s t : Ssc} {e : SscEvent} (h : sscStep s e = some t)
    (hirq : e.isIrq = true) (hbuf : t.port.txbuf ≠ 0) : s.port.txbuf ≠ 0 := by
  cases e with
  | txInterrupt fifoSpace =>
    obtain ⟨_, ⟨⟩⟩ := Option.ite_none_right_eq_some.mp h
    exact Ssc.txHandler_txbuf hbuf
  | rxInterrupt n =>
    obtain ⟨_, ⟨⟩⟩ := Option.ite_none_right_eq_some.mp h
    exact (s.rxInt_port n).2 ▸ hbuf
  | _ => cases hirq

structure SscUsersInv (s : SscUsers) : Prop where
  exclusive : SscExclusive s
  calls : s.calls = [] ∨ s.calls = s.holders
  owner : s.ssc.port.txbuf ≠ 0 → ∃ user, s.owner = some user ∧ s.holders = [user]

theorem SscUsers.open_busy {s : SscUsers} (h : s.ssc.port.portIsOpen ≠ 0) (user : Nat) :
    s.open user = s := by
  have hbusy : s.ssc.open = (s.ssc, eBusy) := by simp [Ssc.open, h]
  simp [SscUsers.open, hbusy, eBusy]

theorem SscUsersInv.closed_iff {s : SscUsers} (h : SscUsersInv s) :
    s.ssc.port.portIsOpen = 0 ↔ s.holders = [] := by
  rw [h.exclusive.portIsOpen]
  simp

theorem SscUsersInv.open_closed {s : SscUsers} (h : SscUsersInv s)
    (hclosed : s.ssc.port.portIsOpen = 0) (user : Nat) :
    (s.open user).holders = [user] ∧ SscExclusive (s.open user) ∧
      (s.open user).ssc.port.txbuf = 0 := by
  have hholders := h.closed_iff.mp hclosed
  have hopen : (s.open user).holders = [user] := by
    simp [SscUsers.open, Ssc.open, hclosed, hholders]
  refine ⟨hopen, ⟨?_, ?_, h.exclusive.foreignClose, h.exclusive.foreignFree⟩, ?_⟩
  · simp [hopen]
  · rw [hopen]
    simp [SscUsers.open, Ssc.open, hclosed]
  · by_contra hbuf
    have hbuf' : s.ssc.port.txbuf ≠ 0 := by
      simpa [SscUsers.open, Ssc.open, hclosed] using hbuf
    obtain ⟨_, _, hheld⟩ := h.owner hbuf'
    simp [hholders] at hheld

theorem SscUsersInv.holders_eq {s : SscUsers} (h : SscUsersInv s) {user : Nat}
    (hmem : user ∈ s.holders) : s.holders = [user] := by
  have hone := Nat.le_antisymm h.exclusive.single (List.length_pos_of_mem hmem)
  obtain ⟨v, hv⟩ := List.length_eq_one_iff.mp hone
  rw [hv] at hmem ⊢
  rw [List.mem_singleton.mp hmem]

theorem SscUsersInv.close {s : SscUsers} (h : SscUsersInv s) {user : Nat} (hmem : user ∈ s.holders) :
    (s.close user).holders = [] ∧ SscExclusive (s.close user) ∧
      (s.close user).ssc.port.txbuf = 0 := by
  have hheld := h.holders_eq hmem
  have hempty : (s.close user).holders = [] := by simp [SscUsers.close, hheld]
  refine ⟨hempty, ⟨?_, ?_, ?_, ?_⟩, ?_⟩
  · simp [hempty]
  · have hclose : (s.close user).ssc.port.portIsOpen = s.ssc.port.portIsOpen - 1 :=
      s.ssc.close_portIsOpen
    rw [hclose, hempty, h.exclusive.portIsOpen, hheld]
    rfl
  · simp [SscUsers.close, h.exclusive.foreignClose, hheld]
  · have howner : ¬ (s.ssc.port.txbuf ≠ 0 ∧ s.owner ≠ some user) := by
      rintro ⟨hbuf, hne⟩
      obtain ⟨v, hv, hv'⟩ := h.owner hbuf
      rw [hheld] at hv'
      cases hv'
      exact hne hv
    simp only [SscUsers.close, h.exclusive.foreignFree, Bool.false_or, decide_eq_false howner]
  · exact (Ssc.abort_cursors _).1

theorem sscUsersStep_inv {s t : SscUsers} {e : SscUserEvent} (hs : SscUsersInv s)
    (hok : EepromFindsClosed s e) (h : sscUsersStep s e = some t) : SscUsersInv t := by
  cases e with
  | «open» user =>
    obtain ⟨hcall, ⟨⟩⟩ := Option.ite_none_right_eq_some.mp h
    by_cases hclosed : s.ssc.port.portIsOpen = 0
    · obtain ⟨hheld, hexcl, hbuf⟩ := hs.open_closed hclosed user
      refine ⟨hexcl, ?_, fun hne => absurd hbuf hne⟩
      rcases hs.calls with hnone | hcalls
      · exact Or.inl hnone
      · exact Or.inl (hcalls.trans (hs.closed_iff.mp hclosed))
    · rw [SscUsers.open_busy hclosed]
      exact hs
  | close user =>
    obtain ⟨⟨hmem, hcall⟩, ⟨⟩⟩ := Option.ite_none_right_eq_some.mp h
    obtain ⟨hempty, hexcl, hbuf⟩ := hs.close hmem
    refine ⟨hexcl, ?_, fun hne => absurd hbuf hne⟩
    rcases hs.calls with hnone | hcalls
    · exact Or.inl hnone
    · exact absurd (hcalls ▸ hmem) hcall
  | eepromOpen user =>
    obtain ⟨⟨hmem, hcall⟩, ⟨⟩⟩ := Option.ite_none_right_eq_some.mp h
    obtain ⟨hheld, hexcl, hbuf⟩ := hs.open_closed hok user
    have hcalls : s.calls = [] := by
      rcases hs.calls with hnone | hcalls
      · exact hnone
      · exact hcalls.trans (hs.closed_iff.mp hok)
    refine ⟨⟨hexcl.single, hexcl.portIsOpen, hexcl.foreignClose, hexcl.foreignFree⟩, Or.inr ?_,
      fun hne => absurd hbuf hne⟩
    rw [hcalls]
    exact hheld.symm
  | eepromClose user =>
    obtain ⟨hcall, ⟨⟩⟩ := Option.ite_none_right_eq_some.mp h
    have hcalls : s.calls = s.holders := by
      rcases hs.calls with hnone | hcalls
      · simp [hnone] at hcall
      · exact hcalls
    obtain ⟨hempty, hexcl, hbuf⟩ := hs.close (hcalls ▸ hcall)
    refine ⟨⟨hexcl.single, hexcl.portIsOpen, hexcl.foreignClose, hexcl.foreignFree⟩, Or.inr ?_,
      fun hne => absurd hbuf hne⟩
    rw [hcalls]
    rfl
  | transfer user e =>
    obtain ⟨⟨hmem, htransfer⟩, h⟩ := Option.ite_none_right_eq_some.mp h
    obtain ⟨u, hu, rfl⟩ := Option.map_eq_some_iff.mp h
    have hopen := sscStep_portIsOpen hu (by rintro rfl; cases htransfer)
      (by rintro rfl; cases htransfer)
    refine ⟨⟨hs.exclusive.single, hopen.trans hs.exclusive.portIsOpen, hs.exclusive.foreignClose,
      hs.exclusive.foreignFree⟩, hs.calls, ?_⟩
    intro _
    by_cases hbuf : s.ssc.port.txbuf = 0
    · exact ⟨user, if_pos hbuf, hs.holders_eq hmem⟩
    · obtain ⟨v, hv, hheld⟩ := hs.owner hbuf
      exact ⟨v, (if_neg hbuf).trans hv, hheld⟩
  | irq e =>
    obtain ⟨hirq, h⟩ := Option.ite_none_right_eq_some.mp h
    obtain ⟨u, hu, rfl⟩ := Option.map_eq_some_iff.mp h
    have hopen := sscStep_portIsOpen hu (by rintro rfl; cases hirq) (by rintro rfl; cases hirq)
    exact ⟨⟨hs.exclusive.single, hopen.trans hs.exclusive.portIsOpen, hs.exclusive.foreignClose,
      hs.exclusive.foreignFree⟩, hs.calls, fun hbuf => hs.owner (sscStep_irq_txbuf hu hirq hbuf)⟩

theorem sscUsersStart_inv : SscUsersInv sscUsersStart :=
  ⟨⟨Nat.zero_le _, rfl, rfl, rfl⟩, Or.inl rfl, fun h => absurd rfl h⟩

/-- Where the EEPROM calls find the port closed, one user at most has it open and nobody else touches
the session. -/
theorem ssc_open_exclusive {es : List SscUserEvent} {s : SscUsers}
    (hok : RunMeets sscUsersStep EepromFindsClosed sscUsersStart es)
    (h : run sscUsersStep sscUsersStart es = some s) : SscExclusive s :=
  (run_invariant_of_meets sscUsersStep_inv sscUsersStart_inv hok h).exclusive

theorem ssc_open_exclusive_small : ∃ s,
    run sscUsersStep sscUsersStart [.eepromOpen 0, .open 1,
      .transfer 0 (.kwrite ⟨0x1000, 2, by decide⟩ 8), .eepromClose 0, .open 1] = some s ∧
      SscExclusive s ∧ s.holders = [1] := by
  refine ⟨_, rfl, ?_, rfl⟩
  exact @ssc_open_exclusive [.eepromOpen 0, .open 1,
    .transfer 0 (.kwrite ⟨0x1000, 2, by decide⟩ 8), .eepromClose 0, .open 1] _ (by decide) rfl

/-- An EEPROM call that finds the port open always breaks the session of its holder. -/
theorem eeprom_finds_open_breaks {s t : SscUsers} {user : Nat}
    (hopen : s.ssc.port.portIsOpen ≠ 0) (hmem : user ∉ s.holders)
    (h : run sscUsersStep s [.eepromOpen user, .eepromClose user] = some t) :
    t.foreignClose = true := by
  obtain ⟨u, hu, h⟩ := run_cons h
  obtain ⟨v, hv, h⟩ := run_cons h
  cases Option.some.inj h
  obtain ⟨_, ⟨⟩⟩ := Option.ite_none_right_eq_some.mp hu
  obtain ⟨_, ⟨⟩⟩ := Option.ite_none_right_eq_some.mp hv
  rw [SscUsers.open_busy hopen]
  simp [SscUsers.close, hmem]

/-- User 1 has the port and a write in progress; an EEPROM read fails to open it, and closes it. -/
theorem ssc_eeprom_closes_foreign_session : ∃ s,
    run sscUsersStep sscUsersStart [.open 1, .transfer 1 (.kwrite ⟨0x1000, 8, by decide⟩ 8),
      .eepromOpen 0, .eepromClose 0] = some s ∧
      s.holders = [1] ∧ s.ssc.port.portIsOpen = 0 ∧ s.ssc.port.enabled = false ∧
      s.ssc.freed = [0] ∧ s.foreignClose = true ∧ s.foreignFree = true ∧ ¬ SscExclusive s := by
  refine ⟨_, rfl, rfl, rfl, rfl, rfl, rfl, rfl, ?_⟩
  intro h
  exact absurd h.foreignClose (by decide)

end DanubeBsp
