import DanubeBsp.EepromData

namespace DanubeBsp

/-- Between commands, with fewer frames to wait for than there are polls. -/
structure EepromReady (polls : Nat) (s : EepromSys) : Prop where
  selected : s.dev.selected = false
  wip : s.dev.wip < polls

/-- One of the sessions between two states fails. -/
def SessionFails (o : SscServices) (s t : EepromSys) : Prop :=
  ∃ k, s.sessions ≤ k ∧ k < t.sessions ∧ o.fault k ≠ none

/-- A call between commands ends between commands, with 0 or an error. -/
structure EepromEnds (polls : Nat) (s : EepromSys) (r : EepromSys × Int) : Prop where
  ready : EepromReady polls r.1
  later : s.sessions ≤ r.1.sessions
  ret : r.2 ≤ 0

section Sessions

variable (chip : EepromChip) (o : SscServices) {s : EepromSys}

theorem SessionFails.mono {s t u v : EepromSys} (h : SessionFails o t u)
    (hst : s.sessions ≤ t.sessions) (huv : u.sessions ≤ v.sessions) : SessionFails o s v := by
  obtain ⟨k, hlo, hhi, hk⟩ := h
  exact ⟨k, by omega, by omega, hk⟩

theorem SscFault.ret_neg (f : SscFault) : f.ret < 0 := by
  unfold SscFault.ret
  omega

theorem csLow_selected : s.csLow.dev.selected = true := by
  show s.dev.csLow.selected = true
  unfold Eeprom.csLow
  split_ifs with hsel
  · exact hsel
  · rfl

theorem csLow_wip : s.csLow.dev.wip = s.dev.wip := by
  show s.dev.csLow.wip = s.dev.wip
  unfold Eeprom.csLow
  split_ifs <;> rfl

/-- Whatever comes of a session, the chip stays selected, and its write goes on. -/
theorem sscSession_dev (h : s.dev.selected = true) (tx : List Byte) (rxLen : Nat) :
    (sscSession chip o s tx rxLen).1.dev.selected = true ∧
      (sscSession chip o s tx rxLen).1.dev.wip = s.dev.wip := by
  unfold sscSession
  by_cases hempty : tx = [] ∧ rxLen = 0
  · rw [if_pos hempty]
    exact ⟨h, rfl⟩
  · rw [if_neg hempty]
    dsimp only
    split
    next =>
      rw [EepromSys.send_dev chip h]
      exact ⟨rfl, rfl⟩
    next =>
      rw [EepromSys.send_dev chip h]
      exact ⟨rfl, rfl⟩

theorem sscSession_sessions {tx : List Byte} (htx : tx ≠ []) (rxLen : Nat) :
    (sscSession chip o s tx rxLen).1.sessions = s.sessions + 1 := by
  unfold sscSession
  rw [if_neg fun hempty => htx hempty.1]
  dsimp only
  split <;> rfl

theorem sscSession_sent {tx : List Byte} (htx : tx ≠ []) (rxLen : Nat)
    (hf : o.fault s.sessions = none) :
    (sscSession chip o s tx rxLen).2.1 = if rxLen = 0 then (tx.length : Int) else rxLen := by
  unfold sscSession
  rw [if_neg fun hempty => htx hempty.1]
  dsimp only
  rw [hf]

theorem sscSession_neg {tx : List Byte} (htx : tx ≠ []) (rxLen : Nat) :
    (sscSession chip o s tx rxLen).2.1 < 0 ↔ o.fault s.sessions ≠ none := by
  cases hf : o.fault s.sessions with
  | none =>
    rw [sscSession_sent chip o htx rxLen hf]
    refine iff_of_false ?_ (not_not.mpr rfl)
    by_cases hrx : rxLen = 0
    · rw [if_pos hrx]
      omega
    · rw [if_neg hrx]
      omega
  | some f =>
    refine iff_of_true ?_ (Option.some_ne_none f)
    unfold sscSession
    rw [if_neg fun hempty => htx hempty.1]
    dsimp only
    rw [hf]
    exact f.ret_neg

/-- A call depends on the sessions that it makes only. -/
theorem sscSession_congr {o' : SscServices} (tx : List Byte) (rxLen : Nat)
    (h : o'.fault s.sessions = o.fault s.sessions) :
    sscSession chip o' s tx rxLen = sscSession chip o s tx rxLen := by
  unfold sscSession
  rw [h]

/-- The rising edge ends the frame. A write that it starts is over in time. -/
theorem csHigh_ready {n : Nat} (hn : chip.busyBound < n) (h : s.dev.selected = true)
    (hw : s.dev.wip ≤ n) : EepromReady n (s.csHigh chip) := by
  have hexec : s.dev.wip = 0 → (s.dev.execute chip).wip ≤ chip.busyBound := by
    intro hz
    have htime := chip.writeTime_le s.dev.frames.length
    unfold Eeprom.execute
    rw [if_neg (not_not.mpr hz)]
    split
    next => omega
    next => split_ifs <;> exact hz.trans_le (Nat.zero_le _)
    next =>
      split_ifs
      · exact htime
      · exact hz.trans_le (Nat.zero_le _)
      · exact htime
      · exact hz.trans_le (Nat.zero_le _)
      · exact hz.trans_le (Nat.zero_le _)
  have hdev : (s.csHigh chip).dev.selected = false ∧ (s.csHigh chip).dev.wip =
      if s.dev.wip ≠ 0 then s.dev.wip - 1 else (s.dev.execute chip).wip := by
    show (s.dev.csHigh chip).selected = false ∧ (s.dev.csHigh chip).wip = _
    unfold Eeprom.csHigh
    rw [if_pos h]
    exact ⟨rfl, rfl⟩
  refine ⟨hdev.1, ?_⟩
  rw [hdev.2]
  split_ifs with hbusy
  · omega
  · exact lt_of_le_of_lt (hexec (not_not.mp hbusy)) hn

/-- A command of one session. -/
theorem command_ready {n : Nat} (hn : chip.busyBound < n) (hw : s.dev.wip ≤ n) (tx : List Byte)
    (rxLen : Nat) :
    EepromReady n ((sscSession chip o s.command.csLow tx rxLen).1.csHigh chip) := by
  obtain ⟨hsel, hwip⟩ := sscSession_dev chip o (@csLow_selected s.command) tx rxLen
  refine csHigh_ready chip hn hsel ?_
  rw [hwip, csLow_wip]
  exact hw

end Sessions

section Polls

variable (chip : EepromChip) (o : SscServices) {s : EepromSys}

theorem eepromRdsr_fst : (eepromRdsr chip o s).1 =
    (sscSession chip o s.command.csLow [eepromCmdRdsr] 1).1.csHigh chip := by
  unfold eepromRdsr
  dsimp only
  split_ifs <;> rfl

theorem eepromRdsr_sessions : (eepromRdsr chip o s).1.sessions = s.sessions + 1 := by
  rw [eepromRdsr_fst]
  exact sscSession_sessions chip o (List.cons_ne_nil _ _) 1

theorem eepromRdsr_ret : (eepromRdsr chip o s).2.1 ≤ 0 := by
  unfold eepromRdsr
  dsimp only
  split_ifs with hneg
  · exact le_of_lt hneg
  · exact le_refl _

theorem eepromRdsr_congr {o' : SscServices} (h : o'.fault s.sessions = o.fault s.sessions) :
    eepromRdsr chip o' s = eepromRdsr chip o s := by
  unfold eepromRdsr
  rw [@sscSession_congr chip o s.command.csLow o' _ _ h]

/-- A chip that says that it is busy is one frame nearer to the end of its write. -/
theorem eepromRdsr_busy (h : s.dev.selected = false) (hret : (eepromRdsr chip o s).2.1 = 0)
    (hbusy : (eepromRdsr chip o s).2.2 &&& 0x01#8 ≠ 0) :
    (eepromRdsr chip o s).1.dev.selected = false ∧
      (eepromRdsr chip o s).1.dev.wip + 1 = s.dev.wip := by
  have hfault : o.fault s.sessions = none := by
    by_contra hf
    have hneg := (@sscSession_neg chip o s.command.csLow [eepromCmdRdsr] (List.cons_ne_nil _ _)
      1).mpr hf
    unfold eepromRdsr at hret
    dsimp only at hret
    rw [if_pos hneg] at hret
    dsimp only at hret
    omega
  have hsame := @eepromRdsr_congr chip {} s o hfault
  rw [hsame] at hbusy ⊢
  obtain ⟨-, hstatus, hdev⟩ := @eepromRdsr_ok chip {} (fun _ => rfl) s h
  obtain ⟨-, -, hwip⟩ := s.dev.framed_rdsr chip [0#8]
  rw [hstatus, Eeprom.status_busy] at hbusy
  rw [hdev]
  exact ⟨rfl, by omega⟩

/-- A poll leaves the chip ready, in a later session. -/
theorem eepromRdsr_ready {n : Nat} (hn : chip.busyBound < n) (hw : s.dev.wip ≤ n) :
    EepromReady n (eepromRdsr chip o s).1 ∧ s.sessions ≤ (eepromRdsr chip o s).1.sessions := by
  refine ⟨?_, ?_⟩
  · rw [eepromRdsr_fst]
    exact command_ready chip o hn hw _ _
  · rw [eepromRdsr_sessions]
    exact Nat.le_succ _

/-- The polls come to an end. -/
theorem eepromWipOver_idle_total {n polls : Nat} (hn : chip.busyBound < n) (h : EepromReady n s)
    (hw : s.dev.wip < polls) :
    ∃ r, eepromWipOver chip o polls s = some r ∧ EepromEnds n s r := by
  induction polls generalizing s with
  | zero => omega
  | succ polls ih =>
    obtain ⟨hready, hlater⟩ := eepromRdsr_ready chip o hn (le_of_lt h.wip)
    unfold eepromWipOver
    dsimp only
    split_ifs with hret hbusy
    · exact ⟨_, rfl, hready, hlater, eepromRdsr_ret chip o⟩
    · obtain ⟨-, hwip⟩ := eepromRdsr_busy chip o h.selected (not_not.mp hret) hbusy
      obtain ⟨r, hr, hends⟩ := ih hready (by omega)
      exact ⟨r, hr, hends.ready, hlater.trans hends.later, hends.ret⟩
    · exact ⟨_, rfl, hready, hlater, le_refl _⟩

/-- The same from inside a frame, which the first poll ends. -/
theorem eepromWipOver_total {polls : Nat} (hpolls : chip.busyBound + 2 ≤ polls)
    (hw : s.dev.wip < polls) :
    ∃ r, eepromWipOver chip o polls s = some r ∧ EepromEnds polls s r := by
  obtain ⟨n, rfl⟩ := Nat.exists_eq_add_of_le' (show 1 ≤ polls by omega)
  obtain ⟨hready, hlater⟩ := @eepromRdsr_ready chip o s n (by omega) (by omega)
  have hmore : EepromReady (n + 1) (eepromRdsr chip o s).1 :=
    ⟨hready.selected, Nat.lt_succ_of_lt hready.wip⟩
  unfold eepromWipOver
  dsimp only
  split_ifs with hret hbusy
  · exact ⟨_, rfl, hmore, hlater, eepromRdsr_ret chip o⟩
  · obtain ⟨r, hr, hends⟩ := @eepromWipOver_idle_total chip o _ (n + 1) n (by omega) hmore hready.wip
    exact ⟨r, hr, hends.ready, hlater.trans hends.later, hends.ret⟩
  · exact ⟨_, rfl, hmore, hlater, le_refl _⟩

end Polls

section Fails

variable (chip : EepromChip) (o : SscServices) (polls : Nat)

/-- The session of the `eeprom_wren` in `eeprom_wrsr` fails, or the one of its own command. -/
def WrsrFails (s : EepromSys) : Prop :=
  o.fault s.sessions ≠ none ∨
    ∃ w, eepromWren chip o polls s = some (w, 0) ∧ o.fault w.sessions ≠ none

/-- A page write: the command with the address, then the data. -/
def pageWritten (s : EepromSys) (addr : Nat) (buf : List Byte) : EepromSys :=
  (sscSession chip o (sscSession chip o s.command.csLow
    [eepromCmdByte eepromCmdWrite addr, eepromAddrByte addr] 0).1
    (buf.take (eepromEff addr buf.length)) 0).1.csHigh chip

/-- A session of `eeprom_write` that is no status poll fails. -/
inductive WriteFails : EepromSys → Nat → List Byte → Prop
  | wren {s : EepromSys} {addr : Nat} {buf : List Byte} {w : EepromSys × Int}
      (hw : eepromWipOver chip o polls s = some w) (hf : o.fault w.1.sessions ≠ none) :
      WriteFails s addr buf
  | page {s v : EepromSys} {addr : Nat} {buf : List Byte} {w : EepromSys × Int}
      (hw : eepromWipOver chip o polls s = some w) (hv : eepromWren chip o polls w.1 = some (v, 0))
      (hf : o.fault v.sessions ≠ none ∨ o.fault (v.sessions + 1) ≠ none) : WriteFails s addr buf
  | next {s v : EepromSys} {addr : Nat} {buf : List Byte} {w : EepromSys × Int}
      (hw : eepromWipOver chip o polls s = some w) (hv : eepromWren chip o polls w.1 = some (v, 0))
      (hmore : buf.length - eepromEff addr buf.length ≠ 0)
      (h : WriteFails (pageWritten chip o v addr buf) (addr + eepromEff addr buf.length)
        (buf.drop (eepromEff addr buf.length))) : WriteFails s addr buf

end Fails

section Total

variable (chip : EepromChip) (o : SscServices) {polls : Nat} {s : EepromSys}

theorem eepromWren_total (hpolls : chip.busyBound + 2 ≤ polls) (h : EepromReady polls s) :
    ∃ r, eepromWren chip o polls s = some r ∧ EepromEnds polls s r ∧
      (r.2 < 0 ↔ o.fault s.sessions ≠ none) ∧ s.sessions < r.1.sessions := by
  have hne : [eepromCmdWren] ≠ [] := List.cons_ne_nil _ _
  have hready := @command_ready chip o s polls (by omega) (le_of_lt h.wip) [eepromCmdWren] 0
  have hcount := @sscSession_sessions chip o s.command.csLow _ hne 0
  have hlater : s.sessions < ((sscSession chip o s.command.csLow [eepromCmdWren] 0).1.csHigh
      chip).sessions := by
    show s.sessions < (sscSession chip o s.command.csLow [eepromCmdWren] 0).1.sessions
    rw [hcount]
    exact Nat.lt_succ_self _
  have hsign := @sscSession_neg chip o s.command.csLow _ hne 0
  unfold eepromWren
  dsimp only
  split_ifs with hneg
  · exact ⟨_, rfl, ⟨hready, le_of_lt hlater, le_of_lt hneg⟩, hsign, hlater⟩
  · obtain ⟨r, hr, hends⟩ := eepromWipOver_total chip o hpolls hready.wip
    rw [hr]
    have hnone : ¬o.fault s.sessions ≠ none := fun hf => hneg (hsign.mpr hf)
    exact ⟨_, rfl, ⟨hends.ready, (le_of_lt hlater).trans hends.later, le_refl _⟩,
      iff_of_false (lt_irrefl _) hnone, lt_of_lt_of_le hlater hends.later⟩

theorem eepromWrsr_total (hpolls : chip.busyBound + 2 ≤ polls) (h : EepromReady polls s) :
    ∃ r, eepromWrsr chip o polls s = some r ∧ EepromEnds polls s r ∧
      (r.2 < 0 ↔ WrsrFails chip o polls s) ∧ (r.2 < 0 → SessionFails o s r.1) := by
  obtain ⟨⟨w, ret⟩, hw, hends, hsign, hlater⟩ := eepromWren_total chip o hpolls h
  have hle : ret ≤ 0 := hends.ret
  unfold eepromWrsr WrsrFails
  rw [hw, Option.bind_some]
  dsimp only
  by_cases hret : ret = 0
  · subst hret
    rw [if_neg (not_not.mpr rfl)]
    have hnone : ¬o.fault s.sessions ≠ none := fun hf => lt_irrefl _ (hsign.mpr hf)
    have hne : [eepromCmdWrsr, 0#8] ≠ [] := List.cons_ne_nil _ _
    have hcount := @sscSession_sessions chip o w.command.csLow _ hne 0
    have hneg := @sscSession_neg chip o w.command.csLow _ hne 0
    obtain ⟨hsel, hwip⟩ := sscSession_dev chip o (@csLow_selected w.command) [eepromCmdWrsr, 0#8] 0
    have hlt : w.dev.wip < polls := hends.ready.wip
    have hlater' : w.sessions < (sscSession chip o w.command.csLow [eepromCmdWrsr, 0#8] 0).1.sessions := by
      rw [hcount]
      exact Nat.lt_succ_self _
    split_ifs with hfail
    · have hready := @command_ready chip o w polls (by omega) (le_of_lt hlt) [eepromCmdWrsr, 0#8] 0
      obtain ⟨r, hr, hrends⟩ := eepromWipOver_total chip o hpolls hready.wip
      rw [hr]
      have hfault : o.fault w.sessions ≠ none := hneg.mp hfail
      have hrlater : (sscSession chip o w.command.csLow [eepromCmdWrsr, 0#8] 0).1.sessions ≤
          r.1.sessions := hrends.later
      refine ⟨_, rfl, ⟨hrends.ready, by dsimp only at hlater ⊢; omega, le_of_lt hfail⟩,
        iff_of_true hfail (Or.inr ⟨w, rfl, hfault⟩), ?_⟩
      intro _
      exact ⟨w.sessions, le_of_lt hlater, by dsimp only; omega, hfault⟩
    · have hwip' : (sscSession chip o w.command.csLow [eepromCmdWrsr, 0#8] 0).1.csLow.dev.wip <
          polls := by
        rw [csLow_wip, hwip, csLow_wip]
        exact hlt
      obtain ⟨r, hr, hrends⟩ := eepromWipOver_total chip o hpolls hwip'
      rw [hr]
      have hrlater : (sscSession chip o w.command.csLow [eepromCmdWrsr, 0#8] 0).1.sessions ≤
          r.1.sessions := hrends.later
      refine ⟨_, rfl, ⟨hrends.ready, by dsimp only at hlater ⊢; omega, le_refl _⟩,
        iff_of_false (lt_irrefl _) ?_, fun hlt => absurd hlt (lt_irrefl _)⟩
      rintro (hf | ⟨w', hw', hf⟩)
      · exact hnone hf
      · cases Option.some.inj hw'
        exact hfail (hneg.mpr hf)
  · rw [if_pos hret]
    have hfault : o.fault s.sessions ≠ none := hsign.mp (lt_of_le_of_ne hle hret)
    exact ⟨_, rfl, hends, iff_of_true (hsign.mpr hfault) (Or.inl hfault),
      fun _ => ⟨s.sessions, le_refl _, hlater, hfault⟩⟩

theorem eepromEff_le (addr len : Nat) : eepromEff addr len ≤ len := by
  rw [eepromEff_eq_min]
  exact min_le_right _ _

theorem pageData_length (addr : Nat) (buf : List Byte) :
    (buf.take (eepromEff addr buf.length)).length = eepromEff addr buf.length := by
  rw [List.length_take]
  exact Nat.min_eq_left (eepromEff_le addr buf.length)

theorem pageData_ne {addr : Nat} {buf : List Byte} (hbuf : buf ≠ []) :
    buf.take (eepromEff addr buf.length) ≠ [] := by
  have hlen : buf.length ≠ 0 := fun hz => hbuf (List.length_eq_zero_iff.mp hz)
  have hpos := eepromEff_pos addr hlen
  intro hnil
  have hl := pageData_length addr buf
  rw [hnil, List.length_nil] at hl
  omega

/-- The turn of the loop after `eeprom_wren`, up to the decision to go on. -/
def pageResult (s : EepromSys) (addr : Nat) (buf : List Byte) : EepromSys × Int :=
  let r := sscSession chip o s.command.csLow
    [eepromCmdByte eepromCmdWrite addr, eepromAddrByte addr] 0
  if r.2.1 < 0 then (r.1.csHigh chip, r.2.1)
  else
    let q := sscSession chip o r.1 (buf.take (eepromEff addr buf.length)) 0
    (q.1.csHigh chip, if q.2.1 ≠ eepromEff addr buf.length then q.2.1 else 0)

theorem pageResult_ends {addr : Nat} {buf : List Byte} (hbuf : buf ≠ [])
    (hpolls : chip.busyBound + 2 ≤ polls) (h : EepromReady polls s) :
    EepromEnds polls s (pageResult chip o s addr buf) ∧
      ((pageResult chip o s addr buf).2 < 0 ↔
        o.fault s.sessions ≠ none ∨ o.fault (s.sessions + 1) ≠ none) ∧
      ((pageResult chip o s addr buf).2 < 0 → SessionFails o s (pageResult chip o s addr buf).1) ∧
      (¬(pageResult chip o s addr buf).2 < 0 →
        pageResult chip o s addr buf = (pageWritten chip o s addr buf, 0)) := by
  have hne : [eepromCmdByte eepromCmdWrite addr, eepromAddrByte addr] ≠ [] := List.cons_ne_nil _ _
  have hdata := @pageData_ne addr buf hbuf
  have hcount := @sscSession_sessions chip o s.command.csLow _ hne 0
  have hsign := @sscSession_neg chip o s.command.csLow _ hne 0
  have hready := @command_ready chip o s polls (by omega) (le_of_lt h.wip)
    [eepromCmdByte eepromCmdWrite addr, eepromAddrByte addr] 0
  obtain ⟨hsel, hwip⟩ := sscSession_dev chip o (@csLow_selected s.command)
    [eepromCmdByte eepromCmdWrite addr, eepromAddrByte addr] 0
  unfold pageResult pageWritten
  dsimp only
  generalize sscSession chip o s.command.csLow
    [eepromCmdByte eepromCmdWrite addr, eepromAddrByte addr] 0 = r at *
  have hcount : r.1.sessions = s.sessions + 1 := hcount
  have hqcount := @sscSession_sessions chip o r.1 _ hdata 0
  have hqsign := @sscSession_neg chip o r.1 _ hdata 0
  have hqsent := @sscSession_sent chip o r.1 _ hdata 0
  obtain ⟨hqsel, hqwip⟩ := sscSession_dev chip o hsel (buf.take (eepromEff addr buf.length)) 0
  rw [if_pos rfl, pageData_length] at hqsent
  have hqready := @csHigh_ready chip _ polls (by omega) hqsel (by
    rw [hqwip, hwip, csLow_wip]
    exact le_of_lt h.wip)
  generalize sscSession chip o r.1 (buf.take (eepromEff addr buf.length)) 0 = q at *
  split_ifs with hhead hsent
  · have hfault : o.fault s.sessions ≠ none := hsign.mp hhead
    refine ⟨⟨hready, ?_, le_of_lt hhead⟩, iff_of_true hhead (Or.inl hfault), fun _ => ?_,
      fun hnot => absurd hhead hnot⟩
    · show s.sessions ≤ r.1.sessions
      omega
    · exact ⟨s.sessions, le_refl _, by show s.sessions < r.1.sessions; omega, hfault⟩
  · have hfault : o.fault r.1.sessions ≠ none := by
      intro hnone
      exact hsent (hqsent hnone)
    have hqneg : q.2.1 < 0 := hqsign.mpr hfault
    have hlater : s.sessions + 1 < q.1.sessions := by omega
    rw [hcount] at hfault
    exact ⟨⟨hqready, by show s.sessions ≤ q.1.sessions; omega, le_of_lt hqneg⟩,
      iff_of_true hqneg (Or.inr hfault),
      fun _ => ⟨s.sessions + 1, Nat.le_succ _, hlater, hfault⟩,
      fun hnot => absurd hqneg hnot⟩
  · have hlater : s.sessions + 1 < q.1.sessions := by omega
    refine ⟨⟨hqready, by show s.sessions ≤ q.1.sessions; omega, le_refl _⟩,
      iff_of_false (lt_irrefl _) ?_, fun hlt => absurd hlt (lt_irrefl _), fun _ => rfl⟩
    rintro (hf | hf)
    · exact hhead (hsign.mpr hf)
    · rw [← hcount] at hf
      have hneg := hqsign.mpr hf
      rw [not_not.mp hsent] at hneg
      omega

/-- One turn of the loop of `eeprom_write`. -/
theorem eepromWrite_succ {turns addr : Nat} {buf : List Byte} (hbuf : buf ≠ [])
    {w : EepromSys × Int} {v : EepromSys} (hw : eepromWipOver chip o polls s = some w)
    (hv : eepromWren chip o polls w.1 = some (v, 0)) :
    eepromWrite chip o polls (turns + 1) s addr buf =
      if (pageResult chip o v addr buf).2 < 0 then some (pageResult chip o v addr buf)
      else if buf.length - eepromEff addr buf.length = 0 then some (pageWritten chip o v addr buf, 0)
      else eepromWrite chip o polls turns (pageWritten chip o v addr buf)
        (addr + eepromEff addr buf.length) (buf.drop (eepromEff addr buf.length)) := by
  have hdata := @pageData_ne addr buf hbuf
  rw [eepromWrite, hw, Option.bind_some, hv, Option.bind_some]
  unfold pageResult pageWritten
  dsimp only
  rw [if_neg (not_not.mpr rfl)]
  generalize sscSession chip o v.command.csLow
    [eepromCmdByte eepromCmdWrite addr, eepromAddrByte addr] 0 = r
  have hqsign := @sscSession_neg chip o r.1 _ hdata 0
  have hqsent := @sscSession_sent chip o r.1 _ hdata 0
  rw [if_pos rfl, pageData_length] at hqsent
  by_cases hhead : r.2.1 < 0
  · simp only [if_pos hhead]
  · by_cases hsent : (sscSession chip o r.1 (buf.take (eepromEff addr buf.length)) 0).2.1 ≠
      eepromEff addr buf.length
    · have hneg := hqsign.mpr fun hnone => hsent (hqsent hnone)
      simp only [if_neg hhead, if_pos hsent, if_pos hneg]
    · simp only [if_neg hhead, if_neg hsent, if_neg (lt_irrefl (0 : Int))]

/-- With bytes to write, the call returns, and it fails just if a session of its commands does. -/
theorem eepromWrite_total {turns addr : Nat} {buf : List Byte} (hbuf : buf ≠ [])
    (hpolls : chip.busyBound + 2 ≤ polls) (h : EepromReady polls s) (hturns : buf.length < turns) :
    ∃ r, eepromWrite chip o polls turns s addr buf = some r ∧ EepromEnds polls s r ∧
      (r.2 < 0 ↔ WriteFails chip o polls s addr buf) ∧ (r.2 < 0 → SessionFails o s r.1) := by
  induction turns generalizing s addr buf with
  | zero => omega
  | succ turns ih =>
    obtain ⟨w, hw, hwends⟩ := eepromWipOver_total chip o hpolls h.wip
    obtain ⟨⟨v, ret⟩, hv, hvends, hvsign, hvlater⟩ := eepromWren_total chip o hpolls hwends.ready
    have hwlater := hwends.later
    by_cases hret : ret = 0
    · subst hret
      have hnone : ¬o.fault w.1.sessions ≠ none := fun hf => lt_irrefl _ (hvsign.mpr hf)
      have hvlater' : s.sessions ≤ v.sessions := by
        dsimp only at hvlater
        omega
      obtain ⟨hpends, hpsign, hpfails, hpdone⟩ :=
        @pageResult_ends chip o polls v addr buf hbuf hpolls hvends.ready
      rw [eepromWrite_succ chip o hbuf hw hv]
      by_cases hpneg : (pageResult chip o v addr buf).2 < 0
      · rw [if_pos hpneg]
        refine ⟨_, rfl, ⟨hpends.ready, hvlater'.trans hpends.later, hpends.ret⟩,
          iff_of_true hpneg (.page hw hv (hpsign.mp hpneg)), ?_⟩
        intro hneg
        exact (hpfails hneg).mono o hvlater' (le_refl _)
      · have hfine := hpdone hpneg
        have hready : EepromReady polls (pageWritten chip o v addr buf) := by
          have hr := hpends.ready
          rwa [hfine] at hr
        have hplater : v.sessions ≤ (pageWritten chip o v addr buf).sessions := by
          have hl := hpends.later
          rwa [hfine] at hl
        rw [if_neg hpneg]
        by_cases hmore : buf.length - eepromEff addr buf.length = 0
        · rw [if_pos hmore]
          refine ⟨_, rfl, ⟨hready, hvlater'.trans hplater, le_refl _⟩,
            iff_of_false (lt_irrefl _) ?_, fun hlt => absurd hlt (lt_irrefl _)⟩
          intro hfails
          cases hfails with
          | wren hw' hf =>
            cases Option.some.inj (hw.symm.trans hw')
            exact hnone hf
          | page hw' hv' hf =>
            cases Option.some.inj (hw.symm.trans hw')
            cases Option.some.inj (hv.symm.trans hv')
            exact hpneg (hpsign.mpr hf)
          | next hw' hv' hmore' _ => exact hmore' hmore
        · rw [if_neg hmore]
          have hlen : buf.length ≠ 0 := fun hz => hbuf (List.length_eq_zero_iff.mp hz)
          have hpos := eepromEff_pos addr hlen
          have hdrop : (buf.drop (eepromEff addr buf.length)).length < turns := by
            rw [List.length_drop]
            omega
          have hrest : buf.drop (eepromEff addr buf.length) ≠ [] := by
            intro hnil
            have hl := List.length_drop (i := eepromEff addr buf.length) (l := buf)
            rw [hnil, List.length_nil] at hl
            exact hmore hl.symm
          obtain ⟨r, hr, hends, hsign, hfails⟩ :=
            @ih _ (addr + eepromEff addr buf.length) _ hrest hready hdrop
          refine ⟨r, hr, ⟨hends.ready, (hvlater'.trans hplater).trans hends.later, hends.ret⟩, ?_,
            fun hneg => (hfails hneg).mono o (hvlater'.trans hplater) (le_refl _)⟩
          rw [hsign]
          constructor
          · intro hf
            exact .next hw hv hmore hf
          · intro hf
            cases hf with
            | wren hw' hf =>
              cases Option.some.inj (hw.symm.trans hw')
              exact absurd hf hnone
            | page hw' hv' hf =>
              cases Option.some.inj (hw.symm.trans hw')
              cases Option.some.inj (hv.symm.trans hv')
              exact absurd (hpsign.mpr hf) hpneg
            | next hw' hv' _ hf =>
              cases Option.some.inj (hw.symm.trans hw')
              cases Option.some.inj (hv.symm.trans hv')
              exact hf
    · have hneg : ret < 0 := lt_of_le_of_ne hvends.ret hret
      have hfault : o.fault w.1.sessions ≠ none := hvsign.mp hneg
      rw [eepromWrite, hw, Option.bind_some, hv, Option.bind_some]
      dsimp only
      rw [if_pos hret]
      exact ⟨_, rfl, ⟨hvends.ready, hwlater.trans hvends.later, hvends.ret⟩,
        iff_of_true hneg (.wren hw hfault), fun _ => ⟨w.1.sessions, hwlater, hvlater, hfault⟩⟩

/-- Without bytes the call asks for a session that sends nothing, which the serial driver refuses. -/
theorem eepromWrite_nil {addr : Nat} (hpolls : chip.busyBound + 2 ≤ polls)
    (h : EepromReady polls s) :
    ∃ r, eepromWrite chip o polls 1 s addr [] = some r ∧ r.2 < 0 := by
  obtain ⟨w, hw, hwends⟩ := eepromWipOver_total chip o hpolls h.wip
  obtain ⟨⟨v, ret⟩, hv, hvends, -, -⟩ := eepromWren_total chip o hpolls hwends.ready
  have hle : ret ≤ 0 := hvends.ret
  have hempty : ∀ t : EepromSys, sscSession chip o t [] 0 = (t, eInval, []) := by
    intro t
    exact if_pos ⟨rfl, rfl⟩
  have heff : eepromEff addr 0 = 0 := Nat.le_zero.mp (eepromEff_le addr 0)
  rw [eepromWrite, hw, Option.bind_some, hv, Option.bind_some]
  dsimp only
  rw [List.length_nil, heff, List.take_nil, hempty]
  split_ifs with hret hhead hsent
  · exact ⟨_, rfl, lt_of_le_of_ne hle hret⟩
  · exact ⟨_, rfl, hhead⟩
  · have hneg : eInval < 0 := by decide
    exact ⟨_, rfl, hneg⟩
  all_goals
    have hrefused : eInval ≠ (0 : Nat) := by decide
    exact absurd hrefused hsent

end Total

end DanubeBsp
