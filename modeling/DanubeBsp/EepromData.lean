import DanubeBsp.EepromFrames
import DanubeBsp.WordMemory

namespace DanubeBsp

/-- The chip with these bytes in. -/
def Eeprom.during (s : Eeprom) (bs : List Byte) : Eeprom :=
  { s with selected := true, received := bs }

/-- The chip after a frame. -/
def Eeprom.framed (chip : EepromChip) (s : Eeprom) (bs : List Byte) : Eeprom :=
  (s.during bs).csHigh chip

theorem Eeprom.framed_eq (chip : EepromChip) (s : Eeprom) (bs : List Byte) :
    s.framed chip bs = ⟨((s.during bs).execute chip).mem, ((s.during bs).execute chip).wel,
      if s.wip ≠ 0 then s.wip - 1 else ((s.during bs).execute chip).wip, false, [],
      bs :: s.frames⟩ := rfl

/-- A frame without a command to execute only takes its time. -/
theorem Eeprom.framed_quiet (chip : EepromChip) {s : Eeprom} {bs : List Byte}
    (h : s.wip = 0 → (s.during bs).execute chip = s.during bs) :
    (s.framed chip bs).mem = s.mem ∧ (s.framed chip bs).wel = s.wel ∧
      (s.framed chip bs).wip = s.wip - 1 := by
  have hexec : (s.during bs).execute chip = s.during bs := by
    by_cases hw : s.wip = 0
    · exact h hw
    · exact if_pos hw
  rw [Eeprom.framed_eq, hexec]
  refine ⟨rfl, rfl, ?_⟩
  show (if s.wip ≠ 0 then s.wip - 1 else s.wip) = s.wip - 1
  split
  next => rfl
  next hw => omega

theorem Eeprom.framed_rdsr (chip : EepromChip) (s : Eeprom) (rest : List Byte) :
    (s.framed chip (eepromCmdRdsr :: rest)).mem = s.mem ∧
      (s.framed chip (eepromCmdRdsr :: rest)).wel = s.wel ∧
      (s.framed chip (eepromCmdRdsr :: rest)).wip = s.wip - 1 := by
  apply Eeprom.framed_quiet
  intro _
  cases rest with
  | nil => simp [Eeprom.execute, Eeprom.during, eepromCmdRdsr, eepromCmdWren, eepromCmdWrdi]
  | cons arg data =>
    simp [Eeprom.execute, Eeprom.during, eepromCmdRdsr, eepromCmdWrsr, eepromCmdWrite]

theorem eepromCmdByte_read (addr : Nat) :
    eepromCmdByte eepromCmdRead addr &&& 0xf7#8 = eepromCmdRead ∧
      eepromCmdByte eepromCmdRead addr ≠ eepromCmdRdsr ∧
      eepromCmdByte eepromCmdRead addr ≠ eepromCmdWrsr := by
  obtain ⟨-, hc⟩ | ⟨-, hc⟩ := eepromCmdByte_cases eepromCmdRead addr
  · rw [hc]
    decide
  · rw [hc]
    decide

theorem eepromCmdByte_write (addr : Nat) :
    eepromCmdByte eepromCmdWrite addr &&& 0xf7#8 = eepromCmdWrite ∧
      eepromCmdByte eepromCmdWrite addr ≠ eepromCmdWrsr := by
  obtain ⟨-, hc⟩ | ⟨-, hc⟩ := eepromCmdByte_cases eepromCmdWrite addr
  · rw [hc]
    decide
  · rw [hc]
    decide

theorem Eeprom.framed_read (chip : EepromChip) (s : Eeprom) (addr : Nat) (arg : Byte)
    (data : List Byte) :
    (s.framed chip (eepromCmdByte eepromCmdRead addr :: arg :: data)).mem = s.mem ∧
      (s.framed chip (eepromCmdByte eepromCmdRead addr :: arg :: data)).wel = s.wel ∧
      (s.framed chip (eepromCmdByte eepromCmdRead addr :: arg :: data)).wip = s.wip - 1 := by
  apply Eeprom.framed_quiet
  intro _
  obtain ⟨hmask, -, hwrsr⟩ := eepromCmdByte_read addr
  have hne : eepromCmdRead ≠ eepromCmdWrite := by decide
  simp [Eeprom.execute, Eeprom.during, hwrsr, hmask, hne]

theorem Eeprom.framed_wren (chip : EepromChip) (s : Eeprom) :
    (s.framed chip [eepromCmdWren]).mem = s.mem ∧
      (s.framed chip [eepromCmdWren]).wip = s.wip - 1 ∧
      (s.wip = 0 → (s.framed chip [eepromCmdWren]).wel = true) := by
  rw [Eeprom.framed_eq]
  by_cases hw : s.wip = 0
  · simp [Eeprom.execute, Eeprom.during, hw]
  · simp [Eeprom.execute, Eeprom.during, hw]

theorem Eeprom.framed_write (chip : EepromChip) {s : Eeprom} (hwip : s.wip = 0)
    (hwel : s.wel = true) {addr : Nat} (haddr : addr < eepromSize) {data : List Byte}
    (hdata : data ≠ []) :
    (s.framed chip (eepromCmdByte eepromCmdWrite addr :: eepromAddrByte addr :: data)).mem =
        writePage s.mem addr data ∧
      (s.framed chip (eepromCmdByte eepromCmdWrite addr :: eepromAddrByte addr :: data)).wip ≤
        chip.busyBound := by
  obtain ⟨hmask, hwrsr⟩ := eepromCmdByte_write addr
  have hthree : eepromCmdWrite.getLsbD 3 = false := by decide
  have heq := eepromAddr_eq hthree haddr
  have hexec :
      (s.during (eepromCmdByte eepromCmdWrite addr :: eepromAddrByte addr :: data)).execute chip =
        { s.during (eepromCmdByte eepromCmdWrite addr :: eepromAddrByte addr :: data) with
          mem := writePage s.mem addr data
          wel := false
          wip := chip.writeTime s.frames.length } := by
    simp [Eeprom.execute, Eeprom.during, hwip, hwel, hwrsr, hmask, hdata, heq]
  rw [Eeprom.framed_eq, hexec, hwip]
  exact ⟨rfl, chip.writeTime_le _⟩

/-- The status write and the first poll of `eeprom_wip_over` are one frame. -/
theorem Eeprom.framed_wrsr (chip : EepromChip) {s : Eeprom} (hwip : s.wip = 0) (rest : List Byte) :
    (s.framed chip (eepromCmdWrsr :: 0#8 :: rest)).mem = s.mem ∧
      (s.framed chip (eepromCmdWrsr :: 0#8 :: rest)).wip ≤ chip.busyBound := by
  by_cases hc : (s.wel && (rest.isEmpty || chip.overlong)) = true
  · simp [Eeprom.framed_eq, Eeprom.execute, Eeprom.during, hwip, hc, chip.writeTime_le]
  · simp [Eeprom.framed_eq, Eeprom.execute, Eeprom.during, hwip, hc]

theorem EepromSys.send_dev (chip : EepromChip) {s : EepromSys} (h : s.dev.selected = true)
    (bs : List Byte) :
    (s.send chip bs).1.dev = s.dev.during (s.dev.received ++ bs) := by
  have hdev : (s.send chip bs).1.dev = { s.dev with received := s.dev.received ++ bs } :=
    Eeprom.exchange_selected chip h bs
  rw [hdev]
  unfold Eeprom.during
  rw [← h]

theorem EepromSys.csLow_dev {s : EepromSys} (h : s.dev.selected = false) :
    s.command.csLow.dev = s.dev.during [] := by
  show s.dev.csLow = _
  unfold Eeprom.csLow
  rw [if_neg (by simp [h])]
  rfl

theorem Eeprom.status_busy (s : Eeprom) : s.status &&& 0x01#8 ≠ 0 ↔ s.wip ≠ 0 := by
  unfold Eeprom.status
  by_cases hw : s.wip = 0
  · cases s.wel <;> simp [hw]
  · cases s.wel <;> simp [hw]

section Working

variable (chip : EepromChip) {o : SscServices} (hok : ∀ n, o.fault n = none) {s : EepromSys}

include hok

theorem sscSession_ok {tx : List Byte} (htx : tx ≠ []) (rxLen : Nat) :
    sscSession chip o s tx rxLen =
      ((s.send chip (tx ++ List.replicate rxLen 0#8)).1,
        if rxLen = 0 then (tx.length : Int) else rxLen,
        (s.send chip (tx ++ List.replicate rxLen 0#8)).2.drop tx.length) := by
  unfold sscSession
  rw [if_neg (fun hc => htx hc.1)]
  dsimp only
  rw [hok]

theorem sscSession_nonneg {tx : List Byte} (htx : tx ≠ []) (rxLen : Nat) :
    ¬(sscSession chip o s tx rxLen).2.1 < 0 := by
  rw [sscSession_ok chip hok htx]
  dsimp only
  split
  next => omega
  next => omega

theorem sscSession_frame (h : s.dev.selected = false) {tx : List Byte} (htx : tx ≠ [])
    (rxLen : Nat) :
    ((sscSession chip o s.command.csLow tx rxLen).1.csHigh chip).dev =
      s.dev.framed chip (tx ++ List.replicate rxLen 0#8) := by
  rw [sscSession_ok chip hok htx]
  have hlow := EepromSys.csLow_dev h
  have hsel : s.command.csLow.dev.selected = true := by
    rw [hlow]
    rfl
  show (s.command.csLow.send chip _).1.dev.csHigh chip = _
  rw [EepromSys.send_dev chip hsel, hlow]
  rfl

theorem eepromRdsr_ok (h : s.dev.selected = false) :
    (eepromRdsr chip o s).2.1 = 0 ∧ (eepromRdsr chip o s).2.2 = s.dev.status ∧
      (eepromRdsr chip o s).1.dev = s.dev.framed chip [eepromCmdRdsr, 0#8] := by
  have hne : [eepromCmdRdsr] ≠ [] := by simp
  have hframe := sscSession_frame chip hok h hne 1
  have hsess := sscSession_ok chip hok (s := s.command.csLow) hne 1
  have hans : (s.command.csLow.send chip [eepromCmdRdsr, 0#8]).2.drop 1 = [s.dev.status] := by
    show (s.command.csLow.dev.exchange chip [eepromCmdRdsr, 0#8]).2.drop 1 = _
    rw [EepromSys.csLow_dev h]
    simp [Eeprom.exchange, Eeprom.shift, Eeprom.during, Eeprom.respond, Eeprom.status]
  unfold eepromRdsr
  dsimp only
  rw [if_neg (sscSession_nonneg chip hok hne 1)]
  refine ⟨rfl, ?_, hframe⟩
  rw [hsess]
  show ((s.command.csLow.send chip [eepromCmdRdsr, 0#8]).2.drop 1).headD 0 = _
  rw [hans]
  rfl

theorem eepromWipOver_ok {polls : Nat} (h : s.dev.selected = false) (hw : s.dev.wip < polls) :
    ∃ t, eepromWipOver chip o polls s = some (t, 0) ∧ t.dev.selected = false ∧
      t.dev.mem = s.dev.mem ∧ t.dev.wel = s.dev.wel ∧ t.dev.wip = 0 := by
  induction polls generalizing s with
  | zero => omega
  | succ polls ih =>
    obtain ⟨hret, hstatus, hdev⟩ := eepromRdsr_ok chip hok h
    obtain ⟨hmem, hwel, hwip⟩ := s.dev.framed_rdsr chip [0#8]
    rw [← hdev] at hmem hwel hwip
    have hsel : (eepromRdsr chip o s).1.dev.selected = false := by
      rw [hdev]
      rfl
    unfold eepromWipOver
    dsimp only
    rw [if_neg (not_not.mpr hret), hstatus]
    by_cases hbusy : s.dev.wip = 0
    · rw [if_neg (fun hc => (s.dev.status_busy.mp hc) hbusy)]
      exact ⟨_, rfl, hsel, hmem, hwel, by omega⟩
    · rw [if_pos (s.dev.status_busy.mpr hbusy)]
      obtain ⟨t, heq, htsel, htmem, htwel, htwip⟩ := ih hsel (by omega)
      exact ⟨t, heq, htsel, htmem.trans hmem, htwel.trans hwel, htwip⟩

theorem eepromWren_ok {polls : Nat} (h : s.dev.selected = false) (hw : s.dev.wip < polls) :
    ∃ t, eepromWren chip o polls s = some (t, 0) ∧ t.dev.selected = false ∧
      t.dev.mem = s.dev.mem ∧ t.dev.wip = 0 ∧ (s.dev.wip = 0 → t.dev.wel = true) := by
  have hne : [eepromCmdWren] ≠ [] := by simp
  have hframe := sscSession_frame chip hok h hne 0
  obtain ⟨hmem, hwip, hwel⟩ := s.dev.framed_wren chip
  rw [List.replicate_zero, List.append_nil] at hframe
  rw [← hframe] at hmem hwip hwel
  have hsel : ((sscSession chip o s.command.csLow [eepromCmdWren] 0).1.csHigh chip).dev.selected =
      false := by
    rw [hframe]
    rfl
  obtain ⟨t, heq, htsel, htmem, htwel, htwip⟩ := eepromWipOver_ok chip hok hsel
    (Nat.lt_of_le_of_lt (hwip.trans_le (Nat.sub_le _ _)) hw)
  refine ⟨t, ?_, htsel, htmem.trans hmem, htwip, fun hz => htwel.trans (hwel hz)⟩
  unfold eepromWren
  dsimp only
  rw [if_neg (sscSession_nonneg chip hok hne 0), heq]
  rfl

/-- A poll of a chip that is still selected is part of the frame that is going on. -/
theorem eepromRdsr_joined {e : Eeprom} {bs : List Byte} (h : s.dev = e.during bs) :
    (eepromRdsr chip o s).2.1 = 0 ∧
      (eepromRdsr chip o s).1.dev = e.framed chip (bs ++ [eepromCmdRdsr, 0#8]) := by
  have hne : [eepromCmdRdsr] ≠ [] := by simp
  have hsess := sscSession_ok chip hok (s := s.command.csLow) hne 1
  have hlow : s.command.csLow.dev = e.during bs := by
    show s.dev.csLow = _
    rw [h]
    rfl
  have hsel : s.command.csLow.dev.selected = true := by
    rw [hlow]
    rfl
  unfold eepromRdsr
  dsimp only
  rw [if_neg (sscSession_nonneg chip hok hne 1)]
  refine ⟨rfl, ?_⟩
  rw [hsess]
  show (s.command.csLow.send chip [eepromCmdRdsr, 0#8]).1.dev.csHigh chip = _
  rw [EepromSys.send_dev chip hsel, hlow]
  rfl

/-- The status write goes out with the first poll behind it, and does no harm to the bytes. -/
theorem eepromWrsr_ok {polls : Nat} (hpolls : chip.busyBound + 2 ≤ polls)
    (h : s.dev.selected = false) (hw : s.dev.wip < polls) :
    ∃ t, eepromWrsr chip o polls s = some (t, 0) ∧ t.dev.selected = false ∧
      t.dev.mem = s.dev.mem ∧ t.dev.wip ≤ chip.busyBound := by
  obtain ⟨w, hwren, hwsel, hwmem, hwwip, -⟩ := eepromWren_ok chip hok h hw
  have hne : [eepromCmdWrsr, 0#8] ≠ [] := by simp
  have hlow := EepromSys.csLow_dev hwsel
  have hsel : w.command.csLow.dev.selected = true := by
    rw [hlow]
    rfl
  have hudev : (sscSession chip o w.command.csLow [eepromCmdWrsr, 0#8] 0).1.csLow.dev =
      w.dev.during [eepromCmdWrsr, 0#8] := by
    rw [sscSession_ok chip hok hne 0]
    show (w.command.csLow.send chip [eepromCmdWrsr, 0#8]).1.dev.csLow = _
    rw [EepromSys.send_dev chip hsel, hlow]
    rfl
  obtain ⟨hret, hdev⟩ := eepromRdsr_joined chip hok hudev
  obtain ⟨hmem, hwip⟩ := Eeprom.framed_wrsr chip hwwip [eepromCmdRdsr, 0#8]
  have hdev : (eepromRdsr chip o
      (sscSession chip o w.command.csLow [eepromCmdWrsr, 0#8] 0).1.csLow).1.dev =
      w.dev.framed chip (eepromCmdWrsr :: 0#8 :: [eepromCmdRdsr, 0#8]) := hdev
  rw [← hdev] at hmem hwip
  have hfsel : (eepromRdsr chip o
      (sscSession chip o w.command.csLow [eepromCmdWrsr, 0#8] 0).1.csLow).1.dev.selected = false := by
    rw [hdev]
    rfl
  have hrun : eepromWrsr chip o polls s = (eepromWipOver chip o polls
      (sscSession chip o w.command.csLow [eepromCmdWrsr, 0#8] 0).1.csLow).map fun q => (q.1, 0) := by
    unfold eepromWrsr
    rw [hwren, Option.bind_some]
    dsimp only
    rw [if_neg (not_not.mpr rfl), if_neg (sscSession_nonneg chip hok hne 0)]
  rw [hrun]
  obtain ⟨more, rfl⟩ := Nat.exists_eq_add_of_le' hpolls
  show ∃ t, (eepromWipOver chip o (more + chip.busyBound + 1 + 1) _).map _ = _ ∧ _
  rw [eepromWipOver, if_neg (not_not.mpr hret)]
  split
  next =>
    have hlt : (eepromRdsr chip o
        (sscSession chip o w.command.csLow [eepromCmdWrsr, 0#8] 0).1.csLow).1.dev.wip <
        more + chip.busyBound + 1 := by omega
    obtain ⟨t, heq, htsel, htmem, -, htwip⟩ := eepromWipOver_ok chip hok hfsel hlt
    rw [heq]
    exact ⟨t, rfl, htsel, htmem.trans (hmem.trans hwmem), by omega⟩
  next => exact ⟨_, rfl, hfsel, hmem.trans hwmem, hwip⟩

end Working

/-- A page write inside its page does not wrap. -/
theorem writePage_eq {mem : Nat → Byte} {addr : Nat} {data : List Byte}
    (h : addr % eepromPageSize + data.length ≤ eepromPageSize) :
    writePage mem addr data = writeBlock mem addr data := by
  induction data generalizing mem addr with
  | nil => rfl
  | cons b bs ih =>
    unfold writePage writeBlock
    cases bs with
    | nil => rfl
    | cons c cs =>
      simp only [List.length_cons, eepromPageSize] at h ih ⊢
      have hnext : addr / 4 * 4 + (addr + 1) % 4 = addr + 1 := by omega
      rw [hnext]
      exact ih (by omega)

section Loops

variable (chip : EepromChip) {o : SscServices} (hok : ∀ n, o.fault n = none) {s : EepromSys}

theorem Eeprom.exchange_read {e : Eeprom} {cmd addr : Byte} {sent : List Byte}
    (hsel : e.selected = true) (hrec : e.received = cmd :: addr :: sent) (hwip : e.wip = 0)
    (hcmd : cmd ≠ eepromCmdRdsr) (hmask : cmd &&& 0xf7#8 = eepromCmdRead) (n : Nat) :
    (e.exchange chip (List.replicate n 0#8)).2 =
      (List.range n).map fun i => e.mem ((eepromAddr cmd addr + sent.length + i) % eepromSize) := by
  induction n generalizing e sent with
  | zero => rfl
  | succ n ih =>
    have hshift : e.shift chip 0#8 = ({ e with received := e.received ++ [0#8] },
        e.mem ((eepromAddr cmd addr + sent.length) % eepromSize)) := by
      simp [Eeprom.shift, hsel, Eeprom.respond, hrec, hcmd, hmask, hwip]
    show (e.shift chip 0#8).2 ::
      ((e.shift chip 0#8).1.exchange chip (List.replicate n 0#8)).2 = _
    rw [hshift]
    have hrest := @ih { e with received := e.received ++ [0#8] } (sent ++ [0#8]) hsel
      (by simp [hrec]) hwip
    rw [List.range_succ_eq_map, List.map_cons, List.map_map]
    refine congrArg₂ _ (by simp) (hrest.trans ?_)
    apply List.map_congr_left
    intro i _
    simp only [Function.comp_apply, List.length_append, List.length_singleton]
    congr 2
    omega

include hok

theorem eepromRead_chunk (h : s.dev.selected = false) (hwip : s.dev.wip = 0) {addr n : Nat}
    (hn : n ≠ 0) (hrange : addr + n ≤ eepromSize) :
    (sscSession chip o s.command.csLow
        [eepromCmdByte eepromCmdRead addr, eepromAddrByte addr] n).2.1 = n ∧
      (sscSession chip o s.command.csLow
        [eepromCmdByte eepromCmdRead addr, eepromAddrByte addr] n).2.2 =
        readBlock s.dev.mem addr n := by
  have hne : [eepromCmdByte eepromCmdRead addr, eepromAddrByte addr] ≠ [] := by simp
  obtain ⟨hmask, hrdsr, -⟩ := eepromCmdByte_read addr
  have hthree : eepromCmdRead.getLsbD 3 = false := by decide
  have haddr := eepromAddr_eq hthree (show addr < eepromSize by omega)
  rw [sscSession_ok chip hok hne]
  refine ⟨if_neg hn, ?_⟩
  show (s.command.csLow.dev.exchange chip (eepromCmdByte eepromCmdRead addr ::
    eepromAddrByte addr :: List.replicate n 0#8)).2.drop 2 = _
  rw [EepromSys.csLow_dev h]
  have hans := Eeprom.exchange_read chip
    (e := s.dev.during [eepromCmdByte eepromCmdRead addr, eepromAddrByte addr]) rfl rfl hwip
    hrdsr hmask n
  have hdrop : ((s.dev.during []).exchange chip (eepromCmdByte eepromCmdRead addr ::
      eepromAddrByte addr :: List.replicate n 0#8)).2.drop 2 =
      ((s.dev.during [eepromCmdByte eepromCmdRead addr, eepromAddrByte addr]).exchange chip
        (List.replicate n 0#8)).2 := rfl
  rw [hdrop, hans]
  apply List.map_congr_left
  intro i hi
  have hlt : addr + i < eepromSize := by
    have hin := List.mem_range.mp hi
    omega
  rw [haddr, List.length_nil, Nat.add_zero, Nat.mod_eq_of_lt hlt]
  rfl

theorem eepromRead_turn {polls addr len : Nat} (turns : Nat) (h : s.dev.selected = false)
    (hw : s.dev.wip < polls) (hlen : len ≠ 0) (hrange : addr + len ≤ eepromSize) :
    ∃ u : EepromSys, u.dev.selected = false ∧ u.dev.mem = s.dev.mem ∧ u.dev.wip = 0 ∧
      eepromRead chip o polls (turns + 1) s addr len =
        if len - eepromEff addr len = 0 then
          some (u, 0, readBlock s.dev.mem addr (eepromEff addr len))
        else (eepromRead chip o polls turns u (addr + eepromEff addr len)
          (len - eepromEff addr len)).map fun q =>
            (q.1, q.2.1, readBlock s.dev.mem addr (eepromEff addr len) ++ q.2.2) := by
  obtain ⟨w, heq, hwsel, hwmem, -, hwwip⟩ := eepromWipOver_ok chip hok h hw
  have hpos := eepromEff_pos addr hlen
  obtain ⟨-, hle⟩ := eepromEff_page addr len
  have hne : [eepromCmdByte eepromCmdRead addr, eepromAddrByte addr] ≠ [] := by simp
  have hfits : addr + eepromEff addr len ≤ eepromSize := by omega
  obtain ⟨hret, hout⟩ := eepromRead_chunk chip hok hwsel hwwip (Nat.ne_of_gt hpos) hfits
  have hframe := sscSession_frame chip hok hwsel hne (eepromEff addr len)
  obtain ⟨hmem, -, hwip⟩ := w.dev.framed_read chip addr (eepromAddrByte addr)
    (List.replicate (eepromEff addr len) 0#8)
  refine ⟨(sscSession chip o w.command.csLow
    [eepromCmdByte eepromCmdRead addr, eepromAddrByte addr] (eepromEff addr len)).1.csHigh chip,
    ?_, ?_, ?_, ?_⟩
  · rw [hframe]
    rfl
  · rw [hframe, ← hwmem]
    exact hmem
  · rw [hframe]
    exact hwip.trans (by omega)
  · rw [eepromRead, heq, Option.bind_some]
    dsimp only
    rw [if_neg (not_not.mpr hret), hout, hwmem]

theorem eepromRead_ok {polls turns addr len : Nat} (h : s.dev.selected = false)
    (hw : s.dev.wip < polls) (hlen : len ≠ 0) (hrange : addr + len ≤ eepromSize)
    (hturns : len ≤ turns) :
    ∃ t, eepromRead chip o polls turns s addr len =
      some (t, 0, readBlock s.dev.mem addr len) ∧ t.dev.mem = s.dev.mem := by
  induction turns generalizing s addr len with
  | zero => omega
  | succ turns ih =>
    have hpos := eepromEff_pos addr hlen
    obtain ⟨-, hle⟩ := eepromEff_page addr len
    obtain ⟨u, husel, humem, huwip, hturn⟩ := eepromRead_turn chip hok turns h hw hlen hrange
    rw [hturn]
    split
    next hend =>
      have hall : eepromEff addr len = len := by omega
      rw [hall]
      exact ⟨u, rfl, humem⟩
    next hmore =>
      have hfits : addr + eepromEff addr len + (len - eepromEff addr len) ≤ eepromSize := by omega
      obtain ⟨t, hrest, htmem⟩ := ih husel (by omega) hmore hfits (by omega)
      have hlen' : eepromEff addr len + (len - eepromEff addr len) = len := by omega
      have hblock := readBlock_add s.dev.mem addr (eepromEff addr len) (len - eepromEff addr len)
      rw [hlen'] at hblock
      refine ⟨t, ?_, htmem.trans humem⟩
      rw [hrest, humem, hblock]
      rfl

/-- The two sessions of a page write are one frame. -/
theorem eepromWrite_frame (h : s.dev.selected = false) {hd data : List Byte} (hhd : hd ≠ [])
    (hdata : data ≠ []) :
    (sscSession chip o (sscSession chip o s.command.csLow hd 0).1 data 0).2.1 = data.length ∧
      ((sscSession chip o (sscSession chip o s.command.csLow hd 0).1 data 0).1.csHigh chip).dev =
        s.dev.framed chip (hd ++ data) := by
  have hlow := EepromSys.csLow_dev h
  have hsel : s.command.csLow.dev.selected = true := by
    rw [hlow]
    rfl
  have hfirst := sscSession_ok chip hok (s := s.command.csLow) hhd 0
  rw [List.replicate_zero, List.append_nil] at hfirst
  have hmid : (s.command.csLow.send chip hd).1.dev = s.dev.during hd := by
    rw [EepromSys.send_dev chip hsel, hlow]
    rfl
  have hmsel : (s.command.csLow.send chip hd).1.dev.selected = true := by
    rw [hmid]
    rfl
  rw [hfirst, sscSession_ok chip hok hdata 0, List.replicate_zero, List.append_nil]
  refine ⟨rfl, ?_⟩
  show ((s.command.csLow.send chip hd).1.send chip data).1.dev.csHigh chip = _
  rw [EepromSys.send_dev chip hmsel, hmid]
  rfl

/-- A turn of the loop of `eeprom_write`: one page write. -/
theorem eepromWrite_turn {polls addr : Nat} {buf : List Byte} (turns : Nat)
    (h : s.dev.selected = false) (hw : s.dev.wip < polls) (hbuf : buf ≠ [])
    (hrange : addr + buf.length ≤ eepromSize) :
    ∃ u : EepromSys, u.dev.selected = false ∧ u.dev.wip ≤ chip.busyBound ∧
      u.dev.mem = writeBlock s.dev.mem addr (buf.take (eepromEff addr buf.length)) ∧
      eepromWrite chip o polls (turns + 1) s addr buf =
        if buf.length - eepromEff addr buf.length = 0 then some (u, 0)
        else eepromWrite chip o polls turns u (addr + eepromEff addr buf.length)
          (buf.drop (eepromEff addr buf.length)) := by
  obtain ⟨w, hover, hwsel, hwmem, -, hwwip⟩ := eepromWipOver_ok chip hok h hw
  have hwlt : w.dev.wip < polls := by omega
  obtain ⟨v, hwren, hvsel, hvmem, hvwip, hvwel⟩ := eepromWren_ok chip hok hwsel hwlt
  have hlen : buf.length ≠ 0 := fun hz => hbuf (List.length_eq_zero_iff.mp hz)
  have hpos := eepromEff_pos addr hlen
  obtain ⟨hpage, hle⟩ := eepromEff_page addr buf.length
  have hchunk : (buf.take (eepromEff addr buf.length)).length = eepromEff addr buf.length :=
    List.length_take_of_le hle
  have hdata : buf.take (eepromEff addr buf.length) ≠ [] := by
    intro hnil
    rw [hnil, List.length_nil] at hchunk
    omega
  have hhd : [eepromCmdByte eepromCmdWrite addr, eepromAddrByte addr] ≠ [] := by simp
  obtain ⟨hret, hframe⟩ := eepromWrite_frame chip hok hvsel hhd hdata
  have haddr : addr < eepromSize := by omega
  obtain ⟨hmem, hwip⟩ := v.dev.framed_write chip hvwip (hvwel hwwip) haddr hdata
  rw [← hchunk] at hpage
  rw [writePage_eq hpage, hvmem, hwmem] at hmem
  rw [hchunk] at hret
  refine ⟨(sscSession chip o (sscSession chip o v.command.csLow
    [eepromCmdByte eepromCmdWrite addr, eepromAddrByte addr] 0).1
    (buf.take (eepromEff addr buf.length)) 0).1.csHigh chip, ?_, ?_, ?_, ?_⟩
  · rw [hframe]
    rfl
  · rw [hframe]
    exact hwip
  · rw [hframe]
    exact hmem
  · rw [eepromWrite, hover, Option.bind_some, hwren, Option.bind_some]
    dsimp only
    rw [if_neg (not_not.mpr rfl), if_neg (sscSession_nonneg chip hok hhd 0),
      if_neg (not_not.mpr hret)]

theorem eepromWrite_ok {polls turns addr : Nat} {buf : List Byte}
    (hpolls : chip.busyBound < polls) (h : s.dev.selected = false) (hw : s.dev.wip < polls)
    (hbuf : buf ≠ []) (hrange : addr + buf.length ≤ eepromSize) (hturns : buf.length ≤ turns) :
    ∃ t, eepromWrite chip o polls turns s addr buf = some (t, 0) ∧ t.dev.selected = false ∧
      t.dev.wip ≤ chip.busyBound ∧ t.dev.mem = writeBlock s.dev.mem addr buf := by
  induction turns generalizing s addr buf with
  | zero =>
    have hpos := List.length_pos_iff.mpr hbuf
    omega
  | succ turns ih =>
    have hpos := eepromEff_pos addr (Nat.ne_of_gt (List.length_pos_iff.mpr hbuf))
    obtain ⟨-, hle⟩ := eepromEff_page addr buf.length
    obtain ⟨u, husel, huwip, humem, hturn⟩ := eepromWrite_turn chip hok turns h hw hbuf hrange
    rw [hturn]
    split
    next hend =>
      have hall : eepromEff addr buf.length = buf.length := by omega
      rw [hall, List.take_length] at humem
      exact ⟨u, rfl, husel, huwip, humem⟩
    next hmore =>
      have hrest : (buf.drop (eepromEff addr buf.length)).length =
          buf.length - eepromEff addr buf.length := List.length_drop
      have hne : buf.drop (eepromEff addr buf.length) ≠ [] := by
        intro hnil
        rw [hnil, List.length_nil] at hrest
        omega
      have hfits : addr + eepromEff addr buf.length +
          (buf.drop (eepromEff addr buf.length)).length ≤ eepromSize := by omega
      obtain ⟨t, hwrite, htsel, htwip, htmem⟩ := ih husel (by omega) hne hfits (by omega)
      refine ⟨t, hwrite, htsel, htwip, ?_⟩
      have happend := writeBlock_append s.dev.mem addr (buf.take (eepromEff addr buf.length))
        (buf.drop (eepromEff addr buf.length))
      rw [List.take_append_drop, List.length_take_of_le hle] at happend
      rw [htmem, humem, happend]

end Loops

end DanubeBsp
