import Mathlib.Data.List.Basic
import Mathlib.Data.Nat.Bitwise
import DanubeBsp.Eeprom

namespace DanubeBsp

/-- A page write stays inside its page. -/
def PageOk (c : List Byte) : Prop :=
  ∀ cmd addr data, c = cmd :: addr :: data → cmd &&& 0xf7#8 = eepromCmdWrite →
    addr.toNat % eepromPageSize + data.length ≤ eepromPageSize

theorem PageOk.of_prefix {c full : List Byte} (hfull : PageOk full) (h : c <+: full) :
    PageOk c := by
  rintro cmd addr data rfl hcmd
  obtain ⟨rest, rfl⟩ := h
  have hpage := hfull cmd addr (data ++ rest) rfl hcmd
  rw [List.length_append] at hpage
  omega

theorem PageOk.of_cmd {cmd : Byte} {rest : List Byte} (h : cmd &&& 0xf7#8 ≠ eepromCmdWrite) :
    PageOk (cmd :: rest) := by
  intro cmd' addr data heq hcmd
  cases heq
  exact absurd hcmd h

/-- Between commands: the chip is not selected, and `d` frames are missing for the commands. -/
structure EepromIdle (d : Nat) (s : EepromSys) : Prop where
  selected : s.dev.selected = false
  count : s.commands.length = s.dev.frames.length + d
  pages : ∀ c ∈ s.commands, PageOk c

/-- In a command of which `c` has been sent, with `d` frames missing for the commands before. -/
structure EepromInCmd (d : Nat) (c : List Byte) (s : EepromSys) : Prop where
  selected : s.dev.selected = true
  commands : ∃ cs, s.commands = c :: cs ∧ cs.length = s.dev.frames.length + d ∧
    ∀ c ∈ cs, PageOk c

section Frames

variable (chip : EepromChip) (o : SscServices) {s : EepromSys} {d : Nat} {c : List Byte}

theorem EepromIdle.start (h : EepromIdle d s) : EepromInCmd d [] s.command.csLow := by
  have hsel : s.dev.csLow = { s.dev with selected := true, received := [] } :=
    if_neg (by simp [h.selected])
  refine ⟨?_, s.commands, rfl, ?_, h.pages⟩
  · show s.dev.csLow.selected = true
    rw [hsel]
  · show s.commands.length = s.dev.csLow.frames.length + d
    rw [hsel]
    exact h.count

theorem EepromInCmd.csLow (h : EepromInCmd d c s) : s.csLow = s := by
  have hsel : s.dev.csLow = s.dev := if_pos h.selected
  unfold EepromSys.csLow
  rw [hsel]

/-- A command that begins before the last one has ended is in the frame of that one. -/
theorem EepromInCmd.start (h : EepromInCmd d c s) (hc : PageOk c) :
    EepromInCmd (d + 1) [] s.command.csLow := by
  have hsel : s.dev.csLow = s.dev := if_pos h.selected
  obtain ⟨cs, hcs, hcount, hpages⟩ := h.commands
  refine ⟨?_, s.commands, rfl, ?_, ?_⟩
  · show s.dev.csLow.selected = true
    rw [hsel]
    exact h.selected
  · show s.commands.length = s.dev.csLow.frames.length + (d + 1)
    rw [hsel, hcs, List.length_cons, hcount]
    omega
  · rw [hcs]
    intro x hx
    obtain rfl | hx := List.mem_cons.mp hx
    · exact hc
    · exact hpages x hx

theorem Eeprom.exchange_selected {s : Eeprom} (h : s.selected = true) (bs : List Byte) :
    (s.exchange chip bs).1 = { s with received := s.received ++ bs } := by
  induction bs generalizing s with
  | nil => simp [Eeprom.exchange]
  | cons b bs ih =>
    have hshift : (s.shift chip b).1 = { s with received := s.received ++ [b] } := by
      simp [Eeprom.shift, h]
    show ((s.shift chip b).1.exchange chip bs).1 = _
    rw [hshift]
    have hrest := @ih { s with received := s.received ++ [b] } h
    rw [hrest]
    simp

theorem EepromInCmd.send (h : EepromInCmd d c s) (bs : List Byte) :
    EepromInCmd d (c ++ bs) (s.send chip bs).1 := by
  obtain ⟨cs, hcs, hcount, hpages⟩ := h.commands
  have hdev : (s.send chip bs).1.dev = { s.dev with received := s.dev.received ++ bs } :=
    Eeprom.exchange_selected chip h.selected bs
  refine ⟨?_, cs, ?_, ?_, hpages⟩
  · rw [hdev]
    exact h.selected
  · simp only [EepromSys.send, hcs]
  · rw [hdev]
    exact hcount

/-- A session sends the bytes of its buffers, or the first of them when it fails. -/
theorem EepromInCmd.session (h : EepromInCmd d c s) (tx : List Byte) (rxLen : Nat) :
    ∃ p, p <+: tx ++ List.replicate rxLen 0#8 ∧
      EepromInCmd d (c ++ p) (sscSession chip o s tx rxLen).1 ∧
      (0 ≤ (sscSession chip o s tx rxLen).2.1 → p = tx ++ List.replicate rxLen 0#8) := by
  unfold sscSession
  split
  next hempty =>
    refine ⟨[], List.nil_prefix, ?_, ?_⟩
    · rw [List.append_nil]
      exact h
    · intro hret
      have hneg : ¬0 ≤ eInval := by decide
      exact absurd hret hneg
  next =>
    dsimp only
    split
    next f hf =>
      refine ⟨_, List.take_prefix f.sent _, h.send chip _, ?_⟩
      intro hret
      have hneg : f.ret < 0 := by
        unfold SscFault.ret
        omega
      exact absurd hret (by dsimp only; omega)
    next => exact ⟨_, List.prefix_rfl, h.send chip _, fun _ => rfl⟩

theorem EepromInCmd.finish (h : EepromInCmd d c s) (hc : PageOk c) :
    EepromIdle d (s.csHigh chip) := by
  obtain ⟨cs, hcs, hcount, hpages⟩ := h.commands
  have hsel : (s.dev.csHigh chip).selected = false ∧
      (s.dev.csHigh chip).frames = s.dev.received :: s.dev.frames := by
    simp [Eeprom.csHigh, h.selected]
  refine ⟨hsel.1, ?_, ?_⟩
  · show s.commands.length = (s.dev.csHigh chip).frames.length + d
    rw [hcs, hsel.2, List.length_cons, List.length_cons, hcount]
    omega
  · show ∀ x ∈ s.commands, PageOk x
    rw [hcs]
    intro x hx
    obtain rfl | hx := List.mem_cons.mp hx
    · exact hc
    · exact hpages x hx

theorem EepromInCmd.single (h : EepromInCmd d [] s) (tx : List Byte) (rxLen : Nat)
    (hpage : PageOk (tx ++ List.replicate rxLen 0#8)) :
    EepromIdle d ((sscSession chip o s tx rxLen).1.csHigh chip) := by
  obtain ⟨p, hp, hcmd, -⟩ := h.session chip o tx rxLen
  exact hcmd.finish chip (hpage.of_prefix hp)

theorem eepromRdsr_idle (h : EepromInCmd d [] s.command.csLow) :
    EepromIdle d (eepromRdsr chip o s).1 := by
  have hidle := h.single chip o [eepromCmdRdsr] 1 (.of_cmd (by decide))
  unfold eepromRdsr
  dsimp only
  split_ifs
  · exact hidle
  · exact hidle

theorem eepromWipOver_idle {polls : Nat} {r : EepromSys × Int}
    (h : EepromInCmd d [] s.command.csLow) (hr : eepromWipOver chip o polls s = some r) :
    EepromIdle d r.1 := by
  induction polls generalizing s with
  | zero => cases hr
  | succ polls ih =>
    have hidle := eepromRdsr_idle chip o h
    unfold eepromWipOver at hr
    dsimp only at hr
    split_ifs at hr
    · cases Option.some.inj hr
      exact hidle
    · exact ih hidle.start hr
    · cases Option.some.inj hr
      exact hidle

theorem eepromWren_idle {polls : Nat} {r : EepromSys × Int} (h : EepromIdle d s)
    (hr : eepromWren chip o polls s = some r) : EepromIdle d r.1 := by
  have hidle := h.start.single chip o [eepromCmdWren] 0 (.of_cmd (by decide))
  unfold eepromWren at hr
  dsimp only at hr
  split_ifs at hr
  · cases Option.some.inj hr
    exact hidle
  · obtain ⟨q, hq, rfl⟩ := Option.map_eq_some_iff.mp hr
    have hover := eepromWipOver_idle chip o hidle.start hq
    exact hover

/-- The status write has no frame of its own, unless it fails. -/
theorem eepromWrsr_idle {polls : Nat} {r : EepromSys × Int} (h : EepromIdle d s)
    (hr : eepromWrsr chip o polls s = some r) : EepromIdle (if r.2 = 0 then d + 1 else d) r.1 := by
  obtain ⟨w, hw, hr⟩ := Option.bind_eq_some_iff.mp hr
  have hidle := eepromWren_idle chip o h hw
  have hpage : PageOk ([eepromCmdWrsr, 0#8] ++ List.replicate 0 0#8) := .of_cmd (by decide)
  dsimp only at hr
  split_ifs at hr with hret hneg
  · cases Option.some.inj hr
    rw [if_neg hret]
    exact hidle
  · obtain ⟨q, hq, rfl⟩ := Option.map_eq_some_iff.mp hr
    have hfailed := hidle.start.single chip o [eepromCmdWrsr, 0#8] 0 hpage
    have hover := eepromWipOver_idle chip o hfailed.start hq
    rw [if_neg (by dsimp only; omega)]
    exact hover
  · obtain ⟨q, hq, rfl⟩ := Option.map_eq_some_iff.mp hr
    obtain ⟨p, hp, hcmd, -⟩ := hidle.start.session chip o [eepromCmdWrsr, 0#8] 0
    rw [hcmd.csLow] at hq
    have hover := eepromWipOver_idle chip o (hcmd.start (hpage.of_prefix hp)) hq
    rw [if_pos rfl]
    exact hover

end Frames

/-- Bit 8 of the address goes to bit 3 of the command. -/
theorem eepromCmdByte_cases (cmd : Byte) (addr : Nat) :
    addr.testBit 8 = false ∧ eepromCmdByte cmd addr = cmd ∨
      addr.testBit 8 = true ∧ eepromCmdByte cmd addr = cmd ||| 0x08#8 := by
  have hbit : addr &&& 0x100 = (addr.testBit 8).toNat * 2 ^ 8 := Nat.and_two_pow addr 8
  unfold eepromCmdByte
  rw [hbit]
  cases addr.testBit 8 with
  | false => exact .inl ⟨rfl, BitVec.or_zero⟩
  | true => exact .inr ⟨rfl, rfl⟩

theorem eepromAddrByte_toNat (addr : Nat) : (eepromAddrByte addr).toNat = addr % 256 := by
  have hmask : addr &&& 0xff = addr % 256 := Nat.and_two_pow_sub_one_eq_mod addr 8
  unfold eepromAddrByte
  rw [hmask, BitVec.toNat_ofNat]
  omega

/-- The chip puts the address together again. -/
theorem eepromAddr_eq {cmd : Byte} (hcmd : cmd.getLsbD 3 = false) {addr : Nat}
    (h : addr < eepromSize) : eepromAddr (eepromCmdByte cmd addr) (eepromAddrByte addr) = addr := by
  have hbit : addr.testBit 8 = decide (addr / 2 ^ 8 % 2 = 1) := Nat.testBit_eq_decide_div_mod_eq
  simp only [eepromSize] at h
  unfold eepromAddr
  rw [eepromAddrByte_toNat]
  obtain ⟨h8, hc⟩ | ⟨h8, hc⟩ := eepromCmdByte_cases cmd addr
  · rw [h8] at hbit
    rw [hc, hcmd]
    simp only [Bool.false_eq_true, if_false]
    have hlow : addr / 2 ^ 8 % 2 ≠ 1 := of_decide_eq_false hbit.symm
    omega
  · rw [h8] at hbit
    have hthree : (cmd ||| 0x08#8).getLsbD 3 = true := by simp
    rw [hc, hthree]
    simp only [if_true]
    have hhigh : addr / 2 ^ 8 % 2 = 1 := of_decide_eq_true hbit.symm
    omega

/-- The bytes up to the end of the page, or all of them if there are fewer. -/
theorem eepromEff_eq_min (addr len : Nat) :
    eepromEff addr len = min (eepromPageSize - addr % eepromPageSize) len := by
  unfold eepromEff
  dsimp only
  split
  next hlt => exact (min_eq_left hlt.le).symm
  next hle => exact (min_eq_right (not_lt.mp hle)).symm

theorem eepromEff_page (addr len : Nat) :
    addr % eepromPageSize + eepromEff addr len ≤ eepromPageSize ∧ eepromEff addr len ≤ len := by
  rw [eepromEff_eq_min]
  simp only [eepromPageSize]
  omega

theorem eepromEff_pos {len : Nat} (addr : Nat) (h : len ≠ 0) : 0 < eepromEff addr len := by
  rw [eepromEff_eq_min]
  simp only [eepromPageSize]
  omega

theorem PageOk.write (addr : Nat) (buf : List Byte) :
    PageOk ([eepromCmdByte eepromCmdWrite addr, eepromAddrByte addr] ++
      buf.take (eepromEff addr buf.length)) := by
  rintro cmd a data heq -
  obtain ⟨rfl, rfl, rfl⟩ : _ = cmd ∧ _ = a ∧ buf.take (eepromEff addr buf.length) = data := by
    simpa using heq
  obtain ⟨hpage, hle⟩ := eepromEff_page addr buf.length
  rw [eepromAddrByte_toNat, List.length_take]
  simp only [eepromPageSize] at hpage ⊢
  omega

theorem PageOk.read (addr : Nat) (rest : List Byte) :
    PageOk (eepromCmdByte eepromCmdRead addr :: rest) := by
  apply PageOk.of_cmd
  obtain ⟨-, hc⟩ | ⟨-, hc⟩ := eepromCmdByte_cases eepromCmdRead addr
  · rw [hc]
    decide
  · rw [hc]
    decide

section Loops

variable (chip : EepromChip) (o : SscServices) {s : EepromSys} {d : Nat}

theorem eepromRead_idle {polls turns addr len : Nat} {r : EepromSys × Int × List Byte}
    (h : EepromIdle d s) (hr : eepromRead chip o polls turns s addr len = some r) :
    EepromIdle d r.1 := by
  induction turns generalizing s addr len r with
  | zero => cases hr
  | succ turns ih =>
    obtain ⟨w, hw, hr⟩ := Option.bind_eq_some_iff.mp hr
    have hidle := eepromWipOver_idle chip o h.start hw
    have hdone := hidle.start.single chip o
      [eepromCmdByte eepromCmdRead addr, eepromAddrByte addr] (eepromEff addr len) (.read addr _)
    dsimp only at hr
    split_ifs at hr
    · cases Option.some.inj hr
      exact hdone
    · cases Option.some.inj hr
      exact hdone
    · obtain ⟨q, hq, rfl⟩ := Option.map_eq_some_iff.mp hr
      have hrest := ih hdone hq
      exact hrest

theorem eepromWrite_idle {polls turns addr : Nat} {buf : List Byte} {r : EepromSys × Int}
    (h : EepromIdle d s) (hr : eepromWrite chip o polls turns s addr buf = some r) :
    EepromIdle d r.1 := by
  induction turns generalizing s addr buf r with
  | zero => cases hr
  | succ turns ih =>
    obtain ⟨w, hw, hr⟩ := Option.bind_eq_some_iff.mp hr
    obtain ⟨v, hv, hr⟩ := Option.bind_eq_some_iff.mp hr
    have hidle := eepromWren_idle chip o (eepromWipOver_idle chip o h.start hw) hv
    have hpage := PageOk.write addr buf
    obtain ⟨p, hp, hcmd, hall⟩ := hidle.start.session chip o
      [eepromCmdByte eepromCmdWrite addr, eepromAddrByte addr] 0
    rw [List.replicate_zero, List.append_nil] at hp hall
    obtain ⟨q, hq, hdata, -⟩ := hcmd.session chip o (buf.take (eepromEff addr buf.length)) 0
    rw [List.replicate_zero, List.append_nil] at hq
    dsimp only at hr
    split_ifs at hr with hret hneg
    · cases Option.some.inj hr
      exact hidle
    · cases Option.some.inj hr
      exact hcmd.finish chip (hpage.of_prefix (hp.trans (List.prefix_append _ _)))
    all_goals
      rw [List.nil_append, hall (Int.not_lt.mp hneg)] at hdata
      have hdone := hdata.finish chip (hpage.of_prefix ((List.prefix_append_right_inj _).mpr hq))
    · cases Option.some.inj hr
      exact hdone
    · cases Option.some.inj hr
      exact hdone
    · exact ih hdone hr

theorem danubeEepromKwrite_idle {polls addr : Nat} {buf : List Byte} {r : EepromSys × Int}
    (h : EepromIdle d s) (hr : danubeEepromKwrite chip o polls s addr buf = some r) :
    ∃ d', EepromIdle d' r.1 := by
  unfold danubeEepromKwrite at hr
  split at hr
  next =>
    cases Option.some.inj hr
    exact ⟨d, h⟩
  next =>
    cases Option.some.inj hr
    exact ⟨d, h⟩
  next =>
    obtain ⟨w, hw, hr⟩ := Option.bind_eq_some_iff.mp hr
    have hidle := eepromWrsr_idle chip o h hw
    split_ifs at hr
    · cases Option.some.inj hr
      exact ⟨_, hidle⟩
    · exact ⟨_, eepromWrite_idle chip o hidle hr⟩

/-- A call that stores any byte has left a frame out. -/
theorem danubeEepromKread_idle {polls addr len : Nat} {r : EepromSys × List Byte × Nat}
    (h : EepromIdle d s) (hr : danubeEepromKread chip o polls s addr len = some r) :
    ∃ d', EepromIdle d' r.1 ∧ (r.2.1 ≠ [] → 0 < d') := by
  unfold danubeEepromKread at hr
  dsimp only at hr
  split at hr
  next =>
    cases Option.some.inj hr
    exact ⟨d, h, fun hne => absurd rfl hne⟩
  next =>
    cases Option.some.inj hr
    exact ⟨d, h, fun hne => absurd rfl hne⟩
  next =>
    obtain ⟨w, hw, hr⟩ := Option.bind_eq_some_iff.mp hr
    have hidle := eepromWrsr_idle chip o h hw
    split at hr
    next =>
      cases Option.some.inj hr
      exact ⟨_, hidle, fun hne => absurd rfl hne⟩
    next hzero =>
      rw [if_pos (not_not.mp hzero)] at hidle
      obtain ⟨q, hq, rfl⟩ := Option.map_eq_some_iff.mp hr
      have hrest := eepromRead_idle chip o hidle hq
      exact ⟨d + 1, hrest, fun _ => Nat.succ_pos d⟩

end Loops

end DanubeBsp
