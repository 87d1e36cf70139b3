import DanubeBsp.EepromRoundTrip
import DanubeBsp.EepromTotal

namespace DanubeBsp

/-- What a file operation leaves: the result, the offset, and what the user memory has got. -/
structure EepromFileEnd where
  sys : EepromSys
  ret : Int
  off : Nat
  user : List Byte

section Operations

variable (chip : EepromChip) (o : SscServices) (polls : Nat)

/-- `danube_eeprom_read`; `rxBuf` is what the buffer on the stack holds before. The result of
`danube_eeprom_kread` is a length, and that of the copy to the user is not looked at. -/
def danubeEepromRead (s : EepromSys) (userOk : Bool) (rxBuf : Nat → Byte) (len off : Nat) :
    Option EepromFileEnd :=
  if eepromSize ≤ off then some ⟨s, 0, off, []⟩
  else
    let len := if eepromSize < off + len then eepromSize - off else len
    if len = 0 then some ⟨s, 0, off, []⟩
    else
      (danubeEepromKread chip o polls s off len).map fun r =>
        { sys := r.1
          ret := len
          off := off + len
          user := if userOk then readBlock (writeBlock rxBuf 0 r.2.1) 0 r.2.2 else [] }

/-- `danube_eeprom_write` of the bytes that the user asks for. -/
def danubeEepromWrite (s : EepromSys) (userOk : Bool) (ubuf : List Byte) (off : Nat) :
    Option EepromFileEnd :=
  if eepromSize ≤ off then some ⟨s, 0, off, []⟩
  else
    let len := if eepromSize < ubuf.length + off then eepromSize - off else ubuf.length
    -- `return EFAULT`, without the sign
    if userOk = false ∧ len ≠ 0 then some ⟨s, -eFault, off, []⟩
    else
      (danubeEepromKwrite chip o polls s off (ubuf.take len)).map fun r =>
        ⟨r.1, r.2, if 0 < r.2 then r.2.toNat else off, []⟩

end Operations

/-- The state between two calls, how the serial port driver does, and whether the user memory of the call
is there. -/
structure EepromCall (chip : EepromChip) where
  o : SscServices
  openErr_neg : ∀ e, o.openErr = some e → e < 0
  modeErr_neg : ∀ e, o.modeErr = some e → e < 0
  s : EepromSys
  polls : Nat
  enough : chip.busyBound + 2 ≤ polls
  ready : EepromReady polls s
  userOk : Bool

/-- How many bytes a file operation has to transfer. -/
def fileCount (len off : Nat) : Nat := min len (eepromSize - off)

/-- Some call below `danube_eeprom_kread` or `danube_eeprom_kwrite` fails between two states. -/
def CallFails (o : SscServices) (s t : EepromSys) : Prop :=
  o.openErr ≠ none ∨ o.modeErr ≠ none ∨ SessionFails o s t

/-- The rules of a file: all bytes and the offset behind them, or an error and the offset as it was. -/
structure FileOk (n off : Nat) (fails done : Prop) (r : EepromFileEnd) : Prop where
  success : ¬fails → r.ret = n ∧ r.off = off + n ∧ done
  failure : fails → r.ret < 0 ∧ r.off = off

variable {chip : EepromChip}

def FileReadRight (c : EepromCall chip) (rxBuf : Nat → Byte) (len off : Nat) : Prop :=
  ∃ r, danubeEepromRead chip c.o c.polls c.s c.userOk rxBuf len off = some r ∧
    FileOk (fileCount len off) off
      (fileCount len off ≠ 0 ∧ (c.userOk = false ∨ CallFails c.o c.s r.sys))
      (r.user = readBlock c.s.dev.mem off (fileCount len off)) r

def FileWriteRight (c : EepromCall chip) (ubuf : List Byte) (off : Nat) : Prop :=
  ∃ r, danubeEepromWrite chip c.o c.polls c.s c.userOk ubuf off = some r ∧
    FileOk (fileCount ubuf.length off) off
      (off < eepromSize ∧
        ((c.userOk = false ∧ fileCount ubuf.length off ≠ 0) ∨ CallFails c.o c.s r.sys))
      (r.sys.dev.mem = writeBlock c.s.dev.mem off (ubuf.take (fileCount ubuf.length off))) r

/-- `danube_eeprom_kread` keeps to the buffer of its caller, whatever happens below it. -/
def KreadInside (c : EepromCall chip) (addr len : Word) : Prop :=
  ∀ o r, danubeEepromKread chip o c.polls c.s addr.toNat len.toNat = some r →
    r.2.1.length ≤ len.toNat

/-- No call of a read fails. -/
def NothingFails (c : EepromCall chip) (off n : Nat) : Prop :=
  ∃ r, danubeEepromKread chip c.o c.polls c.s off n = some r ∧ ¬CallFails c.o c.s r.1

/-- The port does not open, or a session that is no status poll fails. -/
def CommandFails (c : EepromCall chip) (off : Nat) (data : List Byte) : Prop :=
  c.o.openErr ≠ none ∨ c.o.modeErr ≠ none ∨ WrsrFails chip c.o c.polls c.s ∨
    ∃ w, eepromWrsr chip c.o c.polls c.s = some (w, 0) ∧ WriteFails chip c.o c.polls w off data

/-- Any call of a write without bytes fails, status polls included. -/
def EmptyWriteFails (c : EepromCall chip) (off : Nat) : Prop :=
  ∃ r, danubeEepromKwrite chip c.o c.polls c.s off [] = some r ∧ CallFails c.o c.s r.1

section Congruence

variable {o o' : SscServices} {polls : Nat} {s : EepromSys}

/-- The two drivers do the same in the sessions between two states. -/
def SameSessions (o o' : SscServices) (s t : EepromSys) : Prop :=
  ∀ k, s.sessions ≤ k → k < t.sessions → o'.fault k = o.fault k

theorem SameSessions.sub {s t u v : EepromSys} (h : SameSessions o o' s v)
    (hst : s.sessions ≤ t.sessions) (huv : u.sessions ≤ v.sessions) : SameSessions o o' t u :=
  fun k hlo hhi => h k (hst.trans hlo) (lt_of_lt_of_le hhi huv)

theorem eepromWipOver_congr {r : EepromSys × Int} (h : eepromWipOver chip o polls s = some r) :
    s.sessions < r.1.sessions ∧
      (SameSessions o o' s r.1 → eepromWipOver chip o' polls s = some r) := by
  induction polls generalizing s with
  | zero => exact absurd h (by simp [eepromWipOver])
  | succ polls ih =>
    have hcount := @eepromRdsr_sessions chip o s
    have hlater : s.sessions < (eepromRdsr chip o s).1.sessions := by omega
    have hfirst : ∀ t : EepromSys, (eepromRdsr chip o s).1.sessions ≤ t.sessions →
        SameSessions o o' s t → eepromRdsr chip o' s = eepromRdsr chip o s := by
      intro t ht hsame
      exact eepromRdsr_congr chip o (hsame s.sessions (le_refl _) (by omega))
    unfold eepromWipOver at h ⊢
    dsimp only at h ⊢
    split_ifs at h with hret hbusy
    · cases Option.some.inj h
      refine ⟨hlater, fun hs => ?_⟩
      rw [hfirst _ (le_refl _) hs, if_pos hret]
    · obtain ⟨hrest, hsame⟩ := ih h
      refine ⟨hlater.trans hrest, fun hs => ?_⟩
      rw [hfirst _ (le_of_lt hrest) hs, if_neg hret, if_pos hbusy]
      exact hsame (hs.sub (le_of_lt hlater) (le_refl _))
    · cases Option.some.inj h
      refine ⟨hlater, fun hs => ?_⟩
      rw [hfirst _ (le_refl _) hs, if_neg hret, if_neg hbusy]

/-- A session with a command is counted, and depends on its own fault alone. -/
theorem command_congr {tx : List Byte} (hne : tx ≠ []) (rxLen : Nat) :
    s.sessions < (sscSession chip o s.command.csLow tx rxLen).1.sessions ∧
      (o'.fault s.sessions = o.fault s.sessions →
        sscSession chip o' s.command.csLow tx rxLen = sscSession chip o s.command.csLow tx rxLen) := by
  have hcount := @sscSession_sessions chip o s.command.csLow tx hne rxLen
  refine ⟨?_, @sscSession_congr chip o s.command.csLow o' tx rxLen⟩
  rw [hcount]
  exact Nat.lt_succ_self _

theorem eepromWren_congr {r : EepromSys × Int} (h : eepromWren chip o polls s = some r) :
    s.sessions < r.1.sessions ∧
      (SameSessions o o' s r.1 → eepromWren chip o' polls s = some r) := by
  obtain ⟨hlater, hfirst⟩ := @command_congr chip o o' s [eepromCmdWren] (List.cons_ne_nil _ _) 0
  unfold eepromWren at h ⊢
  dsimp only at h ⊢
  split_ifs at h with hneg
  · cases Option.some.inj h
    refine ⟨hlater, fun hs => ?_⟩
    rw [hfirst (hs _ (le_refl _) hlater), if_pos hneg]
  · obtain ⟨w, hw, rfl⟩ := Option.map_eq_some_iff.mp h
    obtain ⟨hrest, hsame⟩ := eepromWipOver_congr hw
    refine ⟨hlater.trans hrest, fun hs => ?_⟩
    rw [hfirst (hs _ (le_refl _) (hlater.trans hrest)), if_neg hneg,
      hsame (hs.sub (le_of_lt hlater) (le_refl _))]
    rfl

theorem eepromWrsr_congr {r : EepromSys × Int} (h : eepromWrsr chip o polls s = some r) :
    s.sessions < r.1.sessions ∧
      (SameSessions o o' s r.1 → eepromWrsr chip o' polls s = some r) := by
  unfold eepromWrsr at h ⊢
  obtain ⟨w, hw, h⟩ := Option.bind_eq_some_iff.mp h
  obtain ⟨hlater, hwsame⟩ := @eepromWren_congr chip o o' polls s w hw
  obtain ⟨hmore, hfirst⟩ := @command_congr chip o o' w.1 [eepromCmdWrsr, 0#8] (List.cons_ne_nil _ _) 0
  dsimp only at h ⊢
  split_ifs at h with hret hneg
  · cases Option.some.inj h
    refine ⟨hlater, fun hs => ?_⟩
    rw [hwsame hs, Option.bind_some, if_pos hret]
  all_goals
    obtain ⟨q, hq, rfl⟩ := Option.map_eq_some_iff.mp h
    obtain ⟨hrest, hsame⟩ := @eepromWipOver_congr chip o o' polls _ q hq
    have hend : w.1.sessions < q.1.sessions := hmore.trans hrest
    refine ⟨hlater.trans hend, fun hs => ?_⟩
    rw [hwsame (hs.sub (le_refl _) (le_of_lt hend)), Option.bind_some, if_neg hret,
      hfirst (hs _ (le_of_lt hlater) hend)]
  · rw [if_pos hneg, hsame (hs.sub (le_of_lt (hlater.trans hmore)) (le_refl _))]
    rfl
  · rw [if_neg hneg, hsame (hs.sub (le_of_lt (hlater.trans hmore)) (le_refl _))]
    rfl

theorem eepromRead_congr {turns addr len : Nat} {r : EepromSys × Int × List Byte}
    (h : eepromRead chip o polls turns s addr len = some r) :
    s.sessions < r.1.sessions ∧
      (SameSessions o o' s r.1 → eepromRead chip o' polls turns s addr len = some r) := by
  induction turns generalizing s addr len r with
  | zero => exact absurd h (by simp [eepromRead])
  | succ turns ih =>
    unfold eepromRead at h ⊢
    obtain ⟨w, hw, h⟩ := Option.bind_eq_some_iff.mp h
    obtain ⟨hlater, hwsame⟩ := @eepromWipOver_congr chip o o' polls s w hw
    obtain ⟨hmore, hfirst⟩ := @command_congr chip o o' w.1
      [eepromCmdByte eepromCmdRead addr, eepromAddrByte addr] (List.cons_ne_nil _ _) (eepromEff addr len)
    dsimp only at h ⊢
    split_ifs at h with hret hlast
    · cases Option.some.inj h
      refine ⟨hlater.trans hmore, fun hs => ?_⟩
      rw [hwsame (hs.sub (le_refl _) (le_of_lt hmore)), Option.bind_some,
        hfirst (hs _ (le_of_lt hlater) hmore), if_pos hret]
    · cases Option.some.inj h
      refine ⟨hlater.trans hmore, fun hs => ?_⟩
      rw [hwsame (hs.sub (le_refl _) (le_of_lt hmore)), Option.bind_some,
        hfirst (hs _ (le_of_lt hlater) hmore), if_neg hret, if_pos hlast]
    · obtain ⟨q, hq, rfl⟩ := Option.map_eq_some_iff.mp h
      obtain ⟨hrest, hsame⟩ := ih hq
      have hend : w.1.sessions < q.1.sessions := hmore.trans hrest
      refine ⟨hlater.trans hend, fun hs => ?_⟩
      rw [hwsame (hs.sub (le_refl _) (le_of_lt hend)), Option.bind_some,
        hfirst (hs _ (le_of_lt hlater) hend), if_neg hret, if_neg hlast,
        hsame (hs.sub (le_of_lt (hlater.trans hmore)) (le_refl _))]
      rfl

/-- Sessions that do not fail are those of a driver that always works. -/
theorem sameSessions_of_not_fails {t : EepromSys} (h : ¬SessionFails o s t) :
    SameSessions o {} s t := by
  intro k hlo hhi
  by_contra hk
  exact h ⟨k, hlo, hhi, fun hnone => hk hnone.symm⟩

theorem danubeEepromKread_congr {addr len : Nat} {r : EepromSys × List Byte × Nat}
    (h : danubeEepromKread chip o polls s addr len = some r) (hfine : ¬CallFails o s r.1) :
    danubeEepromKread chip {} polls s addr len = some r := by
  have hopen : o.openErr = none := by
    by_contra hf
    exact hfine (Or.inl hf)
  have hmode : o.modeErr = none := by
    by_contra hf
    exact hfine (Or.inr (Or.inl hf))
  have hsame := @sameSessions_of_not_fails o s r.1 fun hf => hfine (Or.inr (Or.inr hf))
  unfold danubeEepromKread at h ⊢
  dsimp only at h ⊢
  rw [hopen, hmode] at h
  dsimp only at h
  obtain ⟨w, hw, h⟩ := Option.bind_eq_some_iff.mp h
  obtain ⟨hlater, hwsame⟩ := @eepromWrsr_congr chip o {} polls s w hw
  by_cases hret : w.2 ≠ 0
  · rw [if_pos hret] at h
    cases Option.some.inj h
    rw [hwsame hsame, Option.bind_some, if_pos hret]
  · rw [if_neg hret] at h
    obtain ⟨q, hq, rfl⟩ := Option.map_eq_some_iff.mp h
    obtain ⟨hrest, hqsame⟩ := @eepromRead_congr chip o {} polls w.1 _ _ _ q hq
    rw [hwsame (hsame.sub (le_refl _) (le_of_lt hrest)), Option.bind_some, if_neg hret,
      hqsame (hsame.sub (le_of_lt hlater) (le_refl _))]
    rfl

end Congruence

section Stored

variable {o : SscServices} {polls : Nat} {s : EepromSys}

theorem Eeprom.exchange_length (e : Eeprom) (bs : List Byte) :
    (e.exchange chip bs).2.length = bs.length := by
  induction bs generalizing e with
  | nil => rfl
  | cons b bs ih => exact congrArg (· + 1) (ih (e.shift chip b).1)

theorem sscSession_answer_le (tx : List Byte) (rxLen : Nat) :
    (sscSession chip o s tx rxLen).2.2.length ≤ rxLen := by
  unfold sscSession
  by_cases hempty : tx = [] ∧ rxLen = 0
  · rw [if_pos hempty]
    exact Nat.zero_le _
  · rw [if_neg hempty]
    dsimp only
    split
    next => exact Nat.zero_le _
    next =>
      have hlen := @Eeprom.exchange_length chip s.dev (tx ++ List.replicate rxLen 0#8)
      rw [List.length_append, List.length_replicate] at hlen
      show ((s.dev.exchange chip (tx ++ List.replicate rxLen 0#8)).2.drop tx.length).length ≤ rxLen
      rw [List.length_drop]
      omega

theorem eepromRead_stored_le {turns addr len : Nat} {r : EepromSys × Int × List Byte}
    (h : eepromRead chip o polls turns s addr len = some r) : r.2.2.length ≤ len := by
  induction turns generalizing s addr len r with
  | zero => exact absurd h (by simp [eepromRead])
  | succ turns ih =>
    unfold eepromRead at h
    obtain ⟨w, hw, h⟩ := Option.bind_eq_some_iff.mp h
    have hanswer := @sscSession_answer_le chip o w.1.command.csLow
      [eepromCmdByte eepromCmdRead addr, eepromAddrByte addr] (eepromEff addr len)
    have heff := eepromEff_le addr len
    dsimp only at h
    split_ifs at h with hret hlast
    · cases Option.some.inj h
      exact Nat.zero_le _
    · cases Option.some.inj h
      exact hanswer.trans heff
    · obtain ⟨q, hq, rfl⟩ := Option.map_eq_some_iff.mp h
      have hrest := ih hq
      dsimp only
      rw [List.length_append]
      omega

/-- The range that `danube_eeprom_kread` reads. -/
def kreadRange (addr len : Nat) : Nat × Nat :=
  if eepromSize < (addr + len) % 2 ^ 32 then (0, eepromSize / 2) else (addr, len)

theorem danubeEepromKread_stored_le {addr len : Nat} {r : EepromSys × List Byte × Nat}
    (h : danubeEepromKread chip o polls s addr len = some r) :
    r.2.1.length ≤ (kreadRange addr len).2 := by
  unfold danubeEepromKread at h
  dsimp only at h
  split at h
  next =>
    cases Option.some.inj h
    exact Nat.zero_le _
  next =>
    cases Option.some.inj h
    exact Nat.zero_le _
  next =>
    obtain ⟨w, hw, h⟩ := Option.bind_eq_some_iff.mp h
    by_cases hret : w.2 ≠ 0
    · rw [if_pos hret] at h
      cases Option.some.inj h
      exact Nat.zero_le _
    · rw [if_neg hret] at h
      obtain ⟨q, hq, rfl⟩ := Option.map_eq_some_iff.mp h
      exact eepromRead_stored_le hq

/-- Out of range, it reads the first half of the chip. -/
theorem danubeEepromKread_fallback {addr len : Nat} (h : eepromSize < (addr + len) % 2 ^ 32) :
    danubeEepromKread chip o polls s addr len =
      danubeEepromKread chip o polls s 0 (eepromSize / 2) := by
  have hinside : ¬eepromSize < (0 + eepromSize / 2) % 2 ^ 32 := by decide
  unfold danubeEepromKread
  rw [if_pos h, if_neg hinside]

theorem working_default : SscServices.Working {} := ⟨rfl, rfl, fun _ => rfl⟩

theorem kreadInside_iff (c : EepromCall chip) (addr len : Word) :
    KreadInside c addr len ↔
      (addr + len).toNat ≤ eepromSize ∨ eepromSize / 2 ≤ len.toNat := by
  rw [BitVec.toNat_add]
  constructor
  · intro h
    by_contra hnot
    rw [not_or, not_le, not_le] at hnot
    obtain ⟨t, hk, -⟩ := danubeEepromKread_ok chip working_default c.enough c.ready.selected
      c.ready.wip (show eepromSize / 2 ≠ 0 by decide) (show 0 + eepromSize / 2 ≤ eepromSize by decide)
    rw [← danubeEepromKread_fallback hnot.1] at hk
    have hle := h {} _ hk
    rw [readBlock, List.length_map, List.length_range] at hle
    omega
  · intro h o r hr
    have hle := danubeEepromKread_stored_le hr
    unfold kreadRange at hle
    split_ifs at hle with hfall
    · rcases h with hin | hlen
      · omega
      · exact hle.trans hlen
    · exact hle

end Stored

section FileRules

variable (c : EepromCall chip)

theorem fileCount_eq {len off : Nat} (h : off < eepromSize) :
    (if eepromSize < off + len then eepromSize - off else len) = fileCount len off := by
  unfold fileCount
  split_ifs with hfar
  · exact (Nat.min_eq_right (by omega)).symm
  · exact (Nat.min_eq_left (by omega)).symm

theorem fileCount_past {len off : Nat} (h : eepromSize ≤ off) : fileCount len off = 0 := by
  unfold fileCount
  rw [Nat.sub_eq_zero_of_le h]
  exact Nat.min_zero len

theorem fileCount_le {len off : Nat} (h : off < eepromSize) : off + fileCount len off ≤ eepromSize := by
  have hle := Nat.min_le_right len (eepromSize - off)
  unfold fileCount
  omega

/-- Where there is nothing to read, nothing is. -/
theorem danubeEepromRead_none {rxBuf : Nat → Byte} {len off : Nat} (hn : fileCount len off = 0) :
    danubeEepromRead chip c.o c.polls c.s c.userOk rxBuf len off = some ⟨c.s, 0, off, []⟩ := by
  unfold danubeEepromRead
  by_cases hoff : eepromSize ≤ off
  · rw [if_pos hoff]
  · rw [if_neg hoff]
    dsimp only
    rw [fileCount_eq (not_le.mp hoff), if_pos hn]

theorem danubeEepromRead_some {rxBuf : Nat → Byte} {len off : Nat} (hn : fileCount len off ≠ 0) :
    danubeEepromRead chip c.o c.polls c.s c.userOk rxBuf len off =
      (danubeEepromKread chip c.o c.polls c.s off (fileCount len off)).map fun r =>
        { sys := r.1
          ret := fileCount len off
          off := off + fileCount len off
          user := if c.userOk then readBlock (writeBlock rxBuf 0 r.2.1) 0 r.2.2 else [] } := by
  have hoff : ¬eepromSize ≤ off := fun hpast => hn (fileCount_past hpast)
  unfold danubeEepromRead
  rw [if_neg hoff]
  dsimp only
  rw [fileCount_eq (not_le.mp hoff), if_neg hn]

/-- A read whose calls all go well gives the bytes. -/
theorem kread_result {off n : Nat} {r : EepromSys × List Byte × Nat} (hn : n ≠ 0)
    (hrange : off + n ≤ eepromSize)
    (hr : danubeEepromKread chip c.o c.polls c.s off n = some r) (hfine : ¬CallFails c.o c.s r.1) :
    r.2 = (readBlock c.s.dev.mem off n, n) := by
  obtain ⟨t, hk, -⟩ := danubeEepromKread_ok chip working_default c.enough c.ready.selected
    c.ready.wip hn hrange
  have hsame := danubeEepromKread_congr hr hfine
  cases Option.some.inj (hk.symm.trans hsame)
  rfl

theorem fileReadRight_iff (rxBuf : Nat → Byte) (len off : Nat) :
    FileReadRight c rxBuf len off ↔ fileCount len off = 0 ∨
      (c.userOk = true ∧ NothingFails c off (fileCount len off)) := by
  by_cases hn : fileCount len off = 0
  · refine iff_of_true ?_ (Or.inl hn)
    refine ⟨_, danubeEepromRead_none c hn, ?_, fun hfails => absurd hn hfails.1⟩
    intro _
    rw [hn]
    exact ⟨rfl, rfl, rfl⟩
  · have hoff : off < eepromSize := by
      by_contra hpast
      exact hn (fileCount_past (not_lt.mp hpast))
    unfold FileReadRight NothingFails
    rw [danubeEepromRead_some c hn, or_iff_right hn]
    constructor
    · intro ⟨r, hr, hok⟩
      obtain ⟨q, hq, rfl⟩ := Option.map_eq_some_iff.mp hr
      have hfine : ¬(fileCount len off ≠ 0 ∧ (c.userOk = false ∨ CallFails c.o c.s q.1)) := by
        intro hfails
        have hneg := (hok.failure hfails).1
        dsimp only at hneg
        omega
      rw [not_and, not_or] at hfine
      obtain ⟨huser, hcalls⟩ := hfine hn
      exact ⟨Bool.eq_true_of_not_eq_false huser, q, hq, hcalls⟩
    · intro ⟨huser, q, hq, hcalls⟩
      have hres := kread_result c hn (fileCount_le hoff) hq hcalls
      refine ⟨_, congrArg (Option.map _) hq, ?_, ?_⟩
      · intro _
        refine ⟨rfl, rfl, ?_⟩
        have hlen := @readBlock_of_blockAt Byte _ _ _
          (blockAt_writeBlock rxBuf 0 (readBlock c.s.dev.mem off (fileCount len off)))
        have hcount : (readBlock c.s.dev.mem off (fileCount len off)).length = fileCount len off := by
          simp [readBlock]
        rw [hcount] at hlen
        dsimp only
        rw [huser, if_pos rfl, hres]
        exact hlen
      · intro hfails
        rcases hfails.2 with hbad | hbad
        · exact absurd huser (by rw [hbad]; exact Bool.noConfusion)
        · exact absurd hbad hcalls

/-- The length that a write takes. -/
theorem writeCount_eq {len off : Nat} (h : off < eepromSize) :
    (if eepromSize < len + off then eepromSize - off else len) = fileCount len off := by
  rw [Nat.add_comm len off]
  exact fileCount_eq h

theorem danubeEepromKwrite_total {off : Nat} {data : List Byte} (hdata : data ≠ []) :
    ∃ r, danubeEepromKwrite chip c.o c.polls c.s off data = some r ∧ r.2 ≤ 0 ∧
      (r.2 < 0 ↔ CommandFails c off data) ∧ (r.2 < 0 → CallFails c.o c.s r.1) := by
  unfold danubeEepromKwrite CommandFails CallFails
  cases hopen : c.o.openErr with
  | some e =>
    have hneg := c.openErr_neg e hopen
    have hfails : some e ≠ (none : Option Int) := Option.some_ne_none e
    exact ⟨_, rfl, le_of_lt hneg, iff_of_true hneg (Or.inl hfails), fun _ => Or.inl hfails⟩
  | none =>
    cases hmode : c.o.modeErr with
    | some e =>
      have hneg := c.modeErr_neg e hmode
      have hfails : some e ≠ (none : Option Int) := Option.some_ne_none e
      exact ⟨_, rfl, le_of_lt hneg, iff_of_true hneg (Or.inr (Or.inl hfails)),
        fun _ => Or.inr (Or.inl hfails)⟩
    | none =>
      have hno : ¬(none : Option Int) ≠ none := not_not.mpr rfl
      obtain ⟨⟨w, ret⟩, hw, hwends, hwsign, hwfails⟩ := eepromWrsr_total chip c.o c.enough c.ready
      rw [or_iff_right hno, or_iff_right hno]
      dsimp only
      rw [hw, Option.bind_some]
      dsimp only
      by_cases hret : ret = 0
      · subst hret
        have hgood : ¬WrsrFails chip c.o c.polls c.s := fun hf => lt_irrefl _ (hwsign.mpr hf)
        obtain ⟨r, hr, hends, hsign, hfails⟩ := @eepromWrite_total chip c.o c.polls w
          (data.length + 1) off data hdata c.enough hwends.ready (Nat.lt_succ_self _)
        rw [if_neg (not_not.mpr rfl), or_iff_right hgood, hr]
        refine ⟨r, rfl, hends.ret, ?_, ?_⟩
        · rw [hsign]
          constructor
          · intro hf
            exact ⟨w, rfl, hf⟩
          · intro ⟨w', hw', hf⟩
            cases Option.some.inj hw'
            exact hf
        · intro hneg
          rw [or_iff_right hno, or_iff_right hno]
          exact (hfails hneg).mono c.o hwends.later (le_refl _)
      · have hneg : ret < 0 := lt_of_le_of_ne hwends.ret hret
        rw [if_pos hret]
        refine ⟨_, rfl, hwends.ret, iff_of_true hneg (Or.inl (hwsign.mp hneg)), ?_⟩
        intro hn
        rw [or_iff_right hno, or_iff_right hno]
        exact hwfails hn

theorem danubeEepromKwrite_nil (off : Nat) :
    ∃ r, danubeEepromKwrite chip c.o c.polls c.s off [] = some r ∧ r.2 < 0 := by
  unfold danubeEepromKwrite
  cases hopen : c.o.openErr with
  | some e => exact ⟨_, rfl, c.openErr_neg e hopen⟩
  | none =>
    cases hmode : c.o.modeErr with
    | some e => exact ⟨_, rfl, c.modeErr_neg e hmode⟩
    | none =>
      obtain ⟨⟨w, ret⟩, hw, hwends, -, -⟩ := eepromWrsr_total chip c.o c.enough c.ready
      have hle : ret ≤ 0 := hwends.ret
      dsimp only
      rw [hw, Option.bind_some]
      dsimp only
      split_ifs with hret
      · exact ⟨_, rfl, lt_of_le_of_ne hle hret⟩
      · exact eepromWrite_nil chip c.o c.enough hwends.ready

/-- What `danube_eeprom_write` does with a result that is never positive. -/
theorem danubeEepromWrite_eq {ubuf : List Byte} {off : Nat} {r : EepromSys × Int}
    (hoff : off < eepromSize)
    (huser : ¬(c.userOk = false ∧ fileCount ubuf.length off ≠ 0)) (hret : r.2 ≤ 0)
    (hr : danubeEepromKwrite chip c.o c.polls c.s off (ubuf.take (fileCount ubuf.length off)) =
      some r) :
    danubeEepromWrite chip c.o c.polls c.s c.userOk ubuf off = some ⟨r.1, r.2, off, []⟩ := by
  unfold danubeEepromWrite
  rw [if_neg (not_le.mpr hoff)]
  dsimp only
  rw [writeCount_eq hoff, if_neg huser, hr, Option.map_some, if_neg (not_lt.mpr hret)]

/-- A write never has the result of a success, so that it is right only if it fails. -/
theorem fileWriteRight_fails {ubuf : List Byte} {off : Nat} {r : EepromSys × Int}
    (hoff : off < eepromSize)
    (huser : ¬(c.userOk = false ∧ fileCount ubuf.length off ≠ 0)) (hret : r.2 ≤ 0)
    (hzero : ¬r.2 = fileCount ubuf.length off)
    (hr : danubeEepromKwrite chip c.o c.polls c.s off (ubuf.take (fileCount ubuf.length off)) =
      some r) :
    FileWriteRight c ubuf off ↔ r.2 < 0 ∧ CallFails c.o c.s r.1 := by
  have heq := danubeEepromWrite_eq c hoff huser hret hr
  constructor
  · intro ⟨e, he, hok⟩
    cases Option.some.inj (heq.symm.trans he)
    have hfails : CallFails c.o c.s r.1 := by
      by_contra hfine
      have hnot : ¬(off < eepromSize ∧
          ((c.userOk = false ∧ fileCount ubuf.length off ≠ 0) ∨ CallFails c.o c.s r.1)) :=
        fun hf => hf.2.elim huser hfine
      exact hzero (hok.success hnot).1
    exact ⟨(hok.failure ⟨hoff, Or.inr hfails⟩).1, hfails⟩
  · intro ⟨hneg, hfails⟩
    exact ⟨_, heq, fun hnot => absurd ⟨hoff, Or.inr hfails⟩ hnot, fun _ => ⟨hneg, rfl⟩⟩

theorem fileWriteRight_iff (ubuf : List Byte) (off : Nat) :
    FileWriteRight c ubuf off ↔ eepromSize ≤ off ∨
      (fileCount ubuf.length off = 0 ∧ EmptyWriteFails c off) ∨
      (fileCount ubuf.length off ≠ 0 ∧ c.userOk = true ∧
        CommandFails c off (ubuf.take (fileCount ubuf.length off))) := by
  by_cases hoff : eepromSize ≤ off
  · refine iff_of_true ?_ (Or.inl hoff)
    have heq : danubeEepromWrite chip c.o c.polls c.s c.userOk ubuf off = some ⟨c.s, 0, off, []⟩ :=
      if_pos hoff
    refine ⟨_, heq, ?_, fun hfails => absurd hfails.1 (not_lt.mpr hoff)⟩
    intro _
    rw [fileCount_past hoff]
    exact ⟨rfl, rfl, rfl⟩
  · have hlt : off < eepromSize := not_le.mp hoff
    rw [or_iff_right hoff]
    by_cases hn : fileCount ubuf.length off = 0
    · obtain ⟨r, hr, hneg⟩ := danubeEepromKwrite_nil c off
      have hnil : ubuf.take (fileCount ubuf.length off) = [] := by
        rw [hn]
        exact List.take_zero
      have hzero : ¬r.2 = fileCount ubuf.length off := by
        rw [hn]
        omega
      rw [fileWriteRight_fails c hlt (fun hbad => hbad.2 hn) (le_of_lt hneg) hzero (by rw [hnil, hr]),
        or_iff_left fun hpos => hpos.1 hn, and_iff_right hn, and_iff_right hneg]
      unfold EmptyWriteFails
      constructor
      · intro hfails
        exact ⟨r, hr, hfails⟩
      · intro ⟨r', hr', hfails⟩
        cases Option.some.inj (hr.symm.trans hr')
        exact hfails
    · rw [or_iff_right fun hempty => hn hempty.1, and_iff_right hn]
      cases huser : c.userOk with
      | false =>
        refine iff_of_false ?_ fun hbad => Bool.noConfusion hbad.1
        intro ⟨e, he, hok⟩
        have heq : danubeEepromWrite chip c.o c.polls c.s c.userOk ubuf off =
            some ⟨c.s, -eFault, off, []⟩ := by
          unfold danubeEepromWrite
          rw [if_neg hoff]
          dsimp only
          rw [writeCount_eq hlt, if_pos ⟨huser, hn⟩]
        cases Option.some.inj (heq.symm.trans he)
        have hneg := (hok.failure ⟨hlt, Or.inl ⟨huser, hn⟩⟩).1
        have hpos : ¬-eFault < 0 := by decide
        exact hpos hneg
      | true =>
        have hlen : (ubuf.take (fileCount ubuf.length off)).length = fileCount ubuf.length off := by
          rw [List.length_take]
          exact Nat.min_eq_left (Nat.min_le_left _ _)
        have hdata : ubuf.take (fileCount ubuf.length off) ≠ [] := by
          intro hnil
          rw [hnil, List.length_nil] at hlen
          exact hn hlen.symm
        obtain ⟨r, hr, hret, hsign, hfails⟩ := @danubeEepromKwrite_total chip c off _ hdata
        have hzero : ¬r.2 = fileCount ubuf.length off := by omega
        have hgood : ¬(c.userOk = false ∧ fileCount ubuf.length off ≠ 0) := by
          rw [huser]
          exact fun hbad => Bool.noConfusion hbad.1
        rw [fileWriteRight_fails c hlt hgood hret hzero hr, and_iff_right rfl, ← hsign]
        exact and_iff_left_of_imp hfails

end FileRules

/-- A read goes by the rules of a file just if nothing below it fails, or if there is nothing to read. A
write does so past the end, and where one of its commands fails, but never when all goes well. The kernel
read stores too much just if its fallback is longer than the buffer. -/
theorem eeprom_file_rules_iff (c : EepromCall chip) :
    (∀ rxBuf len off, FileReadRight c rxBuf len off ↔ fileCount len off = 0 ∨
      (c.userOk = true ∧ NothingFails c off (fileCount len off))) ∧
    (∀ ubuf off, FileWriteRight c ubuf off ↔ eepromSize ≤ off ∨
      (fileCount ubuf.length off = 0 ∧ EmptyWriteFails c off) ∨
      (fileCount ubuf.length off ≠ 0 ∧ c.userOk = true ∧
        CommandFails c off (ubuf.take (fileCount ubuf.length off)))) ∧
    ∀ addr len, KreadInside c addr len ↔
      (addr + len).toNat ≤ eepromSize ∨ eepromSize / 2 ≤ len.toNat :=
  ⟨fileReadRight_iff c, fileWriteRight_iff c, kreadInside_iff c⟩

/-- A call on a chip that is not busy, with everything working. -/
def calmCall : EepromCall slowEeprom where
  o := {}
  openErr_neg := fun _ he => by cases he
  modeErr_neg := fun _ he => by cases he
  s := eepromStart (fun _ => 0xaa#8) false 0
  polls := 4
  enough := le_refl _
  ready := ⟨rfl, by decide⟩
  userOk := true

/-- One byte is written to the start of the chip, and the call returns 0. -/
theorem eeprom_write_returns_zero : ¬∀ (chip : EepromChip) (c : EepromCall chip),
    (∀ rxBuf len off, FileReadRight c rxBuf len off) ∧ (∀ ubuf off, FileWriteRight c ubuf off) ∧
      ∀ addr len, KreadInside c addr len := by
  intro h
  have hright := (h slowEeprom calmCall).2.1 [1#8] 0
  have hdata : [1#8] ≠ ([] : List Byte) := List.cons_ne_nil _ _
  obtain ⟨t, ht, -⟩ := danubeEepromKwrite_ok slowEeprom working_default calmCall.enough
    calmCall.ready.selected calmCall.ready.wip hdata (show 0 + 1 ≤ eepromSize by decide)
  have hcount : fileCount [1#8].length 0 = 1 := rfl
  have hzero : ¬(0 : Int) = fileCount [1#8].length 0 := by decide
  have huser : ¬(calmCall.userOk = false ∧ fileCount [1#8].length 0 ≠ 0) := by decide
  have hwrite : danubeEepromKwrite slowEeprom calmCall.o calmCall.polls calmCall.s 0
      ([1#8].take (fileCount [1#8].length 0)) = some (t, 0) := by
    rw [hcount]
    exact ht
  have hneg := ((fileWriteRight_fails calmCall (by decide) huser (le_refl _) hzero hwrite).mp
    hright).1
  exact lt_irrefl _ hneg

end DanubeBsp
