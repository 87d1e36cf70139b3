import Mathlib.Data.BitVec
import DanubeBsp.DeviceTalk
import DanubeBsp.Errno
import DanubeBsp.Adm6996

namespace DanubeBsp

/-- The MACENTRY commands of `adm_ioctl`. -/
inductive MacCmd where
  | add
  | del
  | getInit
  | getMore
  deriving DecidableEq

/-- `MACENTRY`. The two members of the union `ctrl` are the same 9 bits. -/
@[ext]
structure MacEntry where
  macAddr : Fin 6 → BitVec 8
  fid : BitVec 4
  portmap : BitVec 6
  ctrl : BitVec 9
  occupy : BitVec 1
  infoType : BitVec 1
  bad : BitVec 1
  result : BitVec 3
  deriving DecidableEq

abbrev SwTalk := Talk Nat Word

/-- Bit 15 of the status, `check busy`. -/
def swBusy (val : Word) : Bool := val &&& 0x8000#32 ≠ 0

open Talk

/-- The MACENTRY branch of `adm_ioctl`. The entry is the one of the user; it cannot be copied if it is
not mapped. -/
def admIoctlMacentry (cmd : MacCmd) (mapped : Bool) (args : MacEntry) :
    SwTalk (Int × MacEntry) := do
  if !mapped then
    return (-eFault, args)
  let m := args
  let control0 := ((m.macAddr 1).setWidth 32 <<< 8) + (m.macAddr 0).setWidth 32
  let control1 := ((m.macAddr 3).setWidth 32 <<< 8) + (m.macAddr 2).setWidth 32
  let control2 := ((m.macAddr 5).setWidth 32 <<< 8) + (m.macAddr 4).setWidth 32
  let control3 := (m.fid.setWidth 32 &&& 0xf#32) + ((m.portmap.setWidth 32 &&& 0x3f#32) <<< 4)
  let control4 : Word :=
    if m.infoType.setWidth 32 &&& 0x01#32 ≠ 0 then m.ctrl.setWidth 32 + 0x1000#32
    else m.ctrl.setWidth 32 &&& 0xff#32
  if cmd = .getInit then
    -- the search pointer goes to the first address
    let _ ← pollReg swBusy 0x125
    writeReg 0x11f 0x030#32
    let _ ← pollReg swBusy 0x125
  let control5 : Word :=
    if cmd = .add then 0x07#32
    else if cmd = .del then 0x01f#32
    else 0x02c#32
  let _ ← pollReg swBusy 0x125
  writeReg 0x11a control0
  writeReg 0x11b control1
  writeReg 0x11c control2
  writeReg 0x11d control3
  writeReg 0x11e control4
  writeReg 0x11f control5
  let val ← pollReg swBusy 0x125
  let val := (val &&& 0x7000#32) >>> 12
  let m := { m with result := val.setWidth 3 }
  if val = 0 ∧ (cmd = .getInit ∨ cmd = .getMore) then
    let status0 ← readReg 0x120
    let status1 ← readReg 0x121
    let status2 ← readReg 0x122
    let status3 ← readReg 0x123
    let status4 ← readReg 0x124
    let status5 ← readReg 0x125
    let m := { m with
      macAddr := fun
        | 0 => (status0 &&& 0x00ff#32).setWidth 8
        | 1 => ((status0 &&& 0xff00#32) >>> 8).setWidth 8
        | 2 => (status1 &&& 0x00ff#32).setWidth 8
        | 3 => ((status1 &&& 0xff00#32) >>> 8).setWidth 8
        | 4 => (status2 &&& 0x00ff#32).setWidth 8
        | 5 => ((status2 &&& 0xff00#32) >>> 8).setWidth 8
      fid := (status3 &&& 0xf#32).setWidth 4
      portmap := ((status3 >>> 4) &&& 0x3f#32).setWidth 6
      ctrl := (status4 &&& 0x00ff#32).setWidth 9
      infoType := if status5 &&& 0x2#32 ≠ 0 then 1 else 0
      occupy := ((status5 &&& 0x02000#32) >>> 13).setWidth 1
      bad := ((status5 &&& 0x04#32) >>> 2).setWidth 1 }
    return (0, m)
  return (0, m)

/-- The same for an entry of the kernel, which the source writes out a second time. -/
def admProcessMacTableRequest (cmd : MacCmd) (m : MacEntry) : SwTalk (Int × MacEntry) := do
  let control0 := ((m.macAddr 1).setWidth 32 <<< 8) + (m.macAddr 0).setWidth 32
  let control1 := ((m.macAddr 3).setWidth 32 <<< 8) + (m.macAddr 2).setWidth 32
  let control2 := ((m.macAddr 5).setWidth 32 <<< 8) + (m.macAddr 4).setWidth 32
  let control3 := (m.fid.setWidth 32 &&& 0xf#32) + ((m.portmap.setWidth 32 &&& 0x3f#32) <<< 4)
  let control4 : Word :=
    if m.infoType.setWidth 32 &&& 0x01#32 ≠ 0 then m.ctrl.setWidth 32 + 0x1000#32
    else m.ctrl.setWidth 32 &&& 0xff#32
  if cmd = .getInit then
    let _ ← pollReg swBusy 0x125
    writeReg 0x11f 0x030#32
    let _ ← pollReg swBusy 0x125
  let control5 : Word :=
    if cmd = .add then 0x07#32
    else if cmd = .del then 0x01f#32
    else 0x02c#32
  let _ ← pollReg swBusy 0x125
  writeReg 0x11a control0
  writeReg 0x11b control1
  writeReg 0x11c control2
  writeReg 0x11d control3
  writeReg 0x11e control4
  writeReg 0x11f control5
  let val ← pollReg swBusy 0x125
  let val := (val &&& 0x7000#32) >>> 12
  let m := { m with result := val.setWidth 3 }
  if val = 0 ∧ (cmd = .getInit ∨ cmd = .getMore) then
    let status0 ← readReg 0x120
    let status1 ← readReg 0x121
    let status2 ← readReg 0x122
    let status3 ← readReg 0x123
    let status4 ← readReg 0x124
    let status5 ← readReg 0x125
    let m := { m with
      macAddr := fun
        | 0 => (status0 &&& 0x00ff#32).setWidth 8
        | 1 => ((status0 &&& 0xff00#32) >>> 8).setWidth 8
        | 2 => (status1 &&& 0x00ff#32).setWidth 8
        | 3 => ((status1 &&& 0xff00#32) >>> 8).setWidth 8
        | 4 => (status2 &&& 0x00ff#32).setWidth 8
        | 5 => ((status2 &&& 0xff00#32) >>> 8).setWidth 8
      fid := (status3 &&& 0xf#32).setWidth 4
      portmap := ((status3 >>> 4) &&& 0x3f#32).setWidth 6
      ctrl := (status4 &&& 0x00ff#32).setWidth 9
      infoType := if status5 &&& 0x2#32 ≠ 0 then 1 else 0
      occupy := ((status5 &&& 0x02000#32) >>> 13).setWidth 1
      bad := ((status5 &&& 0x04#32) >>> 2).setWidth 1 }
    return (0, m)
  return (0, m)

section Protocol

/-- The words that name an entry to the switch. -/
def macWord (m : MacEntry) : Fin 4 → Word
  | 0 => ((m.macAddr 1).setWidth 32 <<< 8) + (m.macAddr 0).setWidth 32
  | 1 => ((m.macAddr 3).setWidth 32 <<< 8) + (m.macAddr 2).setWidth 32
  | 2 => ((m.macAddr 5).setWidth 32 <<< 8) + (m.macAddr 4).setWidth 32
  | 3 => (m.fid.setWidth 32 &&& 0xf#32) + ((m.portmap.setWidth 32 &&& 0x3f#32) <<< 4)

def macCtrlWord (m : MacEntry) : Word :=
  if m.infoType.setWidth 32 &&& 0x01#32 ≠ 0 then m.ctrl.setWidth 32 + 0x1000#32
  else m.ctrl.setWidth 32 &&& 0xff#32

def MacCmd.code : MacCmd → Word
  | .add => 0x07#32
  | .del => 0x01f#32
  | .getInit => 0x02c#32
  | .getMore => 0x02c#32

/-- The entry that the status words give. -/
def macStatus (m : MacEntry) (status : Fin 6 → Word) : MacEntry :=
  { m with
    macAddr := fun
      | 0 => (status 0 &&& 0x00ff#32).setWidth 8
      | 1 => ((status 0 &&& 0xff00#32) >>> 8).setWidth 8
      | 2 => (status 1 &&& 0x00ff#32).setWidth 8
      | 3 => ((status 1 &&& 0xff00#32) >>> 8).setWidth 8
      | 4 => (status 2 &&& 0x00ff#32).setWidth 8
      | 5 => ((status 2 &&& 0xff00#32) >>> 8).setWidth 8
    fid := (status 3 &&& 0xf#32).setWidth 4
    portmap := ((status 3 >>> 4) &&& 0x3f#32).setWidth 6
    ctrl := (status 4 &&& 0x00ff#32).setWidth 9
    infoType := if status 5 &&& 0x2#32 ≠ 0 then 1 else 0
    occupy := ((status 5 &&& 0x02000#32) >>> 13).setWidth 1
    bad := ((status 5 &&& 0x04#32) >>> 2).setWidth 1 }

/-- One round of the switch: it is ready, takes the words and is ready again. -/
def swRound (words : List (Nat × Word)) : SwTalk Word := do
  let _ ← pollReg swBusy 0x125
  writeRegs words
  pollReg swBusy 0x125

def macWords (cmd : MacCmd) (m : MacEntry) : List (Nat × Word) :=
  [(0x11a, macWord m 0), (0x11b, macWord m 1), (0x11c, macWord m 2), (0x11d, macWord m 3),
    (0x11e, macCtrlWord m), (0x11f, cmd.code)]

/-- A search that found an entry reads it. -/
def macFinish (cmd : MacCmd) (m : MacEntry) (val : Word) : SwTalk (Int × MacEntry) := do
  let result := (val &&& 0x7000#32) >>> 12
  let m := { m with result := result.setWidth 3 }
  if result = 0 ∧ (cmd = .getInit ∨ cmd = .getMore) then
    let s0 ← readReg 0x120
    let s1 ← readReg 0x121
    let s2 ← readReg 0x122
    let s3 ← readReg 0x123
    let s4 ← readReg 0x124
    let s5 ← readReg 0x125
    return (0, macStatus m fun
      | 0 => s0
      | 1 => s1
      | 2 => s2
      | 3 => s3
      | 4 => s4
      | 5 => s5)
  else return (0, m)

/-- A command is one round, and a search from the start has a round before it. -/
def macTalk (cmd : MacCmd) (m : MacEntry) : SwTalk (Int × MacEntry) := do
  if cmd = .getInit then
    let _ ← swRound [(0x11f, 0x030#32)]
  let val ← swRound (macWords cmd m)
  macFinish cmd m val

theorem admProcessMacTableRequest_eq (cmd : MacCmd) (m : MacEntry) :
    admProcessMacTableRequest cmd m = macTalk cmd m := by
  cases cmd <;>
    simp [admProcessMacTableRequest, macTalk, swRound, macWords, macFinish, writeRegs, macWord,
      macCtrlWord, MacCmd.code, macStatus]

theorem admIoctlMacentry_eq (cmd : MacCmd) (m : MacEntry) :
    admIoctlMacentry cmd true m = macTalk cmd m := by
  cases cmd <;>
    simp [admIoctlMacentry, macTalk, swRound, macWords, macFinish, writeRegs, macWord,
      macCtrlWord, MacCmd.code, macStatus]

end Protocol

section Decoding

theorem byte_pair_toNat (hi lo : BitVec 8) :
    ((hi.setWidth 32 <<< 8) + lo.setWidth 32 : Word).toNat = hi.toNat * 2 ^ 8 + lo.toNat := by
  have hhi := hi.isLt
  have hlo := lo.isLt
  rw [BitVec.toNat_add, BitVec.toNat_shiftLeft, BitVec.toNat_setWidth, BitVec.toNat_setWidth,
    Nat.shiftLeft_eq]
  omega

/-- Two bytes in one word come back. -/
theorem byte_pair_low {hi lo : BitVec 8} {x : Word}
    (hx : x = (hi.setWidth 32 <<< 8) + lo.setWidth 32) : (x &&& 0x00ff#32).setWidth 8 = lo := by
  have hlo := lo.isLt
  have hmask : (0x00ff#32).toNat = 2 ^ 8 - 1 := rfl
  apply BitVec.eq_of_toNat_eq
  rw [BitVec.toNat_setWidth, BitVec.toNat_and, hx, byte_pair_toNat, hmask,
    Nat.and_two_pow_sub_one_eq_mod]
  omega

theorem byte_pair_high {hi lo : BitVec 8} {x : Word}
    (hx : x = (hi.setWidth 32 <<< 8) + lo.setWidth 32) :
    ((x &&& 0xff00#32) >>> 8).setWidth 8 = hi := by
  have hhi := hi.isLt
  have hlo := lo.isLt
  have hmask : (0xff00#32 >>> 8).toNat = 2 ^ 8 - 1 := rfl
  apply BitVec.eq_of_toNat_eq
  rw [BitVec.toNat_setWidth, BitVec.ushiftRight_and_distrib, BitVec.toNat_and,
    BitVec.toNat_ushiftRight, hx, byte_pair_toNat, hmask, Nat.and_two_pow_sub_one_eq_mod,
    Nat.shiftRight_eq_div_pow]
  omega

theorem fid_portmap_toNat (m : MacEntry) :
    (macWord m 3).toNat = m.fid.toNat + m.portmap.toNat * 2 ^ 4 := by
  have hfid := m.fid.isLt
  have hportmap := m.portmap.isLt
  have hfour : (0xf#32).toNat = 2 ^ 4 - 1 := rfl
  have hsix : (0x3f#32).toNat = 2 ^ 6 - 1 := rfl
  show ((m.fid.setWidth 32 &&& 0xf#32) + ((m.portmap.setWidth 32 &&& 0x3f#32) <<< 4) : Word).toNat =
    _
  rw [BitVec.toNat_add, BitVec.toNat_shiftLeft, BitVec.toNat_and, BitVec.toNat_and,
    BitVec.toNat_setWidth, BitVec.toNat_setWidth, hfour, hsix, Nat.and_two_pow_sub_one_eq_mod,
    Nat.and_two_pow_sub_one_eq_mod, Nat.shiftLeft_eq]
  omega

/-- A status that shows the words of an entry. -/
def macShown (m : MacEntry) (status4 status5 : Word) : Fin 6 → Word
  | 0 => macWord m 0
  | 1 => macWord m 1
  | 2 => macWord m 2
  | 3 => macWord m 3
  | 4 => status4
  | 5 => status5

/-- The status decoder gives back what the words were made of. -/
theorem macStatus_macShown (m old : MacEntry) (status4 status5 : Word) :
    (macStatus old (macShown m status4 status5)).macAddr = m.macAddr ∧
      (macStatus old (macShown m status4 status5)).fid = m.fid ∧
      (macStatus old (macShown m status4 status5)).portmap = m.portmap := by
  have hthree := fid_portmap_toNat m
  have hfid := m.fid.isLt
  have hportmap := m.portmap.isLt
  have hfour : (0xf#32).toNat = 2 ^ 4 - 1 := rfl
  have hsix : (0x3f#32).toNat = 2 ^ 6 - 1 := rfl
  refine ⟨?_, ?_, ?_⟩
  · funext i
    match i with
    | 0 => exact byte_pair_low rfl
    | 1 => exact byte_pair_high rfl
    | 2 => exact byte_pair_low rfl
    | 3 => exact byte_pair_high rfl
    | 4 => exact byte_pair_low rfl
    | 5 => exact byte_pair_high rfl
  · show (macWord m 3 &&& 0xf#32).setWidth 4 = m.fid
    apply BitVec.eq_of_toNat_eq
    rw [BitVec.toNat_setWidth, BitVec.toNat_and, hthree, hfour, Nat.and_two_pow_sub_one_eq_mod]
    omega
  · show ((macWord m 3 >>> 4) &&& 0x3f#32).setWidth 6 = m.portmap
    apply BitVec.eq_of_toNat_eq
    rw [BitVec.toNat_setWidth, BitVec.toNat_and, BitVec.toNat_ushiftRight, hthree, hsix,
      Nat.and_two_pow_sub_one_eq_mod, Nat.shiftRight_eq_div_pow]
    omega

end Decoding

/-- Both paths make the same accesses, those of the protocol, and leave the same entry, and the words
of an entry determine its address, id and port map. -/
theorem mac_paths_agree :
    (∀ (cmd : MacCmd) (m : MacEntry) (answers : List Word),
      admIoctlMacentry cmd true m answers = admProcessMacTableRequest cmd m answers ∧
        admProcessMacTableRequest cmd m answers = macTalk cmd m answers) ∧
      ∀ (m old : MacEntry) (status4 status5 : Word),
        (macStatus old (macShown m status4 status5)).macAddr = m.macAddr ∧
          (macStatus old (macShown m status4 status5)).fid = m.fid ∧
          (macStatus old (macShown m status4 status5)).portmap = m.portmap := by
  refine ⟨fun cmd m answers => ⟨?_, ?_⟩, macStatus_macShown⟩
  · rw [admIoctlMacentry_eq, admProcessMacTableRequest_eq]
  · rw [admProcessMacTableRequest_eq]

end DanubeBsp
