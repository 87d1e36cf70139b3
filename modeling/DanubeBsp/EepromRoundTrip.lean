import DanubeBsp.EepromData

namespace DanubeBsp

/-- The serial port driver does what it is asked to. -/
structure SscServices.Working (o : SscServices) : Prop where
  opens : o.openErr = none
  mode : o.modeErr = none
  sends : ∀ n, o.fault n = none

section Calls

variable (chip : EepromChip) {o : SscServices} (hok : o.Working) {s : EepromSys}

include hok

theorem danubeEepromKwrite_ok {polls addr : Nat} {data : List Byte}
    (hpolls : chip.busyBound + 2 ≤ polls) (h : s.dev.selected = false) (hw : s.dev.wip < polls)
    (hdata : data ≠ []) (hrange : addr + data.length ≤ eepromSize) :
    ∃ t, danubeEepromKwrite chip o polls s addr data = some (t, 0) ∧ t.dev.selected = false ∧
      t.dev.wip ≤ chip.busyBound ∧ t.dev.mem = writeBlock s.dev.mem addr data := by
  obtain ⟨w, hwrsr, hwsel, hwmem, hwwip⟩ := eepromWrsr_ok chip hok.sends hpolls h hw
  have hbound : chip.busyBound < polls := by omega
  have hlt : w.dev.wip < polls := by omega
  obtain ⟨t, hwrite, htsel, htwip, htmem⟩ := eepromWrite_ok chip hok.sends hbound hwsel hlt hdata
    hrange (Nat.le_succ data.length)
  refine ⟨t, ?_, htsel, htwip, ?_⟩
  · unfold danubeEepromKwrite
    rw [hok.opens, hok.mode]
    dsimp only
    rw [hwrsr, Option.bind_some, if_neg (not_not.mpr rfl)]
    exact hwrite
  · rw [htmem, hwmem]

theorem danubeEepromKread_ok {polls addr len : Nat} (hpolls : chip.busyBound + 2 ≤ polls)
    (h : s.dev.selected = false) (hw : s.dev.wip < polls) (hlen : len ≠ 0)
    (hrange : addr + len ≤ eepromSize) :
    ∃ t, danubeEepromKread chip o polls s addr len =
        some (t, readBlock s.dev.mem addr len, len) ∧ t.dev.mem = s.dev.mem := by
  obtain ⟨w, hwrsr, hwsel, hwmem, hwwip⟩ := eepromWrsr_ok chip hok.sends hpolls h hw
  have hlt : w.dev.wip < polls := by omega
  obtain ⟨t, hread, htmem⟩ := eepromRead_ok chip hok.sends hwsel hlt hlen hrange (Nat.le_succ len)
  have hinside : ¬eepromSize < (addr + len) % 2 ^ 32 := by
    simp only [eepromSize] at hrange ⊢
    omega
  refine ⟨t, ?_, htmem.trans hwmem⟩
  unfold danubeEepromKread
  rw [hok.opens, hok.mode]
  dsimp only
  rw [hwrsr, Option.bind_some, if_neg (not_not.mpr rfl), if_neg hinside, hread, hwmem]
  rfl

end Calls

/-- A write of `data` and a read of the same range, as they are meant: the data come back, no other byte
has changed, no page write goes over the end of its page, and the frames are the commands. -/
structure EepromRoundTrip (chip : EepromChip) (ow or : SscServices) (polls : Nat) (s : EepromSys)
    (addr : Nat) (data : List Byte) (w : EepromSys × Int) (r : EepromSys × List Byte × Nat) :
    Prop where
  kwrite : danubeEepromKwrite chip ow polls s addr data = some w
  kread : danubeEepromKread chip or polls w.1 addr data.length = some r
  back : r.2.1 = data
  outside : ∀ i, i < addr ∨ addr + data.length ≤ i → r.1.dev.mem i = s.dev.mem i
  pages : ∀ c ∈ r.1.commands, PageOk c
  framed : r.1.dev.selected = false ∧ r.1.dev.frames = r.1.commands

theorem EepromIdle.eepromStart (mem : Nat → Byte) (wel : Bool) (wip : Nat) :
    EepromIdle 0 (eepromStart mem wel wip) := by
  refine ⟨rfl, rfl, ?_⟩
  intro c hc
  cases hc

/-- The data come back and the page writes are right, but `eeprom_wrsr` puts chip select low once more
where it should put it high, so its command never has a frame of its own. -/
theorem eeprom_write_read_misframed (chip : EepromChip) (mem : Nat → Byte) (wel : Bool) (wip : Nat)
    {addr : Nat} {data : List Byte} (hdata : data ≠ [])
    (hrange : addr + data.length ≤ eepromSize) :
    (∀ ow or polls w r,
      ¬EepromRoundTrip chip ow or polls (eepromStart mem wel wip) addr data w r) ∧
    (∃ least, ∀ polls, least ≤ polls → ∀ ow or : SscServices, ow.Working → or.Working →
      ∃ w r, danubeEepromKwrite chip ow polls (eepromStart mem wel wip) addr data = some (w, 0) ∧
        danubeEepromKread chip or polls w addr data.length = some (r, data, data.length) ∧
        ∀ i, i < addr ∨ addr + data.length ≤ i → r.dev.mem i = mem i) ∧
    ∀ ow or polls w r,
      danubeEepromKwrite chip ow polls (eepromStart mem wel wip) addr data = some w →
      danubeEepromKread chip or polls w.1 addr data.length = some r →
      r.1.dev.selected = false ∧ ∀ c ∈ r.1.commands, PageOk c := by
  refine ⟨?_, ⟨chip.busyBound + wip + 2, ?_⟩, ?_⟩
  · intro ow or polls w r h
    obtain ⟨d, hwidle⟩ := danubeEepromKwrite_idle chip ow (.eepromStart mem wel wip) h.kwrite
    obtain ⟨d', hridle, hmissing⟩ := danubeEepromKread_idle chip or hwidle h.kread
    have hpos : 0 < d' := hmissing (by rw [h.back]; exact hdata)
    have hcount := hridle.count
    rw [h.framed.2] at hcount
    omega
  · intro polls hpolls ow or how hor
    have hwip : (eepromStart mem wel wip).dev.wip < polls := by
      show wip < polls
      omega
    obtain ⟨w, hkwrite, hwsel, hwwip, hwmem⟩ :=
      danubeEepromKwrite_ok chip how (by omega) rfl hwip hdata hrange
    have hlen : data.length ≠ 0 := fun hz => hdata (List.length_eq_zero_iff.mp hz)
    have hwlt : w.dev.wip < polls := by omega
    obtain ⟨r, hkread, hrmem⟩ := danubeEepromKread_ok chip hor (by omega) hwsel hwlt hlen hrange
    refine ⟨w, r, hkwrite, ?_, ?_⟩
    · rw [hkread, hwmem, readBlock_of_blockAt (blockAt_writeBlock _ _ _)]
    · intro i hi
      rw [hrmem, hwmem, writeBlock_outside hi]
      rfl
  · intro ow or polls w r hkwrite hkread
    obtain ⟨d, hwidle⟩ := danubeEepromKwrite_idle chip ow (.eepromStart mem wel wip) hkwrite
    obtain ⟨d', hridle, -⟩ := danubeEepromKread_idle chip or hwidle hkread
    exact ⟨hridle.selected, hridle.pages⟩

/-- A chip whose writes go on for two frames. -/
def slowEeprom : EepromChip := ⟨fun _ _ => 0xff#8, fun _ => 2, 2, fun _ => le_rfl, false⟩

/-- Two bytes before the end of the first half of the chip and four after. -/
theorem eeprom_write_read_misframed_across :
    ([1#8, 2#8, 3#8, 4#8, 5#8, 6#8] ≠ ([] : List Byte) ∧ 254 + 6 ≤ eepromSize) ∧
    ∀ ow or polls w r, ¬EepromRoundTrip slowEeprom ow or polls
      (eepromStart (fun _ => 0xaa#8) false 0) 254 [1#8, 2#8, 3#8, 4#8, 5#8, 6#8] w r := by
  have hne : [1#8, 2#8, 3#8, 4#8, 5#8, 6#8] ≠ ([] : List Byte) := by simp
  have hfits : 254 + 6 ≤ eepromSize := by decide
  exact ⟨⟨hne, hfits⟩, (eeprom_write_read_misframed slowEeprom (fun _ => 0xaa#8) false 0 hne
    hfits).1⟩

/-- Neither call fails, and the status write and the status read are in one frame. -/
theorem eeprom_wrsr_joins_rdsr : ∃ w r,
    danubeEepromKwrite slowEeprom {} 4 (eepromStart (fun _ => 0xaa#8) false 0) 254
      [1#8, 2#8, 3#8, 4#8, 5#8, 6#8] = some (w, 0) ∧
    danubeEepromKread slowEeprom {} 4 w 254 6 = some (r, [1#8, 2#8, 3#8, 4#8, 5#8, 6#8], 6) ∧
    [eepromCmdWrsr, 0#8] ∈ r.commands ∧ [eepromCmdWrsr, 0#8] ∉ r.dev.frames ∧
    [eepromCmdWrsr, 0#8, eepromCmdRdsr, 0#8] ∈ r.dev.frames ∧
    r.commands.length = 25 ∧ r.dev.frames.length = 23 := by
  refine ⟨_, _, rfl, rfl, ?_⟩
  decide +kernel

end DanubeBsp
