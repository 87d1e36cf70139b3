import DanubeBsp.AscSettings
import DanubeBsp.FlipBuffer
import DanubeBsp.Runs

namespace DanubeBsp

def ascstateAny : Word := ascstateRoe ||| ascstatePe ||| ascstateFe

def ascwhbstateClrpe : Word := 0x4#32

def ascwhbstateClrfe : Word := 0x8#32

def ascwhbstateClrroe : Word := 0x20#32

def ascfstatRxfflmask : Word := 0x3f#32

/-- What a turn of the receive loop reads from RBUF and STATE. -/
structure AscChar where
  rbuf : Word
  state : Word

/-- The receive side of the port: the terminal, `icount` and WHBSTATE. -/
structure AscRx where
  tty : FlipTty
  icountRx : Word
  icountParity : Word
  icountFrame : Word
  icountOverrun : Word
  whbstate : Word

/-- The error path for a character. It leaves the masked status. -/
def rxError (m : StatusMasks) (p : AscRx) (rsr : Word) : AscRx × Word :=
  let p :=
    if rsr &&& ascstatePe ≠ 0 then
      { p with icountParity := p.icountParity + 1, whbstate := p.whbstate ||| ascwhbstateClrpe }
    else if rsr &&& ascstateFe ≠ 0 then
      { p with icountFrame := p.icountFrame + 1, whbstate := p.whbstate ||| ascwhbstateClrfe }
    else p
  let p :=
    if rsr &&& ascstateRoe ≠ 0 then
      { p with icountOverrun := p.icountOverrun + 1, whbstate := p.whbstate ||| ascwhbstateClrroe }
    else p
  let rsr := rsr &&& m.readStatusMask
  let tty :=
    if rsr &&& ascstatePe ≠ 0 then p.tty.setFlag .parity
    else if rsr &&& ascstateFe ≠ 0 then p.tty.setFlag .frame
    else p.tty
  ({ p with tty := tty }, rsr)

/-- A turn of the loop in `danubeasc_rx_chars`, and whether the loop goes on. The driver never calls
`uart_handle_break`, so `uart_handle_sysrq_char` takes no character. -/
def rxChar (m : StatusMasks) (p : AscRx) (c : AscChar) : AscRx × Bool :=
  let rsr := (c.state &&& ascstateAny) ||| uartDummyUerRx
  let p := if ttyFlipbufSize ≤ p.tty.count then { p with tty := flushToLdisc p.tty } else p
  if ttyFlipbufSize ≤ p.tty.count then (p, false)
  else
    let tty := (p.tty.setChar (c.rbuf.setWidth 8)).setFlag .normal
    let p := { p with tty := tty, icountRx := p.icountRx + 1 }
    let (p, rsr) := if rsr &&& ascstateAny ≠ 0 then rxError m p rsr else (p, rsr)
    let p := if rsr &&& m.ignoreStatusMask = 0 then { p with tty := p.tty.advance } else p
    let p :=
      if rsr &&& ascstateRoe ≠ 0 ∧ p.tty.count < ttyFlipbufSize then
        { p with tty := ((p.tty.setChar 0).setFlag .overrun).advance }
      else p
    (p, true)

/-- The loop, with the character read last. -/
def rxLoop (m : StatusMasks) : Word → AscRx → List AscChar → Word × AscRx × Bool
  | ch, p, [] => (ch, p, true)
  | _, p, c :: cs =>
    if (rxChar m p c).2 then rxLoop m c.rbuf (rxChar m p c).1 cs
    else (c.rbuf, (rxChar m p c).1, false)

/-- What comes after the loop. -/
def rxFinish : Word × AscRx × Bool → AscRx
  | (ch, p, goOn) => if goOn ∧ ch ≠ 0 then { p with tty := ttyFlipBufferPush p.tty } else p

/-- The characters that FSTAT announces. -/
def rxFifo (fstat : Word) (reads : Nat → AscChar) : List AscChar :=
  (List.range (fstat &&& ascfstatRxfflmask).toNat).map reads

def danubeascRxChars (m : StatusMasks) (p : AscRx) (fstat : Word) (reads : Nat → AscChar) : AscRx :=
  rxFinish (rxLoop m 0 p (rxFifo fstat reads))

/-- The turns of the loop, up to an early return. -/
def rxCharStep (m : StatusMasks) (p : AscRx) (c : AscChar) : Option AscRx :=
  if (rxChar m p c).2 then some (rxChar m p c).1 else none

/-- The status of a character: the errors that are looked for, and the fake one for CREAD. -/
def lineStatus (m : StatusMasks) (c : AscChar) : Word :=
  ((c.state &&& ascstateAny) &&& m.readStatusMask) ||| uartDummyUerRx

def ToIgnore (m : StatusMasks) (c : AscChar) : Prop := lineStatus m c &&& m.ignoreStatusMask ≠ 0

instance (m : StatusMasks) (c : AscChar) : Decidable (ToIgnore m c) :=
  inferInstanceAs (Decidable (_ ≠ _))

def statusFlag (status : Word) : TtyFlag :=
  if status &&& ascstatePe ≠ 0 then .parity
  else if status &&& ascstateFe ≠ 0 then .frame
  else .normal

/-- What the flip buffer must get for a character. -/
def dueEntries (m : StatusMasks) (c : AscChar) : List (Byte × TtyFlag) :=
  if ToIgnore m c then [] else [(c.rbuf.setWidth 8, statusFlag (lineStatus m c))]

/-- Nothing, or one marker after an overrun. -/
def MarkerOk (c : AscChar) (mark : List (Byte × TtyFlag)) : Prop :=
  mark = [] ∨ (c.state &&& ascstateRoe ≠ 0 ∧ mark = [(0, .overrun)])

/-- A turn stores what is due, behind everything stored before. -/
structure TurnRight (m : StatusMasks) (p : AscRx) (c : AscChar) : Prop where
  fits : FlipFits (rxChar m p c).1.tty
  stored : ∃ mark, MarkerOk c mark ∧
    (rxChar m p c).1.tty.stream = p.tty.stream ++ (dueEntries m c ++ mark)

/-- The port when the receive interrupt comes. -/
structure RxStart where
  port : AscRx
  fits : FlipFits port.tty
  fresh : port.tty.unpushed = false

/-- Every character taken is stored or ignored as it must be, the count stays with the pointers, and what
was stored is pushed. -/
structure RxRight (m : StatusMasks) (s : RxStart) (fstat : Word) (reads : Nat → AscChar) : Prop where
  turns : RunMeets (rxCharStep m) (TurnRight m) s.port (rxFifo fstat reads)
  fits : FlipFits (danubeascRxChars m s.port fstat reads).tty
  pushed : (danubeascRxChars m s.port fstat reads).tty.unpushed = false

/-- The masked status drops the fake one: a character with an error is kept though CREAD is off. -/
def KeptUnread (m : StatusMasks) (c : AscChar) : Prop :=
  c.state &&& ascstateAny ≠ 0 ∧ m.ignoreStatusMask &&& uartDummyUerRx ≠ 0 ∧
    (((c.state &&& ascstateAny) ||| uartDummyUerRx) &&& m.readStatusMask) &&& m.ignoreStatusMask = 0

/-- No character is taken while there is no room for it, but one to ignore. -/
def TurnGood (m : StatusMasks) (p : AscRx) (c : AscChar) : Prop :=
  if p.tty.Jammed then ToIgnore m c else ¬KeptUnread m c

/-- The status that the code goes on with. -/
def rxStatus (m : StatusMasks) (c : AscChar) : Word :=
  if c.state &&& ascstateAny ≠ 0 then
    ((c.state &&& ascstateAny) ||| uartDummyUerRx) &&& m.readStatusMask
  else uartDummyUerRx

/-- The code stores neither the character nor a marker. -/
def StoresNothing (m : StatusMasks) (c : AscChar) : Prop :=
  rxStatus m c &&& m.ignoreStatusMask ≠ 0 ∧ rxStatus m c &&& ascstateRoe = 0

/-- A turn after which the loop ends leaves nothing behind that the push would miss. -/
def PushGood (m : StatusMasks) (p : AscRx) (c : AscChar) (rest : List AscChar) : Prop :=
  if p.tty.Jammed then p.tty.ldisc = true ∨ p.tty.unpushed = false
  else rest = [] → c.rbuf ≠ 0 ∨
    (StoresNothing m c ∧ (ttyFlipbufSize ≤ p.tty.count ∨ p.tty.unpushed = false))

/-- The condition at every turn, in the state before it. -/
def PushesGood (m : StatusMasks) : AscRx → List AscChar → Prop
  | _, [] => True
  | p, c :: cs => PushGood m p c cs ∧ ∀ t, rxCharStep m p c = some t → PushesGood m t cs


section Status

variable {m : StatusMasks} {c : AscChar}

theorem lineStatus_and (x : Word) : lineStatus m c &&& x =
    ((c.state &&& ascstateAny) &&& m.readStatusMask) &&& x ||| uartDummyUerRx &&& x :=
  BitVec.and_or_distrib_right

/-- The two statuses differ in the fake error only. -/
theorem rxStatus_and {x : Word} (hx : uartDummyUerRx &&& x = 0) :
    rxStatus m c &&& x = lineStatus m c &&& x := by
  rw [lineStatus_and, hx]
  unfold rxStatus
  split_ifs with herr
  · have hdummy : (uartDummyUerRx &&& m.readStatusMask) &&& x = 0 := by
      rw [BitVec.and_assoc, BitVec.and_comm m.readStatusMask x, ← BitVec.and_assoc, hx]
      simp
    rw [BitVec.and_or_distrib_right, BitVec.and_or_distrib_right, hdummy]
  · rw [not_not.mp herr, hx]
    simp

theorem statusFlag_rxStatus : statusFlag (rxStatus m c) = statusFlag (lineStatus m c) := by
  unfold statusFlag
  rw [rxStatus_and (by decide), rxStatus_and (by decide)]

theorem rxStatus_roe (h : rxStatus m c &&& ascstateRoe ≠ 0) : c.state &&& ascstateRoe ≠ 0 := by
  intro hstate
  apply h
  have hany : ascstateAny &&& ascstateRoe = ascstateRoe := by decide
  have hraw : ((c.state &&& ascstateAny) &&& m.readStatusMask) &&& ascstateRoe = 0 := by
    rw [BitVec.and_assoc, BitVec.and_comm m.readStatusMask, ← BitVec.and_assoc,
      BitVec.and_assoc c.state, hany, hstate]
    simp
  rw [rxStatus_and (by decide), lineStatus_and, hraw]
  decide

theorem statusFlag_ne (status : Word) : statusFlag status ≠ .overrun := by
  unfold statusFlag
  split_ifs <;> decide

/-- The code keeps a character that is to be ignored just in the one case. -/
theorem keptUnread_iff :
    KeptUnread m c ↔ ToIgnore m c ∧ rxStatus m c &&& m.ignoreStatusMask = 0 := by
  unfold KeptUnread ToIgnore rxStatus
  rw [lineStatus_and, or_ne_zero_iff, BitVec.and_comm m.ignoreStatusMask]
  split_ifs with herr
  · constructor
    · intro ⟨_, hcread, hkept⟩
      exact ⟨Or.inr hcread, hkept⟩
    · intro ⟨hig, hkept⟩
      refine ⟨herr, ?_, hkept⟩
      rw [BitVec.and_or_distrib_right, BitVec.and_or_distrib_right, BitVec.ofNat_eq_ofNat,
        BitVec.or_eq_zero_iff] at hkept
      exact hig.resolve_left (not_not.mpr hkept.1)
  · refine iff_of_false (fun h => herr h.1) ?_
    intro ⟨hig, hkept⟩
    rw [not_not.mp herr] at hig
    rcases hig with hig | hig
    · exact hig (by simp)
    · exact hig hkept

/-- The code drops only what is to be ignored. -/
theorem toIgnore_of_dropped (h : rxStatus m c &&& m.ignoreStatusMask ≠ 0) : ToIgnore m c := by
  unfold rxStatus at h
  unfold ToIgnore
  rw [lineStatus_and, or_ne_zero_iff]
  split_ifs at h with herr
  · rw [BitVec.and_or_distrib_right, BitVec.and_or_distrib_right, or_ne_zero_iff] at h
    rcases h with hstate | hdummy
    · exact Or.inl hstate
    · refine Or.inr ?_
      intro hcread
      rw [BitVec.and_assoc, BitVec.and_comm m.readStatusMask, ← BitVec.and_assoc, hcread] at hdummy
      exact hdummy (by simp)
  · exact Or.inr h

theorem dueEntries_eq : dueEntries m c =
    if ToIgnore m c then [] else [(c.rbuf.setWidth 8, statusFlag (rxStatus m c))] := by
  unfold dueEntries
  rw [statusFlag_rxStatus]

end Status

/-- What the code stores of a character. -/
def keptEntries (m : StatusMasks) (c : AscChar) : List (Byte × TtyFlag) :=
  if rxStatus m c &&& m.ignoreStatusMask = 0 then
    [(c.rbuf.setWidth 8, statusFlag (rxStatus m c))]
  else []

/-- The terminal when the loop has tried to make room. -/
def FlipTty.withRoom (t : FlipTty) : FlipTty :=
  if ttyFlipbufSize ≤ t.count then flushToLdisc t else t

/-- The terminal with a character and its flag written, but not yet taken. -/
def FlipTty.written (m : StatusMasks) (t : FlipTty) (c : AscChar) : FlipTty :=
  (t.setChar (c.rbuf.setWidth 8)).setFlag (statusFlag (rxStatus m c))

def FlipTty.taken (m : StatusMasks) (t : FlipTty) (c : AscChar) : FlipTty :=
  if rxStatus m c &&& m.ignoreStatusMask = 0 then (t.written m c).advance else t.written m c

/-- The terminal after the turn of a character. -/
def FlipTty.turn (m : StatusMasks) (t : FlipTty) (c : AscChar) : FlipTty :=
  if rxStatus m c &&& ascstateRoe ≠ 0 ∧ (t.taken m c).count < ttyFlipbufSize then
    (((t.taken m c).setChar 0).setFlag .overrun).advance
  else t.taken m c

section Turn

variable {m : StatusMasks} {p : AscRx} {c : AscChar} {t : FlipTty}

theorem withRoom_full : ttyFlipbufSize ≤ t.withRoom.count ↔ t.Jammed := by
  unfold FlipTty.withRoom
  split_ifs with hfull
  · exact flush_count_full hfull
  · exact iff_of_false hfull fun h => hfull h.1

theorem withRoom_stream : t.withRoom.stream = t.stream := by
  unfold FlipTty.withRoom
  split_ifs
  · exact flushToLdisc_stream
  · rfl

theorem FlipFits.withRoom (h : FlipFits t) : FlipFits t.withRoom := by
  unfold FlipTty.withRoom
  split_ifs
  · exact h.flush
  · exact h

theorem withRoom_unpushed (hroom : ¬t.Jammed) :
    t.withRoom.unpushed = false ↔ ttyFlipbufSize ≤ t.count ∨ t.unpushed = false := by
  unfold FlipTty.withRoom
  split_ifs with hfull
  · have hldisc : t.ldisc = true := by
      by_contra hldisc
      exact hroom ⟨hfull, fun h => hldisc h.1⟩
    simp [flush_unpushed, hldisc, hfull]
  · simp [hfull]

theorem setFlag_setFlag (a b : TtyFlag) : (t.setFlag a).setFlag b = t.setFlag b := by
  simp only [FlipTty.setFlag, Function.update_idem]

theorem rxError_tty (rsr : Word) : (rxError m p rsr).1.tty =
    if statusFlag (rsr &&& m.readStatusMask) = .normal then p.tty
    else p.tty.setFlag (statusFlag (rsr &&& m.readStatusMask)) := by
  unfold rxError statusFlag
  dsimp only
  split_ifs <;> simp_all

theorem rxChar_jammed (h : p.tty.Jammed) :
    (rxChar m p c).2 = false ∧ (rxChar m p c).1.tty = flushToLdisc p.tty := by
  have hfull := h.1
  have hstill := (flush_count_full hfull).mpr h
  unfold rxChar
  dsimp only
  rw [if_pos hfull, if_pos hstill]
  exact ⟨rfl, rfl⟩

/-- The error path, which a turn takes for a character with an error, leaves the right flag. -/
theorem rxError_written (hp : p.tty = (t.setChar (c.rbuf.setWidth 8)).setFlag .normal) :
    ∃ q, (if ((c.state &&& ascstateAny) ||| uartDummyUerRx) &&& ascstateAny ≠ 0 then
        rxError m p ((c.state &&& ascstateAny) ||| uartDummyUerRx)
      else (p, (c.state &&& ascstateAny) ||| uartDummyUerRx)) = (q, rxStatus m c) ∧
      q.tty = t.written m c := by
  have hany : ((c.state &&& ascstateAny) ||| uartDummyUerRx) &&& ascstateAny =
      c.state &&& ascstateAny := by
    have hdummy : uartDummyUerRx &&& ascstateAny = 0 := by decide
    rw [BitVec.and_or_distrib_right, hdummy, BitVec.and_assoc, BitVec.and_self]
    exact BitVec.or_zero
  rw [hany]
  unfold FlipTty.written rxStatus
  split_ifs with herr
  · refine ⟨(rxError m p ((c.state &&& ascstateAny) ||| uartDummyUerRx)).1, rfl, ?_⟩
    rw [rxError_tty, hp]
    split_ifs with hnormal
    · rw [hnormal]
    · rw [setFlag_setFlag]
  · refine ⟨p, ?_, ?_⟩
    · rw [not_not.mp herr]
      rfl
    · rw [hp]
      rfl

theorem rxChar_room (h : ¬p.tty.Jammed) :
    (rxChar m p c).2 = true ∧ (rxChar m p c).1.tty = p.tty.withRoom.turn m c := by
  have hnot : ¬ttyFlipbufSize ≤ p.tty.withRoom.count := fun hfull => h (withRoom_full.mp hfull)
  have htty : (if ttyFlipbufSize ≤ p.tty.count then { p with tty := flushToLdisc p.tty } else p).tty =
      p.tty.withRoom := by
    unfold FlipTty.withRoom
    split_ifs <;> rfl
  unfold rxChar
  dsimp only
  generalize (if ttyFlipbufSize ≤ p.tty.count then { p with tty := flushToLdisc p.tty } else p) = q
    at htty
  rw [htty, if_neg hnot]
  obtain ⟨r, hpath, hr⟩ := @rxError_written m { q with
    tty := (p.tty.withRoom.setChar (c.rbuf.setWidth 8)).setFlag .normal
    icountRx := q.icountRx + 1 } c p.tty.withRoom rfl
  rw [hpath]
  unfold FlipTty.turn FlipTty.taken
  dsimp only
  rw [← hr]
  refine ⟨rfl, ?_⟩
  split_ifs <;> simp_all

theorem FlipFits.written (h : FlipFits t) : FlipFits (t.written m c) :=
  (h.setChar _).setFlag _

theorem FlipFits.stream_written (h : FlipFits t) : (t.written m c).stream = t.stream := by
  unfold FlipTty.written
  rw [(h.setChar _).stream_setFlag, h.stream_setChar]

theorem FlipFits.taken (h : FlipFits t) (hroom : t.count < ttyFlipbufSize) :
    FlipFits (t.taken m c) := by
  unfold FlipTty.taken
  split_ifs
  · exact h.written.advance hroom
  · exact h.written

theorem FlipFits.stream_taken (h : FlipFits t) :
    (t.taken m c).stream = t.stream ++ keptEntries m c := by
  have hchar : (t.written m c).charBuf (t.written m c).charBufPtr = c.rbuf.setWidth 8 :=
    Function.update_self t.charBufPtr _ _
  have hflag : (t.written m c).flagBuf (t.written m c).flagBufPtr = statusFlag (rxStatus m c) :=
    Function.update_self t.flagBufPtr _ _
  unfold FlipTty.taken keptEntries
  split_ifs
  · rw [h.written.stream_advance, h.stream_written, hchar, hflag]
  · rw [h.stream_written, List.append_nil]

theorem FlipFits.turn (h : FlipFits t) (hroom : t.count < ttyFlipbufSize) :
    FlipFits (t.turn m c) := by
  have htaken := @FlipFits.taken m c t h hroom
  unfold FlipTty.turn
  split_ifs with hroe
  · exact ((htaken.setChar _).setFlag _).advance hroe.2
  · exact htaken

theorem FlipFits.stream_turn (h : FlipFits t) (hroom : t.count < ttyFlipbufSize) :
    ∃ mark, MarkerOk c mark ∧ (t.turn m c).stream = t.stream ++ (keptEntries m c ++ mark) := by
  have htaken := @FlipFits.taken m c t h hroom
  have hmarked := htaken.setChar 0
  have hchar : (((t.taken m c).setChar 0).setFlag .overrun).charBuf (t.taken m c).charBufPtr = 0 :=
    Function.update_self (t.taken m c).charBufPtr _ _
  have hflag : (((t.taken m c).setChar 0).setFlag .overrun).flagBuf (t.taken m c).flagBufPtr =
      .overrun :=
    Function.update_self (t.taken m c).flagBufPtr _ _
  unfold FlipTty.turn
  split_ifs with hroe
  · refine ⟨[(0, .overrun)], Or.inr ⟨rxStatus_roe hroe.1, rfl⟩, ?_⟩
    rw [(hmarked.setFlag _).stream_advance, hmarked.stream_setFlag, htaken.stream_setChar,
      h.stream_taken, List.append_assoc]
    exact congrArg (fun e => t.stream ++ (keptEntries m c ++ [e])) (Prod.ext hchar hflag)
  · exact ⟨[], Or.inl rfl, by rw [h.stream_taken, List.append_nil]⟩

theorem turn_unpushed (hroom : t.count < ttyFlipbufSize) :
    (t.turn m c).unpushed = false ↔ StoresNothing m c ∧ t.unpushed = false := by
  unfold FlipTty.turn FlipTty.taken StoresNothing
  by_cases hkept : rxStatus m c &&& m.ignoreStatusMask = 0
  · simp only [if_pos hkept]
    refine iff_of_false ?_ fun h => h.1.1 hkept
    split_ifs
    · exact Bool.noConfusion
    · exact Bool.noConfusion
  · have hcount : (t.written m c).count < ttyFlipbufSize := hroom
    simp only [if_neg hkept, hcount, and_true]
    split_ifs with hroe
    · exact iff_of_false Bool.noConfusion fun h => hroe h.1.2
    · exact ⟨fun h => ⟨⟨hkept, not_not.mp hroe⟩, h⟩, fun h => h.2⟩

theorem FlipFits.rxChar (h : FlipFits p.tty) : FlipFits (rxChar m p c).1.tty := by
  by_cases hjam : p.tty.Jammed
  · rw [(rxChar_jammed hjam).2]
    exact h.flush
  · rw [(rxChar_room hjam).2]
    exact h.withRoom.turn (not_le.mp fun hfull => hjam (withRoom_full.mp hfull))

theorem kept_eq_due (h : ¬KeptUnread m c) : keptEntries m c = dueEntries m c := by
  rw [keptUnread_iff] at h
  rw [dueEntries_eq]
  unfold keptEntries
  by_cases hig : ToIgnore m c
  · rw [if_neg fun hkept => h ⟨hig, hkept⟩, if_pos hig]
  · have hkept : rxStatus m c &&& m.ignoreStatusMask = 0 := by
      by_contra hdropped
      exact hig (toIgnore_of_dropped hdropped)
    rw [if_pos hkept, if_neg hig]

/-- What is kept has a flag that no marker has. -/
theorem kept_ne_due (h : KeptUnread m c) {mark mark' : List (Byte × TtyFlag)}
    (hmark : MarkerOk c mark') : keptEntries m c ++ mark ≠ dueEntries m c ++ mark' := by
  rw [keptUnread_iff] at h
  intro heq
  rw [dueEntries_eq, keptEntries, if_pos h.2, if_pos h.1, List.nil_append,
    List.singleton_append] at heq
  rcases hmark with rfl | ⟨_, rfl⟩
  · exact List.cons_ne_nil _ _ heq
  · have hflag := congrArg Prod.snd (List.cons.inj heq).1
    exact statusFlag_ne _ hflag

theorem dueEntries_nil : dueEntries m c = [] ↔ ToIgnore m c := by
  unfold dueEntries
  by_cases hig : ToIgnore m c
  · exact iff_of_true (if_pos hig) hig
  · rw [if_neg hig]
    exact iff_of_false (List.cons_ne_nil _ _) hig

theorem turnRight_iff (h : FlipFits p.tty) : TurnRight m p c ↔ TurnGood m p c := by
  unfold TurnGood
  split_ifs with hjam
  · have hstream : (rxChar m p c).1.tty.stream = p.tty.stream := by
      rw [(rxChar_jammed hjam).2, flushToLdisc_stream]
    rw [← dueEntries_nil]
    constructor
    · intro hright
      obtain ⟨mark, _, hstored⟩ := hright.stored
      rw [hstream] at hstored
      exact (List.append_eq_nil_iff.mp (List.self_eq_append_right.mp hstored)).1
    · intro hdue
      refine ⟨h.rxChar, [], Or.inl rfl, ?_⟩
      rw [hstream, hdue, List.append_nil, List.append_nil]
  · have hroom : p.tty.withRoom.count < ttyFlipbufSize :=
      not_le.mp fun hfull => hjam (withRoom_full.mp hfull)
    obtain ⟨mark, hmark, hstream⟩ := @FlipFits.stream_turn m c _ h.withRoom hroom
    rw [withRoom_stream, ← (rxChar_room hjam).2] at hstream
    constructor
    · intro hright hkept
      obtain ⟨mark', hmark', hstored⟩ := hright.stored
      exact kept_ne_due hkept hmark' (List.append_cancel_left (hstream.symm.trans hstored))
    · intro hkept
      refine ⟨h.rxChar, mark, hmark, ?_⟩
      rw [hstream, kept_eq_due hkept]

end Turn

section Loop

variable {m : StatusMasks}

theorem rxCharStep_fits {p t : AscRx} {c : AscChar} (h : FlipFits p.tty)
    (hstep : rxCharStep m p c = some t) : FlipFits t.tty := by
  unfold rxCharStep at hstep
  split_ifs at hstep with hgo
  cases Option.some.inj hstep
  exact h.rxChar

theorem rxFinish_fits {ch : Word} {p : AscRx} {goOn : Bool} (h : FlipFits p.tty) :
    FlipFits (rxFinish (ch, p, goOn)).tty := by
  show FlipFits (if goOn = true ∧ ch ≠ 0 then { p with tty := ttyFlipBufferPush p.tty } else p).tty
  split_ifs
  · exact h.push
  · exact h

theorem rxFinish_unpushed {ch : Word} {p : AscRx} : (rxFinish (ch, p, true)).tty.unpushed = false ↔
    ch ≠ 0 ∨ p.tty.unpushed = false := by
  show (if true = true ∧ ch ≠ 0 then { p with tty := ttyFlipBufferPush p.tty } else p).tty.unpushed =
    false ↔ _
  split_ifs with hch
  · exact iff_of_true rfl (Or.inl hch.2)
  · have hzero : ¬ch ≠ 0 := fun hne => hch ⟨rfl, hne⟩
    exact (or_iff_right hzero).symm

theorem rxLoop_fits {cs : List AscChar} {ch : Word} {p : AscRx} (h : FlipFits p.tty) :
    FlipFits (rxFinish (rxLoop m ch p cs)).tty := by
  induction cs generalizing ch p with
  | nil => exact rxFinish_fits h
  | cons c cs ih =>
    unfold rxLoop
    split_ifs
    · exact ih h.rxChar
    · exact rxFinish_fits h.rxChar

/-- Nothing waits after the loop if it is pushed, or if there was nothing left to push. -/
theorem rxLoop_unpushed {cs : List AscChar} {ch : Word} {p : AscRx} (h : FlipFits p.tty) :
    (rxFinish (rxLoop m ch p cs)).tty.unpushed = false ↔
      (cs = [] → ch ≠ 0 ∨ p.tty.unpushed = false) ∧ PushesGood m p cs := by
  induction cs generalizing ch p with
  | nil =>
    unfold rxLoop PushesGood
    rw [rxFinish_unpushed]
    simp
  | cons c cs ih =>
    have hcons : ¬c :: cs = [] := List.cons_ne_nil c cs
    unfold rxLoop PushesGood PushGood
    by_cases hjam : p.tty.Jammed
    · have hstop := (@rxChar_jammed m p c hjam).1
      have hnone : rxCharStep m p c = none := by simp [rxCharStep, hstop]
      have hwait : (rxChar m p c).1.tty.unpushed = false ↔
          p.tty.ldisc = true ∨ p.tty.unpushed = false := by
        rw [(rxChar_jammed hjam).2, flush_unpushed]
        cases p.tty.ldisc <;> simp
      simp [hstop, hjam, hnone, rxFinish, hwait]
    · have hgo := (@rxChar_room m p c hjam).1
      have hsome : rxCharStep m p c = some (rxChar m p c).1 := by simp [rxCharStep, hgo]
      have hroom : p.tty.withRoom.count < ttyFlipbufSize :=
        not_le.mp fun hfull => hjam (withRoom_full.mp hfull)
      rw [if_pos hgo, ih h.rxChar, if_neg hjam, hsome, (rxChar_room hjam).2, turn_unpushed hroom,
        withRoom_unpushed hjam]
      simp

end Loop

/-- The receive interrupt delivers every character, just if it is never out of room for one to keep, if
no error hides that CREAD is off, and if the last character makes the push where entries wait. -/
theorem rx_chars_right_iff (m : StatusMasks) (s : RxStart) (fstat : Word) (reads : Nat → AscChar) :
    RxRight m s fstat reads ↔
      RunMeets (rxCharStep m) (TurnGood m) s.port (rxFifo fstat reads) ∧
        PushesGood m s.port (rxFifo fstat reads) := by
  have hturns : RunMeets (rxCharStep m) (TurnRight m) s.port (rxFifo fstat reads) ↔
      RunMeets (rxCharStep m) (TurnGood m) s.port (rxFifo fstat reads) :=
    @runMeets_congr _ _ _ _ _ (fun p : AscRx => FlipFits p.tty) turnRight_iff
      (fun hp _ ht => rxCharStep_fits hp ht) _ s.fits _
  have hpush := @rxLoop_unpushed m (rxFifo fstat reads) 0 s.port s.fits
  have hfresh : rxFifo fstat reads = [] → (0 : Word) ≠ 0 ∨ s.port.tty.unpushed = false :=
    fun _ => Or.inr s.fresh
  constructor
  · intro h
    exact ⟨hturns.mp h.turns, (hpush.mp h.pushed).2⟩
  · intro ⟨hgood, hpushes⟩
    exact ⟨hturns.mpr hgood, rxLoop_fits s.fits, hpush.mpr ⟨hfresh, hpushes⟩⟩

/-- An open line with an empty flip buffer. -/
def quietLine : RxStart where
  port :=
    { tty :=
        { charBuf := fun _ => 0, flagBuf := fun _ => .normal, charBufPtr := 0, flagBufPtr := 0
          count := 0, bufNum := false, ldisc := true, dontFlip := false, lowLatency := false
          received := [], unpushed := false }
      icountRx := 0, icountParity := 0, icountFrame := 0, icountOverrun := 0, whbstate := 0 }
  fits := ⟨by decide, rfl, rfl⟩
  fresh := rfl

/-- An 'A' and a NUL after it stay in the flip buffer without a push. -/
theorem nul_not_pushed : ¬∀ (m : StatusMasks) (s : RxStart) (fstat : Word) (reads : Nat → AscChar),
    RxRight m s fstat reads := by
  intro h
  have hpushed := (h (changeSpeedMasks cread 0) quietLine 2
    fun k => ⟨if k = 0 then 0x41 else 0, 0⟩).pushed
  have hwaits : (danubeascRxChars (changeSpeedMasks cread 0) quietLine.port 2
      fun k => ⟨if k = 0 then 0x41 else 0, 0⟩).tty.unpushed = true := by decide
  exact Bool.noConfusion (hwaits.symm.trans hpushed)

end DanubeBsp
