import DanubeBsp.LowestBit
import DanubeBsp.Runs
import DanubeBsp.WordBits
import Mathlib.Data.Set.Insert

namespace DanubeBsp

/-- The status and enable registers of the five interrupt modules, the interrupt status of the EBU, and
the numbers that `do_IRQ` has been called with. -/
structure Icu where
  isr : Fin 5 → Word
  ier : Fin 5 → Word
  pccIstat : Word
  doIrq : List Word

local instance icuNeZero : NeZero 5 := ⟨by decide⟩

/-- The range tests that the functions below share: the module of an interrupt number, and what is left
of the number there. -/
def icuLine (irqNr : Word) : Option (Fin 5 × Word) :=
  if irqNr ≤ 31 ∧ 0 ≤ irqNr then some (0, irqNr)
  else if irqNr ≤ 63 ∧ 32 ≤ irqNr then some (1, irqNr - 32)
  else if irqNr ≤ 95 ∧ 64 ≤ irqNr then some (2, irqNr - 64)
  else if irqNr ≤ 127 ∧ 96 ≤ irqNr then some (3, irqNr - 96)
  else if irqNr ≤ 159 ∧ 128 ≤ irqNr then some (4, irqNr - 128)
  else none

def Icu.setIer (s : Icu) (m : Fin 5) (w : Word) : Icu :=
  { s with ier := Function.update s.ier m w }

/-- A store to a status register clears the bits that are written as ones. -/
def Icu.storeIsr (s : Icu) (m : Fin 5) (w : Word) : Icu :=
  { s with isr := Function.update s.isr m (s.isr m &&& ~~~w) }

def disableDanubeIrq (s : Icu) (irqNr : Word) : Icu :=
  match icuLine irqNr with
  | none => s
  | some (m, n) => s.setIer m (s.ier m &&& ~~~(1#32 <<< n.toNat))

def maskAndAckDanubeIrq (s : Icu) (irqNr : Word) : Icu :=
  match icuLine irqNr with
  | none => s
  | some (m, n) => (s.setIer m (s.ier m &&& ~~~(1#32 <<< n.toNat))).storeIsr m (1#32 <<< n.toNat)

def enableDanubeIrq (s : Icu) (irqNr : Word) : Icu :=
  match icuLine irqNr with
  | none => s
  | some (m, n) => s.setIer m (s.ier m ||| (1#32 <<< n.toNat))

/-- `end_danube_irq`, with the status of the descriptor: `IRQ_DISABLED` is 2, `IRQ_INPROGRESS` is 1. -/
def endDanubeIrq (s : Icu) (irq status : Word) : Icu :=
  if status &&& (2 ||| 1) = 0 then enableDanubeIrq s irq else s

def ls1bit32 (x : Word) : Int :=
  let b : Int := 31
  let s : Nat := if x <<< 16 = 0 then 0 else 16
  let b := b - s
  let x := x <<< s
  let s : Nat := if x <<< 8 = 0 then 0 else 8
  let b := b - s
  let x := x <<< s
  let s : Nat := if x <<< 4 = 0 then 0 else 4
  let b := b - s
  let x := x <<< s
  let s : Nat := if x <<< 2 = 0 then 0 else 2
  let b := b - s
  let x := x <<< s
  let s : Nat := if x <<< 1 = 0 then 0 else 1
  b - s

def Icu.callDoIrq (s : Icu) (irq : Word) : Icu := { s with doIrq := s.doIrq ++ [irq] }

/-- The number of the EBU interrupt, on the core 1 or on the core 0. -/
def ebuIrq (core1 : Bool) : Word := if core1 then 26 else 22

def danubeHw0Irqdispatch (core1 : Bool) (s : Icu) (iosr : Word) : Icu :=
  if iosr = 0 then s
  else
    let irq := BitVec.ofInt 32 (ls1bit32 iosr)
    let s := if irq = ebuIrq core1 then { s with pccIstat := s.pccIstat ||| 0x10 } else s
    s.callDoIrq irq

/-- The other dispatchers, for the number of their first line. -/
def irqdispatch (first : Int) (s : Icu) (iosr : Word) : Icu :=
  if iosr = 0 then s else s.callDoIrq (BitVec.ofInt 32 (ls1bit32 iosr + first))

def danubeHw1Irqdispatch : Icu → Word → Icu := irqdispatch 32

def danubeHw2Irqdispatch : Icu → Word → Icu := irqdispatch 64

def danubeHw3Irqdispatch : Icu → Word → Icu := irqdispatch 96

def danubeHw4Irqdispatch : Icu → Word → Icu := irqdispatch 128

def danubeIrqdispatch (core1 : Bool) (s : Icu) (m : Fin 5) (iosr : Word) : Icu :=
  match m with
  | 0 => danubeHw0Irqdispatch core1 s iosr
  | 1 => danubeHw1Irqdispatch s iosr
  | 2 => danubeHw2Irqdispatch s iosr
  | 3 => danubeHw3Irqdispatch s iosr
  | 4 => danubeHw4Irqdispatch s iosr

/-- A dispatcher is called with what its output status register reads as; what `do_IRQ` calls are steps
of their own. -/
inductive IcuEvent
  | enable (irqNr : Word)
  | disable (irqNr : Word)
  | maskAndAck (irqNr : Word)
  | finish (irq status : Word)
  | dispatch (m : Fin 5) (iosr : Word)

def icuCall (core1 : Bool) (s : Icu) : IcuEvent → Icu
  | .enable irqNr => enableDanubeIrq s irqNr
  | .disable irqNr => disableDanubeIrq s irqNr
  | .maskAndAck irqNr => maskAndAckDanubeIrq s irqNr
  | .finish irq status => endDanubeIrq s irq status
  | .dispatch m iosr => danubeIrqdispatch core1 s m iosr

def icuStep (core1 : Bool) (s : Icu) (e : IcuEvent) : Option Icu := some (icuCall core1 s e)

/-- The numbers of the lines whose enable bits are set. -/
def Icu.enabledLines (s : Icu) : Set Nat :=
  {n | ∃ (m : Fin 5) (i : Nat), i < 32 ∧ n = 32 * m.val + i ∧ (s.ier m).getLsbD i = true}

/-- The enabled lines after a call. -/
def linesAfter (lines : Set Nat) : IcuEvent → Set Nat
  | .enable irqNr => if irqNr.toNat < 160 then insert irqNr.toNat lines else lines
  | .disable irqNr | .maskAndAck irqNr => lines \ {irqNr.toNat}
  | .finish irq status =>
    if status &&& (2 ||| 1) = 0 ∧ irq.toNat < 160 then insert irq.toNat lines else lines
  | .dispatch _ _ => lines

/-- Masking and acknowledging changes one enable bit and one status bit, those of the line. -/
structure AckedAlone (m : Fin 5) (p : Nat) (s t : Icu) : Prop where
  ier : ∀ k i, (t.ier k).getLsbD i = ((s.ier k).getLsbD i && !decide (k = m ∧ i = p))
  isr : ∀ k i, (t.isr k).getLsbD i = ((s.isr k).getLsbD i && !decide (k = m ∧ i = p))

/-- A dispatcher hands the lowest pending line to `do_IRQ`, by a number that masks and acknowledges that
line. -/
def Dispatched (core1 : Bool) (s : Icu) : IcuEvent → Prop
  | .dispatch m iosr =>
    (iosr = 0 → danubeIrqdispatch core1 s m iosr = s) ∧
      (iosr ≠ 0 → ∃ p irq, LowestBit iosr p ∧ irq.toNat = 32 * m.val + p ∧
        (danubeIrqdispatch core1 s m iosr).doIrq = s.doIrq ++ [irq] ∧
        ∀ t, AckedAlone m p t (maskAndAckDanubeIrq t irq))
  | _ => True

section Lines

variable {irqNr : Word} {m k : Fin 5} {i : Nat}

theorem sub_eq_ofNat {x y : Word} (h : x.toNat = y.toNat + i) : x - y = BitVec.ofNat 32 i := by
  have hx := x.isLt
  have hy := y.isLt
  apply BitVec.eq_of_toNat_eq
  rw [BitVec.toNat_sub, BitVec.toNat_ofNat]
  omega

theorem icuLine_cases (irqNr : Word) : icuLine irqNr =
    if irqNr.toNat < 32 then some (0, irqNr - 0)
    else if irqNr.toNat < 64 then some (1, irqNr - 32)
    else if irqNr.toNat < 96 then some (2, irqNr - 64)
    else if irqNr.toNat < 128 then some (3, irqNr - 96)
    else if irqNr.toNat < 160 then some (4, irqNr - 128)
    else none := by
  have hlast {n : Word} : irqNr ≤ n ↔ irqNr.toNat < n.toNat + 1 := by
    rw [BitVec.le_def, Nat.lt_succ_iff]
  have hfirst {n : Word} : n ≤ irqNr ↔ ¬irqNr.toNat < n.toNat := by
    rw [BitVec.le_def, Nat.not_lt]
  unfold icuLine
  simp only [hlast, hfirst]
  show (if irqNr.toNat < 32 ∧ ¬irqNr.toNat < 0 then _ else
    if irqNr.toNat < 64 ∧ ¬irqNr.toNat < 32 then _ else
    if irqNr.toNat < 96 ∧ ¬irqNr.toNat < 64 then _ else
    if irqNr.toNat < 128 ∧ ¬irqNr.toNat < 96 then _ else
    if irqNr.toNat < 160 ∧ ¬irqNr.toNat < 128 then _ else _) = _
  rw [show irqNr - 0 = irqNr from BitVec.sub_zero irqNr]
  split_ifs
  all_goals first | rfl | omega

theorem icuLine_eq (hi : i < 32) (h : irqNr.toNat = 32 * m.val + i) :
    icuLine irqNr = some (m, BitVec.ofNat 32 i) := by
  rw [icuLine_cases]
  match m with
  | 0 => rw [if_pos (by omega), sub_eq_ofNat (by simpa using h)]
  | 1 => rw [if_neg (by omega), if_pos (by omega), sub_eq_ofNat (by simpa using h)]
  | 2 =>
    rw [if_neg (by omega), if_neg (by omega), if_pos (by omega), sub_eq_ofNat (by simpa using h)]
  | 3 =>
    rw [if_neg (by omega), if_neg (by omega), if_neg (by omega), if_pos (by omega),
      sub_eq_ofNat (by simpa using h)]
  | 4 =>
    rw [if_neg (by omega), if_neg (by omega), if_neg (by omega), if_neg (by omega),
      if_pos (by omega), sub_eq_ofNat (by simpa using h)]

theorem icuLine_none (h : 160 ≤ irqNr.toNat) : icuLine irqNr = none := by
  rw [icuLine_cases, if_neg (by omega), if_neg (by omega), if_neg (by omega), if_neg (by omega),
    if_neg (by omega)]

/-- A number is that of a line, or of none. -/
theorem line_cases (irqNr : Word) : 160 ≤ irqNr.toNat ∨
    ∃ (m : Fin 5) (i : Nat), i < 32 ∧ irqNr.toNat = 32 * m.val + i := by
  by_cases h : irqNr.toNat < 160
  · refine .inr ⟨⟨irqNr.toNat / 32, by omega⟩, irqNr.toNat % 32, Nat.mod_lt _ (by decide), ?_⟩
    exact (Nat.div_add_mod _ _).symm
  · exact .inl (Nat.le_of_not_lt h)

theorem line_inj {j : Nat} (hi : i < 32) (hj : j < 32) :
    32 * m.val + i = 32 * k.val + j ↔ k = m ∧ j = i := by
  rw [Fin.ext_iff]
  omega

theorem toNat_lineBit (hi : i < 32) : (BitVec.ofNat 32 i).toNat = i := by
  rw [BitVec.toNat_ofNat]
  exact Nat.mod_eq_of_lt (by omega)

/-- A bit of a register in which the bit of one line is cleared. -/
theorem update_clear_bit {f : Fin 5 → Word} {w : Word}
    (hw : ∀ j, w.getLsbD j = decide (j = i)) (k : Fin 5) (j : Nat) :
    (Function.update f m (f m &&& ~~~w) k).getLsbD j =
      ((f k).getLsbD j && !decide (k = m ∧ j = i)) := by
  by_cases hk : k = m
  · subst hk
    rw [Function.update_self, getLsbD_and_not, hw]
    simp only [true_and]
  · rw [Function.update_of_ne hk]
    simp only [hk, false_and, decide_false, Bool.not_false, Bool.and_true]

theorem update_set_bit {f : Fin 5 → Word} {w : Word}
    (hw : ∀ j, w.getLsbD j = decide (j = i)) (k : Fin 5) (j : Nat) :
    (Function.update f m (f m ||| w) k).getLsbD j =
      ((f k).getLsbD j || decide (k = m ∧ j = i)) := by
  by_cases hk : k = m
  · subst hk
    rw [Function.update_self, BitVec.getLsbD_or, hw]
    simp only [true_and]
  · rw [Function.update_of_ne hk]
    simp only [hk, false_and, decide_false, Bool.or_false]

end Lines

section Calls

variable {s : Icu} {irqNr : Word} {m : Fin 5} {i : Nat}

theorem disable_bit (hi : i < 32) (h : irqNr.toNat = 32 * m.val + i) (k : Fin 5) (j : Nat) :
    ((disableDanubeIrq s irqNr).ier k).getLsbD j =
      ((s.ier k).getLsbD j && !decide (k = m ∧ j = i)) := by
  unfold disableDanubeIrq
  rw [icuLine_eq hi h]
  exact update_clear_bit (fun j => by rw [toNat_lineBit hi, getLsbD_bit hi]) k j

theorem enable_bit (hi : i < 32) (h : irqNr.toNat = 32 * m.val + i) (k : Fin 5) (j : Nat) :
    ((enableDanubeIrq s irqNr).ier k).getLsbD j =
      ((s.ier k).getLsbD j || decide (k = m ∧ j = i)) := by
  unfold enableDanubeIrq
  rw [icuLine_eq hi h]
  exact update_set_bit (fun j => by rw [toNat_lineBit hi, getLsbD_bit hi]) k j

theorem maskAndAck_alone (hi : i < 32) (h : irqNr.toNat = 32 * m.val + i) :
    AckedAlone m i s (maskAndAckDanubeIrq s irqNr) := by
  have hbit (j : Nat) : (1#32 <<< (BitVec.ofNat 32 i).toNat).getLsbD j = decide (j = i) := by
    rw [toNat_lineBit hi, getLsbD_bit hi]
  unfold maskAndAckDanubeIrq
  rw [icuLine_eq hi h]
  exact ⟨update_clear_bit hbit, update_clear_bit hbit⟩

theorem enabledLines_lt {n : Nat} (h : n ∈ s.enabledLines) : n < 160 := by
  obtain ⟨m, i, hi, heq, -⟩ := h
  omega

theorem enabledLines_clear {t : Icu} (hi : i < 32)
    (h : ∀ k j, (t.ier k).getLsbD j = ((s.ier k).getLsbD j && !decide (k = m ∧ j = i))) :
    t.enabledLines = s.enabledLines \ {32 * m.val + i} := by
  apply Set.ext
  intro n
  rw [Set.mem_sdiff_singleton]
  constructor
  · intro ⟨k, j, hj, heq, hset⟩
    rw [h, Bool.and_eq_true, Bool.not_eq_true', decide_eq_false_iff_not] at hset
    refine ⟨⟨k, j, hj, heq, hset.1⟩, ?_⟩
    intro hsame
    rw [heq] at hsame
    exact hset.2 ((line_inj hi hj).mp hsame.symm)
  · intro ⟨⟨k, j, hj, heq, hset⟩, hne⟩
    refine ⟨k, j, hj, heq, ?_⟩
    rw [h, hset, Bool.true_and, Bool.not_eq_true', decide_eq_false_iff_not]
    intro hsame
    rw [heq] at hne
    exact hne ((line_inj hi hj).mpr hsame).symm

theorem enabledLines_set {t : Icu} (hi : i < 32)
    (h : ∀ k j, (t.ier k).getLsbD j = ((s.ier k).getLsbD j || decide (k = m ∧ j = i))) :
    t.enabledLines = insert (32 * m.val + i) s.enabledLines := by
  apply Set.ext
  intro n
  rw [Set.mem_insert_iff]
  constructor
  · intro ⟨k, j, hj, heq, hset⟩
    rw [h, Bool.or_eq_true, decide_eq_true_eq] at hset
    rcases hset with hbefore | hsame
    · exact .inr ⟨k, j, hj, heq, hbefore⟩
    · rw [heq]
      exact .inl ((line_inj hi hj).mpr hsame).symm
  · intro hn
    rcases hn with heq | hn
    · refine ⟨m, i, hi, heq, ?_⟩
      rw [h, decide_eq_true ⟨rfl, rfl⟩, Bool.or_true]
    · obtain ⟨k, j, hj, heq, hset⟩ := hn
      refine ⟨k, j, hj, heq, ?_⟩
      rw [h, hset, Bool.true_or]

theorem not_line (h : 160 ≤ irqNr.toNat) : s.enabledLines \ {irqNr.toNat} = s.enabledLines := by
  rw [Set.sdiff_singleton_eq_self]
  intro hmem
  exact absurd (enabledLines_lt hmem) (Nat.not_lt_of_le h)

theorem disable_lines (s : Icu) (irqNr : Word) :
    (disableDanubeIrq s irqNr).enabledLines = s.enabledLines \ {irqNr.toNat} := by
  rcases line_cases irqNr with hout | ⟨m, i, hi, heq⟩
  · rw [not_line hout]
    unfold disableDanubeIrq
    rw [icuLine_none hout]
  · rw [heq]
    exact enabledLines_clear hi (disable_bit hi heq)

theorem maskAndAck_lines (s : Icu) (irqNr : Word) :
    (maskAndAckDanubeIrq s irqNr).enabledLines = s.enabledLines \ {irqNr.toNat} := by
  rcases line_cases irqNr with hout | ⟨m, i, hi, heq⟩
  · rw [not_line hout]
    unfold maskAndAckDanubeIrq
    rw [icuLine_none hout]
  · rw [heq]
    exact enabledLines_clear hi (maskAndAck_alone hi heq).ier

theorem enable_lines (s : Icu) (irqNr : Word) : (enableDanubeIrq s irqNr).enabledLines =
    if irqNr.toNat < 160 then insert irqNr.toNat s.enabledLines else s.enabledLines := by
  rcases line_cases irqNr with hout | ⟨m, i, hi, heq⟩
  · rw [if_neg (Nat.not_lt_of_le hout)]
    unfold enableDanubeIrq
    rw [icuLine_none hout]
  · rw [if_pos (by omega), heq]
    exact enabledLines_set hi (enable_bit hi heq)

end Calls

section Dispatch

variable {core1 : Bool} {s t : Icu} {m : Fin 5} {iosr : Word}

theorem ls1bit32_steps (x : Word) : ls1bit32 x =
    let x8 := x <<< bringUp 16 x
    let x4 := x8 <<< bringUp 8 x8
    let x2 := x4 <<< bringUp 4 x4
    let x1 := x2 <<< bringUp 2 x2
    (31 : Int) - (bringUp 16 x : Nat) - (bringUp 8 x8 : Nat) - (bringUp 4 x4 : Nat) -
      (bringUp 2 x2 : Nat) - (bringUp 1 x1 : Nat) := rfl

theorem ls1bit32_eq {x : Word} {p : Nat} (h : LowestBit x p) : ls1bit32 x = p := by
  obtain ⟨h16, hr16⟩ := h.bringUp (k := 16) (by omega)
  obtain ⟨h8, hr8⟩ := h16.bringUp (k := 8) (by omega)
  obtain ⟨h4, hr4⟩ := h8.bringUp (k := 4) (by omega)
  obtain ⟨h2, hr2⟩ := h4.bringUp (k := 2) (by omega)
  obtain ⟨h1, hr1⟩ := h2.bringUp (k := 1) (by omega)
  have hlast := h1.lt
  rw [ls1bit32_steps]
  dsimp only
  omega

theorem toNat_irq {p : Nat} (hp : p < 32) (first : Nat) (hfirst : first ≤ 128) :
    (BitVec.ofInt 32 ((p : Int) + (first : Int))).toNat = first + p := by
  rw [← Int.natCast_add, BitVec.ofInt_natCast, BitVec.toNat_ofNat, Nat.add_comm p,
    Nat.mod_eq_of_lt (by omega)]

theorem LowestBit.ne_zero {x : Word} {p : Nat} (h : LowestBit x p) : x ≠ 0 := by
  intro hzero
  have hset := h.set
  rw [hzero] at hset
  exact nomatch (BitVec.getLsbD_zero.symm.trans hset)

theorem irqdispatch_eq {p : Nat} (first : Nat) (h : LowestBit iosr p) :
    irqdispatch first s iosr = s.callDoIrq (BitVec.ofInt 32 ((p : Int) + (first : Int))) := by
  unfold irqdispatch
  rw [if_neg h.ne_zero, ls1bit32_eq h]

/-- A dispatcher calls `do_IRQ`, and may clear the interrupt of the EBU. -/
theorem dispatch_eq {p : Nat} (core1 : Bool) (s : Icu) (m : Fin 5) (h : LowestBit iosr p) :
    ∃ istat, danubeIrqdispatch core1 s m iosr = { s with pccIstat := istat }.callDoIrq
      (BitVec.ofInt 32 ((p : Int) + ((32 * m.val : ℕ) : Int))) := by
  match m with
  | 0 =>
    show ∃ istat, danubeHw0Irqdispatch core1 s iosr = { s with pccIstat := istat }.callDoIrq
      (BitVec.ofInt 32 ((p : Int) + (0 : Int)))
    rw [Int.add_zero]
    unfold danubeHw0Irqdispatch
    rw [if_neg h.ne_zero, ls1bit32_eq h]
    dsimp only
    split_ifs
    · exact ⟨_, rfl⟩
    · exact ⟨s.pccIstat, rfl⟩
  | 1 => exact ⟨s.pccIstat, irqdispatch_eq 32 h⟩
  | 2 => exact ⟨s.pccIstat, irqdispatch_eq 64 h⟩
  | 3 => exact ⟨s.pccIstat, irqdispatch_eq 96 h⟩
  | 4 => exact ⟨s.pccIstat, irqdispatch_eq 128 h⟩

theorem irqdispatch_zero (first : Int) : irqdispatch first s 0 = s := by
  unfold irqdispatch
  rw [if_pos rfl]

theorem dispatch_zero (m : Fin 5) : danubeIrqdispatch core1 s m 0 = s := by
  match m with
  | 0 =>
    show danubeHw0Irqdispatch core1 s 0 = s
    unfold danubeHw0Irqdispatch
    rw [if_pos rfl]
  | 1 => exact irqdispatch_zero 32
  | 2 => exact irqdispatch_zero 64
  | 3 => exact irqdispatch_zero 96
  | 4 => exact irqdispatch_zero 128

theorem dispatch_ier (m : Fin 5) (iosr : Word) :
    (danubeIrqdispatch core1 s m iosr).ier = s.ier := by
  by_cases hzero : iosr = 0
  · rw [hzero, dispatch_zero]
  · obtain ⟨istat, heq⟩ := dispatch_eq core1 s m (LowestBit.of_ne_zero hzero)
    rw [heq]
    rfl

theorem dispatched (core1 : Bool) (s : Icu) (e : IcuEvent) : Dispatched core1 s e := by
  cases e with
  | dispatch m iosr =>
    refine ⟨?_, ?_⟩
    · intro hzero
      rw [hzero]
      exact dispatch_zero m
    · intro hne
      have hlowest := LowestBit.of_ne_zero hne
      have hp := hlowest.lt
      obtain ⟨istat, heq⟩ := dispatch_eq core1 s m hlowest
      have hirq := toNat_irq hp (32 * m.val) (by omega)
      refine ⟨_, _, hlowest, hirq, ?_, ?_⟩
      · rw [heq]
        rfl
      · intro t
        exact maskAndAck_alone hp hirq
  | enable irqNr => trivial
  | disable irqNr => trivial
  | maskAndAck irqNr => trivial
  | finish irq status => trivial

theorem linesAfter_call (core1 : Bool) (s : Icu) (e : IcuEvent) :
    (icuCall core1 s e).enabledLines = linesAfter s.enabledLines e := by
  cases e with
  | enable irqNr => exact enable_lines s irqNr
  | disable irqNr => exact disable_lines s irqNr
  | maskAndAck irqNr => exact maskAndAck_lines s irqNr
  | finish irq status =>
    show (endDanubeIrq s irq status).enabledLines = _
    unfold endDanubeIrq linesAfter
    dsimp only
    by_cases hfree : status &&& (2 ||| 1) = 0
    · rw [if_pos hfree, enable_lines]
      simp only [hfree, true_and]
    · rw [if_neg hfree, if_neg (fun hboth => hfree hboth.1)]
  | dispatch m iosr =>
    show (danubeIrqdispatch core1 s m iosr).enabledLines = s.enabledLines
    unfold Icu.enabledLines
    rw [dispatch_ier]

theorem linesAfter_run {es : List IcuEvent} (h : run (icuStep core1) s es = some t) :
    t.enabledLines = es.foldl linesAfter s.enabledLines := by
  induction es generalizing s with
  | nil =>
    cases Option.some.inj h
    rfl
  | cons e es ih =>
    obtain ⟨u, hu, hrest⟩ := run_cons h
    cases Option.some.inj hu
    rw [List.foldl_cons, ← linesAfter_call core1]
    exact ih hrest

end Dispatch

/-- Interrupt numbers and register bits agree, along every sequence of calls. -/
theorem danube_irq_numbers (core1 : Bool) (s : Icu) (es : List IcuEvent) :
    (∀ t, run (icuStep core1) s es = some t →
        t.enabledLines = es.foldl linesAfter s.enabledLines) ∧
      RunMeets (icuStep core1) (Dispatched core1) s es ∧
      ∀ x, x ≠ 0 → ∃ p, LowestBit x p ∧ ls1bit32 x = p := by
  refine ⟨fun _ h => linesAfter_run h, runMeets_of_all (dispatched core1) s es, ?_⟩
  intro x hne
  have hlowest := LowestBit.of_ne_zero hne
  exact ⟨_, hlowest, ls1bit32_eq hlowest⟩

end DanubeBsp
