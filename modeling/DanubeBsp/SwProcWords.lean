import DanubeBsp.AccessLog
import DanubeBsp.ByteOrder
import DanubeBsp.Errno

namespace DanubeBsp

/-- The call of a write handler: the memory of the user, with `none` where it cannot be read, the count,
and what lies in front of `buf`. -/
structure ProcWrite where
  user : Nat → Option Byte
  count : Nat
  before : Byte

/-- The register functions that the handlers call. -/
inductive SwRegCall where
  | setBndwth (port : Nat) (txrx : Bool) (limit : Int)
  | setTcpudpFilter (filterno port queueno : Int)
  | setQosControl (qos : Bool)
  | setQueueWeight (qno : Nat) (weight : Int)
  | setq (port : Nat) (qno : Int)
  | enaFc (port : Nat)
  | disFc (port : Nat)
  | setIgmpProxy (bit : Int)
  | setAdditionalSnoopCtr (bit : Int)
  | setIgmp (bit : Int)
  | setVlanmode (bit : Int)
  | disableCpuPort
  | setCpuPort (port : Int)
  | setMacPriority (mac : List Byte) (addmac : Bool) (pri : Int)

/-- `ADM_SW_MAX_PORT_NUM`, eight filters with 16-bit service ports and four queues. -/
def SwRegCall.Valid : SwRegCall → Prop
  | setBndwth port _ _ => port ≤ 5
  | setTcpudpFilter filterno port queueno =>
    (0 ≤ filterno ∧ filterno < 8) ∧ (0 ≤ port ∧ port < 65536) ∧ 0 ≤ queueno ∧ queueno < 4
  | setQueueWeight qno _ => qno < 4
  | setq port qno => port ≤ 5 ∧ 0 ≤ qno ∧ qno < 4
  | enaFc port => port ≤ 5
  | disFc port => port ≤ 5
  | setCpuPort port => 0 ≤ port ∧ port ≤ 5
  | _ => True

/-- What a handler touches: a byte of the user through `get_user` or `copy_from_user`, or by itself, `buf`,
`mac`, and the registers. -/
inductive ProcTouch where
  | user (a : Nat)
  | deref (a : Nat)
  | store (k : Nat)
  | load (k : Int)
  | mac (k : Nat)
  | call (c : SwRegCall)

/-- `sizeof(buf)`. -/
def bufSize : Nat := 80

def macSize : Nat := 20

namespace ProcWrite

variable (u : ProcWrite)

/-- A byte that the handler may read by itself. -/
def Readable (a : Nat) : Prop := a < u.count ∧ ∃ c, u.user a = some c

/-- Nothing at or behind the count, nothing outside `buf` and `mac`, and valid numbers. -/
def Ok : ProcTouch → Prop
  | .user a => a < u.count
  | .deref a => u.Readable a
  | .store k => k < bufSize
  | .load k => 0 ≤ k
  | .mac k => k < macSize
  | .call c => c.Valid

end ProcWrite

abbrev SwParse := Logged ProcTouch Int

open Logged

/-- `"`, newline, return, tab, blank and comma end a word. -/
def wordStop (c : Byte) : Bool := [0x22#8, 0x0a#8, 0x0d#8, 0x09#8, 0x20#8, 0x2c#8].contains c

/-- They and `=` are skipped behind it. -/
def trailStop (c : Byte) : Bool :=
  !([0x22#8, 0x0a#8, 0x0d#8, 0x09#8, 0x20#8, 0x3d#8, 0x2c#8].contains c)

section Scanners

variable (u : ProcWrite)

/-- The loop of the two scanners. Every caller returns a negative length. -/
def scanUser (stop : Byte → Bool) (i : Nat) : Nat → SwParse Nat
  | 0 => pure 0
  | maxlen + 1 => do
    touch (.user i)
    match u.user i with
    | none => halt eFault
    | some c =>
      if stop c then pure 0
      else do
        let n ← scanUser stop (i + 1) maxlen
        pure (n + 1)

def strnLen (i maxlen : Nat) : SwParse Nat := scanUser u wordStop i maxlen

def countTrailChars (i maxlen : Nat) : SwParse Nat := scanUser u trailStop i maxlen

/-- `copy_from_user(buf + k, &buffer[i], len)`. -/
def copyWord (i k : Nat) : Nat → SwParse (List Byte)
  | 0 => pure []
  | len + 1 => do
    touch (.user i)
    match u.user i with
    | none => halt eFault
    | some c =>
      touch (.store k)
      let rest ← copyWord (i + 1) (k + 1) len
      pure (c :: rest)

/-- A word at `i` in `buf`, with its terminator, and the position behind it. -/
def readWord (i : Nat) : SwParse (List Byte × Nat) := do
  let len ← strnLen u i bufSize
  let w ← copyWord u i 0 len
  touch (.store len)
  pure (w, i + len)

def skipTrail (i : Nat) : SwParse Nat := do
  let len ← countTrailChars u i bufSize
  pure (i + len)

/-- `buf[len-1] - '0'`. -/
def lastDigit (w : List Byte) : SwParse Int := do
  touch (.load (w.length - 1))
  pure ((w.getLast?.getD u.before).toInt - 48)

end Scanners

/-- The string in `buf` ends at a zero that the user wrote. -/
def cString (w : List Byte) : List Byte := w.takeWhile (· ≠ 0#8)

def ascii (s : String) : List Byte := s.toList.map fun c => BitVec.ofNat 8 c.toNat

def strstr (w needle : List Byte) : Bool := (cString w).tails.any fun t => needle.isPrefixOf t

def strchr (w : List Byte) (c : Byte) : Bool := (cString w).contains c

/-- `simple_strtoul` of base ten, with the value of the digits before. -/
def strtoulFrom : Word → List Byte → Word
  | result, [] => result
  | result, c :: cs =>
    if 0x30#8 ≤ c ∧ c ≤ 0x39#8 then strtoulFrom (result * 10 + (c.setWidth 32 - 48)) cs else result

def simpleStrtoul (w : List Byte) : Int := (strtoulFrom 0 w).toInt

section Positions

variable (u : ProcWrite)

/-- `k` bytes from `i` on can be read, lie before the count and do not stop the scan. -/
def Unstopped (stop : Byte → Bool) (i k : Nat) : Prop :=
  ∀ j, j < k → i + j < u.count ∧ ∃ c, u.user (i + j) = some c ∧ stop c = false

/-- The byte behind them stops it, before the count too. -/
structure StopsAfter (stop : Byte → Bool) (i k : Nat) : Prop where
  run : Unstopped u stop i k
  inside : i + k < u.count
  stops : ∃ c, u.user (i + k) = some c ∧ stop c = true

/-- The byte behind them cannot be read. -/
structure FaultsAfter (stop : Byte → Bool) (i k : Nat) : Prop where
  run : Unstopped u stop i k
  inside : i + k < u.count
  fault : u.user (i + k) = none

/-- A scan stays before the count, and `Q` holds of its length if it has one. -/
def ScanThen (stop : Byte → Bool) (maxlen i : Nat) (Q : Nat → Prop) : Prop :=
  (∃ k, k < maxlen ∧ FaultsAfter u stop i k) ∨ (∃ k, k < maxlen ∧ StopsAfter u stop i k ∧ Q k) ∨
    (Unstopped u stop i maxlen ∧ Q maxlen)

/-- The text of `k` bytes. -/
def textAt (i k : Nat) : List Byte := readBlock (fun a => (u.user a).getD 0) i k

/-- The next word ends before the count and leaves room for its terminator, and `Q` holds of it and the
position behind it; or the user cannot be read before it ends. -/
def WordThen (i : Nat) (Q : List Byte → Nat → Prop) : Prop :=
  (∃ k, k < bufSize ∧ FaultsAfter u wordStop i k) ∨
    ∃ k, k < bufSize ∧ StopsAfter u wordStop i k ∧ Q (textAt u i k) (i + k)

/-- The next gap ends before the count, or after 80 characters. -/
def GapThen (i : Nat) (Q : Nat → Prop) : Prop :=
  ScanThen u trailStop bufSize i fun k => Q (i + k)

end Positions

section Scan

variable {u : ProcWrite} {stop : Byte → Bool} {i : Nat}

theorem unstopped_zero : Unstopped u stop i 0 := by
  intro j hj
  exact absurd hj (Nat.not_lt_zero j)

theorem unstopped_succ {k : Nat} : Unstopped u stop i (k + 1) ↔
    (i < u.count ∧ ∃ c, u.user i = some c ∧ stop c = false) ∧ Unstopped u stop (i + 1) k := by
  constructor
  · intro h
    refine ⟨h 0 (Nat.succ_pos k), ?_⟩
    intro j hj
    have hnext := h (j + 1) (by omega)
    rw [← Nat.add_assoc, Nat.add_right_comm] at hnext
    exact hnext
  · intro h j hj
    cases j with
    | zero => exact h.1
    | succ j =>
      have hnext := h.2 j (by omega)
      rw [Nat.add_right_comm, Nat.add_assoc] at hnext
      exact hnext

variable {Q : Nat → Prop} {m : Nat}

theorem scanThen_fault (hi : i < u.count) (h : u.user i = none) : ScanThen u stop (m + 1) i Q :=
  Or.inl ⟨0, Nat.succ_pos m, unstopped_zero, hi, h⟩

theorem scanThen_stop {c : Byte} (hi : i < u.count) (h : u.user i = some c) (hc : stop c = true) :
    ScanThen u stop (m + 1) i Q ↔ Q 0 := by
  have hnone : ∀ k, ¬Unstopped u stop i (k + 1) := by
    intro k hk
    obtain ⟨c', hc', hgo⟩ := (hk 0 (Nat.succ_pos k)).2
    rw [Nat.add_zero, h] at hc'
    cases hc'
    rw [hc] at hgo
    cases hgo
  constructor
  · intro hscan
    obtain ⟨k, _, hk⟩ | ⟨k, _, hk, hq⟩ | ⟨hrun, _⟩ := hscan
    · cases k with
      | zero =>
        have hfault := hk.fault
        rw [Nat.add_zero, h] at hfault
        cases hfault
      | succ k => exact absurd hk.run (hnone k)
    · cases k with
      | zero => exact hq
      | succ k => exact absurd hk.run (hnone k)
    · exact absurd hrun (hnone m)
  · intro hq
    exact Or.inr (Or.inl ⟨0, Nat.succ_pos m, ⟨unstopped_zero, hi, c, h, hc⟩, hq⟩)

theorem scanThen_go {c : Byte} (hi : i < u.count) (h : u.user i = some c) (hc : stop c = false) :
    ScanThen u stop (m + 1) i Q ↔ ScanThen u stop m (i + 1) fun k => Q (k + 1) := by
  have hpos : ∀ k, i + (k + 1) = i + 1 + k := by
    intro k
    omega
  constructor
  · intro hscan
    obtain ⟨k, hk, hend⟩ | ⟨k, hk, hend, hq⟩ | ⟨hrun, hq⟩ := hscan
    · cases k with
      | zero =>
        have hfault := hend.fault
        rw [Nat.add_zero, h] at hfault
        cases hfault
      | succ k =>
        obtain ⟨hrun, hin, hfault⟩ := hend
        rw [hpos] at hin hfault
        exact Or.inl ⟨k, by omega, (unstopped_succ.mp hrun).2, hin, hfault⟩
    · cases k with
      | zero =>
        obtain ⟨c', hc', hstop⟩ := hend.stops
        rw [Nat.add_zero, h] at hc'
        cases hc'
        rw [hc] at hstop
        cases hstop
      | succ k =>
        obtain ⟨hrun, hin, hstop⟩ := hend
        rw [hpos] at hin hstop
        exact Or.inr (Or.inl ⟨k, by omega, ⟨(unstopped_succ.mp hrun).2, hin, hstop⟩, hq⟩)
    · exact Or.inr (Or.inr ⟨(unstopped_succ.mp hrun).2, hq⟩)
  · intro hscan
    have hfirst : i < u.count ∧ ∃ c, u.user i = some c ∧ stop c = false := ⟨hi, c, h, hc⟩
    obtain ⟨k, hk, hrun, hin, hfault⟩ | ⟨k, hk, ⟨hrun, hin, hstop⟩, hq⟩ | ⟨hrun, hq⟩ := hscan
    · rw [← hpos] at hin hfault
      exact Or.inl ⟨k + 1, by omega, unstopped_succ.mpr ⟨hfirst, hrun⟩, hin, hfault⟩
    · rw [← hpos] at hin hstop
      exact Or.inr (Or.inl ⟨k + 1, by omega, ⟨unstopped_succ.mpr ⟨hfirst, hrun⟩, hin, hstop⟩, hq⟩)
    · exact Or.inr (Or.inr ⟨unstopped_succ.mpr ⟨hfirst, hrun⟩, hq⟩)

theorem ScanThen.inside (h : ScanThen u stop (m + 1) i Q) : i < u.count := by
  obtain ⟨k, _, hend⟩ | ⟨k, _, hend, _⟩ | ⟨hrun, _⟩ := h
  · have hin := hend.inside
    omega
  · have hin := hend.inside
    omega
  · exact (hrun 0 (Nat.succ_pos m)).1

/-- A scanner stays before the count exactly if the text does what `ScanThen` says. -/
theorem scanUser_within (m i : Nat) (Q : Nat → Prop) :
    Within u.Ok (scanUser u stop i m) Q ↔ ScanThen u stop m i Q := by
  induction m generalizing i Q with
  | zero =>
    show Within u.Ok (pure 0) Q ↔ _
    rw [within_pure]
    constructor
    · intro h
      exact Or.inr (Or.inr ⟨unstopped_zero, h⟩)
    · intro h
      obtain ⟨k, hk, _⟩ | ⟨k, hk, _⟩ | ⟨_, hq⟩ := h
      · exact absurd hk (Nat.not_lt_zero k)
      · exact absurd hk (Nat.not_lt_zero k)
      · exact hq
  | succ m ih =>
    unfold scanUser
    rw [within_bind, within_touch]
    show i < u.count ∧ _ ↔ _
    by_cases hi : i < u.count
    · rw [and_iff_right hi]
      cases hc : u.user i with
      | none => exact iff_of_true (within_halt _) (scanThen_fault hi hc)
      | some c =>
        dsimp only
        cases hstop : stop c with
        | true =>
          rw [scanThen_stop hi hc hstop, if_pos rfl]
          exact within_pure 0
        | false =>
          have hno : ¬false = true := by decide
          rw [scanThen_go hi hc hstop, if_neg hno, within_bind, ih]
          unfold ScanThen
          simp only [within_pure]
    · exact iff_of_false (fun h => hi h.1) (fun h => hi h.inside)

/-- A text that was scanned is copied. -/
theorem copyWord_within {k len : Nat} (hrun : Unstopped u stop i len) (hroom : k + len ≤ bufSize)
    (R : List Byte → Prop) : Within u.Ok (copyWord u i k len) R ↔ R (textAt u i len) := by
  induction len generalizing i k R with
  | zero => exact within_pure []
  | succ len ih =>
    obtain ⟨⟨hi, c, hc, _⟩, hrest⟩ := unstopped_succ.mp hrun
    have hk : k < bufSize := by omega
    have htext : textAt u i (len + 1) = c :: textAt u (i + 1) len := by
      unfold textAt
      rw [Nat.add_comm len 1, readBlock_add]
      show (u.user i).getD 0 :: _ = _
      rw [hc]
      rfl
    unfold copyWord
    rw [within_bind, within_touch, hc]
    dsimp only
    rw [within_bind, within_touch, within_bind, ih hrest (by omega), within_pure, htext]
    constructor
    · intro h
      exact h.2.2
    · intro h
      exact ⟨hi, hk, h⟩

theorem readWord_within (i : Nat) (Q : List Byte × Nat → Prop) :
    Within u.Ok (readWord u i) Q ↔ WordThen u i fun w j => Q (w, j) := by
  have hcopy : ∀ len, len ≤ bufSize → Unstopped u wordStop i len →
      (Within u.Ok (do
        let w ← copyWord u i 0 len
        touch (.store len)
        pure (w, i + len)) Q ↔ len < bufSize ∧ Q (textAt u i len, i + len)) := by
    intro len hlen hrun
    rw [within_bind, copyWord_within hrun (by omega), within_bind, within_touch, within_pure]
    rfl
  unfold readWord strnLen
  rw [within_bind, scanUser_within]
  constructor
  · intro h
    obtain ⟨k, hk, hend⟩ | ⟨k, hk, hend, hq⟩ | ⟨hrun, hq⟩ := h
    · exact Or.inl ⟨k, hk, hend⟩
    · exact Or.inr ⟨k, hk, hend, ((hcopy k hk.le hend.run).mp hq).2⟩
    · exact absurd ((hcopy bufSize (le_refl _) hrun).mp hq).1 (lt_irrefl _)
  · intro h
    obtain ⟨k, hk, hend⟩ | ⟨k, hk, hend, hq⟩ := h
    · exact Or.inl ⟨k, hk, hend⟩
    · exact Or.inr (Or.inl ⟨k, hk, hend, (hcopy k hk.le hend.run).mpr ⟨hk, hq⟩⟩)

theorem skipTrail_within (i : Nat) (Q : Nat → Prop) :
    Within u.Ok (skipTrail u i) Q ↔ GapThen u i Q := by
  unfold skipTrail countTrailChars
  rw [within_bind, scanUser_within]
  unfold GapThen ScanThen
  simp only [within_pure]

theorem lastDigit_within (w : List Byte) (Q : Int → Prop) : Within u.Ok (lastDigit u w) Q ↔
    w ≠ [] ∧ Q ((w.getLast?.getD u.before).toInt - 48) := by
  have hload : u.Ok (.load (w.length - 1)) ↔ w ≠ [] := by
    show 0 ≤ (w.length : Int) - 1 ↔ w ≠ []
    rw [← List.length_pos_iff]
    omega
  unfold lastDigit
  rw [within_bind, within_touch, within_pure, hload]

end Scan

end DanubeBsp
