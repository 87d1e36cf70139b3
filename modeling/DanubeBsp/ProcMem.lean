import DanubeBsp.ByteOrder
import DanubeBsp.CursorScan
import DanubeBsp.Runs

namespace DanubeBsp

def isLetter (c : Byte) : Bool :=
  (65 ≤ c.toInt && c.toInt ≤ 90) || (97 ≤ c.toInt && c.toInt ≤ 122)

def isDecimal (c : Byte) : Bool := 48 ≤ c.toInt && c.toInt ≤ 57

def isHex (c : Byte) : Bool :=
  isDecimal c || (97 ≤ c.toInt && c.toInt ≤ 102) || (65 ≤ c.toInt && c.toInt ≤ 70)

/-- A character inside a token. A `char` is signed. -/
def inToken (c : Byte) : Bool := 32 < c.toInt && c != 44#8

def isColon (c : Byte) : Bool := c == 58#8

/-- What `ignore_space` skips. -/
def isIgnored (c : Byte) : Bool := c.toInt ≤ 32 || isColon c || c == 46#8 || c == 44#8

/-- `*p1` and `*p2` after `get_token`, with the returned length. -/
structure Token where
  text : Tape Byte
  p1 : Nat
  p2 : Nat
  len : Nat
  colon : Bool
  tlen : Nat

def getToken (c : Cursor Byte) (p2 : Nat) (colon : Bool) : Token :=
  let c := (c.scan (fun a => !isLetter a) (fun _ _ => ()) ()).1
  if c.len = 0 then ⟨c.tape, c.p, p2, 0, colon, 0⟩
  else if colon then
    -- the colon itself ends the loop by its own `break`
    let d := c.scan (fun a => inToken a && !isColon a) (fun n _ => n + 1) 0
    let atColon := d.1.len ≠ 0 ∧ isColon (d.1.tape.cells d.1.p)
    ⟨d.1.tape.store d.1.p 0, c.p, d.1.p, d.1.len, decide atColon, d.2⟩
  else
    let d := c.scan inToken (fun n _ => n + 1) 0
    ⟨d.1.tape.store d.1.p 0, c.p, d.1.p, d.1.len, colon, d.2⟩

def hexValue (c : Byte) : Int :=
  if isDecimal c then c.toInt - 48
  else if 97 ≤ c.toInt ∧ c.toInt ≤ 102 then c.toInt - 97 + 10
  else c.toInt - 65 + 10

def getNumber (c : Cursor Byte) (hex : Bool) : Cursor Byte × Word :=
  if hex then c.scan isHex (fun ret a => (ret <<< 4) ||| BitVec.ofInt 32 (hexValue a)) 0
  else c.scan isDecimal (fun ret a => ret * 10 + BitVec.ofInt 32 (a.toInt - 48)) 0

def ignoreSpace (c : Cursor Byte) : Cursor Byte := (c.scan isIgnored (fun _ _ => ()) ()).1

def lowerCase (c : Byte) : Byte := if 65 ≤ c.toInt ∧ c.toInt ≤ 90 then c + 97 - 65 else c

/-- `stricmp` of the string at `p` and a constant one. -/
def stricmp (t : Tape Byte) (p : Nat) : List Byte → Tape Byte × Int
  | [] => (t.load p, (t.cells p).toInt)
  | w :: ws =>
    let c := t.cells p
    if c = 0 then (t.load p, -w.toInt)
    else if lowerCase c = lowerCase w then stricmp (t.load p) (p + 1) ws
    else (t.load p, (lowerCase c).toInt - (lowerCase w).toInt)

/-- The words that the loop compares a token with: w, write, r and read. -/
def memCommands : List (List Byte) :=
  [[0x77], [0x77, 0x72, 0x69, 0x74, 0x65], [0x72], [0x72, 0x65, 0x61, 0x64]]

/-- The comparisons, up to the first that holds. -/
def isCommand (t : Tape Byte) (p : Nat) : List (List Byte) → Tape Byte × Bool
  | [] => (t, false)
  | w :: ws =>
    let r := stricmp t p w
    if r.2 = 0 then (r.1, true) else isCommand r.1 p ws

def kseg0 : Word := 0x80000000#32

/-- The addresses of the words that a read command prints. -/
def dumpWords (p n : Word) : List Word :=
  if n = 0 then []
  else
    let n := n + (p.sshiftRight 2 &&& 3#32)
    let p := p &&& ~~~0x0f#32
    (List.range n.toInt.toNat).map fun i => p + BitVec.ofNat 32 (4 * i)

inductive MemPhase where
  | tokens
  | write (p : Word)
  | done

/-- A run of `proc_write_mem`: the buffer, the pointers into it, where the run is, and the words of
memory that it has written and printed. -/
structure MemRun where
  text : Tape Byte
  p1 : Nat
  p2 : Nat
  len : Nat
  phase : MemPhase
  written : List (Word × Word)
  shown : List Word

def MemRun.arg (s : MemRun) : Cursor Byte := ⟨s.text, s.p2, s.len⟩

def MemRun.at (s : MemRun) (c : Cursor Byte) (phase : MemPhase) : MemRun :=
  { s with text := c.tape, p2 := c.p, len := c.len, phase := phase }

/-- The read and the write command, up to the loop of the latter. -/
def runCommand (s : MemRun) (command : Byte) : MemRun :=
  if command = 0x77 then
    let r := getNumber (ignoreSpace s.arg) true
    s.at r.1 (if kseg0 ≤ r.2 then .write r.2 else .done)
  else if command = 0x72 then
    let r := getNumber (ignoreSpace s.arg) true
    if kseg0 ≤ r.2 then
      let n := getNumber (ignoreSpace r.1) false
      { s.at n.1 .done with shown := dumpWords r.2 n.2 }
    else s.at r.1 .done
  else { s with phase := .done }

/-- What follows the token loop: `*p1` picks the command. -/
def execCommand (s : MemRun) : MemRun :=
  runCommand { s with text := s.text.load s.p1 } (s.text.cells s.p1)

/-- One turn of the token loop. -/
def tokenTurn (s : MemRun) : MemRun :=
  let t := getToken ⟨s.text, s.p1, s.len⟩ s.p2 true
  let s := { s with text := t.text, p1 := t.p1, p2 := t.p2, len := t.len }
  if t.tlen = 0 then execCommand s
  else
    let r := isCommand t.text t.p1 memCommands
    if r.2 then execCommand { s with text := r.1 }
    else { s with text := r.1, p1 := t.p2 }

/-- One turn of the loop of the write command, which stores at `p`. -/
def writeTurn (s : MemRun) (p : Word) : MemRun :=
  let c := ignoreSpace s.arg
  if c.len = 0 then s.at c .done
  else
    let c := { c with tape := c.tape.load c.p }
    if isHex (c.tape.cells c.p) then
      let r := getNumber c true
      { s.at r.1 (.write (p + 4)) with written := s.written ++ [(p, r.2)] }
    else s.at c .done

def memStep (s : MemRun) : Option MemRun :=
  match s.phase with
  | .tokens => some (tokenTurn s)
  | .write p => some (writeTurn s p)
  | .done => none

/-- `sizeof(local_buf)`. -/
def localBufSize : Nat := 1024

/-- A write to the file: the bytes, how many of them `copy_from_user` does not copy, and what the
stack holds under the buffer and behind it. -/
structure MemWrite where
  bytes : List Byte
  notCopied : Nat
  stack : Nat → Byte
  notCopied_le : notCopied ≤ min localBufSize bytes.length

/-- `len` after the copy. -/
def MemWrite.copied (w : MemWrite) : Nat :=
  (if localBufSize < w.bytes.length then localBufSize else w.bytes.length) - w.notCopied

/-- The run up to the token loop. `p2` has no value yet. -/
def MemWrite.start (w : MemWrite) (p2 : Nat) : MemRun :=
  let cells := fun i => if i < w.copied then w.bytes.getD i 0 else w.stack i
  { text := Tape.store ⟨cells, []⟩ w.copied 0
    p1 := 0
    p2 := p2
    len := w.copied
    phase := .tokens
    written := []
    shown := [] }

theorem letter_inToken {c : Byte} (h : isLetter c = true) : inToken c = true ∧ isColon c = false := by
  have hval : (65 ≤ c.toInt ∧ c.toInt ≤ 90) ∨ (97 ≤ c.toInt ∧ c.toInt ≤ 122) := by
    simpa [isLetter] using h
  have hne : ∀ b : Byte, b.toInt < 65 → c ≠ b := by
    rintro b hb rfl
    omega
  have hcomma : c ≠ 44#8 := hne _ (by decide)
  have hcolon : c ≠ 58#8 := hne _ (by decide)
  constructor
  · simp only [inToken, Bool.and_eq_true, decide_eq_true_eq, bne_iff_ne]
    exact ⟨by omega, hcomma⟩
  · simpa [isColon] using hcolon

theorem tape_zero_store {t : Tape Byte} {stop p : Nat} (h : t.cells stop = 0) :
    (t.store p 0).cells stop = 0 := by
  by_cases heq : stop = p
  · subst heq
    exact Function.update_self _ _ _
  · rw [Tape.store_cells, Function.update_of_ne heq]
    exact h

/-- `get_token` finds none and is at the end, or it has a token with a terminator behind it. -/
structure TokenSpec (c : Cursor Byte) (t : Token) : Prop where
  follows : Tape.Follows (c.p + c.len) c.tape t.text
  zero : t.text.cells (c.p + c.len) = 0
  len : t.len ≤ c.len
  cases : t.tlen = 0 ∧ t.p1 = c.p + c.len ∨
    t.tlen ≠ 0 ∧ t.p1 ≤ t.p2 ∧ t.p2 + t.len = c.p + c.len ∧ t.len < c.len ∧
      t.text.cells t.p2 = 0

/-- The part of `get_token` from the first letter on, with the test of its loop. -/
theorem token_of_scan {c d : Cursor Byte} {e : Cursor Byte × Nat} (test : Byte → Bool)
    (hzero : c.tape.cells (c.p + c.len) = 0) (hstep : CursorStep c d)
    (hcells : d.tape.cells = c.tape.cells) (hlen : d.len ≠ 0)
    (htest : test (d.tape.cells d.p) = true) (he : e = d.scan test (fun n _ => n + 1) 0)
    (colon : Bool) :
    TokenSpec c ⟨e.1.tape.store e.1.p 0, d.p, e.1.p, e.1.len, colon, e.2⟩ := by
  have hscan : CursorStep d e.1 := he ▸ d.scan_step test _ _
  have hkept : e.1.tape.cells = d.tape.cells := he ▸ d.scan_cells test _ _
  have hless : e.1.len < d.len := he ▸ Cursor.scan_progress _ _ hlen htest
  have hcount : e.2 + e.1.len = 0 + d.len := he ▸ d.scan_count test 0
  have hstop := hstep.stop
  have hstop' := hscan.stop
  have hle := hstep.len
  refine ⟨?_, ?_, by simp only; omega, Or.inr ⟨?_, ?_, ?_, ?_, ?_⟩⟩
  · have hfollows := (hstep.trans hscan).follows
    exact hfollows.trans (.store 0 (by omega))
  · apply tape_zero_store
    rw [hkept, hcells]
    exact hzero
  · show e.2 ≠ 0
    omega
  · show d.p ≤ e.1.p
    omega
  · show e.1.p + e.1.len = _
    omega
  · show e.1.len < c.len
    omega
  · exact Function.update_self _ _ _

theorem getToken_spec {c : Cursor Byte} (hzero : c.tape.cells (c.p + c.len) = 0) (p2 : Nat)
    (colon : Bool) : TokenSpec c (getToken c p2 colon) := by
  have hstep := c.scan_step (fun a => !isLetter a) (fun _ _ => ()) ()
  have hcells := c.scan_cells (fun a => !isLetter a) (fun _ _ => ()) ()
  have hend := c.scan_end (fun a => !isLetter a) (fun _ _ => ()) ()
  rw [getToken]
  generalize (c.scan (fun a => !isLetter a) (fun _ _ => ()) ()).1 = d at *
  simp only
  by_cases hlen : d.len = 0
  · rw [if_pos hlen]
    have hstop := hstep.stop
    exact ⟨hstep.follows, hcells ▸ hzero, Nat.zero_le _, Or.inl ⟨rfl, by simp only; omega⟩⟩
  · rw [if_neg hlen]
    have hletter : isLetter (d.tape.cells d.p) = true := by
      rcases hend with h | h
      · exact absurd h hlen
      · rw [hcells]
        simpa using h
    obtain ⟨hin, hcolon⟩ := letter_inToken hletter
    cases colon with
    | true =>
      have hboth : (inToken (d.tape.cells d.p) && !isColon (d.tape.cells d.p)) = true := by
        rw [hin, hcolon]
        rfl
      exact token_of_scan (fun a => inToken a && !isColon a) hzero hstep hcells hlen hboth rfl _
    | false => exact token_of_scan inToken hzero hstep hcells hlen hin rfl _

theorem ignoreSpace_step (c : Cursor Byte) : CursorStep c (ignoreSpace c) := c.scan_step _ _ _

theorem ignoreSpace_cells (c : Cursor Byte) : (ignoreSpace c).tape.cells = c.tape.cells :=
  c.scan_cells _ _ _

theorem getNumber_step (c : Cursor Byte) (hex : Bool) : CursorStep c (getNumber c hex).1 := by
  cases hex with
  | true => exact c.scan_step _ _ _
  | false => exact c.scan_step _ _ _

theorem getNumber_cells (c : Cursor Byte) (hex : Bool) :
    (getNumber c hex).1.tape.cells = c.tape.cells := by
  cases hex with
  | true => exact c.scan_cells _ _ _
  | false => exact c.scan_cells _ _ _

/-- `stricmp` does not go behind a terminator. -/
theorem stricmp_spec {t : Tape Byte} {p q stop : Nat} (hp : p ≤ q) (hq : q ≤ stop)
    (hzero : t.cells q = 0) (w : List Byte) :
    Tape.Follows stop t (stricmp t p w).1 ∧ (stricmp t p w).1.cells = t.cells := by
  induction w generalizing t p with
  | nil => exact ⟨.load (hp.trans hq), rfl⟩
  | cons b w ih =>
    rw [stricmp]
    by_cases hc : t.cells p = 0
    · rw [if_pos hc]
      exact ⟨.load (hp.trans hq), rfl⟩
    · rw [if_neg hc]
      by_cases heq : lowerCase (t.cells p) = lowerCase b
      · rw [if_pos heq]
        have hne : p ≠ q := by
          rintro rfl
          exact hc hzero
        obtain ⟨hf, hcells⟩ := @ih (t.load p) (p + 1) (by omega) hzero
        exact ⟨(Tape.Follows.load (hp.trans hq)).trans hf, hcells⟩
      · rw [if_neg heq]
        exact ⟨.load (hp.trans hq), rfl⟩

theorem isCommand_spec {t : Tape Byte} {p q stop : Nat} (hp : p ≤ q) (hq : q ≤ stop)
    (hzero : t.cells q = 0) (ws : List (List Byte)) :
    Tape.Follows stop t (isCommand t p ws).1 ∧ (isCommand t p ws).1.cells = t.cells := by
  induction ws generalizing t with
  | nil => exact ⟨.refl _ _, rfl⟩
  | cons w ws ih =>
    obtain ⟨hf, hcells⟩ := stricmp_spec hp hq hzero w
    rw [isCommand]
    by_cases hr : (stricmp t p w).2 = 0
    · rw [if_pos hr]
      exact ⟨hf, hcells⟩
    · rw [if_neg hr]
      obtain ⟨hf', hcells'⟩ := @ih (stricmp t p w).1 (hcells ▸ hzero)
      exact ⟨hf.trans hf', hcells'.trans hcells⟩

/-- The cursor that the phase goes on with is in step with the count of characters left. -/
def MemRun.InStep (stop : Nat) (s : MemRun) : Prop :=
  match s.phase with
  | .tokens => s.p1 + s.len = stop
  | .write _ => s.p2 + s.len = stop
  | .done => True

/-- The invariant of a run on a text that ends at `stop`. -/
structure MemInv (stop : Nat) (s : MemRun) : Prop where
  events : ∀ e ∈ s.text.log, e.Ok stop
  terminator : CursorEvent.store stop ∈ s.text.log
  zero : s.text.cells stop = 0
  inStep : s.InStep stop

/-- A bound on the turns that a run still has. -/
def MemRun.rank (s : MemRun) : Nat :=
  match s.phase with
  | .tokens => s.len + 2
  | .write _ => s.len + 1
  | .done => 0

/-- What a part of a run does: it keeps the text in order, and at most `n` turns are left. -/
structure MemKept (stop n : Nat) (s t : MemRun) : Prop where
  follows : Tape.Follows stop s.text t.text
  zero : t.text.cells stop = 0
  inStep : t.InStep stop
  rank : t.rank ≤ n

theorem MemKept.inv {stop n : Nat} {s t : MemRun} (h : MemKept stop n s t) (hs : MemInv stop s) :
    MemInv stop t :=
  ⟨h.follows.all hs.events, h.follows.mem hs.terminator, h.zero, h.inStep⟩

theorem MemKept.after {stop n m : Nat} {s t u : MemRun} (h : MemKept stop n t u)
    (hf : Tape.Follows stop s.text t.text) (hle : n ≤ m) : MemKept stop m s u :=
  ⟨hf.trans h.follows, h.zero, h.inStep, Nat.le_trans h.rank hle⟩

theorem MemKept.done {stop : Nat} {s : MemRun} {c : Cursor Byte}
    (harg : s.p2 + s.len = stop) (hzero : s.text.cells stop = 0) (h : CursorStep s.arg c)
    (hcells : c.tape.cells = s.text.cells) : MemKept stop 0 s (s.at c .done) := by
  have hfollows := h.follows
  simp only [MemRun.arg, harg] at hfollows
  exact ⟨hfollows, hcells ▸ hzero, trivial, Nat.le_refl 0⟩

theorem MemKept.write {stop : Nat} {s : MemRun} {c : Cursor Byte}
    (harg : s.p2 + s.len = stop) (hzero : s.text.cells stop = 0) (h : CursorStep s.arg c)
    (hcells : c.tape.cells = s.text.cells) (p : Word) :
    MemKept stop (c.len + 1) s (s.at c (.write p)) := by
  have hfollows := h.follows
  have hstop := h.stop
  simp only [MemRun.arg, harg] at hfollows hstop
  exact ⟨hfollows, hcells ▸ hzero, hstop, Nat.le_refl _⟩

theorem runCommand_kept {stop : Nat} {s : MemRun} {command : Byte}
    (hzero : s.text.cells stop = 0) (harg : command ≠ 0 → s.p2 + s.len = stop) :
    MemKept stop (s.len + 1) s (runCommand s command) := by
  have hstep : CursorStep s.arg (getNumber (ignoreSpace s.arg) true).1 :=
    (ignoreSpace_step _).trans (getNumber_step _ _)
  have hcells : (getNumber (ignoreSpace s.arg) true).1.tape.cells = s.text.cells :=
    (getNumber_cells _ _).trans (ignoreSpace_cells _)
  rw [runCommand]
  simp only
  by_cases hw : command = 0x77
  · have hstop := harg (hw ▸ by decide)
    rw [if_pos hw]
    by_cases hk : kseg0 ≤ (getNumber (ignoreSpace s.arg) true).2
    · rw [if_pos hk]
      exact (MemKept.write hstop hzero hstep hcells _).after (.refl _ _)
        (Nat.succ_le_succ hstep.len)
    · rw [if_neg hk]
      exact (MemKept.done hstop hzero hstep hcells).after (.refl _ _) (Nat.zero_le _)
  · rw [if_neg hw]
    by_cases hr : command = 0x72
    · have hstop := harg (hr ▸ by decide)
      rw [if_pos hr]
      by_cases hk : kseg0 ≤ (getNumber (ignoreSpace s.arg) true).2
      · rw [if_pos hk]
        have hkept := MemKept.done hstop hzero
          (hstep.trans ((ignoreSpace_step _).trans (getNumber_step _ false)))
          (((getNumber_cells _ _).trans (ignoreSpace_cells _)).trans hcells)
        exact ⟨hkept.follows, hkept.zero, trivial, Nat.zero_le _⟩
      · rw [if_neg hk]
        exact (MemKept.done hstop hzero hstep hcells).after (.refl _ _) (Nat.zero_le _)
    · rw [if_neg hr]
      exact ⟨.refl _ _, hzero, trivial, Nat.zero_le _⟩

theorem execCommand_kept {stop : Nat} {s : MemRun} (hp1 : s.p1 ≤ stop)
    (hzero : s.text.cells stop = 0) (harg : s.text.cells s.p1 ≠ 0 → s.p2 + s.len = stop) :
    MemKept stop (s.len + 1) s (execCommand s) :=
  MemKept.after (t := { s with text := s.text.load s.p1 }) (runCommand_kept hzero harg)
    (.load hp1) (Nat.le_refl _)

theorem tokenTurn_kept {stop : Nat} {s : MemRun} (hphase : s.phase = .tokens)
    (hcur : s.p1 + s.len = stop) (hzero : s.text.cells stop = 0) :
    MemKept stop (s.len + 1) s (tokenTurn s) := by
  have spec := getToken_spec (c := ⟨s.text, s.p1, s.len⟩) (by simpa only [hcur] using hzero) s.p2 true
  rw [tokenTurn]
  generalize getToken ⟨s.text, s.p1, s.len⟩ s.p2 true = t at spec ⊢
  obtain ⟨hf, hz, hlen, hcases⟩ := spec
  simp only [hcur] at hf hz hlen hcases
  simp only
  rcases hcases with ⟨hnone, hp1⟩ | ⟨hsome, hle, hstop, hlt, hterm⟩
  · rw [if_pos hnone]
    exact (execCommand_kept (s := { s with text := t.text, p1 := t.p1, p2 := t.p2, len := t.len })
      hp1.le hz fun hne => absurd (hp1 ▸ hz) hne).after hf (Nat.succ_le_succ hlen)
  · rw [if_neg hsome]
    obtain ⟨hcmd, hcells⟩ := isCommand_spec hle (show t.p2 ≤ stop by omega) hterm memCommands
    by_cases hr : (isCommand t.text t.p1 memCommands).2
    · rw [if_pos hr]
      exact (execCommand_kept (s := { s with
        text := (isCommand t.text t.p1 memCommands).1, p1 := t.p1, p2 := t.p2, len := t.len })
        (show t.p1 ≤ stop by omega) (hcells ▸ hz) fun _ => hstop).after (hf.trans hcmd)
        (Nat.succ_le_succ hlen)
    · rw [if_neg hr]
      refine ⟨hf.trans hcmd, hcells ▸ hz, ?_, ?_⟩
      · simp only [MemRun.InStep, hphase]
        exact hstop
      · simp only [MemRun.rank, hphase]
        omega

theorem writeTurn_kept {stop : Nat} {s : MemRun} (p : Word) (hcur : s.p2 + s.len = stop)
    (hzero : s.text.cells stop = 0) : MemKept stop s.len s (writeTurn s p) := by
  have hspace : CursorStep s.arg (ignoreSpace s.arg) := ignoreSpace_step _
  have hcells : (ignoreSpace s.arg).tape.cells = s.text.cells := ignoreSpace_cells _
  rw [writeTurn]
  generalize ignoreSpace s.arg = c at hspace hcells ⊢
  simp only
  by_cases hlen : c.len = 0
  · rw [if_pos hlen]
    exact (MemKept.done hcur hzero hspace hcells).after (.refl _ _) (Nat.zero_le _)
  · rw [if_neg hlen]
    have hstop : c.p + c.len = stop := hspace.stop.trans hcur
    have hload : CursorStep c { c with tape := c.tape.load c.p } :=
      ⟨rfl, Nat.le_refl _, .load (Nat.le_add_right _ _)⟩
    by_cases hhex : isHex ((c.tape.load c.p).cells c.p)
    · rw [if_pos hhex]
      have hnum := getNumber_step { c with tape := c.tape.load c.p } true
      have hless : (getNumber { c with tape := c.tape.load c.p } true).1.len < c.len :=
        Cursor.scan_progress _ _ hlen hhex
      have hkept := (MemKept.write hcur hzero ((hspace.trans hload).trans hnum)
        ((getNumber_cells _ true).trans hcells) (p + 4)).after (.refl _ _)
        (show _ ≤ s.len from Nat.le_trans hless hspace.len)
      exact ⟨hkept.follows, hkept.zero, hkept.inStep, hkept.rank⟩
    · rw [if_neg hhex]
      exact (MemKept.done hcur hzero (hspace.trans hload) hcells).after (.refl _ _) (Nat.zero_le _)

/-- A turn keeps the invariant and leaves fewer turns. -/
theorem memStep_kept {stop : Nat} {s t : MemRun} (hinv : MemInv stop s) (h : memStep s = some t) :
    MemInv stop t ∧ t.rank < s.rank := by
  have hin := hinv.inStep
  simp only [memStep] at h
  simp only [MemRun.InStep] at hin
  cases hphase : s.phase with
  | tokens =>
    rw [hphase] at h hin
    cases Option.some.inj h
    have hkept := tokenTurn_kept hphase hin hinv.zero
    refine ⟨hkept.inv hinv, Nat.lt_of_le_of_lt hkept.rank ?_⟩
    simp only [MemRun.rank, hphase]
    omega
  | write p =>
    rw [hphase] at h hin
    cases Option.some.inj h
    have hkept := writeTurn_kept p hin hinv.zero
    refine ⟨hkept.inv hinv, Nat.lt_of_le_of_lt hkept.rank ?_⟩
    simp only [MemRun.rank, hphase]
    omega
  | done =>
    rw [hphase] at h
    cases h

theorem MemWrite.start_inv (w : MemWrite) (p2 : Nat) : MemInv w.copied (w.start p2) where
  events := by
    intro e he
    rw [List.mem_singleton.mp he]
    exact Nat.le_refl w.copied
  terminator := List.mem_singleton_self _
  zero := Function.update_self _ _ _
  inStep := Nat.zero_add _

/-- The run ends, keeps its cursors in step with the count of characters left, and touches only the
copied text and its terminator, all inside the buffer. -/
def MemSafe (w : MemWrite) (p2 : Nat) : Prop :=
  ∃ t, Halts memStep (w.start p2) t ∧
    ∀ e ∈ t.text.log, e.Ok w.copied ∧ e.Inside localBufSize

theorem writeMem_safe_iff (w : MemWrite) (p2 : Nat) :
    MemSafe w p2 ↔ w.copied < localBufSize := by
  have hstart := w.start_inv p2
  constructor
  · intro ⟨t, hrun, hlog⟩
    have hfinal := (hrun.final (fun hi h => (memStep_kept hi h).1) hstart).1
    exact (hlog _ hfinal.terminator).2
  · intro hlt
    obtain ⟨t, hrun⟩ := halts_of_ranked (fun s n => MemInv w.copied s ∧ s.rank = n)
      (fun {s t m} hs h => by
        obtain ⟨hkept, hless⟩ := memStep_kept hs.1 h
        exact ⟨t.rank, hs.2 ▸ hless, hkept, rfl⟩) ⟨hstart, rfl⟩
    have hfinal := (hrun.final (fun hi h => (memStep_kept hi h).1) hstart).1
    exact ⟨t, hrun, fun e he => ⟨hfinal.events e he, (hfinal.events e he).inside hlt⟩⟩

/-- A write of as many bytes as the buffer has, here spaces. -/
theorem full_buffer_terminator_outside : ¬∀ (w : MemWrite) (p2 : Nat), MemSafe w p2 := by
  intro h
  let w : MemWrite := ⟨List.replicate 1024 32, 0, fun _ => 0, Nat.zero_le _⟩
  obtain ⟨t, hrun, hlog⟩ := h w 0
  have hcopied : w.copied = 1024 := by
    simp only [w, MemWrite.copied, List.length_replicate]
    rfl
  have hfinal := (hrun.final (fun hi h => (memStep_kept hi h).1) (w.start_inv 0)).1
  have hinside : w.copied < 1024 := (hlog _ hfinal.terminator).2
  omega

end DanubeBsp
