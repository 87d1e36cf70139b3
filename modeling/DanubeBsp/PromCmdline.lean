import DanubeBsp.ByteOrder
import DanubeBsp.StringMemory
import DanubeBsp.SpacedWords

namespace DanubeBsp

def asciiBytes (cs : List Char) : List Byte := cs.map fun c => BitVec.ofNat 8 c.toNat

/-- An argument of the boot loader, without the zero that ends it. -/
structure BootArg where
  bytes : List Byte
  noNul : ∀ b ∈ bytes, b ≠ 0

def clSize : Nat := 256

def blankByte : Byte := 0x20

def memEquals : List Byte := asciiBytes "mem=".toList

/-- `fake_cmdline`, of the first core of two or of the only one. -/
def fakeCmdline (core1 : Bool) : List Byte :=
  asciiBytes (if core1 then
    "rootfstype=squashfs root=/dev/mtdblock2 console=ttyS1,115200 mem=16M@16M".toList
  else "console=ttyS0,115200".toList)

/-- The variables of `prom_init`, the memory from `arcs_cmdline` on, and where it has been stored
to. -/
structure PromState where
  mem : Nat → Byte
  stored : List Nat
  dest : Nat
  left : Int
  len : Nat
  gotMem : Bool

def PromState.put (s : PromState) (a : Nat) (bs : List Byte) : PromState :=
  { s with mem := writeBlock s.mem a bs, stored := s.stored ++ List.range' a bs.length }

/-- `strncpy` of the kernel, which does not pad. -/
def PromState.strncpy (s : PromState) (a : Nat) (src : List Byte) (count : Nat) : PromState :=
  s.put a ((src ++ [0]).take count)

/-- A search that meets no zero before the addresses are used up is not one that ends. -/
def addressSpace : Nat := 2 ^ 32

def PromState.strcat (s : PromState) (a : Nat) (src : List Byte) : Option PromState :=
  match strend 0 s.mem addressSpace a with
  | none => none
  | some z => some (s.put z (src ++ [0]))

/-- An argument is copied, and what is left afterwards counted. -/
def PromState.placeArg (s : PromState) (arg : BootArg) : PromState :=
  let len := arg.bytes.length
  let s := { s.strncpy s.dest arg.bytes s.left.toNat with len := len }
  { s with
    gotMem := s.gotMem || decide (readBlock s.mem s.dest 4 = memEquals)
    left := s.left - (len + 1) }

/-- The loop over the arguments. -/
def copyArgs : List (Option BootArg) → PromState → PromState
  | [], s => s
  | none :: _, s => s
  | some arg :: argv, s =>
    let s := s.placeArg arg
    if s.left ≤ 0 then s
    else copyArgs argv { s.put (s.dest + s.len) [blankByte] with dest := s.dest + s.len + 1 }

/-- `argv` starts at 1. -/
def bootArgv (argc : Int) (argv : Nat → Option BootArg) : List (Option BootArg) :=
  (List.range' 1 (argc.toNat - 1)).map argv

def getCmdline (core1 : Bool) (prev : Nat → Byte) (argc : Int) (argv : Nat → Option BootArg) :
    PromState :=
  let s : PromState := ⟨prev, [], 0, 0, 0, false⟩
  if 0 < argc then
    let s := copyArgs (bootArgv argc argv) { s with left := clSize - 1 }
    if 0 < s.left then s.put (s.dest + s.len) [0] else s
  else { s.strncpy 0 (fakeCmdline core1) 21 with left := 0 }

/-- As `%d` prints it. -/
def decimalBytes : Int → List Byte
  | .ofNat n => asciiBytes (Nat.toDigits 10 n)
  | .negSucc n => asciiBytes ('-' :: Nat.toDigits 10 (n + 1))

/-- `snprintf` ends what there is room for with a zero, and returns the whole length. -/
def PromState.appendNumber (s : PromState) (memsz : Word) : Option PromState :=
  let number := decimalBytes memsz.toInt
  let s := s.put s.dest (number.take (s.left.toNat - 1) ++ [0])
  let s := { s with dest := s.dest + number.length }
  s.strcat s.dest (asciiBytes ['M'])

def appendMem (s : PromState) (memsz : Word) : Option PromState :=
  if memsz ≠ 0 ∧ s.gotMem = false ∧ 8 < s.left then
    let s := { s.put s.dest [blankByte] with dest := s.dest + 1, left := s.left - 1 }
    (s.strcat s.dest memEquals).bind fun s =>
      { s with dest := s.dest + 4, left := s.left - 4 : PromState }.appendNumber memsz
  else some s

def promCmdline (core1 : Bool) (prev : Nat → Byte) (argc : Int) (argv : Nat → Option BootArg)
    (memsz : Word) : Option PromState :=
  appendMem (getCmdline core1 prev argc argv) memsz

/-! What the line is to be. -/

/-- The arguments up to the first `NULL`. -/
def bootArgs : List (Option BootArg) → List (List Byte)
  | [] => []
  | none :: _ => []
  | some arg :: argv => arg.bytes :: bootArgs argv

def memWord (memsz : Word) : List Byte :=
  memEquals ++ decimalBytes memsz.toInt ++ asciiBytes ['M']

/-- The size of the memory is to be appended: it is known and not given, and there is room behind
the arguments for a blank and `mem=XXXM`. -/
def MemAppended (args : List (List Byte)) (memsz : Word) : Prop :=
  memsz ≠ 0 ∧ (∀ arg ∈ args, ¬memEquals <+: arg) ∧ (spread blankByte args).length + 9 < clSize

instance (args : List (List Byte)) (memsz : Word) : Decidable (MemAppended args memsz) :=
  inferInstanceAs (Decidable (_ ∧ _ ∧ _))

def cmdlineWords (args : List (List Byte)) (memsz : Word) : List (List Byte) :=
  args.filter (· ≠ []) ++ if MemAppended args memsz then [memWord memsz] else []

/-- The line is that of the arguments, or of what fits of them. -/
def IsCmdline (args : List (List Byte)) (memsz : Word) (line : List Byte) : Prop :=
  let text := [blankByte].intercalate args
  if text.length < clSize then Spaced blankByte (cmdlineWords args memsz) line else line <+: text

/-- Only `arcs_cmdline` is stored to, and it holds a string that ends in it. If there are arguments,
it is theirs. -/
def CmdlineRight (core1 : Bool) (prev : Nat → Byte) (argc : Int) (argv : Nat → Option BootArg)
    (memsz : Word) : Prop :=
  ∃ t line, promCmdline core1 prev argc argv memsz = some t ∧ (∀ i ∈ t.stored, i < clSize) ∧
    StringAt 0 t.mem 0 line ∧ line.length < clSize ∧
    (0 < argc → IsCmdline (bootArgs (bootArgv argc argv)) memsz line)

/-- The length of the last argument. -/
def lastLen (args : List (List Byte)) : Nat := (args.getLast?.map List.length).getD 0

/-- What has been in the memory, with a zero where the loop leaves it: as far behind the arguments
as the last of them is long. -/
def leftBehind (prev : Nat → Byte) (args : List (List Byte)) : Nat → Byte :=
  Function.update prev ((spread blankByte args).length + lastLen args) 0

/-- With `p` the length of the arguments with a blank behind each. -/
def ArgsFit (prev : Nat → Byte) (args : List (List Byte)) (memsz : Word) : Prop :=
  let p := (spread blankByte args).length
  if clSize - 1 ≤ p then
    prev (clSize - 1) = 0 ∨ ∃ pre, pre <+: args ∧ (spread blankByte pre).length = clSize - 1
  else
    p + lastLen args < clSize ∧
      if MemAppended args memsz then
        ∃ g, StringAt 0 (leftBehind prev args) (p + 1) g ∧ (g = [] ∨ memEquals <+: g) ∧
          p + 1 + g.length + 4 < clSize ∧ p + 6 + (decimalBytes memsz.toInt).length < clSize
      else ∃ g, StringAt 0 (leftBehind prev args) p g ∧ ∀ b ∈ g, b = blankByte

def CmdlineFits (core1 : Bool) (prev : Nat → Byte) (argc : Int) (argv : Nat → Option BootArg)
    (memsz : Word) : Prop :=
  if 0 < argc then ArgsFit prev (bootArgs (bootArgv argc argv)) memsz
  else core1 = true → ∃ z, 21 ≤ z ∧ z < clSize ∧ prev z = 0

variable {prev : Nat → Byte} {s : PromState} {pre : List (List Byte)} {arg : BootArg}
  {bs : List Byte} {a n : Nat}

theorem stored_put_lt (h : ∀ i ∈ s.stored, i < n) (hle : a + bs.length ≤ n) :
    ∀ i ∈ (s.put a bs).stored, i < n := by
  intro i hi
  rcases List.mem_append.mp hi with hi | hi
  · exact h i hi
  · have hlt := (List.mem_range'_1.mp hi).2
    omega

theorem mem_stored_put {i : Nat} (hle : a ≤ i) (hlt : i < a + bs.length) :
    i ∈ (s.put a bs).stored :=
  List.mem_append_right _ (List.mem_range'_1.mpr ⟨hle, hlt⟩)

theorem length_spread_concat (pre : List (List Byte)) (w : List Byte) :
    (spread blankByte (pre ++ [w])).length = (spread blankByte pre).length + w.length + 1 := by
  rw [spread_concat, List.length_append, List.length_append]
  rfl

theorem lastLen_concat (pre : List (List Byte)) (w : List Byte) :
    lastLen (pre ++ [w]) = w.length := by
  unfold lastLen
  rw [List.getLast?_concat]
  rfl

theorem bootArgs_noNul {argv : List (Option BootArg)} : ∀ w ∈ bootArgs argv, ∀ b ∈ w, b ≠ 0 := by
  induction argv with
  | nil => exact fun w hw => absurd hw List.not_mem_nil
  | cons first argv ih =>
    cases first with
    | none => exact fun w hw => absurd hw List.not_mem_nil
    | some arg =>
      intro w hw
      rcases List.mem_cons.mp hw with rfl | hw
      · exact arg.noNul
      · exact ih w hw

theorem memEquals_noNul : ∀ b ∈ memEquals, b ≠ 0 := by decide

/-- The arguments `pre` have been copied, each with a blank behind it. -/
structure Copied (prev : Nat → Byte) (pre : List (List Byte)) (s : PromState) : Prop where
  dest : s.dest = (spread blankByte pre).length
  left : s.left = 255 - s.dest
  room : s.dest < 255
  len : s.len = lastLen pre
  got : s.gotMem = decide (∃ w ∈ pre, memEquals <+: w)
  line : BlockAt s.mem 0 (spread blankByte pre)
  behind : ∀ i, s.dest ≤ i → s.mem i = prev i
  inside : ∀ i ∈ s.stored, i < clSize

/-- The loop was left at an argument that takes all the room. -/
structure Full (prev : Nat → Byte) (args : List (List Byte)) (s : PromState) : Prop where
  left : s.left ≤ 0
  inside : ∀ i ∈ s.stored, i < clSize
  last : ∃ pre w post, args = pre ++ w :: post ∧ (spread blankByte pre).length < 255 ∧
    254 ≤ (spread blankByte pre ++ w).length ∧
    BlockAt s.mem 0 ((spread blankByte pre ++ w).take 255) ∧ s.mem 255 = prev 255 ∧
    ((spread blankByte pre ++ w).length = 254 → s.mem 254 = 0)

/-- An argument is stored as far as there is room, and nothing else is. -/
theorem Copied.place (h : Copied prev pre s) (arg : BootArg) :
    BlockAt (s.placeArg arg).mem 0 (spread blankByte pre) ∧
      BlockAt (s.placeArg arg).mem s.dest ((arg.bytes ++ [0]).take (255 - s.dest)) ∧
      (∀ i, s.dest + ((arg.bytes ++ [0]).take (255 - s.dest)).length ≤ i →
        (s.placeArg arg).mem i = prev i) ∧
      ∀ i ∈ (s.placeArg arg).stored, i < clSize := by
  have hdest := h.dest
  have hleft := h.left
  have hroom := h.room
  have hcount : s.left.toNat = 255 - s.dest := by omega
  have hmem : (s.placeArg arg).mem =
      writeBlock s.mem s.dest ((arg.bytes ++ [0]).take (255 - s.dest)) := by
    rw [← hcount]
    rfl
  rw [hmem]
  refine ⟨?_, blockAt_writeBlock _ _ _, ?_, ?_⟩
  · refine blockAt_congr ?_ h.line
    intro i _ hi
    exact writeBlock_outside (.inl (by omega))
  · intro i hi
    rw [writeBlock_outside (.inr hi)]
    exact h.behind i (by omega)
  · have hlen : ((arg.bytes ++ [0]).take s.left.toNat).length ≤ s.left.toNat :=
      List.length_take_le _ _
    refine stored_put_lt h.inside ?_
    unfold clSize
    omega

/-- An argument for which there is room. -/
theorem Copied.next (h : Copied prev pre s) (hroom : s.dest + arg.bytes.length + 1 < 255) :
    Copied prev (pre ++ [arg.bytes]) { (s.placeArg arg).put
      ((s.placeArg arg).dest + (s.placeArg arg).len) [blankByte] with
        dest := (s.placeArg arg).dest + (s.placeArg arg).len + 1 } := by
  obtain ⟨hline, htext, hbehind, hinside⟩ := h.place arg
  have hlength : (arg.bytes ++ [(0 : Byte)]).length = arg.bytes.length + 1 := List.length_append
  have htake : (arg.bytes ++ [0]).take (255 - s.dest) = arg.bytes ++ [0] :=
    List.take_of_length_le (by omega)
  rw [htake] at htext hbehind
  have hstring : StringAt 0 (s.placeArg arg).mem s.dest arg.bytes := ⟨htext, arg.noNul⟩
  -- the blank takes the place of the zero
  have hblank : ∀ i, i ≠ s.dest + arg.bytes.length →
      writeBlock (s.placeArg arg).mem (s.dest + arg.bytes.length) [blankByte] i =
        (s.placeArg arg).mem i := by
    intro i hi
    exact writeBlock_outside (by rw [List.length_singleton]; omega)
  have hdest := h.dest
  have hleft := h.left
  refine ⟨?_, ?_, hroom, (lastLen_concat pre arg.bytes).symm, ?_, ?_, ?_, ?_⟩
  · show s.dest + arg.bytes.length + 1 = _
    rw [length_spread_concat, hdest]
  · show s.left - (arg.bytes.length + 1) = 255 - ((s.dest + arg.bytes.length + 1 : Nat) : Int)
    omega
  · show (s.gotMem || decide (readBlock (s.placeArg arg).mem s.dest 4 = memEquals)) = _
    have hprefix : readBlock (s.placeArg arg).mem s.dest 4 = memEquals ↔ memEquals <+: arg.bytes :=
      hstring.readBlock_eq_iff memEquals_noNul
    rw [h.got, decide_eq_decide.mpr hprefix, ← Bool.decide_or]
    refine decide_eq_decide.mpr ?_
    simp only [List.mem_append, List.mem_singleton, or_and_right, exists_or, exists_eq_left]
  · show BlockAt (writeBlock _ (s.dest + arg.bytes.length) [blankByte]) 0 _
    rw [spread_concat, blockAt_append, blockAt_append, List.length_append, Nat.zero_add, ← hdest]
    refine ⟨⟨?_, ?_⟩, ?_⟩
    · exact blockAt_congr (fun i _ hi => hblank i (by omega)) hline
    · exact blockAt_congr (fun i _ hi => hblank i (by omega)) (blockAt_append.mp htext).1
    · rw [Nat.zero_add]
      exact blockAt_writeBlock _ _ _
  · intro i hi
    have hle : s.dest + arg.bytes.length + 1 ≤ i := hi
    exact (hblank i (by omega)).trans (hbehind i (by omega))
  · refine stored_put_lt hinside ?_
    show s.dest + arg.bytes.length + 1 ≤ 256
    omega

/-- An argument that takes all the room. -/
theorem Copied.last (h : Copied prev pre s) (hroom : 255 ≤ s.dest + arg.bytes.length + 1)
    (post : List (List Byte)) : Full prev (pre ++ arg.bytes :: post) (s.placeArg arg) := by
  obtain ⟨hline, htext, hbehind, hinside⟩ := h.place arg
  have hdest := h.dest
  have hleft := h.left
  have hlt := h.room
  have hlength : (spread blankByte pre ++ arg.bytes).length = s.dest + arg.bytes.length := by
    rw [List.length_append, hdest]
  refine ⟨?_, hinside, pre, arg.bytes, post, rfl, hdest ▸ hlt, by omega, ?_, ?_, ?_⟩
  · show s.left - (arg.bytes.length + 1) ≤ 0
    omega
  · rw [List.take_append, ← hdest, List.take_of_length_le (by omega), blockAt_append, Nat.zero_add,
      ← hdest]
    refine ⟨hline, ?_⟩
    rw [List.take_append] at htext
    exact (blockAt_append.mp htext).1
  · refine hbehind 255 ?_
    have hle : ((arg.bytes ++ [(0 : Byte)]).take (255 - s.dest)).length ≤ 255 - s.dest :=
      List.length_take_le _ _
    omega
  · intro hwhole
    have htake : (arg.bytes ++ [0]).take (255 - s.dest) = arg.bytes ++ [0] := by
      refine List.take_of_length_le ?_
      rw [List.length_append, List.length_singleton]
      omega
    rw [htake] at htext
    have hend := (blockAt_append.mp htext).2.1
    rw [← hlength, hwhole] at hend
    exact hend

theorem copyArgs_next {argv : List (Option BootArg)} (h : ¬(s.placeArg arg).left ≤ 0) :
    copyArgs (some arg :: argv) s = copyArgs argv { (s.placeArg arg).put
      ((s.placeArg arg).dest + (s.placeArg arg).len) [blankByte] with
        dest := (s.placeArg arg).dest + (s.placeArg arg).len + 1 } := if_neg h

theorem copyArgs_last {argv : List (Option BootArg)} (h : (s.placeArg arg).left ≤ 0) :
    copyArgs (some arg :: argv) s = s.placeArg arg := if_pos h

/-- The loop copies all the arguments, or is left at one that takes all the room. -/
theorem copyArgs_result (argv : List (Option BootArg)) (h : Copied prev pre s) :
    if (spread blankByte (pre ++ bootArgs argv)).length < 255
    then Copied prev (pre ++ bootArgs argv) (copyArgs argv s)
    else Full prev (pre ++ bootArgs argv) (copyArgs argv s) := by
  have hstop : (spread blankByte (pre ++ [])).length < 255 ∧ Copied prev (pre ++ []) s := by
    rw [List.append_nil]
    exact ⟨h.dest ▸ h.room, h⟩
  induction argv generalizing pre s with
  | nil => exact (if_pos hstop.1).mpr hstop.2
  | cons first argv ih =>
    cases first with
    | none => exact (if_pos hstop.1).mpr hstop.2
    | some arg =>
      have hleft : (s.placeArg arg).left = s.left - (arg.bytes.length + 1) := rfl
      have hs := h.left
      have hdest := h.dest
      have hlength := length_spread_concat pre arg.bytes
      by_cases hroom : s.dest + arg.bytes.length + 1 < 255
      · have hnext := h.next hroom
        rw [copyArgs_next (by omega), bootArgs, List.append_cons]
        refine ih hnext ?_
        rw [List.append_nil]
        exact ⟨hnext.dest ▸ hnext.room, hnext⟩
      · have hle := length_spread_le_of_prefix blankByte
          (List.prefix_append (pre ++ [arg.bytes]) (bootArgs argv))
        rw [copyArgs_last (by omega), if_neg (by rw [bootArgs, List.append_cons]; omega)]
        exact h.last (by omega) (bootArgs argv)

end DanubeBsp
