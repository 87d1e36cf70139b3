import DanubeBsp.ByteOrder

namespace DanubeBsp

/-- `TTY_FLIPBUF_SIZE` -/
def ttyFlipbufSize : Nat := 512

inductive TtyFlag
  | normal
  | frame
  | parity
  | overrun
  deriving DecidableEq

/-- The flip buffer of a `tty_struct`. `received` is what the line discipline has got, and `unpushed`
says that entries wait which nobody has been told of. -/
structure FlipTty where
  charBuf : Nat → Byte
  flagBuf : Nat → TtyFlag
  charBufPtr : Nat
  flagBufPtr : Nat
  count : Nat
  bufNum : Bool
  /-- `TTY_LDISC` -/
  ldisc : Bool
  /-- `TTY_DONT_FLIP` -/
  dontFlip : Bool
  lowLatency : Bool
  received : List (Byte × TtyFlag)
  unpushed : Bool

/-- Where the half with the given number starts. -/
def flipHalf (bufNum : Bool) : Nat := if bufNum then ttyFlipbufSize else 0

def FlipTty.base (s : FlipTty) : Nat := flipHalf s.bufNum

/-- The entries that the line discipline does not have yet. -/
def FlipTty.contents (s : FlipTty) : List (Byte × TtyFlag) :=
  (List.range s.count).map fun i => (s.charBuf (s.base + i), s.flagBuf (s.base + i))

/-- Everything that has ever been stored, in order. -/
def FlipTty.stream (s : FlipTty) : List (Byte × TtyFlag) := s.received ++ s.contents

/-- `flush_to_ldisc`; while `TTY_DONT_FLIP` is set it only queues itself again. -/
def flushToLdisc (s : FlipTty) : FlipTty :=
  if s.ldisc then
    if s.dontFlip then { s with unpushed := false }
    else
      { s with
        bufNum := !s.bufNum
        charBufPtr := flipHalf (!s.bufNum)
        flagBufPtr := flipHalf (!s.bufNum)
        count := 0
        received := s.received ++ s.contents
        unpushed := false }
  else s

/-- `tty_flip_buffer_push`, with the task on the timer queue if not for low latency. -/
def ttyFlipBufferPush (s : FlipTty) : FlipTty :=
  { (if s.lowLatency then flushToLdisc s else s) with unpushed := false }

/-- `*char_buf_ptr = ch` -/
def FlipTty.setChar (s : FlipTty) (ch : Byte) : FlipTty :=
  { s with charBuf := Function.update s.charBuf s.charBufPtr ch }

/-- `*flag_buf_ptr = flag` -/
def FlipTty.setFlag (s : FlipTty) (flag : TtyFlag) : FlipTty :=
  { s with flagBuf := Function.update s.flagBuf s.flagBufPtr flag }

/-- Both pointers go on, and so does the count. -/
def FlipTty.advance (s : FlipTty) : FlipTty :=
  { s with
    charBufPtr := s.charBufPtr + 1
    flagBufPtr := s.flagBufPtr + 1
    count := s.count + 1
    unpushed := true }

/-- The count fits into a half, and both pointers have moved by it. -/
structure FlipFits (s : FlipTty) : Prop where
  count_le : s.count ≤ ttyFlipbufSize
  charPtr : s.charBufPtr = s.base + s.count
  flagPtr : s.flagBufPtr = s.base + s.count

/-- The buffer is full, and a flush would not change that. -/
def FlipTty.Jammed (s : FlipTty) : Prop :=
  ttyFlipbufSize ≤ s.count ∧ ¬(s.ldisc = true ∧ s.dontFlip = false)

instance (s : FlipTty) : Decidable s.Jammed := inferInstanceAs (Decidable (_ ∧ _))

section Buffer

variable {s : FlipTty}

theorem contents_eq {s t : FlipTty} (hcount : t.count = s.count) (hnum : t.bufNum = s.bufNum)
    (hchar : ∀ i, i < s.base + s.count → t.charBuf i = s.charBuf i)
    (hflag : ∀ i, i < s.base + s.count → t.flagBuf i = s.flagBuf i) : t.contents = s.contents := by
  have hbase : t.base = s.base := congrArg flipHalf hnum
  unfold FlipTty.contents
  rw [hcount, hbase]
  apply List.map_congr_left
  intro i hi
  have hlt := List.mem_range.mp hi
  rw [hchar _ (by omega), hflag _ (by omega)]

theorem FlipFits.setChar (h : FlipFits s) (ch : Byte) : FlipFits (s.setChar ch) :=
  ⟨h.count_le, h.charPtr, h.flagPtr⟩

theorem FlipFits.setFlag (h : FlipFits s) (flag : TtyFlag) : FlipFits (s.setFlag flag) :=
  ⟨h.count_le, h.charPtr, h.flagPtr⟩

theorem FlipFits.advance (h : FlipFits s) (hroom : s.count < ttyFlipbufSize) :
    FlipFits s.advance := by
  refine ⟨hroom, ?_, ?_⟩
  · show s.charBufPtr + 1 = s.base + (s.count + 1)
    rw [h.charPtr, Nat.add_assoc]
  · show s.flagBufPtr + 1 = s.base + (s.count + 1)
    rw [h.flagPtr, Nat.add_assoc]

/-- A write behind the entries leaves them alone. -/
theorem FlipFits.stream_setChar (h : FlipFits s) (ch : Byte) : (s.setChar ch).stream = s.stream := by
  have hcontents : (s.setChar ch).contents = s.contents := by
    refine @contents_eq s (s.setChar ch) rfl rfl ?_ fun _ _ => rfl
    intro i hi
    have hne : i ≠ s.charBufPtr := by
      rw [h.charPtr]
      omega
    exact Function.update_of_ne hne _ _
  exact congrArg (s.received ++ ·) hcontents

theorem FlipFits.stream_setFlag (h : FlipFits s) (flag : TtyFlag) :
    (s.setFlag flag).stream = s.stream := by
  have hcontents : (s.setFlag flag).contents = s.contents := by
    refine @contents_eq s (s.setFlag flag) rfl rfl (fun _ _ => rfl) ?_
    intro i hi
    have hne : i ≠ s.flagBufPtr := by
      rw [h.flagPtr]
      omega
    exact Function.update_of_ne hne _ _
  exact congrArg (s.received ++ ·) hcontents

/-- An advance takes what stands at the pointers as the next entry. -/
theorem FlipFits.stream_advance (h : FlipFits s) :
    s.advance.stream = s.stream ++ [(s.charBuf s.charBufPtr, s.flagBuf s.flagBufPtr)] := by
  have hcontents : s.advance.contents =
      s.contents ++ [(s.charBuf s.charBufPtr, s.flagBuf s.flagBufPtr)] := by
    show (List.range (s.count + 1)).map _ = _
    rw [List.range_succ, List.map_append, List.map_singleton, h.charPtr, h.flagPtr]
    rfl
  show s.received ++ s.advance.contents = (s.received ++ s.contents) ++ _
  rw [hcontents, List.append_assoc]

@[simp] theorem flushToLdisc_ldisc : (flushToLdisc s).ldisc = s.ldisc := by
  unfold flushToLdisc
  split_ifs <;> rfl

@[simp] theorem flushToLdisc_stream : (flushToLdisc s).stream = s.stream := by
  unfold flushToLdisc
  split_ifs
  · rfl
  · show (s.received ++ s.contents) ++ (List.range 0).map _ = s.received ++ s.contents
    simp
  · rfl

theorem FlipFits.flush (h : FlipFits s) : FlipFits (flushToLdisc s) := by
  unfold flushToLdisc
  split_ifs
  · exact ⟨h.count_le, h.charPtr, h.flagPtr⟩
  · exact ⟨Nat.zero_le _, rfl, rfl⟩
  · exact h

theorem flush_count_full (hfull : ttyFlipbufSize ≤ s.count) :
    ttyFlipbufSize ≤ (flushToLdisc s).count ↔ s.Jammed := by
  unfold flushToLdisc FlipTty.Jammed
  split_ifs with hldisc hdont
  · simp [hldisc, hdont, hfull]
  · simp [hldisc, hdont, ttyFlipbufSize]
  · simp [hldisc, hfull]

theorem flush_unpushed : (flushToLdisc s).unpushed = (!s.ldisc && s.unpushed) := by
  unfold flushToLdisc
  split_ifs with hldisc hdont <;> simp [hldisc]

theorem FlipFits.push (h : FlipFits s) : FlipFits (ttyFlipBufferPush s) := by
  unfold ttyFlipBufferPush
  split_ifs
  · exact ⟨h.flush.count_le, h.flush.charPtr, h.flush.flagPtr⟩
  · exact ⟨h.count_le, h.charPtr, h.flagPtr⟩

end Buffer

end DanubeBsp
