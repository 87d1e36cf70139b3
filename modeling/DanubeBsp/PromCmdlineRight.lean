import DanubeBsp.PromCmdlineMem

namespace DanubeBsp

variable {prev : Nat → Byte} {s t : PromState} {args : List (List Byte)} {memsz : Word}
  {line g : List Byte}

/-- What there is of a run is right. -/
def LineRight (args : List (List Byte)) (memsz : Word) (r : Option PromState) : Prop :=
  ∃ t line, r = some t ∧ (∀ i ∈ t.stored, i < clSize) ∧ StringAt 0 t.mem 0 line ∧
    line.length < clSize ∧ IsCmdline args memsz line

theorem isCmdline_short_iff (h : (spread blankByte args).length < 255) :
    IsCmdline args memsz line ↔ Spaced blankByte (cmdlineWords args memsz) line := by
  have hlt : ([blankByte].intercalate args).length < clSize := by
    cases args with
    | nil => decide
    | cons w args =>
      have hlength := length_intercalate_succ blankByte (List.cons_ne_nil w args)
      unfold clSize
      omega
  unfold IsCmdline
  dsimp only
  rw [if_pos hlt]

section Appended

theorem memEquals_prefix_iff (g : List Byte) :
    (g ++ memEquals).take 4 = memEquals ↔ g = [] ∨ memEquals <+: g := by
  constructor
  · intro h
    match g with
    | [] => exact .inl rfl
    | [a] =>
      have hfourth : some (0x6d : Byte) = some 0x3d := congrArg (·[3]?) h
      exact absurd hfourth (by decide)
    | [a, b] =>
      have hfourth : some (0x65 : Byte) = some 0x3d := congrArg (·[3]?) h
      exact absurd hfourth (by decide)
    | [a, b, c] =>
      have hfourth : some (0x6d : Byte) = some 0x3d := congrArg (·[3]?) h
      exact absurd hfourth (by decide)
    | a :: b :: c :: d :: g => exact .inr ⟨g, congrArg (· ++ g) h.symm⟩
  · rintro (rfl | ⟨rest, rfl⟩)
    · rfl
    · rw [List.append_assoc]
      exact @List.take_left _ memEquals (rest ++ memEquals)

theorem length_take_memEquals (g : List Byte) : ((g ++ memEquals).take 4).length = 4 := by
  rw [List.length_take, List.length_append]
  exact Nat.min_eq_left (Nat.le_add_left 4 g.length)

/-- The word is complete if nothing is left in its place, or just its own beginning. -/
theorem spaced_appendedWord_iff : Spaced blankByte (args.filter (· ≠ []) ++ [memWord memsz])
    (spread blankByte args ++ blankByte :: appendedWord g memsz) ↔ g = [] ∨ memEquals <+: g := by
  have hword : memWord memsz = memEquals ++ (decimalBytes memsz.toInt ++ asciiBytes ['M']) :=
    List.append_assoc _ _ _
  rw [← memEquals_prefix_iff, hword]
  unfold appendedWord
  constructor
  · intro h
    have hrest := h.filter_rest
    rw [List.filter_cons_of_neg (by simp), List.flatten_singleton, List.filter_append,
      List.filter_append memEquals] at hrest
    have hhead : ((g ++ memEquals).take 4).filter (· ≠ blankByte) = memEquals :=
      List.append_cancel_right hrest
    have hall := List.length_filter_eq_length_iff.mp
      ((congrArg List.length hhead).trans (length_take_memEquals g).symm)
    rw [List.filter_eq_self.mpr hall] at hhead
    exact hhead
  · intro h
    rw [h]
    exact (Spaced.sep (.last _)).behind_spread args

/-- The state in which the number is to be appended. -/
def memPlaced (s : PromState) (g : List Byte) : PromState :=
  { (s.put s.dest [blankByte]).put (s.dest + 1 + g.length) (memEquals ++ [0]) with
    dest := s.dest + 1 + 4
    left := s.left - 1 - 4 }

theorem Ended.appendMem_eq_some_iff (h : Ended prev args s) (happ : MemAppended args memsz) :
    appendMem s memsz = some t ↔ ∃ g, StringAt 0 (leftBehind prev args) (s.dest + 1) g ∧
      g.length < addressSpace ∧ (memPlaced s g).appendNumber memsz = some t := by
  unfold appendMem
  rw [if_pos (h.appended_iff.mpr happ)]
  dsimp only
  rw [Option.bind_eq_some_iff]
  constructor
  · rintro ⟨u, hu, ht⟩
    obtain ⟨g, hg, hlt, rfl⟩ := strcat_eq_some_iff.mp hu
    exact ⟨g, h.blanked_string_iff.mp hg, hlt, ht⟩
  · rintro ⟨g, hg, hlt, ht⟩
    exact ⟨_, strcat_eq_some_iff.mpr ⟨g, h.blanked_string_iff.mpr hg, hlt, rfl⟩, ht⟩

/-- The line as it comes out, if there is room for it. -/
theorem Ended.appended_line (h : Ended prev args s) (happ : MemAppended args memsz)
    (hg : StringAt 0 (leftBehind prev args) (s.dest + 1) g)
    (hargs : ∀ w ∈ args, ∀ b ∈ w, b ≠ 0) (hinside : s.dest + lastLen args < clSize)
    (hplace : s.dest + 1 + g.length + 4 < clSize)
    (hnumber : s.dest + 6 + (decimalBytes memsz.toInt).length < clSize) :
    ∃ t, appendMem s memsz = some t ∧ (∀ i ∈ t.stored, i < clSize) ∧
      StringAt 0 t.mem 0 (spread blankByte args ++ blankByte :: appendedWord g memsz) := by
  have hdest := h.dest
  have hleft := h.left
  have hroom : (decimalBytes memsz.toInt).length < (memPlaced s g).left.toNat := by
    show _ < (s.left - 1 - 4).toNat
    unfold clSize at hnumber
    omega
  obtain ⟨t, ht, hword, hsame, hstored⟩ := appendNumber_room hroom
  have hlt : g.length < addressSpace := by
    unfold addressSpace
    unfold clSize at hplace
    omega
  refine ⟨t, (h.appendMem_eq_some_iff happ).mpr ⟨g, hg, hlt, ht⟩, ?_, ?_⟩
  · refine hstored ?_ ?_
    · refine stored_put_lt (stored_put_lt (h.inside.mpr hinside) ?_) ?_
      · show s.dest + 1 ≤ clSize
        omega
      · show s.dest + 1 + g.length + 5 ≤ clSize
        omega
    · show s.dest + 1 + 4 + _ + 1 < clSize
      omega
  · have hplaced : StringAt 0 (memPlaced s g).mem (s.dest + 1) (g ++ memEquals) :=
      stringAt_writeBlock (h.blanked_string_iff.mpr hg) memEquals_noNul
    have hhead : BlockAt (memPlaced s g).mem (s.dest + 1) ((g ++ memEquals).take 4) := by
      have hblock := (blockAt_append.mp hplaced.1).1
      rw [← List.take_append_drop 4 (g ++ memEquals)] at hblock
      exact (blockAt_append.mp hblock).1
    have hfront : (spread blankByte args ++ [blankByte]).length = s.dest + 1 := by
      rw [List.length_append, hdest]
      rfl
    rw [← List.singleton_append, ← List.append_assoc]
    refine stringAt_append.mpr ⟨?_, ?_, stringAt_append.mpr ⟨?_, ?_, ?_⟩⟩
    · refine blockAt_congr ?_ h.blanked_line
      intro i _ hi
      rw [hfront] at hi
      rw [hsame i (show i < s.dest + 1 + 4 by omega)]
      exact writeBlock_outside (.inl (by omega))
    · refine List.forall_mem_append.mpr ⟨spread_noNul hargs, ?_⟩
      intro b hb
      rw [List.mem_singleton.mp hb]
      decide
    · rw [hfront, Nat.zero_add]
      refine blockAt_congr ?_ hhead
      intro i _ hi
      rw [length_take_memEquals] at hi
      exact hsame i hi
    · intro b hb
      exact hplaced.2 b (List.mem_of_mem_take hb)
    · rw [hfront, length_take_memEquals, Nat.zero_add]
      exact hword

theorem Ended.appended_right_iff (h : Ended prev args s) (happ : MemAppended args memsz)
    (hargs : ∀ w ∈ args, ∀ b ∈ w, b ≠ 0) : LineRight args memsz (appendMem s memsz) ↔
      s.dest + lastLen args < clSize ∧
        ∃ g, StringAt 0 (leftBehind prev args) (s.dest + 1) g ∧ (g = [] ∨ memEquals <+: g) ∧
          s.dest + 1 + g.length + 4 < clSize ∧
          s.dest + 6 + (decimalBytes memsz.toInt).length < clSize := by
  have hshort : (spread blankByte args).length < 255 := h.dest ▸ h.room
  have hwords : cmdlineWords args memsz = args.filter (· ≠ []) ++ [memWord memsz] := by
    unfold cmdlineWords
    rw [if_pos happ]
  constructor
  · rintro ⟨t, line, ht, hinside, hline, _, his⟩
    obtain ⟨g, hg, _, hnumber⟩ := (h.appendMem_eq_some_iff happ).mp ht
    obtain ⟨hplaced, hlast⟩ := appendNumber_inside hnumber hinside
    have hstored : s.dest + lastLen args < clSize := by
      refine h.inside.mp ?_
      intro i hi
      exact hplaced i (List.mem_append_left _ (List.mem_append_left _ hi))
    have hend : s.dest + 1 + g.length + 4 < clSize :=
      hplaced _ (mem_stored_put (Nat.le_add_right _ 4) (Nat.lt_succ_self _))
    have hlast' : s.dest + 6 + (decimalBytes memsz.toInt).length < clSize := by
      have hdest : (memPlaced s g).dest = s.dest + 5 := rfl
      omega
    obtain ⟨t', ht', _, hline'⟩ := h.appended_line happ hg hargs hstored hend hlast'
    cases Option.some.inj (ht.symm.trans ht')
    rw [hline.unique hline', isCmdline_short_iff hshort, hwords] at his
    exact ⟨hstored, g, hg, spaced_appendedWord_iff.mp his, hend, hlast'⟩
  · rintro ⟨hstored, g, hg, hcomplete, hend, hlast⟩
    obtain ⟨t, ht, hinside, hline⟩ := h.appended_line happ hg hargs hstored hend hlast
    refine ⟨t, _, ht, hinside, hline, ?_, ?_⟩
    · have hdest := h.dest
      have hword : (appendedWord g memsz).length = 4 + ((decimalBytes memsz.toInt).length + 1) := by
        unfold appendedWord
        rw [List.length_append, List.length_append, length_take_memEquals]
        rfl
      rw [List.length_append, List.length_cons, hword]
      omega
    · rw [isCmdline_short_iff hshort, hwords]
      exact spaced_appendedWord_iff.mpr hcomplete

end Appended

section Whole

theorem Ended.whole_right_iff (h : Ended prev args s) (happ : ¬MemAppended args memsz)
    (hargs : ∀ w ∈ args, ∀ b ∈ w, b ≠ 0) : LineRight args memsz (appendMem s memsz) ↔
      s.dest + lastLen args < clSize ∧
        ∃ g, StringAt 0 (leftBehind prev args) s.dest g ∧ ∀ b ∈ g, b = blankByte := by
  have hdest := h.dest
  have hshort : (spread blankByte args).length < 255 := hdest ▸ h.room
  have hwords : cmdlineWords args memsz = args.filter (· ≠ []) ++ [] := by
    unfold cmdlineWords
    rw [if_neg happ]
  have hrun : appendMem s memsz = some s := if_neg (fun hcond => happ (h.appended_iff.mp hcond))
  have hbehind : ∀ g, StringAt 0 s.mem s.dest g ↔ StringAt 0 (leftBehind prev args) s.dest g := by
    intro g
    constructor
    · exact StringAt.congr fun i hi _ => (h.behind i hi).symm
    · exact StringAt.congr fun i hi _ => h.behind i hi
  have hline : ∀ g,
      StringAt 0 s.mem 0 (spread blankByte args ++ g) ↔ StringAt 0 s.mem s.dest g := by
    intro g
    rw [stringAt_append, Nat.zero_add, ← hdest]
    exact ⟨fun hs => hs.2.2, fun hs => ⟨h.line, spread_noNul hargs, hs⟩⟩
  constructor
  · rintro ⟨t, line, ht, hinside, hstring, _, his⟩
    cases Option.some.inj (hrun.symm.trans ht)
    obtain ⟨g, rfl⟩ := StringAt.block_prefix h.line (spread_noNul hargs) hstring
    rw [isCmdline_short_iff hshort, hwords] at his
    refine ⟨h.inside.mp hinside, g, (hbehind g).mp ((hline g).mp hstring), ?_⟩
    have hrest := his.filter_rest
    intro b hb
    by_contra hne
    have hmem : b ∈ g.filter (· ≠ blankByte) := List.mem_filter.mpr ⟨hb, decide_eq_true hne⟩
    rw [hrest] at hmem
    cases hmem
  · rintro ⟨hstored, g, hg, hblank⟩
    refine ⟨s, spread blankByte args ++ g, hrun, h.inside.mpr hstored,
      (hline g).mpr ((hbehind g).mpr hg), ?_, ?_⟩
    · have hend : leftBehind prev args (s.dest + lastLen args) = 0 := by
        unfold leftBehind
        rw [hdest]
        exact Function.update_self _ _ _
      obtain ⟨g', hg', hle⟩ := exists_stringAt hend (Nat.le_add_right s.dest (lastLen args))
      rw [hg.unique hg', List.length_append, ← hdest]
      omega
    · rw [isCmdline_short_iff hshort, hwords]
      exact (spaced_nil_iff.mpr hblank).behind_spread args

end Whole

section Full

theorem filter_ne_nil_of_short {post : List (List Byte)} (h : (spread blankByte post).length ≤ 1) :
    post.filter (· ≠ []) = [] := by
  match post with
  | [] => rfl
  | [[]] => rfl
  | [] :: w :: post =>
    rw [spread_cons, spread_cons, List.length_append, List.length_cons, List.length_append] at h
    simp at h
  | (b :: w) :: post =>
    rw [spread_cons, List.length_append, List.length_cons, List.length_cons] at h
    omega

/-- A first part of the arguments that is as long as the line without its last byte. -/
theorem exists_prefix_iff {pre post : List (List Byte)} {w : List Byte}
    (hpre : (spread blankByte pre).length < 255)
    (hlong : 254 ≤ (spread blankByte pre ++ w).length) :
    (∃ first, first <+: pre ++ w :: post ∧ (spread blankByte first).length = clSize - 1) ↔
      (spread blankByte pre ++ w).length = 254 := by
  have hlength := length_spread_concat pre w
  rw [List.length_append] at hlong ⊢
  have hconcat : pre ++ [w] <+: pre ++ w :: post := ⟨post, List.append_assoc pre [w] post⟩
  unfold clSize
  constructor
  · rintro ⟨first, hfirst, hfull⟩
    rcases List.prefix_or_prefix_of_prefix hfirst hconcat with hle | hle
    · rcases List.prefix_concat_iff.mp hle with rfl | hle
      · omega
      · have := length_spread_le_of_prefix blankByte hle
        omega
    · have := length_spread_le_of_prefix blankByte hle
      omega
  · intro hwhole
    exact ⟨pre ++ [w], hconcat, by omega⟩

theorem length_spread_split (pre : List (List Byte)) (w : List Byte) (post : List (List Byte)) :
    (spread blankByte (pre ++ w :: post)).length =
      (spread blankByte pre ++ w).length + 1 + (spread blankByte post).length := by
  rw [spread_append, spread_cons, List.length_append, List.length_append, List.length_append,
    List.length_cons]
  omega

/-- The last argument that is copied ends the line, without a blank behind it. -/
theorem isCmdline_full {pre post : List (List Byte)} {w : List Byte}
    (hlong : 254 ≤ (spread blankByte pre ++ w).length) :
    IsCmdline (pre ++ w :: post) memsz ((spread blankByte pre ++ w).take 255) := by
  have hne : pre ++ w :: post ≠ [] :=
    List.append_ne_nil_of_right_ne_nil pre (List.cons_ne_nil w post)
  have htext := length_intercalate_succ blankByte hne
  have hsplit := length_spread_split pre w post
  have hprefix := prefix_intercalate blankByte pre w post
  unfold IsCmdline
  dsimp only
  split_ifs with hfits
  · unfold clSize at hfits
    have happ : ¬MemAppended (pre ++ w :: post) memsz := by
      rintro ⟨_, _, hroom⟩
      unfold clSize at hroom
      omega
    have hpost : post.filter (· ≠ []) = [] := filter_ne_nil_of_short (by omega)
    have hwords : cmdlineWords (pre ++ w :: post) memsz =
        pre.filter (· ≠ []) ++ [w].filter (· ≠ []) := by
      unfold cmdlineWords
      rw [if_neg happ, List.append_nil, List.append_cons, List.filter_append, List.filter_append,
        hpost, List.append_nil]
    have hlast : Spaced blankByte ([w].filter (· ≠ [])) w := by
      by_cases hw : w = []
      · rw [hw]
        exact .nil
      · rw [List.filter_cons_of_pos (by simpa using hw)]
        exact .last w
    rw [List.take_of_length_le (by omega), hwords]
    exact hlast.behind_spread pre
  · exact (List.take_prefix 255 _).trans hprefix

theorem Full.right_iff (h : Full prev args s) (hargs : ∀ w ∈ args, ∀ b ∈ w, b ≠ 0) :
    LineRight args memsz (appendMem s memsz) ↔ prev (clSize - 1) = 0 ∨
      ∃ pre, pre <+: args ∧ (spread blankByte pre).length = clSize - 1 := by
  have hrun : appendMem s memsz = some s := by
    refine if_neg ?_
    rintro ⟨_, _, hleft⟩
    have hnone := h.left
    omega
  obtain ⟨pre, w, post, rfl, hpre, hlong, hline, hlast, hzero⟩ := h.last
  have hnoNul : ∀ b ∈ (spread blankByte pre ++ w).take 255, b ≠ 0 := by
    intro b hb
    rcases List.mem_append.mp (List.mem_of_mem_take hb) with hb | hb
    · exact spread_noNul (fun w' hw' => hargs w' (List.mem_append_left _ hw')) b hb
    · exact hargs w (List.mem_append_right _ List.mem_cons_self) b hb
  rw [exists_prefix_iff hpre hlong]
  constructor
  · rintro ⟨t, line, ht, _, hstring, hlt, _⟩
    cases Option.some.inj (hrun.symm.trans ht)
    by_contra hno
    rw [not_or] at hno
    have hcut : ((spread blankByte pre ++ w).take 255).length = 255 := by
      rw [List.length_take]
      omega
    have hblock : BlockAt s.mem 0 ((spread blankByte pre ++ w).take 255 ++ [prev 255]) := by
      rw [blockAt_append, hcut]
      exact ⟨hline, hlast, trivial⟩
    have hbytes : ∀ b ∈ (spread blankByte pre ++ w).take 255 ++ [prev 255], b ≠ 0 := by
      refine List.forall_mem_append.mpr ⟨hnoNul, ?_⟩
      intro b hb
      rw [List.mem_singleton.mp hb]
      exact hno.1
    have hle := (StringAt.block_prefix hblock hbytes hstring).length_le
    rw [List.length_append, hcut, List.length_singleton] at hle
    unfold clSize at hlt
    omega
  · intro hor
    refine ⟨s, _, hrun, h.inside, ⟨?_, hnoNul⟩, ?_, isCmdline_full hlong⟩
    · refine blockAt_append.mpr ⟨hline, ?_, trivial⟩
      rw [List.length_take, Nat.zero_add]
      by_cases hwhole : (spread blankByte pre ++ w).length = 254
      · rw [hwhole]
        exact hzero hwhole
      · rw [Nat.min_eq_left (by omega), hlast]
        exact hor.resolve_right hwhole
    · unfold clSize
      exact Nat.lt_succ_of_le (List.length_take_le 255 _)

end Full

section Fake

theorem fakeCmdline_noNul (core1 : Bool) : ∀ b ∈ fakeCmdline core1, b ≠ 0 := by
  have hall : (fakeCmdline core1).all (· ≠ 0) = true := by cases core1 <;> rfl
  intro b hb
  exact of_decide_eq_true (List.all_eq_true.mp hall b hb)

/-- Without arguments, the line of the first core of two is cut off, and not ended. -/
theorem fake_right_iff (core1 : Bool) (prev : Nat → Byte) :
    (∃ line, StringAt 0 (writeBlock prev 0 ((fakeCmdline core1 ++ [0]).take 21)) 0 line ∧
      line.length < clSize) ↔ (core1 = true → ∃ z, 21 ≤ z ∧ z < clSize ∧ prev z = 0) := by
  cases core1 with
  | false =>
    have hlength : (fakeCmdline false).length = 20 := rfl
    have hwhole : (fakeCmdline false ++ [0]).take 21 = fakeCmdline false ++ [0] := by
      refine List.take_of_length_le ?_
      rw [List.length_append, hlength]
      exact Nat.le_refl 21
    rw [hwhole]
    refine iff_of_true ?_ (fun h => by cases h)
    refine ⟨fakeCmdline false, ⟨blockAt_writeBlock _ _ _, fakeCmdline_noNul false⟩, ?_⟩
    rw [hlength]
    decide
  | true =>
    have hlong : (fakeCmdline true).length = 72 := rfl
    have hcut : (fakeCmdline true ++ [0]).take 21 = (fakeCmdline true).take 21 :=
      List.take_append_of_le_length (by rw [hlong]; decide)
    have hlength : ((fakeCmdline true).take 21).length = 21 := by
      rw [List.length_take, hlong]
      decide
    have hnoNul : ∀ b ∈ (fakeCmdline true).take 21, b ≠ 0 := by
      intro b hb
      exact fakeCmdline_noNul true b (List.mem_of_mem_take hb)
    rw [hcut]
    have hblock := blockAt_writeBlock prev 0 ((fakeCmdline true).take 21)
    have hbehind : ∀ i, 21 ≤ i →
        writeBlock prev 0 ((fakeCmdline true).take 21) i = prev i := by
      intro i hi
      exact writeBlock_outside (.inr (by omega))
    constructor
    · rintro ⟨line, hline, hlt⟩ _
      have hle := (StringAt.block_prefix hblock hnoNul hline).length_le
      rw [hlength] at hle
      have hend := hline.at_end
      rw [Nat.zero_add, hbehind line.length hle] at hend
      exact ⟨line.length, hle, hlt, hend⟩
    · intro h
      obtain ⟨z, hz, hlt, hzero⟩ := h rfl
      obtain ⟨line, hline, hle⟩ := exists_stringAt ((hbehind z hz).trans hzero) (Nat.zero_le z)
      exact ⟨line, hline, by omega⟩

end Fake

theorem copied_nil (prev : Nat → Byte) : Copied prev [] ⟨prev, [], 0, clSize - 1, 0, false⟩ :=
  ⟨rfl, rfl, Nat.zero_lt_succ 254, rfl, rfl, trivial, fun _ _ => rfl,
    fun _ h => absurd h List.not_mem_nil⟩

theorem args_right_iff (core1 : Bool) (prev : Nat → Byte) {argc : Int} (hargc : 0 < argc)
    (argv : Nat → Option BootArg) (memsz : Word) :
    LineRight (bootArgs (bootArgv argc argv)) memsz (promCmdline core1 prev argc argv memsz) ↔
      ArgsFit prev (bootArgs (bootArgv argc argv)) memsz := by
  have hresult := copyArgs_result (bootArgv argc argv) (copied_nil prev)
  have hargs := @bootArgs_noNul (bootArgv argc argv)
  rw [List.nil_append] at hresult
  unfold promCmdline getCmdline ArgsFit
  rw [if_pos hargc]
  dsimp only
  generalize hs : copyArgs (bootArgv argc argv) ⟨prev, [], 0, clSize - 1, 0, false⟩ = s at hresult
  generalize bootArgs (bootArgv argc argv) = args at hresult hargs
  by_cases hfull : (spread blankByte args).length < 255
  · rw [if_pos hfull] at hresult
    have hended := hresult.ended
    have hdest := hresult.dest
    have hleft := hresult.left
    rw [if_pos (show 0 < s.left by omega), if_neg (show ¬clSize - 1 ≤ _ by unfold clSize; omega),
      ← hdest]
    by_cases happ : MemAppended args memsz
    · rw [if_pos happ]
      exact hended.appended_right_iff happ hargs
    · rw [if_neg happ]
      exact hended.whole_right_iff happ hargs
  · rw [if_neg hfull] at hresult
    have hleft := hresult.left
    rw [if_neg (show ¬0 < s.left by omega), if_pos (show clSize - 1 ≤ _ by unfold clSize; omega)]
    exact hresult.right_iff hargs

/-- The line is safe and complete exactly if it fits, with what has been in the memory. -/
theorem promCmdline_right_iff (core1 : Bool) (prev : Nat → Byte) (argc : Int)
    (argv : Nat → Option BootArg) (memsz : Word) :
    CmdlineRight core1 prev argc argv memsz ↔ CmdlineFits core1 prev argc argv memsz := by
  unfold CmdlineFits
  by_cases hargc : 0 < argc
  · rw [if_pos hargc, ← args_right_iff core1 prev hargc argv memsz]
    unfold CmdlineRight LineRight
    simp only [hargc, true_implies]
  · rw [if_neg hargc, ← fake_right_iff]
    have hget : getCmdline core1 prev argc argv =
        { (⟨prev, [], 0, 0, 0, false⟩ : PromState).strncpy 0 (fakeCmdline core1) 21 with
          left := 0 } := if_neg hargc
    have hrun : promCmdline core1 prev argc argv memsz =
        some (getCmdline core1 prev argc argv) := by
      unfold promCmdline
      rw [hget]
      refine if_neg ?_
      rintro ⟨_, _, hroom⟩
      exact absurd hroom (show ¬(8 : Int) < 0 by decide)
    have hinside : ∀ i ∈ (getCmdline core1 prev argc argv).stored, i < clSize := by
      rw [hget]
      refine stored_put_lt (fun i hi => absurd hi List.not_mem_nil) ?_
      have hle := List.length_take_le 21 (fakeCmdline core1 ++ [0])
      unfold clSize
      omega
    unfold CmdlineRight
    rw [hrun]
    constructor
    · rintro ⟨t, line, ht, _, hline, hlt, _⟩
      cases Option.some.inj ht
      rw [hget] at hline
      exact ⟨line, hline, hlt⟩
    · rintro ⟨line, hline, hlt⟩
      refine ⟨_, line, rfl, hinside, ?_, hlt, fun h => absurd h hargc⟩
      rw [hget]
      exact hline

def longArg : BootArg where
  bytes := List.replicate 200 0x61
  noNul := by
    intro b hb
    rw [List.eq_of_mem_replicate hb]
    decide

/-- An argument of 200 bytes, in a memory that has been cleared: the zero behind it is stored 200
bytes too far. -/
theorem promCmdline_stores_outside :
    ¬ CmdlineRight false (fun _ => 0) 2 (fun _ => some longArg) 0 := by
  rintro ⟨t, _, ht, hinside, _⟩
  have hoverrun : (promCmdline false (fun _ => 0) 2 (fun _ => some longArg) 0).map
      (·.stored.contains 401) = some true := by decide +kernel
  rw [ht, Option.map_some] at hoverrun
  have hmem : 401 ∈ t.stored := List.contains_iff_mem.mp (Option.some.inj hoverrun)
  exact absurd (hinside 401 hmem) (by decide)

end DanubeBsp
