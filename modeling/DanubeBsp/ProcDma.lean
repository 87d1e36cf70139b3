import Mathlib.Algebra.Order.BigOperators.Group.List
import Mathlib.Data.Nat.Digits.Lemmas
import DanubeBsp.PagedReads
import DanubeBsp.Eth1Tx

namespace DanubeBsp

/-- `%d` of a number that is not negative. -/
def decimal (n : Nat) : List Char := Nat.toDigits 10 n

/-- `%2d`. -/
def decimal2 (n : Nat) : List Char := List.replicate (2 - (decimal n).length) ' ' ++ decimal n

/-- `%08X`. -/
def hex8 (w : Word) : List Char :=
  (List.range 8).map fun i => (Nat.digitChar (w.toNat / 16 ^ (7 - i) % 16)).toUpper

def kseg1 : Word := 0xa0000000#32

def danubePpe : Word := kseg1 + 0x1e180000#32

/-- `SB_RAM0_ADDR(x)`. -/
def sbRam0Addr (x : Nat) : Word := danubePpe + BitVec.ofNat 32 (x + 0x8000) <<< 2

/-- What the file shows: the words of `SB_RAM0`, where the rings are, and `dbg_dma_enable`. -/
structure EthDma where
  sbRam0 : Nat → Word
  dbgDmaEnable : Word

/-- The line that both printers of descriptors write. -/
def descLine (desc : Nat) (addr w0 w1 dataPointer : Word) : List Char :=
  "    ".toList ++ decimal2 desc ++ " (".toList ++ hex8 addr ++ "). ".toList ++ hex8 w0 ++
    " ".toList ++ hex8 w1 ++ ", own ".toList ++ decimal (w0.extractLsb' 31 1).toNat ++
    ", c ".toList ++ decimal (w0.extractLsb' 30 1).toNat ++
    ", sop ".toList ++ decimal (w0.extractLsb' 29 1).toNat ++
    ", eop ".toList ++ decimal (w0.extractLsb' 28 1).toNat ++
    ", off ".toList ++ decimal (w0.extractLsb' 23 5).toNat ++
    ", addr ".toList ++ hex8 dataPointer ++
    ", len ".toList ++ decimal (w0.extractLsb' 0 16).toNat ++ "\n".toList

/-- The ring that `print_dma_desc` picks. -/
def dmaDescBase (channel : Nat) (isRx : Bool) : Option Nat :=
  if isRx then
    if channel = 1 then some 0x1400
    else if channel = 2 then some 0x0b90
    else none
  else if channel = 2 then some 0x0bc0
  else none

def printDmaDesc (d : EthDma) (channel desc : Nat) (isRx : Bool) : List Char :=
  match dmaDescBase channel isRx with
  | none => []
  | some base =>
    let x := base + desc * 2
    descLine desc (sbRam0Addr x) (d.sbRam0 x) (d.sbRam0 (x + 1)) (d.sbRam0 (x + 1) ||| kseg1)

def printEmaDesc (d : EthDma) (channel desc : Nat) (isRx : Bool) : List Char :=
  if isRx then []
  else
    let x := 0x1800 + channel * 2 * eth1TxDescNum + desc * 2
    descLine desc (sbRam0Addr x) (d.sbRam0 x) (d.sbRam0 (x + 1))
      (((d.sbRam0 (x + 1)).extractLsb' 0 28).setWidth 32 <<< 2 ||| kseg1)

def dmaRxCh1DescNum : Nat := 32

def dmaRxCh2DescNum : Nat := 24

def dmaTxCh2DescNum : Nat := dmaRxCh2DescNum

/-- The lines of the upstream half, as `str` gets them one after another. -/
def upstreamLines (d : EthDma) : List (List Char) :=
  ["DMA (eth0 -> eth1)\n".toList, "  rx\n".toList] ++
    (List.range dmaRxCh1DescNum).map (printDmaDesc d 1 · true) ++ ["  tx\n".toList] ++
    (List.range eth1TxDescNum).map (printEmaDesc d 1 · false)

def downstreamLines (d : EthDma) : List (List Char) :=
  ["DMA (eth1 -> eth0)\n".toList, "  rx\n".toList] ++
    (List.range dmaRxCh2DescNum).map (printDmaDesc d 2 · true) ++ ["  tx\n".toList] ++
    (List.range dmaTxCh2DescNum).map (printDmaDesc d 2 · false)

def dmaLines (d : EthDma) : List (List Char) :=
  (if d.dbgDmaEnable &&& 1#32 ≠ 0 then upstreamLines d else []) ++
    (if d.dbgDmaEnable &&& 2#32 ≠ 0 then downstreamLines d else [])

def dmaText (d : EthDma) : List Char := (dmaLines d).flatten

/-- `len` and what is in the page before `pstr`. -/
structure DmaPage where
  page : List Char
  len : Nat

/-- The two copies of a line `str`, and `len += llen`. -/
def copyLine (off : Nat) (p : DmaPage) (str : List Char) : DmaPage :=
  let llen := str.length
  let page :=
    if p.len ≤ off ∧ off < p.len + llen then p.page ++ str.drop (off - p.len)
    else if off < p.len then p.page ++ str
    else p.page
  ⟨page, p.len + llen⟩

/-- The lines one by one, up to the first one with which `len` reaches `len_max`. -/
def printLines (off : Nat) (lenMax : Int) : List (List Char) → DmaPage → PageReply Char
  | [], p => ⟨p.len - off, true, p.page⟩
  | str :: rest, p =>
    let q := copyLine off p str
    if lenMax ≤ q.len then ⟨q.len - str.length - off, false, q.page⟩
    else printLines off lenMax rest q

/-- `int len_max = off + count`. -/
def lenMax (off : Nat) (count : Int) : Int := (off + count).bmod (2 ^ 32)

def procReadDma (d : EthDma) (off : Nat) (count : Int) : PageReply Char :=
  printLines off (lenMax off count) (dmaLines d) ⟨[], 0⟩

/-- Where line `i` starts in the text. -/
def lineStart (lines : List (List Char)) (i : Nat) : Nat := (lines.take i).flatten.length

theorem lineStart_zero (lines : List (List Char)) : lineStart lines 0 = 0 := rfl

theorem lineStart_length (lines : List (List Char)) :
    lineStart lines lines.length = lines.flatten.length := by
  rw [lineStart, List.take_length]

theorem flatten_take_succ {lines : List (List Char)} {i : Nat} (hi : i < lines.length) :
    (lines.take (i + 1)).flatten = (lines.take i).flatten ++ lines[i] := by
  rw [List.take_succ_eq_append_getElem hi, List.flatten_append, List.flatten_singleton]

theorem lineStart_succ {lines : List (List Char)} {i : Nat} (hi : i < lines.length) :
    lineStart lines (i + 1) = lineStart lines i + lines[i].length := by
  rw [lineStart, flatten_take_succ hi, List.length_append, lineStart]

theorem lineStart_mono {lines : List (List Char)} {i j : Nat} (hij : i ≤ j) :
    lineStart lines i ≤ lineStart lines j := by
  obtain ⟨k, rfl⟩ := Nat.exists_eq_add_of_le hij
  rw [lineStart, lineStart, List.take_add, List.flatten_append, List.length_append]
  exact Nat.le_add_right _ _

theorem flatten_take_eq (lines : List (List Char)) (i : Nat) :
    (lines.take i).flatten = lines.flatten.take (lineStart lines i) := by
  have h : lines.flatten = (lines.take i).flatten ++ (lines.drop i).flatten := by
    rw [← List.flatten_append, List.take_append_drop]
  rw [h, lineStart, List.take_left]

/-- The page after the first `i` lines: the text up to there, from `off` on. -/
def pageAfter (lines : List (List Char)) (off i : Nat) : DmaPage :=
  ⟨(lines.take i).flatten.drop off, lineStart lines i⟩

theorem copyLine_pageAfter {lines : List (List Char)} {off i : Nat} (hi : i < lines.length) :
    copyLine off (pageAfter lines off i) lines[i] = pageAfter lines off (i + 1) := by
  simp only [copyLine, pageAfter, lineStart_succ hi, flatten_take_succ hi, List.drop_append,
    DmaPage.mk.injEq, and_true]
  change (if lineStart lines i ≤ off ∧ off < lineStart lines i + lines[i].length then _
    else if off < lineStart lines i then _ else _) = _ ++ lines[i].drop (off - lineStart lines i)
  by_cases hin : lineStart lines i ≤ off ∧ off < lineStart lines i + lines[i].length
  · rw [if_pos hin]
  · rw [if_neg hin]
    by_cases hlt : off < lineStart lines i
    · have hzero : off - lineStart lines i = 0 := by omega
      rw [if_pos hlt, hzero, List.drop_zero]
    · have hge : lines[i].length ≤ off - lineStart lines i := by omega
      rw [if_neg hlt, List.drop_of_length_le hge, List.append_nil]

/-- The reply of a read: line `i` is the first that reaches `max`, and is not counted. -/
def StopsAt (lines : List (List Char)) (off : Nat) (max : Int) (r : PageReply Char) (i : Nat) :
    Prop :=
  i < lines.length ∧ max ≤ lineStart lines (i + 1) ∧
    r = ⟨lineStart lines i - off, false, (pageAfter lines off (i + 1)).page⟩

def RunsOut (lines : List (List Char)) (off : Nat) (r : PageReply Char) : Prop :=
  r = ⟨lines.flatten.length - off, true, lines.flatten.drop off⟩

theorem printLines_from (lines : List (List Char)) (off : Nat) (max : Int) {i : Nat}
    (hi : i ≤ lines.length) :
    (∃ m, StopsAt lines off max
        (printLines off max (lines.drop i) (pageAfter lines off i)) m ∧
        i ≤ m ∧ ∀ j, i < j → j ≤ m → (lineStart lines j : Int) < max) ∨
      RunsOut lines off (printLines off max (lines.drop i) (pageAfter lines off i)) ∧
        ∀ j, i < j → j ≤ lines.length → (lineStart lines j : Int) < max := by
  induction hn : lines.length - i generalizing i with
  | zero =>
    have heq : i = lines.length := by omega
    subst heq
    right
    refine ⟨?_, fun j h1 h2 => by omega⟩
    simp only [RunsOut, List.drop_length, printLines, pageAfter, lineStart_length,
      List.take_length]
  | succ n ih =>
    have hlt : i < lines.length := by omega
    rw [List.drop_eq_getElem_cons hlt, printLines, copyLine_pageAfter hlt]
    by_cases hmax : max ≤ (pageAfter lines off (i + 1)).len
    · left
      refine ⟨i, ⟨hlt, hmax, ?_⟩, le_rfl, fun j h1 h2 => by omega⟩
      have hlen : (pageAfter lines off (i + 1)).len = lineStart lines i + lines[i].length :=
        lineStart_succ hlt
      rw [if_pos hmax, hlen]
      simp
    · rw [if_neg hmax]
      have hbelow : ∀ j, i < j → ¬i + 1 < j → (lineStart lines j : Int) < max := by
        intro j h1 h2
        have heq : j = i + 1 := by omega
        subst heq
        exact not_le.mp hmax
      rcases ih hlt (by omega) with ⟨m, hstop, hle, hall⟩ | ⟨hout, hall⟩
      · refine Or.inl ⟨m, hstop, by omega, fun j h1 h2 => ?_⟩
        by_cases hj : i + 1 < j
        · exact hall j hj h2
        · exact hbelow j h1 hj
      · refine Or.inr ⟨hout, fun j h1 h2 => ?_⟩
        by_cases hj : i + 1 < j
        · exact hall j hj h2
        · exact hbelow j h1 hj

/-- What a reply may say: it stops at a line, or it has run out of lines. -/
theorem procReadDma_reply (d : EthDma) (off : Nat) (count : Int) :
    (∃ m, StopsAt (dmaLines d) off (lenMax off count) (procReadDma d off count) m ∧
        ∀ j, 0 < j → j ≤ m → (lineStart (dmaLines d) j : Int) < lenMax off count) ∨
      RunsOut (dmaLines d) off (procReadDma d off count) ∧
        ∀ j, 0 < j → j ≤ (dmaLines d).length →
          (lineStart (dmaLines d) j : Int) < lenMax off count := by
  have hstart : pageAfter (dmaLines d) off 0 = ⟨[], 0⟩ := by
    simp [pageAfter, lineStart_zero]
  have h := printLines_from (dmaLines d) off (lenMax off count) (Nat.zero_le _)
  rw [List.drop_zero, hstart] at h
  rcases h with ⟨m, hstop, -, hall⟩ | h
  · exact Or.inl ⟨m, hstop, hall⟩
  · exact Or.inr h

/-- A read from anywhere that does not fail gives the text that it stands at. -/
theorem procReadDma_data {d : EthDma} {off : Nat} {count : Int}
    (h : 0 ≤ (procReadDma d off count).ret) :
    (procReadDma d off count).data =
      ((dmaText d).drop off).take (procReadDma d off count).ret.toNat := by
  rcases procReadDma_reply d off count with ⟨m, ⟨hm, -, heq⟩, -⟩ | ⟨hout, -⟩
  · rw [heq] at h ⊢
    simp only at h
    have hle : lineStart (dmaLines d) m ≤ lineStart (dmaLines d) (m + 1) :=
      lineStart_mono (Nat.le_succ m)
    have hret : ((lineStart (dmaLines d) m : Int) - off).toNat ≤
        lineStart (dmaLines d) (m + 1) - off := by omega
    simp only [PageReply.data, pageAfter]
    rw [flatten_take_eq, List.drop_take, List.take_take, Nat.min_eq_left hret, dmaText]
  · rw [hout]
    rfl

def intMax : Int := 2 ^ 31 - 1

theorem lenMax_eq {off : Nat} {count : Int} (hc : 1 ≤ count) (h : off + count ≤ intMax) :
    lenMax off count = off + count := by
  rw [intMax] at h
  rw [lenMax, Int.bmod_eq_of_le] <;> omega

theorem lenMax_neg {off : Nat} {count : Int} (hoff : off ≤ intMax) (hc : count ≤ intMax)
    (h : intMax < off + count) : lenMax off count < 0 := by
  rw [intMax] at *
  have heq : lenMax off count = off + count - 2 ^ 32 := by
    rw [lenMax, ← Int.sub_bmod_right, Int.bmod_eq_of_le] <;> omega
  omega

theorem length_hex8 (w : Word) : (hex8 w).length = 8 := by
  rw [hex8, List.length_map, List.length_range]

theorem length_decimal_le {n k : Nat} (hk : 0 < k) (h : n < 10 ^ k) : (decimal n).length ≤ k :=
  (Nat.length_toDigits_le_iff (by decide) hk).mpr h

theorem length_decimal_field_le (w : Word) (start width : Nat) {k : Nat} (hk : 0 < k)
    (h : 2 ^ width ≤ 10 ^ k) : (decimal (w.extractLsb' start width).toNat).length ≤ k :=
  length_decimal_le hk (Nat.lt_of_lt_of_le (BitVec.isLt _) h)

theorem length_decimal2 {n : Nat} (h : n < 100) : (decimal2 n).length = 2 := by
  have hle : (decimal n).length ≤ 2 := length_decimal_le (by decide) h
  rw [decimal2, List.length_append, List.length_replicate]
  omega

/-- A line fits in `str` and in the overrun that a page has room for. -/
theorem length_descLine_le {desc : Nat} (hdesc : desc < 100) (addr w0 w1 dataPointer : Word) :
    (descLine desc addr w0 w1 dataPointer).length ≤ 128 := by
  have hown := length_decimal_field_le w0 31 1 (k := 1) (by decide) (by decide)
  have hc := length_decimal_field_le w0 30 1 (k := 1) (by decide) (by decide)
  have hsop := length_decimal_field_le w0 29 1 (k := 1) (by decide) (by decide)
  have heop := length_decimal_field_le w0 28 1 (k := 1) (by decide) (by decide)
  have hoff := length_decimal_field_le w0 23 5 (k := 2) (by decide) (by decide)
  have hlen := length_decimal_field_le w0 0 16 (k := 5) (by decide) (by decide)
  have hlits : "    ".toList.length = 4 ∧ " (".toList.length = 2 ∧ "). ".toList.length = 3 ∧
      " ".toList.length = 1 ∧ ", own ".toList.length = 6 ∧ ", c ".toList.length = 4 ∧
      ", sop ".toList.length = 6 ∧ ", eop ".toList.length = 6 ∧ ", off ".toList.length = 6 ∧
      ", addr ".toList.length = 7 ∧ ", len ".toList.length = 6 ∧ "\n".toList.length = 1 := by
    decide
  unfold descLine
  simp only [List.length_append, length_hex8, length_decimal2 hdesc, hlits]
  omega

theorem descLine_ne_nil (desc : Nat) (addr w0 w1 dataPointer : Word) :
    descLine desc addr w0 w1 dataPointer ≠ [] :=
  List.append_ne_nil_of_right_ne_nil _ (by decide)

/-- What holds of every line of the file: it is not empty, and `str` is large enough. -/
def LineFits (l : List Char) : Prop := l ≠ [] ∧ l.length ≤ 128

theorem printDmaDesc_fits (d : EthDma) (base : Nat) {channel desc : Nat} {isRx : Bool}
    (hbase : dmaDescBase channel isRx = some base) (hdesc : desc < 100) :
    LineFits (printDmaDesc d channel desc isRx) := by
  rw [printDmaDesc, hbase]
  exact ⟨descLine_ne_nil _ _ _ _ _, length_descLine_le hdesc _ _ _ _⟩

theorem printEmaDesc_fits (d : EthDma) (channel : Nat) {desc : Nat} (hdesc : desc < 100) :
    LineFits (printEmaDesc d channel desc false) :=
  ⟨descLine_ne_nil _ _ _ _ _, length_descLine_le hdesc _ _ _ _⟩

theorem dmaLines_fit (d : EthDma) : ∀ l ∈ dmaLines d, LineFits l := by
  intro l hl
  have hrange : ∀ {n desc : Nat}, n ≤ 32 → desc ∈ List.range n → desc < 100 := by
    intro n desc hn hmem
    have := List.mem_range.mp hmem
    omega
  rcases List.mem_append.mp hl with hup | hdown
  · by_cases hen : d.dbgDmaEnable &&& 1#32 ≠ 0
    · rw [if_pos hen, upstreamLines] at hup
      simp only [List.mem_append, List.mem_cons, List.not_mem_nil, or_false, List.mem_map] at hup
      rcases hup with (((rfl | rfl) | ⟨i, hi, rfl⟩) | rfl) | ⟨i, hi, rfl⟩
      · exact ⟨by decide, by decide⟩
      · exact ⟨by decide, by decide⟩
      · exact printDmaDesc_fits d 0x1400 rfl (hrange (by decide) hi)
      · exact ⟨by decide, by decide⟩
      · exact printEmaDesc_fits d 1 (hrange (by decide) hi)
    · rw [if_neg hen] at hup
      exact absurd hup (List.not_mem_nil)
  · by_cases hen : d.dbgDmaEnable &&& 2#32 ≠ 0
    · rw [if_pos hen, downstreamLines] at hdown
      simp only [List.mem_append, List.mem_cons, List.not_mem_nil, or_false, List.mem_map] at hdown
      rcases hdown with (((rfl | rfl) | ⟨i, hi, rfl⟩) | rfl) | ⟨i, hi, rfl⟩
      · exact ⟨by decide, by decide⟩
      · exact ⟨by decide, by decide⟩
      · exact printDmaDesc_fits d 0x0b90 rfl (hrange (by decide) hi)
      · exact ⟨by decide, by decide⟩
      · exact printDmaDesc_fits d 0x0bc0 rfl (hrange (by decide) hi)
    · rw [if_neg hen] at hdown
      exact absurd hdown (List.not_mem_nil)

theorem length_dmaLines_le (d : EthDma) : (dmaLines d).length ≤ 118 := by
  have hup : (upstreamLines d).length = 67 := by
    simp [upstreamLines, dmaRxCh1DescNum, eth1TxDescNum]
  have hdown : (downstreamLines d).length = 51 := by
    simp [downstreamLines, dmaRxCh2DescNum, dmaTxCh2DescNum]
  rw [dmaLines, List.length_append]
  split <;> split <;> simp only [hup, hdown, List.length_nil] <;> omega

/-- `len` stays far below the end of an `int`. -/
theorem length_dmaText_le (d : EthDma) : (dmaText d).length ≤ 118 * 128 := by
  rw [dmaText, List.length_flatten]
  calc ((dmaLines d).map List.length).sum
      ≤ ((dmaLines d).map List.length).length • 128 := by
        apply List.sum_le_card_nsmul
        intro n hn
        obtain ⟨l, hl, rfl⟩ := List.mem_map.mp hn
        exact (dmaLines_fit d l hl).2
    _ ≤ 118 * 128 := by
        rw [List.length_map]
        exact Nat.mul_le_mul_right _ (length_dmaLines_le d)

end DanubeBsp
