import DanubeBsp.NandEcc
import DanubeBsp.Errno

namespace DanubeBsp

/-- The layouts of the spare area; with `none` there is no error correction. -/
inductive OobSel
  | none
  | jffs2
  | yaffs
  deriving DecidableEq

/-- The rows of `oobconfigs`. -/
def oobConfig : OobSel → Nat → Nat
  | .none, _ => 0
  | .jffs2, i => [0, 1, 2, 3, 6, 7].getD i 0
  | .yaffs, i => [8, 9, 10, 13, 14, 15].getD i 0

/-- The cells of the device by page: 512 bytes of data, then 16 of the spare area. -/
abbrev Flash := Nat → Nat → Byte

/-- What the driver meets in the device. -/
structure NandDevice where
  size : Nat
  writeProtect : Bool
  /-- The device reports that it failed to program the page. -/
  fails : Nat → Bool

/-- The three code bytes from entry `i` of the layout on. -/
def storeEcc (oobsel : OobSel) (oob : Nat → Byte) (i : Nat) (c : EccCode) : Nat → Byte :=
  Function.update (Function.update (Function.update oob (oobConfig oobsel i) c.b0)
    (oobConfig oobsel (i + 1)) c.b1) (oobConfig oobsel (i + 2)) c.b2

def loadEcc (oobsel : OobSel) (oob : Nat → Byte) (i : Nat) : EccCode :=
  ⟨oob (oobConfig oobsel i), oob (oobConfig oobsel (i + 1)), oob (oobConfig oobsel (i + 2))⟩

/-- Programming can only clear bits. -/
def program (flash : Flash) (page : Nat) (data oob : Nat → Byte) : Flash :=
  Function.update flash page fun i =>
    if i < 512 then flash page i &&& data i
    else if i < 528 then flash page i &&& oob (i - 512)
    else flash page i

/-- `nand_write_page` without a buffer for the spare area, up to the status of the device. -/
def nandWritePage (flash : Flash) (page : Nat) (dataPoi : Nat → Byte) (col last : Nat)
    (oobsel : OobSel) : Flash :=
  let data := fun i =>
    if oobsel ≠ .none ∧ i < col then flash page i else dataPoi i
  let oob : Nat → Byte := fun _ => 0xff
  let oob := if oobsel ≠ .none ∧ col < 256 ∧ 256 ≤ last then
    storeEcc oobsel oob 0 (nandCalculateEcc data) else oob
  let oob := if oobsel ≠ .none ∧ last = 512 then
    storeEcc oobsel oob 3 (nandCalculateEcc fun j => data (256 + j)) else oob
  program flash page (fun i => if i < col ∨ last ≤ i then 0xff else data i) oob

/-- The loop of `nand_write_ecc`; `dataBuf` is what is left in the chip's own buffer. -/
def nandWriteLoop (dev : NandDevice) (buf dataBuf : Nat → Byte) (len : Nat) (oobsel : OobSel) :
    Nat → Flash → Nat → Nat → Nat → Option (Int × Nat × Flash)
  | 0, _, _, _, _ => .none
  | fuel + 1, flash, page, col, written =>
    if written < len then
      let full := col = 0 ∧ 512 ≤ len - written
      let cnt := if full then 512 else min len 512 - col
      let dataPoi := fun i =>
        if full ∨ col ≤ i ∧ i < min len 512 then buf (written + i) else dataBuf i
      let flash := nandWritePage flash page dataPoi col cnt oobsel
      if dev.fails page then some (eIo, written, flash)
      else nandWriteLoop dev buf dataBuf len oobsel fuel flash (page + 1) 0 (written + cnt)
    else some (0, written, flash)

/-- The return value, `*retlen` and the device afterwards. -/
def nandWriteEcc (dev : NandDevice) (flash : Flash) (dataBuf : Nat → Byte) (to_ len : Nat)
    (buf : Nat → Byte) (oobsel : OobSel) : Option (Int × Nat × Flash) :=
  if dev.size < to_ + len then some (eInval, 0, flash)
  else if dev.writeProtect then some (eIo, 0, flash)
  else nandWriteLoop dev buf dataBuf len oobsel (len + 2) flash (to_ / 512) (to_ % 512) 0

/-- The part of `nand_read_ecc` that reads and corrects a page: the data and the number of its
halves that could not be corrected. -/
def nandReadPage (cells : Nat → Byte) (oobsel : OobSel) : (Nat → Byte) × Nat :=
  if oobsel = .none then (cells, 0)
  else
    let oob := fun i => cells (512 + i)
    let calc0 := nandCalculateEcc cells
    let calc1 := nandCalculateEcc fun j => cells (256 + j)
    let (st0, data0, _) := nandCorrectData cells (loadEcc oobsel oob 0) calc0
    let (st1, data1, _) := nandCorrectData (fun j => data0 (256 + j)) (loadEcc oobsel oob 3) calc1
    (fun i => if i < 256 then data0 i else data1 (i - 256),
      (if st0 = -1 then 1 else 0) + (if st1 = -1 then 1 else 0))

/-- Copy `n` bytes of `data` from `col` on to `buf[read..]`. -/
def copyOut (buf : Nat → Byte) (read : Nat) (data : Nat → Byte) (col n : Nat) : Nat → Byte :=
  fun i => if read ≤ i ∧ i < read + n then data (col + (i - read)) else buf i

/-- The loop of `nand_read_ecc`. -/
def nandReadLoop (flash : Flash) (len : Nat) (oobsel : OobSel) :
    Nat → (Nat → Byte) → Nat → Nat → Nat → Nat → Option (Int × Nat × (Nat → Byte))
  | 0, _, _, _, _, _ => .none
  | fuel + 1, buf, page, col, read, failed =>
    if read < len then
      let (data, bad) := nandReadPage (flash page) oobsel
      let n := if col ≠ 0 ∨ len - read < 512 then min (512 - col) (len - read) else 512
      nandReadLoop flash len oobsel fuel (copyOut buf read data col n) (page + 1) 0 (read + n)
        (failed + bad)
    else some (if failed = 0 then 0 else eIo, read, buf)

/-- The return value, `*retlen` and the caller's buffer. -/
def nandReadEcc (dev : NandDevice) (flash : Flash) (from_ len : Nat) (buf : Nat → Byte)
    (oobsel : OobSel) : Option (Int × Nat × (Nat → Byte)) :=
  if dev.size < from_ + len then some (eInval, 0, buf)
  else nandReadLoop flash len oobsel (len + 1) buf (from_ / 512) (from_ % 512) 0 0

/-- Half `h` of a page with its code. -/
def pageBlock (oobsel : OobSel) (cells : Nat → Byte) (h : Fin 2) : EccBlock :=
  ⟨fun j => cells (256 * h + j), loadEcc oobsel (fun i => cells (512 + i)) (3 * h)⟩

/-- The block with one changed bit, or none. -/
def EccBlock.suffer (b : EccBlock) : Option EccError → EccBlock
  | .none => b
  | some e => b.flip e

/-- Each half of the page has at most one bit changed, be it data or code; the rest of the spare
area may hold anything. -/
def PageSuffered (oobsel : OobSel) (cells cells' : Nat → Byte) : Prop :=
  ∀ h : Fin 2, ∃ e, (pageBlock oobsel cells' h).code = ((pageBlock oobsel cells h).suffer e).code ∧
    ∀ j, j < 256 →
      (pageBlock oobsel cells' h).dat j = ((pageBlock oobsel cells h).suffer e).dat j

/-! One half of a page. -/

theorem nandCalculateEcc_congr {dat dat' : Nat → Byte} (h : ∀ j, j < 256 → dat j = dat' j) :
    nandCalculateEcc dat = nandCalculateEcc dat' := by
  have hloop : ∀ n, n ≤ 256 → eccLoop dat n = eccLoop dat' n := by
    intro n hn
    induction n with
    | zero => rfl
    | succ n ih => rw [eccLoop, eccLoop, ih (by omega), h n (by omega)]
  rw [nandCalculateEcc, nandCalculateEcc, hloop 256 (le_refl _)]

theorem EccBlock.suffer_dat_ge (b : EccBlock) (e : Option EccError) {j : Nat} (hj : 256 ≤ j) :
    (b.suffer e).dat j = b.dat j := by
  cases e with
  | none => rfl
  | some e =>
    cases e with
    | data i k => exact Function.update_of_ne (by omega) _ _
    | code i k => rfl

theorem EccBlock.suffer_dat_congr {b c : EccBlock} (e : Option EccError) {j : Nat}
    (h : ∀ j, j < 256 → b.dat j = c.dat j) (hj : j < 256) :
    (b.suffer e).dat j = (c.suffer e).dat j := by
  cases e with
  | none => exact h j hj
  | some e =>
    cases e with
    | data i k =>
      simp only [EccBlock.suffer, EccBlock.flip]
      by_cases he : j = i
      · rw [he, Function.update_self, Function.update_self, h i i.isLt]
      · rw [Function.update_of_ne he, Function.update_of_ne he, h j hj]
    | code i k => exact h j hj

theorem EccBlock.suffer_code_congr {b c : EccBlock} (e : Option EccError)
    (h : b.code = c.code) : (b.suffer e).code = (c.suffer e).code := by
  cases e with
  | none => exact h
  | some e =>
    cases e with
    | data i k => exact h
    | code i k => exact congrArg (fun d => EccCode.xor d (.bit i k)) h

theorem suffer_corrected (dat : Nat → Byte) (e : Option EccError) :
    ∃ st code, ((EccBlock.written dat).suffer e).corrected = (st, dat, code) ∧ st ≠ -1 := by
  have h := nandEcc_corrects_one_detects_two dat
  cases e with
  | none => exact ⟨_, _, h.intact, by decide⟩
  | some e =>
    cases e with
    | data j k => exact ⟨_, _, h.data j k, by decide⟩
    | code i k => exact ⟨_, _, h.code i k, by decide⟩

/-- A half that was written as `dat` and has one changed bit at most is corrected to `dat`; what
lies behind it stays. -/
theorem EccBlock.corrected_half {b : EccBlock} {dat : Nat → Byte} {e : Option EccError}
    (hcode : b.code = ((written dat).suffer e).code)
    (hdat : ∀ j, j < 256 → b.dat j = ((written dat).suffer e).dat j) :
    ∃ st dat' code, b.corrected = (st, dat', code) ∧ st ≠ -1 ∧ (∀ j, j < 256 → dat' j = dat j) ∧
      ∀ j, 256 ≤ j → dat' j = b.dat j := by
  obtain ⟨full, hfull⟩ : ∃ full : Nat → Byte, full = fun j => if j < 256 then dat j else b.dat j :=
    ⟨_, rfl⟩
  have hlow : ∀ j, j < 256 → full j = dat j := by
    intro j hj
    rw [hfull]
    exact if_pos hj
  have hhigh : ∀ j, 256 ≤ j → full j = b.dat j := by
    intro j hj
    rw [hfull]
    exact if_neg (by omega)
  have hb : b = (written full).suffer e := by
    have hd : b.dat = ((written full).suffer e).dat := by
      funext j
      by_cases hj : j < 256
      · rw [hdat j hj]
        exact (suffer_dat_congr e (b := written full) (c := written dat) hlow hj).symm
      · rw [suffer_dat_ge _ _ (by omega)]
        exact (hhigh j (by omega)).symm
    have hc : b.code = ((written full).suffer e).code := by
      rw [hcode]
      exact suffer_code_congr e (nandCalculateEcc_congr hlow).symm
    cases b
    simp only at hd hc
    rw [hd, hc]
  obtain ⟨st, code, hst, hne⟩ := suffer_corrected full e
  rw [← hb] at hst
  exact ⟨st, full, code, hst, hne, hlow, hhigh⟩

/-! One page. -/

/-- The page was written as the 512 bytes `d`. -/
def PageHolds (oobsel : OobSel) (d cells : Nat → Byte) : Prop :=
  ∀ h : Fin 2, (pageBlock oobsel cells h).code = nandCalculateEcc (fun j => d (256 * h + j)) ∧
    ∀ j, j < 256 → (pageBlock oobsel cells h).dat j = d (256 * h + j)

theorem loadEcc_storeEcc {oobsel : OobSel} (hsel : oobsel ≠ .none) (oob : Nat → Byte)
    (c d : EccCode) :
    loadEcc oobsel (storeEcc oobsel (storeEcc oobsel oob 0 c) 3 d) 0 = c ∧
      loadEcc oobsel (storeEcc oobsel (storeEcc oobsel oob 0 c) 3 d) 3 = d := by
  cases oobsel with
  | none => exact absurd rfl hsel
  | jffs2 => simp [loadEcc, storeEcc, oobConfig, Function.update]
  | yaffs => simp [loadEcc, storeEcc, oobConfig, Function.update]

theorem oobConfig_lt (oobsel : OobSel) {i : Nat} (hi : i < 6) : oobConfig oobsel i < 16 := by
  cases oobsel with
  | none => exact Nat.zero_lt_succ 15
  | jffs2 => interval_cases i <;> decide
  | yaffs => interval_cases i <;> decide

theorem loadEcc_congr {oobsel : OobSel} {oob oob' : Nat → Byte} {k : Nat} (hk : k < 4)
    (h : ∀ i, i < 16 → oob i = oob' i) : loadEcc oobsel oob k = loadEcc oobsel oob' k := by
  rw [loadEcc, loadEcc, h _ (oobConfig_lt oobsel (by omega)), h _ (oobConfig_lt oobsel (by omega)),
    h _ (oobConfig_lt oobsel (by omega))]

theorem program_erased {flash : Flash} {page i : Nat} (data oob : Nat → Byte)
    (herased : ∀ i, i < 528 → flash page i = 0xff) :
    (i < 512 → program flash page data oob page i = data i) ∧
      (i < 16 → program flash page data oob page (512 + i) = oob i) := by
  have hand : ∀ x : Byte, 0xff#8 &&& x = x := fun _ => BitVec.allOnes_and
  constructor
  · intro hi
    rw [program, Function.update_self, if_pos hi, herased i (by omega)]
    exact hand _
  · intro hi
    rw [program, Function.update_self, if_neg (by omega), if_pos (by omega),
      herased (512 + i) (by omega), Nat.add_sub_cancel_left]
    exact hand _

/-- A full page programmed over erased cells. -/
theorem nandWritePage_holds {flash : Flash} {page : Nat} {oobsel : OobSel} (d : Nat → Byte)
    (hsel : oobsel ≠ .none) (herased : ∀ i, i < 528 → flash page i = 0xff) :
    PageHolds oobsel d (nandWritePage flash page d 0 512 oobsel page) := by
  have hback : (fun i => if oobsel ≠ .none ∧ i < 0 then flash page i else d i) = d := by
    funext i
    exact if_neg (fun h => Nat.not_lt_zero i h.2)
  obtain ⟨oob, hoob⟩ : ∃ oob, oob = storeEcc oobsel (storeEcc oobsel (fun _ => 0xff) 0
    (nandCalculateEcc d)) 3 (nandCalculateEcc fun j => d (256 + j)) := ⟨_, rfl⟩
  have hwrite : nandWritePage flash page d 0 512 oobsel =
      program flash page (fun i => if i < 0 ∨ 512 ≤ i then 0xff else d i) oob := by
    rw [nandWritePage, hback, if_pos ⟨hsel, rfl⟩, if_pos ⟨hsel, by omega, by omega⟩, hoob]
  obtain ⟨hfirst, hsecond⟩ := loadEcc_storeEcc hsel (fun _ => 0xff) (nandCalculateEcc d)
    (nandCalculateEcc fun j => d (256 + j))
  rw [← hoob] at hfirst hsecond
  have hspare : ∀ k, k < 4 →
      loadEcc oobsel (fun i => nandWritePage flash page d 0 512 oobsel page (512 + i)) k =
        loadEcc oobsel oob k := by
    intro k hk
    apply loadEcc_congr hk
    intro i hi
    rw [hwrite]
    exact (program_erased _ oob herased).2 hi
  intro h
  refine ⟨?_, ?_⟩
  · rcases Fin.exists_fin_two.mp ⟨h, rfl⟩ with rfl | rfl
    · refine (hspare 0 (by omega)).trans (hfirst.trans ?_)
      simp
    · exact (hspare 3 (by omega)).trans hsecond
  · intro j hj
    have hlt : 256 * h.val + j < 512 := by omega
    have hdata := (program_erased (fun i => if i < 0 ∨ 512 ≤ i then 0xff else d i) oob herased).1 hlt
    rw [if_neg (by omega), ← hwrite] at hdata
    exact hdata

/-- The page read back, when each of its halves has one changed bit at most. -/
theorem nandReadPage_suffered {oobsel : OobSel} {d cells cells' : Nat → Byte}
    (hsel : oobsel ≠ .none) (hholds : PageHolds oobsel d cells)
    (hsuffered : PageSuffered oobsel cells cells') :
    (nandReadPage cells' oobsel).2 = 0 ∧
      ∀ i, i < 512 → (nandReadPage cells' oobsel).1 i = d i := by
  have hhalf : ∀ h : Fin 2, ∃ e, (pageBlock oobsel cells' h).code =
      ((EccBlock.written fun j => d (256 * h + j)).suffer e).code ∧ ∀ j, j < 256 →
        (pageBlock oobsel cells' h).dat j =
          ((EccBlock.written fun j => d (256 * h + j)).suffer e).dat j := by
    intro h
    obtain ⟨hcode, hdat⟩ := hholds h
    obtain ⟨e, hcode', hdat'⟩ := hsuffered h
    refine ⟨e, hcode'.trans (EccBlock.suffer_code_congr e hcode), ?_⟩
    intro j hj
    exact (hdat' j hj).trans (EccBlock.suffer_dat_congr e hdat hj)
  obtain ⟨e0, hcode0, hdat0⟩ := hhalf 0
  obtain ⟨e1, hcode1, hdat1⟩ := hhalf 1
  obtain ⟨st0, data0, code0, hc0, hne0, hlow0, hhigh0⟩ := EccBlock.corrected_half hcode0 hdat0
  obtain ⟨st1, data1, code1, hc1, hne1, hlow1, -⟩ := EccBlock.corrected_half hcode1 hdat1
  have hfirst : nandCorrectData cells' (loadEcc oobsel (fun i => cells' (512 + i)) 0)
      (nandCalculateEcc cells') = (st0, data0, code0) := by
    simpa [EccBlock.corrected, pageBlock] using hc0
  have hback : (fun j => data0 (256 + j)) = fun j => cells' (256 + j) := by
    funext j
    simpa [pageBlock] using hhigh0 (256 + j) (by omega)
  have hsecond : nandCorrectData (fun j => data0 (256 + j))
      (loadEcc oobsel (fun i => cells' (512 + i)) 3)
      (nandCalculateEcc fun j => cells' (256 + j)) = (st1, data1, code1) := by
    rw [hback]
    exact hc1
  have hread : nandReadPage cells' oobsel =
      (fun i => if i < 256 then data0 i else data1 (i - 256), 0) := by
    rw [nandReadPage, if_neg hsel]
    simp only [hfirst, hsecond, if_neg hne0, if_neg hne1]
  rw [hread]
  refine ⟨rfl, ?_⟩
  intro i hi
  dsimp only
  by_cases hlow : i < 256
  · rw [if_pos hlow, hlow0 i hlow]
    simp
  · rw [if_neg hlow, hlow1 (i - 256) (by omega)]
    exact congrArg d (by simp; omega)

/-! The loops over the pages. -/

/-- The read loop from the place `pos` of the device, where all pages it comes to read back as
`buf`. -/
theorem nandReadLoop_eq (pos : Nat) (buf : Nat → Byte) {flash : Flash}
    {len fuel page col read : Nat} {oobsel : OobSel} {out : Nat → Byte} (hpos : read < len → 512 * page + col = pos + read) (hcol : col < 512)
    (hle : read ≤ len) (hfuel : len - read < fuel)
    (hpages : ∀ p, page ≤ p → 512 * p < pos + len → (nandReadPage (flash p) oobsel).2 = 0 ∧
      ∀ i, i < 512 → (nandReadPage (flash p) oobsel).1 i = buf (512 * p + i)) :
    nandReadLoop flash len oobsel fuel out page col read 0 =
      some (0, len, fun i => if read ≤ i ∧ i < len then buf (pos + i) else out i) := by
  induction fuel generalizing page col read out with
  | zero => omega
  | succ fuel ih =>
    rw [nandReadLoop]
    by_cases hlt : read < len
    · rw [if_pos hlt]
      have hpos := hpos hlt
      obtain ⟨hbad, hdata⟩ := hpages page (le_refl _) (by omega)
      obtain ⟨data, hpage⟩ : ∃ data, nandReadPage (flash page) oobsel = (data, 0) :=
        ⟨_, Prod.ext rfl hbad⟩
      rw [hpage] at hdata
      dsimp only at hdata
      obtain ⟨n, hn⟩ : ∃ n, min (512 - col) (len - read) = n := ⟨_, rfl⟩
      have hcount : (if col ≠ 0 ∨ len - read < 512 then min (512 - col) (len - read) else 512) =
          n := by
        rw [← hn]
        split
        next => rfl
        next h => omega
      have hcopied : ∀ i, copyOut out read data col n i =
          if read ≤ i ∧ i < read + n then buf (pos + i) else out i := by
        intro i
        rw [copyOut]
        split
        next hin =>
          rw [hdata _ (by omega)]
          exact congrArg buf (by omega)
        next => rfl
      have hnext : nandReadLoop flash len oobsel fuel (copyOut out read data col n) (page + 1) 0
          (read + n) 0 =
          some (0, len, fun i => if read ≤ i ∧ i < len then buf (pos + i) else out i) := by
        rw [ih (by omega) (by omega) (by omega) (by omega) (fun p hp => hpages p (by omega))]
        refine congrArg (fun f => some (0, len, f)) ?_
        funext i
        rw [hcopied]
        by_cases hin : read ≤ i ∧ i < read + n
        · rw [if_pos hin, if_neg (by omega), if_pos (by omega)]
        · rw [if_neg hin]
          by_cases hrest : read + n ≤ i ∧ i < len
          · rw [if_pos hrest, if_pos (by omega)]
          · rw [if_neg hrest, if_neg (by omega)]
      rw [hpage]
      rw [← hcount] at hnext
      exact hnext
    · rw [if_neg hlt]
      have he : read = len := by omega
      have hnone : (fun i => if read ≤ i ∧ i < len then buf (pos + i) else out i) = out := by
        funext i
        exact if_neg (by omega)
      rw [hnone, he]
      rfl

/-- The pages that a write touched hold their part of the buffer, and no other page changed. -/
structure PagesWritten (oobsel : OobSel) (flash flash' : Flash) (page n pos : Nat)
    (buf : Nat → Byte) : Prop where
  holds : ∀ p, page ≤ p → p < page + n →
    PageHolds oobsel (fun i => buf (512 * (p - page) + pos + i)) (flash' p)
  others : ∀ p, ¬ (page ≤ p ∧ p < page + n) → flash' p = flash p

theorem nandWritePage_other {flash : Flash} {page p : Nat} (d : Nat → Byte) (col last : Nat)
    (oobsel : OobSel) (hp : p ≠ page) :
    nandWritePage flash page d col last oobsel p = flash p := Function.update_of_ne hp _ _

/-- The write loop over whole pages that are erased. -/
theorem nandWriteLoop_eq {dev : NandDevice} {oobsel : OobSel} {len n : Nat}
    (buf dataBuf : Nat → Byte) (fuel : Nat) (flash : Flash) (page written : Nat) (hsel : oobsel ≠ .none)
    (hlen : len = written + 512 * n) (hfuel : n < fuel)
    (herased : ∀ p, page ≤ p → p < page + n → ∀ i, i < 528 → flash p i = 0xff)
    (hok : ∀ p, page ≤ p → p < page + n → dev.fails p = false) :
    ∃ flash', nandWriteLoop dev buf dataBuf len oobsel fuel flash page 0 written =
      some (0, len, flash') ∧ PagesWritten oobsel flash flash' page n written buf := by
  induction n generalizing fuel flash page written with
  | zero =>
    obtain ⟨fuel, rfl⟩ : ∃ m, fuel = m + 1 := ⟨fuel - 1, by omega⟩
    refine ⟨flash, ?_, ?_, fun _ _ => rfl⟩
    · rw [nandWriteLoop, if_neg (by omega), hlen]
      rfl
    · intro p hp hp'
      omega
  | succ n ih =>
    obtain ⟨fuel, rfl⟩ : ∃ m, fuel = m + 1 := ⟨fuel - 1, by omega⟩
    have hfull : 512 ≤ len - written := by omega
    obtain ⟨flash', hrun, hrest, hothers⟩ := ih fuel
      (nandWritePage flash page (fun i => buf (written + i)) 0 512 oobsel) (page + 1)
      (written + 512) (by omega) (by omega)
      (by
        intro p hp hp' i hi
        rw [nandWritePage_other _ _ _ _ (by omega)]
        exact herased p (by omega) (by omega) i hi)
      (fun p hp hp' => hok p (by omega) (by omega))
    refine ⟨flash', ?_, ?_, ?_⟩
    · rw [nandWriteLoop, if_pos (by omega)]
      simp only [hfull, hok page (le_refl _) (by omega), and_self, true_or, if_true,
        Bool.false_eq_true, if_false]
      exact hrun
    · intro p hp hp'
      by_cases hfirst : p = page
      · rw [hfirst, hothers page (by omega), Nat.sub_self, Nat.mul_zero, Nat.zero_add]
        exact nandWritePage_holds _ hsel (herased page (le_refl _) (by omega))
      · have hnext := hrest p (by omega) (by omega)
        have hplace : 512 * (p - (page + 1)) + (written + 512) = 512 * (p - page) + written := by
          omega
        rw [hplace] at hnext
        exact hnext
    · intro p hp
      rw [hothers p (by omega)]
      exact nandWritePage_other _ _ _ _ (by omega)

/-- Whole pages written over erased ones read back from any place and in any length, even when
since then one bit in every half of a page, or in its code, has changed: the write and the read
succeed, the read returns the bytes of the buffer and touches nothing behind them. -/
theorem nand_write_read (dev : NandDevice) (flash : Flash) (buf dataBuf : Nat → Byte)
    (page n : Nat) (oobsel : OobSel) (hsel : oobsel ≠ .none) (hsize : 512 * (page + n) ≤ dev.size)
    (hprotect : dev.writeProtect = false)
    (herased : ∀ p, page ≤ p → p < page + n → ∀ i, i < 528 → flash p i = 0xff)
    (hok : ∀ p, page ≤ p → p < page + n → dev.fails p = false) :
    ∃ flash', nandWriteEcc dev flash dataBuf (512 * page) (512 * n) buf oobsel =
        some (0, 512 * n, flash') ∧
      (∀ p, ¬ (page ≤ p ∧ p < page + n) → flash' p = flash p) ∧
      ∀ worn : Flash, (∀ p, page ≤ p → p < page + n → PageSuffered oobsel (flash' p) (worn p)) →
        ∀ (off len : Nat) (out : Nat → Byte), off + len ≤ 512 * n →
          nandReadEcc dev worn (512 * page + off) len out oobsel =
            some (0, len, fun i => if i < len then buf (off + i) else out i) := by
  have haligned : 512 * page / 512 = page ∧ 512 * page % 512 = 0 := by omega
  obtain ⟨flash', hwrite, hholds, hothers⟩ := nandWriteLoop_eq buf dataBuf
    (512 * n + 2) flash page 0 hsel (Nat.zero_add _).symm (by omega) herased hok
  refine ⟨flash', ?_, hothers, ?_⟩
  · rw [nandWriteEcc, if_neg (by omega), hprotect, haligned.1, haligned.2]
    exact hwrite
  · intro worn hworn off len out hrange
    rw [nandReadEcc, if_neg (by omega), nandReadLoop_eq (512 * page + off)
      (fun i => buf (i - 512 * page)) (by omega) (by omega) (by omega) (by omega)]
    · refine congrArg (fun f => some (0, len, f)) ?_
      funext i
      by_cases hi : i < len
      · rw [if_pos ⟨Nat.zero_le _, hi⟩, if_pos hi]
        exact congrArg buf (by omega)
      · rw [if_neg (fun h => hi h.2), if_neg hi]
    · intro p hp hp'
      obtain ⟨hbad, hdata⟩ := nandReadPage_suffered hsel (hholds p (by omega) (by omega))
        (hworn p (by omega) (by omega))
      refine ⟨hbad, ?_⟩
      intro i hi
      rw [hdata i hi]
      exact congrArg buf (by omega)

def smallNand : NandDevice := ⟨512, false, fun _ => false⟩

/-- One page of a device, and 200 bytes from the middle of it. -/
theorem nand_write_read_small : ∃ flash',
    nandWriteEcc smallNand (fun _ _ => 0xff) (fun _ => 0) (512 * 0) (512 * 1)
      (fun i => BitVec.ofNat 8 i) .jffs2 = some (0, 512 * 1, flash') ∧
    nandReadEcc smallNand flash' (512 * 0 + 100) 200 (fun _ => 0) .jffs2 =
      some (0, 200, fun i => if i < 200 then BitVec.ofNat 8 (100 + i) else 0) := by
  obtain ⟨flash', hwrite, -, hread⟩ := nand_write_read smallNand (fun _ _ => 0xff)
    (fun i => BitVec.ofNat 8 i) (fun _ => 0) 0 1 .jffs2 (by decide) (by decide) rfl
    (fun _ _ _ _ _ => rfl) (fun _ _ _ => rfl)
  refine ⟨flash', hwrite, hread flash' ?_ 100 200 (fun _ => 0) (by decide)⟩
  intro p _ _ h
  exact ⟨none, rfl, fun _ _ => rfl⟩

end DanubeBsp
