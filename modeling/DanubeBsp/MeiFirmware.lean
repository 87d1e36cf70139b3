import Mathlib.Algebra.BigOperators.Group.Finset.Basic
import DanubeBsp.ByteOrder

namespace DanubeBsp

/-- `SDRAM_SEGMENT_SIZE`. -/
def sdramSegmentSize : Nat := 65536

def maxBarRegisters : Nat := 17

def xdataRegister : Nat := 15

inductive FreeType
  | none
  | reload
  | showtime
  deriving DecidableEq

/-- `smmu_mem_info_t`; `address` is the memory of the segment, `none` the null pointer. -/
structure SmmuMemInfo where
  type : FreeType
  nCopy : Nat
  size : Nat
  address : Option (Nat → Byte)

def SmmuMemInfo.cleared : SmmuMemInfo := ⟨.none, 0, 0, none⟩

/-- The download state: `adsl_mem_info`, `image_size`, `nBar`, the file offset and
`arc_halt_flag`. -/
structure MeiState where
  memInfo : Nat → SmmuMemInfo
  imageSize : Nat
  nBar : Nat
  loff : Nat
  arcHaltFlag : Bool

/-- The user memory from `buf` on and the size of the write. -/
structure UserBuf where
  mem : Nat → Byte
  size : Nat

def UserBuf.bytes (b : UserBuf) : List Byte := (List.range b.size).map b.mem

/-- `free_image_buffer(FREE_ALL)`. -/
def freeImageBuffer (info : Nat → SmmuMemInfo) : Nat → SmmuMemInfo := fun idx =>
  if idx < maxBarRegisters ∧ 0 < (info idx).size then .cleared else info idx

/-- The loop of `alloc_processor_memory`, with the result of `kmalloc` for each segment. The result
is the number of the segment behind the last one; an error frees what there is. -/
def allocProcessorMemory (kmalloc : Nat → Option (Nat → Byte)) (info : Nat → SmmuMemInfo)
    (imgSize idx : Nat) : Except ((Nat → SmmuMemInfo) × Int) ((Nat → SmmuMemInfo) × Nat) :=
  if 0 < imgSize ∧ idx < maxBarRegisters then
    let idx' := if idx = xdataRegister then idx + 1 else idx
    let size := if idx' = maxBarRegisters - 1 then 1024 * 1024 else sdramSegmentSize
    match kmalloc idx' with
    | none =>
      .error (freeImageBuffer (Function.update info idx' { info idx' with size := size }), -12)
    | some mem =>
      allocProcessorMemory kmalloc
        (Function.update info idx' { info idx' with size := size, address := some mem })
        (imgSize - sdramSegmentSize) (idx' + 1)
  else if 0 < imgSize then .error (freeImageBuffer info, -27) else .ok (info, idx)
termination_by maxBarRegisters - idx
decreasing_by
  split <;> omega

/-- Which segments hold boot pages and which may be freed in showtime. -/
def setTypes (bars pOffset : Nat) (info : Nat → SmmuMemInfo) : Nat → SmmuMemInfo := fun idx =>
  if idx < bars ∧ idx ≠ xdataRegister then
    { info idx with type := if idx * sdramSegmentSize < pOffset then .reload else .showtime }
  else info idx

def copyFromUser (mem : Nat → Byte) (offset : Nat) (buf : Nat → Byte) (n : Nat) : Nat → Byte :=
  fun x => if offset ≤ x ∧ x < offset + n then buf (x - offset) else mem x

/-- The `IMAGE_SWAP` loop over `n` words. -/
def imageSwap (mem : Nat → Byte) (base : Nat) : Nat → Nat → Byte
  | 0 => mem
  | n + 1 =>
    let mem' := imageSwap mem base n
    storeBe mem' (base + 4 * n) (swab32 (loadBe mem' (base + 4 * n)))

/-- The copy loop of `mei_write`; `none` is a write through a null pointer. -/
def copyLoop (buf : UserBuf) (loff : Nat) (info : Nat → SmmuMemInfo) (nRead : Nat) :
    Option (Nat → SmmuMemInfo) :=
  if nRead < buf.size then
    let offset := (loff + nRead) % sdramSegmentSize
    let idx := (loff + nRead) / sdramSegmentSize
    let nCopy :=
      if buf.size - nRead + offset > sdramSegmentSize then sdramSegmentSize - offset
      else buf.size - nRead
    match (info idx).address with
    | none => none
    | some mem =>
      let mem' := copyFromUser mem offset (fun k => buf.mem (nRead + k)) nCopy
      let mem' := imageSwap mem' offset (nCopy / 4)
      copyLoop buf loff
        (Function.update info idx
          { info idx with nCopy := (info idx).nCopy + nCopy, address := some mem' })
        (nRead + nCopy)
  else some info
termination_by buf.size - nRead
decreasing_by
  have := Nat.mod_lt (loff + nRead) (show 0 < sdramSegmentSize by decide)
  split <;> omega

/-- The part of `mei_write` that a write at offset 0 makes before it copies; an error carries the
return value. The check on the size compares with the size of a pointer. -/
def meiWriteStart (kmalloc : Nat → Option (Nat → Byte)) (s : MeiState) (buf : UserBuf) :
    Except (MeiState × Int) MeiState :=
  if buf.size < 4 then .error (s, -12)
  else
    let s := { s with imageSize := (swab32 (loadBe buf.mem 0) + 8#32).toNat }
    if 1024 * 1024 < s.imageSize then .error (s, -12)
    else
      let s := { s with arcHaltFlag := true, memInfo := freeImageBuffer s.memInfo }
      match allocProcessorMemory kmalloc s.memInfo s.imageSize 0 with
      | .error (info, e) => .error ({ s with memInfo := freeImageBuffer info }, e)
      | .ok (info, bars) =>
        let info := setTypes bars (swab32 (loadBe buf.mem 12)).toNat info
        match kmalloc xdataRegister with
        | none => .error ({ s with memInfo := freeImageBuffer info, nBar := bars }, -12)
        | some mem =>
          let info := Function.update info xdataRegister
            { info xdataRegister with type := .reload, size := sdramSegmentSize, address := some mem }
          .ok { s with memInfo := info, nBar := bars }

/-- `mei_write`. -/
def meiWrite (kmalloc : Nat → Option (Nat → Byte)) (s : MeiState) (buf : UserBuf) :
    Option (MeiState × Int) :=
  let start :=
    if s.loff = 0 then meiWriteStart kmalloc s buf
    else if s.imageSize = 0 || !s.arcHaltFlag then
      .error ({ s with memInfo := freeImageBuffer s.memInfo }, -12)
    else .ok s
  match start with
  | .error r => some r
  | .ok s => do
    let info ← copyLoop buf s.loff s.memInfo 0
    pure ({ s with memInfo := info, loff := s.loff + buf.size }, (buf.size : Int))

/-- Successive calls of `mei_write`. -/
def meiDownload (kmalloc : Nat → Option (Nat → Byte)) : MeiState → List UserBuf → Option MeiState
  | s, [] => some s
  | s, b :: bs => do
    let r ← meiWrite kmalloc s b
    meiDownload kmalloc r.1 bs

/-- The sum of `nCopy` over all segments. -/
def meiCopied (s : MeiState) : Nat := ∑ idx ∈ Finset.range maxBarRegisters, (s.memInfo idx).nCopy

/-- The checks of `meiRunAdslModem` on the header, which is at the start of segment 0, and on the
image size. -/
def meiImageComplete (s : MeiState) : Bool :=
  match (s.memInfo 0).address with
  | none => false
  | some hdr => decide ((loadBe hdr 8 * 24#32).toNat ≤ sdramSegmentSize) && meiCopied s == s.imageSize

/-- The read loop of `meiGetPage`: `n` words are left, `i` are done, and `p` points `off` bytes
into segment `idx`. -/
def pageLoop (info : Nat → SmmuMemInfo) (offset : Nat) :
    (n i idx nBar off : Nat) → Option (List Word)
  | 0, _, _, _, _ => some []
  | n + 1, i, idx, nBar, off =>
    let passed := (((offset : Int) + i * 4 - nBar * sdramSegmentSize) % 2 ^ 32).toNat
    let crossed := decide (sdramSegmentSize ≤ passed)
    let idx := if crossed then idx + 1 else idx
    let nBar := if crossed then nBar + 1 else nBar
    let off := if crossed then 0 else off
    match (info idx).address with
    | none => none
    | some mem => (pageLoop info offset n (i + 1) idx nBar (off + 4)).map (loadBe mem off :: ·)

/-- What `meiGetPage` returns, the words that it puts into `Buffer` and the value of `Dest`. -/
structure PageResult where
  ret : Int
  buffer : List Word
  dest : Option Word

/-- `meiGetPage`; `data` is `GET_DATA`. -/
def meiGetPage (s : MeiState) (page : Nat) (data : Bool) (maxSize : Nat) : Option PageResult :=
  match (s.memInfo 0).address with
  | none => none
  | some hdr =>
    let base := 12 + 24 * page
    if (loadBe hdr 8).toNat < page then some ⟨-2, [], none⟩
    else
      let size := (loadBe hdr (if data then base + 20 else base + 8) &&& 0x7fffffff#32).toNat
      if maxSize < size then some ⟨-1, [], none⟩
      else if size = 0 then some ⟨0, [], none⟩
      else
        let i := (loadBe hdr (if data then base + 12 else base)).toNat
        let offset := i % sdramSegmentSize
        (pageLoop s.memInfo offset size 0 (i / sdramSegmentSize) 0 offset).map fun buffer =>
          ⟨size, buffer, some (loadBe hdr (if data then base + 16 else base + 4))⟩

end DanubeBsp
