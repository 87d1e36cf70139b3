import DanubeBsp.MeiFirmwarePages
import DanubeBsp.MeiImage

namespace DanubeBsp

/-- The checks of `meiRunAdslModem`, which `DANUBE_MEI_START` calls, before it starts the boot code. -/
def meiRunAdslModem (s : MeiState) : Int := if meiImageComplete s then 0 else -1

/-- The driver with a complete image, the device having been opened anew. -/
structure LoadedModem extends MeiState where
  complete : meiImageComplete toMeiState = true
  opened : loff = 0

/-- A first chunk that `mei_write` rejects for its size: too short for the check, or too large by its
header. -/
structure RefusedChunk extends UserBuf where
  refused : size < 4 ∨ 1024 * 1024 < headerImageSize toUserBuf

/-- The image in the segments is as before and can be started as before. -/
structure ImageKept (s s' : MeiState) : Prop where
  memInfo : s'.memInfo = s.memInfo
  nBar : s'.nBar = s.nBar
  imageSize : s'.imageSize = s.imageSize
  start : meiRunAdslModem s' = meiRunAdslModem s

/-- The call returns an error, and the image that was there before is kept. -/
def RefusedCleanly (kmalloc : Nat → Option (Nat → Byte)) (s : LoadedModem) (buf : RefusedChunk) :
    Prop :=
  ∃ s', meiWrite kmalloc s.toMeiState buf.toUserBuf = some (s', -12) ∧ ImageKept s.toMeiState s'

/-- What a chunk that is rejected for its size leaves: the size from its header, once that was read. -/
theorem meiWrite_refused (kmalloc : Nat → Option (Nat → Byte)) (s : LoadedModem)
    (buf : RefusedChunk) :
    meiWrite kmalloc s.toMeiState buf.toUserBuf = some ({ s.toMeiState with
      imageSize := if buf.size < 4 then s.imageSize else headerImageSize buf.toUserBuf }, -12) := by
  rw [meiWrite_eq, meiWritePrepare, if_pos s.opened, meiWriteStart]
  by_cases hshort : buf.size < 4
  · rw [if_pos hshort, if_pos hshort]
  · have hlarge := buf.refused.resolve_left hshort
    unfold headerImageSize at hlarge ⊢
    rw [if_neg hshort, if_neg hshort]
    simp only [if_pos hlarge]

theorem meiRunAdslModem_kept {s : LoadedModem} {n : Nat} :
    meiRunAdslModem { s.toMeiState with imageSize := n } = meiRunAdslModem s.toMeiState ↔
      n = s.imageSize := by
  have hs := s.complete
  unfold meiRunAdslModem
  rw [if_pos hs]
  unfold meiImageComplete at hs ⊢
  cases haddr : (s.memInfo 0).address with
  | none =>
    rw [haddr] at hs
    cases hs
  | some hdr =>
    simp only [haddr, Bool.and_eq_true, beq_iff_eq, decide_eq_true_eq] at hs ⊢
    have hcopied : meiCopied { s.toMeiState with imageSize := n } = s.imageSize := hs.2
    rw [hcopied]
    constructor
    · intro h
      by_contra hne
      rw [if_neg (fun hc => hne hc.2.symm)] at h
      exact absurd h (by decide)
    · intro h
      rw [if_pos ⟨hs.1, h.symm⟩]

/-- A rejected first chunk leaves the loaded image usable exactly when it is shorter than four bytes
or its header gives the size that is stored already. -/
theorem refused_chunk_keeps_iff (kmalloc : Nat → Option (Nat → Byte)) (s : LoadedModem)
    (buf : RefusedChunk) :
    RefusedCleanly kmalloc s buf ↔
      buf.size < 4 ∨ headerImageSize buf.toUserBuf = s.imageSize := by
  unfold RefusedCleanly
  rw [meiWrite_refused]
  by_cases hshort : buf.size < 4
  · simp only [if_pos hshort]
    exact iff_of_true ⟨_, rfl, rfl, rfl, rfl, rfl⟩ (.inl hshort)
  · simp only [if_neg hshort]
    constructor
    · rintro ⟨s', hs', hkept⟩
      cases Option.some.inj hs'
      exact .inr hkept.imageSize
    · intro h
      have hsize := h.resolve_left hshort
      exact ⟨_, rfl, rfl, rfl, hsize, meiRunAdslModem_kept.mpr hsize⟩

def fortyByteModem : LoadedModem where
  memInfo := Function.update (fun _ => .cleared) 0 ⟨.reload, 40, sdramSegmentSize, some fun _ => 0⟩
  imageSize := 40
  nBar := 1
  loff := 0
  arcHaltFlag := true
  complete := by decide
  opened := rfl

def largeHeader : RefusedChunk where
  mem := fun | 2 => 0x10 | _ => 0
  size := 36
  refused := by decide

/-- The rejected header leaves its size behind, and the image can no longer be started. -/
theorem large_header_spoils_image :
    ¬RefusedCleanly (fun _ => none) fortyByteModem largeHeader := by
  rintro ⟨s', hs', hkept⟩
  rw [meiWrite_refused] at hs'
  cases Option.some.inj hs'
  exact absurd hkept.imageSize (by decide)

/-- `MAXSWAPSIZE`, in words. -/
def maxSwapSize : Nat := 8192

/-- `BOOT_FLAG`. -/
def bootFlag : Word := 0x80000000#32

/-- The memory of the ARC behind `MEI_XFR_ADDR` and `MEI_DATA_XFR`: a word that is written to the
second register goes to the address in the first, which moves on. -/
structure ArcPort where
  xfrAddr : Word
  mem : Word → Word

def ArcPort.push (arc : ArcPort) (w : Word) : ArcPort :=
  { xfrAddr := arc.xfrAddr + 4#32, mem := Function.update arc.mem arc.xfrAddr w }

/-- `meiDMAWrite` from a buffer that is not `CMV_TxMsg`, with its result. -/
def meiDMAWrite (arc : ArcPort) (dest : Word) (ws : List Word) : ArcPort × Int :=
  if dest &&& 3#32 ≠ 0#32 then (arc, -1)
  else (ws.foldl ArcPort.push { arc with xfrAddr := dest }, 0)

/-- One half of the loop body of `meiDownloadBootPages`: the program or the data of a page, without
a look at what `meiDMAWrite` returns. -/
def bootHalf (s : MeiState) (hdr : Nat → Byte) (page : Nat) (data : Bool) (arc : ArcPort) :
    Option ArcPort :=
  if loadBe hdr (12 + 24 * page + if data then 20 else 8) &&& bootFlag ≠ 0#32 then do
    let r ← meiGetPage s page data maxSwapSize
    if 0 < r.ret then
      let dest ← r.dest
      pure (meiDMAWrite arc dest r.buffer).1
    else pure arc
  else some arc

def bootLoop (s : MeiState) (hdr : Nat → Byte) : (n page : Nat) → ArcPort → Option ArcPort
  | 0, _, arc => some arc
  | n + 1, page, arc => do
    let arc ← bootHalf s hdr page false arc
    let arc ← bootHalf s hdr page true arc
    bootLoop s hdr n (page + 1) arc

/-- `meiDownloadBootPages`; `none` is a read through a null pointer. -/
def meiDownloadBootPages (s : MeiState) (arc : ArcPort) : Option ArcPort := do
  let hdr ← (s.memInfo 0).address
  bootLoop s hdr ((loadBe hdr 8).toNat - 1) 1 arc

def FirmwareImage.pageDest (img : FirmwareImage) (page : Nat) (data : Bool) : Word :=
  leWordAt img.bytes (12 + 24 * page + if data then 16 else 4)

/-- The boot bit of a page's program or data segment. -/
def FirmwareImage.boots (img : FirmwareImage) (page : Nat) (data : Bool) : Bool :=
  leWordAt img.bytes (12 + 24 * page + if data then 20 else 8) &&& bootFlag != 0#32

/-- An image whose boot segments are whole words inside it. -/
structure BootImage extends FirmwareImage where
  inside : ∀ page, page < toFirmwareImage.count → ∀ data, toFirmwareImage.boots page data = true →
    4 ∣ toFirmwareImage.pageOffset page data ∧
      toFirmwareImage.pageOffset page data + 4 * toFirmwareImage.pageSize page data ≤ bytes.length

/-- The two segments of a page, as far as they boot. -/
def FirmwareImage.pageParts (img : FirmwareImage) (page : Nat) : List (Nat × Bool) :=
  [(page, false), (page, true)].filter fun p => img.boots p.1 p.2

/-- The boot segments of the pages behind the first, in the order of the headers. -/
def FirmwareImage.bootParts (img : FirmwareImage) : List (Nat × Bool) :=
  (List.range' 1 (img.count - 1)).flatMap img.pageParts

/-- What the driver can transfer: a segment that fits into the swap buffer, to a whole word. -/
def FirmwareImage.Loadable (img : FirmwareImage) (p : Nat × Bool) : Prop :=
  img.pageSize p.1 p.2 ≤ maxSwapSize ∧ img.pageDest p.1 p.2 &&& 3#32 = 0#32

instance (img : FirmwareImage) (p : Nat × Bool) : Decidable (img.Loadable p) :=
  inferInstanceAs (Decidable (_ ≤ _ ∧ _ = _))

/-- The word of the image that a segment has for an address of the ARC. -/
def FirmwareImage.partWord (img : FirmwareImage) (a : Word) (p : Nat × Bool) : Option Word :=
  let d := (a - img.pageDest p.1 p.2).toNat
  if img.Loadable p ∧ d % 4 = 0 ∧ d / 4 < img.pageSize p.1 p.2 then
    some (leWordAt img.bytes (img.pageOffset p.1 p.2 + d))
  else none

/-- The word that the last of the segments with one has for an address. -/
def FirmwareImage.lastWord (img : FirmwareImage) (a : Word) (ps : List (Nat × Bool)) :
    Option Word :=
  ps.reverse.findSome? (img.partWord a)

/-- Two boot segments for one address have the same word for it. -/
def FirmwareImage.PartsAgree (img : FirmwareImage) : Prop :=
  ∀ p ∈ img.bootParts, ∀ q ∈ img.bootParts, ∀ a w v, img.partWord a p = some w →
    img.partWord a q = some v → v = w

theorem FirmwareImage.lastWord_append {img : FirmwareImage} {a : Word} {ps qs : List (Nat × Bool)} :
    img.lastWord a (ps ++ qs) = (img.lastWord a qs).or (img.lastWord a ps) := by
  unfold FirmwareImage.lastWord
  rw [List.reverse_append, List.findSome?_append]

@[simp] theorem ArcPort.push_xfrAddr (arc : ArcPort) (w : Word) :
    (arc.push w).xfrAddr = arc.xfrAddr + 4#32 := rfl

@[simp] theorem ArcPort.push_mem (arc : ArcPort) (w : Word) :
    (arc.push w).mem = Function.update arc.mem arc.xfrAddr w := rfl

/-- The words pushed from an address on, which do not come round to it again. -/
theorem foldl_push_mem {ws : List Word} {arc : ArcPort} (hfit : 4 * ws.length ≤ 2 ^ 32) (a : Word) :
    (ws.foldl ArcPort.push arc).mem a =
      if (a - arc.xfrAddr).toNat % 4 = 0 then (ws[(a - arc.xfrAddr).toNat / 4]?).getD (arc.mem a)
      else arc.mem a := by
  induction ws generalizing arc with
  | nil => simp
  | cons w ws ih =>
    rw [List.length_cons] at hfit
    rw [List.foldl_cons, ih (by omega), ArcPort.push_xfrAddr, ArcPort.push_mem]
    by_cases ha : a = arc.xfrAddr
    · -- the register has moved on, and the words that are left do not reach back
      have hback : (a - (arc.xfrAddr + 4#32)).toNat = 2 ^ 32 - 4 := by bv_omega
      have hpast : ws[(2 ^ 32 - 4) / 4]? = none := List.getElem?_eq_none (by omega)
      have hzero : (a - arc.xfrAddr).toNat = 0 := by bv_omega
      rw [hback, hpast, hzero, ha, Function.update_self]
      rfl
    · have hnext : (a - arc.xfrAddr).toNat = (a - (arc.xfrAddr + 4#32)).toNat + 4 ∨
          (a - arc.xfrAddr).toNat < 4 ∧ (a - (arc.xfrAddr + 4#32)).toNat =
            2 ^ 32 - 4 + (a - arc.xfrAddr).toNat := by bv_omega
      have hne : (a - arc.xfrAddr).toNat ≠ 0 := by bv_omega
      rw [Function.update_of_ne ha]
      rcases hnext with hnext | ⟨hsmall, hback⟩
      · simp only [hnext, Nat.add_mod_right, Nat.add_div_right _ (show 0 < 4 by omega),
          List.getElem?_cons_succ]
      · rw [if_neg (by omega), if_neg (by omega)]

/-- The words of the headers, which are all in segment 0. -/
theorem ImageHeld.header {img : FirmwareImage} {s : MeiState} {hdr : Nat → Byte}
    (hheld : ImageHeld s.memInfo img.bytes img.bytes.length)
    (hhdr : (s.memInfo 0).address = some hdr) (hseg : 12 + 24 * img.count ≤ sdramSegmentSize)
    {a : Nat} (hal : 4 ∣ a) (hle : a + 4 ≤ 12 + 24 * img.count) :
    loadBe hdr a = leWordAt img.bytes a := by
  have hpages : 12 + 24 * img.count ≤ img.bytes.length := img.pages
  obtain ⟨mem, hmem, hload⟩ := hheld a hal (by omega)
  simp only [sdramSegmentSize] at hseg hmem hload
  have hdiv : a / 65536 = 0 := by omega
  have hmod : a % 65536 = a := by omega
  rw [hdiv, hhdr] at hmem
  rw [hmod] at hload
  exact Option.some.inj hmem ▸ hload

/-- The destination that `meiGetPage` passes back with a segment. -/
theorem meiGetPage_dest {s : MeiState} {hdr : Nat → Byte} {page maxSize : Nat} {data : Bool}
    {r : PageResult} (hhdr : (s.memInfo 0).address = some hdr)
    (h : meiGetPage s page data maxSize = some r) (hpos : 0 < r.ret) :
    r.dest = some (loadBe hdr (12 + 24 * page + if data then 16 else 4)) := by
  unfold meiGetPage at h
  cases data
  all_goals
    simp only [hhdr, if_true, Bool.false_eq_true, if_false] at h ⊢
    split at h
    next =>
      cases h
      cases hpos
    next =>
      split at h
      next =>
        cases h
        cases hpos
      next =>
        split at h
        next =>
          cases h
          cases hpos
        next =>
          obtain ⟨buffer, -, hr⟩ := Option.map_eq_some_iff.mp h
          rw [← hr]

/-- A segment that is too large for the swap buffer. -/
theorem meiGetPage_large {s : MeiState} {hdr : Nat → Byte} {page maxSize : Nat} {data : Bool}
    (hhdr : (s.memInfo 0).address = some hdr) (hpage : page ≤ (loadBe hdr 8).toNat)
    (hlarge : maxSize < (loadBe hdr (12 + 24 * page + if data then 20 else 8) &&&
      0x7fffffff#32).toNat) :
    meiGetPage s page data maxSize = some ⟨-1, [], none⟩ := by
  unfold meiGetPage
  simp only [hhdr, if_neg (not_lt.mpr hpage)]
  rw [if_pos (by cases data <;> exact hlarge)]

section BootPages

variable {img : BootImage} {s : MeiState} {hdr : Nat → Byte}

theorem FirmwareImage.partWord_refused {img : FirmwareImage} {p : Nat × Bool}
    (h : ¬img.Loadable p) (a : Word) : img.partWord a p = none := by
  unfold FirmwareImage.partWord
  exact if_neg fun hc => h hc.1

/-- The transfer of a segment that fits into the swap buffer. -/
theorem meiDMAWrite_part {img : FirmwareImage} {page : Nat} {data : Bool}
    (hsize : img.pageSize page data ≤ maxSwapSize) (arc : ArcPort) (a : Word) :
    (meiDMAWrite arc (img.pageDest page data) (img.pageWords page data)).1.mem a =
      (img.partWord a (page, data)).getD (arc.mem a) := by
  have hlen : (img.pageWords page data).length = img.pageSize page data := by
    simp [FirmwareImage.pageWords]
  unfold meiDMAWrite
  by_cases halign : img.pageDest page data &&& 3#32 = 0#32
  · have hfit : 4 * (img.pageWords page data).length ≤ 2 ^ 32 := by
      unfold maxSwapSize at hsize
      omega
    have hload : img.Loadable (page, data) := ⟨hsize, halign⟩
    rw [if_neg (not_not.mpr halign), foldl_push_mem hfit]
    simp only [FirmwareImage.partWord, hload, true_and]
    generalize hd : (a - img.pageDest page data).toNat = d
    by_cases hword : d % 4 = 0
    · have hback : 4 * (d / 4) = d := by omega
      by_cases hin : d / 4 < img.pageSize page data
      · simp [FirmwareImage.pageWords, hword, hin, hback]
      · simp [FirmwareImage.pageWords, hword, hin]
    · simp [hword]
  · have hpart : img.partWord a (page, data) = none :=
      FirmwareImage.partWord_refused (p := (page, data)) (fun h => halign h.2) a
    rw [if_pos halign, hpart]
    rfl

/-- A segment that boots has its words at its destination if it can be transferred, and the rest
of the memory is as before. -/
theorem bootHalf_spec (hhdr : (s.memInfo 0).address = some hdr)
    (hheld : ImageHeld s.memInfo img.bytes img.bytes.length)
    (hseg : 12 + 24 * img.count ≤ sdramSegmentSize) {page : Nat} (hpage : page < img.count)
    (data : Bool) (arc : ArcPort) :
    ∃ arc', bootHalf s hdr page data arc = some arc' ∧ ∀ a, arc'.mem a =
      (img.lastWord a ([(page, data)].filter fun p => img.boots p.1 p.2)).getD (arc.mem a) := by
  have hload : ∀ a, 4 ∣ a → a + 4 ≤ 12 + 24 * img.count → loadBe hdr a = leWordAt img.bytes a :=
    fun a hal hle => hheld.header hhdr hseg hal hle
  have hsize := hload (12 + 24 * page + if data then 20 else 8) (by split <;> omega)
    (by split <;> omega)
  have hdest := hload (12 + 24 * page + if data then 16 else 4) (by split <;> omega)
    (by split <;> omega)
  have hcount : (loadBe hdr 8).toNat = img.count :=
    congrArg BitVec.toNat (hload 8 (by omega) (by omega))
  unfold bootHalf
  by_cases hboot : img.boots page data = true
  · have hflag := bne_iff_ne.mp hboot
    obtain ⟨hal, hend⟩ := img.inside page hpage data hboot
    have hone : ∀ a, img.lastWord a ([(page, data)].filter fun p => img.boots p.1 p.2) =
        img.partWord a (page, data) := by
      intro a
      simp [FirmwareImage.lastWord, hboot]
    simp only [hone]
    rw [hsize, if_pos hflag]
    by_cases hlarge : maxSwapSize < img.pageSize page data
    · have hpart : ∀ a, img.partWord a (page, data) = none :=
        FirmwareImage.partWord_refused fun h => absurd h.1 (not_le.mpr hlarge)
      rw [meiGetPage_large hhdr (by omega) (by rw [hsize]; exact hlarge)]
      refine ⟨arc, rfl, ?_⟩
      intro a
      rw [hpart]
      rfl
    · obtain ⟨r, hr, hret, hbuffer⟩ :=
        meiGetPage_spec img.toFirmwareImage hhdr hheld data hseg hpage hal (not_lt.mp hlarge) hend
      rw [hr]
      by_cases hzero : img.pageSize page data = 0
      · refine ⟨arc, ?_, ?_⟩
        · simp [hret, hzero]
        · intro a
          simp [FirmwareImage.partWord, hzero]
      · have hpos : 0 < r.ret := by omega
        have hto := meiGetPage_dest hhdr hr hpos
        rw [hdest] at hto
        refine ⟨(meiDMAWrite arc (img.pageDest page data) (img.pageWords page data)).1, ?_,
          meiDMAWrite_part (not_lt.mp hlarge) arc⟩
        show (if 0 < r.ret then r.dest.bind _ else _) = _
        rw [if_pos hpos, hto, hbuffer]
        rfl
  · have hflag : ¬leWordAt img.bytes (12 + 24 * page + if data then 20 else 8) &&& bootFlag ≠ 0#32 :=
      fun h => hboot (bne_iff_ne.mpr h)
    rw [hsize, if_neg hflag]
    refine ⟨arc, rfl, ?_⟩
    intro a
    simp [FirmwareImage.lastWord, hboot]

theorem FirmwareImage.lastWord_step {img : FirmwareImage} {ps qs : List (Nat × Bool)} (a : Word)
    (w : Word) : (img.lastWord a (ps ++ qs)).getD w =
      (img.lastWord a qs).getD ((img.lastWord a ps).getD w) := by
  rw [FirmwareImage.lastWord_append]
  cases img.lastWord a qs <;> rfl

/-- The pages from `page` on, by induction on how many are left. -/
theorem bootLoop_spec (hhdr : (s.memInfo 0).address = some hdr)
    (hheld : ImageHeld s.memInfo img.bytes img.bytes.length)
    (hseg : 12 + 24 * img.count ≤ sdramSegmentSize) {n page : Nat} (hn : n ≤ img.count - page)
    (arc : ArcPort) :
    ∃ arc', bootLoop s hdr n page arc = some arc' ∧ ∀ a, arc'.mem a =
      (img.lastWord a ((List.range' page n).flatMap img.pageParts)).getD (arc.mem a) := by
  induction n generalizing page arc with
  | zero => exact ⟨arc, rfl, fun _ => rfl⟩
  | succ n ih =>
    obtain ⟨prog, hprog, hpmem⟩ := bootHalf_spec hhdr hheld hseg (show page < img.count by omega)
      false arc
    obtain ⟨both, hboth, hbmem⟩ := bootHalf_spec hhdr hheld hseg (show page < img.count by omega)
      true prog
    obtain ⟨arc', hrest, hmem⟩ := ih (show n ≤ img.count - (page + 1) by omega) both
    refine ⟨arc', ?_, ?_⟩
    · unfold bootLoop
      rw [hprog, Option.bind_eq_bind, Option.bind_some, hboth]
      exact hrest
    · intro a
      have hparts : img.pageParts page =
          ([(page, false)].filter fun p => img.boots p.1 p.2) ++
            ([(page, true)].filter fun p => img.boots p.1 p.2) :=
        List.filter_append [(page, false)] [(page, true)]
      rw [hmem, hbmem, hpmem, List.range'_succ, List.flatMap_cons, FirmwareImage.lastWord_step,
        hparts, FirmwareImage.lastWord_step]

/-- Where the segments agree, the last word is that of any of them. -/
theorem lastWord_agree {img : FirmwareImage} (h : img.PartsAgree) {p : Nat × Bool}
    (hp : p ∈ img.bootParts) {a : Word} {w : Word} (hw : img.partWord a p = some w) :
    img.lastWord a img.bootParts = some w := by
  cases hlast : img.lastWord a img.bootParts with
  | none =>
    have hnone := List.findSome?_eq_none_iff.mp hlast p (List.mem_reverse.mpr hp)
    rw [hw] at hnone
    cases hnone
  | some v =>
    obtain ⟨q, hq, hv⟩ := List.exists_of_findSome?_eq_some hlast
    rw [h p hp q (List.mem_reverse.mp hq) a w v hw hv]

end BootPages

/-- Once an image has been downloaded, in whole words and in any pieces, `meiRunAdslModem` accepts
it, and `meiDownloadBootPages` leaves for each address of the ARC the word of the last boot segment
that has one and can be transferred, and the word that was there before for every other address. If
all boot segments can be transferred and agree where they overlap, every word of every boot segment
is at its place. -/
theorem meiBoot_exact (kmalloc : Nat → Option (Nat → Byte))
    (hk : ∀ idx, ∃ mem, kmalloc idx = some mem) (img : BootImage)
    (hseg : 24 * img.count ≤ sdramSegmentSize) (s : MeiState) (hloff : s.loff = 0)
    (hclean : CleanTable s) (bufs : List UserBuf)
    (hsplit : (bufs.map UserBuf.bytes).flatten = img.bytes) (hsizes : ∀ b ∈ bufs, 4 ∣ b.size)
    (arc : ArcPort) :
    ∃ s' arc', meiDownload kmalloc s bufs = some s' ∧ meiRunAdslModem s' = 0 ∧
      meiDownloadBootPages s' arc = some arc' ∧
      (∀ a, arc'.mem a = (img.lastWord a img.bootParts).getD (arc.mem a)) ∧
      ((∀ p ∈ img.bootParts, img.Loadable p) → img.PartsAgree →
        ∀ p ∈ img.bootParts, ∀ k, k < img.pageSize p.1 p.2 →
          arc'.mem (img.pageDest p.1 p.2 + BitVec.ofNat 32 (4 * k)) =
            leWordAt img.bytes (img.pageOffset p.1 p.2 + 4 * k)) := by
  obtain ⟨s', hdown, hdone⟩ := (Downloading.idle hloff hclean).run hk img.toFirmwareImage
    (Nat.dvd_zero 4) (by rw [hsplit]; rfl) (Nat.zero_le _) hsizes
  have hpages : 12 + 24 * img.count ≤ img.bytes.length := img.pages
  obtain ⟨himage, hcopy⟩ : s'.imageSize = img.bytes.length ∧
      CopyInv s'.memInfo img.bytes img.bytes.length := by
    generalize hn : img.bytes.length = n at hdone
    cases hdone with
    | idle => omega
    | copying _ _ hi _ hc => exact ⟨by omega, hn ▸ hc⟩
  have hcomplete := meiImageComplete_eq img.toFirmwareImage himage hcopy
  rw [decide_eq_true hseg] at hcomplete
  obtain ⟨hdr, hhdr, hload⟩ := hcopy.held 8 (by omega) (by omega)
  have hhdr : (s'.memInfo 0).address = some hdr := hhdr
  have hcount : (loadBe hdr 8).toNat = img.count := congrArg BitVec.toNat hload
  have hroom : 12 + 24 * img.count ≤ sdramSegmentSize := by
    simp only [sdramSegmentSize] at hseg ⊢
    omega
  obtain ⟨arc', hboot, hmem⟩ := bootLoop_spec hhdr hcopy.held hroom
    (le_refl (img.count - 1)) arc
  have hmem : ∀ a, arc'.mem a = (img.lastWord a img.bootParts).getD (arc.mem a) := hmem
  refine ⟨s', arc', hdown, ?_, ?_, hmem, ?_⟩
  · unfold meiRunAdslModem
    rw [if_pos hcomplete]
  · unfold meiDownloadBootPages
    rw [hhdr, Option.bind_eq_bind, Option.bind_some, hcount, hboot]
  · intro hall hagree p hp k hk
    have hp' : img.Loadable p := hall p hp
    have hsize := hp'.1
    unfold maxSwapSize at hsize
    have hback : (img.pageDest p.1 p.2 + BitVec.ofNat 32 (4 * k) - img.pageDest p.1 p.2).toNat =
        4 * k := by bv_omega
    have hword : img.partWord (img.pageDest p.1 p.2 + BitVec.ofNat 32 (4 * k)) p =
        some (leWordAt img.bytes (img.pageOffset p.1 p.2 + 4 * k)) := by
      simp only [FirmwareImage.partWord, hback]
      rw [if_pos ⟨hp', by omega, by omega⟩]
    rw [hmem, lastWord_agree hagree hp hword]
    rfl

/-- An image of two pages, of which the second boots with one program word, `0x04030201`, for
address `0x100`. -/
def twoPageImage : BootImage where
  bytes := [56, 0, 0, 0] ++ [0, 0, 0, 0] ++ [2, 0, 0, 0] ++ List.replicate 24 0 ++ [60, 0, 0, 0] ++
    [0, 1, 0, 0] ++ [1, 0, 0, 0x80] ++ List.replicate 12 0 ++ [1, 2, 3, 4]
  small := by decide
  size := by decide
  pages := by decide
  inside := by decide

theorem meiBoot_exact_two_pages :
    ∃ s' arc', meiDownload (fun _ => some fun _ => 0) ⟨fun _ => .cleared, 0, 0, 0, false⟩
        [⟨fun k => twoPageImage.bytes.getD k 0, 36⟩,
          ⟨fun k => twoPageImage.bytes.getD (36 + k) 0, 28⟩] = some s' ∧
      meiDownloadBootPages s' ⟨0, fun _ => 7⟩ = some arc' ∧ arc'.mem 0x100 = 0x04030201 ∧
      arc'.mem 0x104 = 7 := by
  obtain ⟨s', arc', hdown, -, hboot, hmem, -⟩ := meiBoot_exact (fun _ => some fun _ => 0)
    (fun _ => ⟨_, rfl⟩) twoPageImage (by decide) ⟨fun _ => .cleared, 0, 0, 0, false⟩ rfl
    (fun _ _ _ => rfl) [⟨fun k => twoPageImage.bytes.getD k 0, 36⟩,
      ⟨fun k => twoPageImage.bytes.getD (36 + k) 0, 28⟩] (by decide) (by decide) ⟨0, fun _ => 7⟩
  exact ⟨s', arc', hdown, hboot, (hmem _).trans (by decide), (hmem _).trans (by decide)⟩

end DanubeBsp
