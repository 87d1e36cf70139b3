import DanubeBsp.MeiFirmware
import DanubeBsp.Runs

namespace DanubeBsp

/-- A pass of the copy loop: `nCopy` bytes from `buf + nRead` on go to `offset` in segment `idx`. -/
structure CopyPiece where
  idx : Nat
  offset : Nat
  nRead : Nat
  nCopy : Nat

/-- The bytes of a pass, up to the end of the segment or of the chunk. -/
def passSize (size loff nRead : Nat) : Nat :=
  if size - nRead + (loff + nRead) % sdramSegmentSize > sdramSegmentSize then
    sdramSegmentSize - (loff + nRead) % sdramSegmentSize
  else size - nRead

theorem passSize_fits {size nRead : Nat} (loff : Nat) (hlt : nRead < size) :
    0 < passSize size loff nRead ∧ passSize size loff nRead ≤ size - nRead ∧
      (loff + nRead) % sdramSegmentSize + passSize size loff nRead ≤ sdramSegmentSize := by
  have hmod := Nat.mod_lt (loff + nRead) (show 0 < sdramSegmentSize by decide)
  unfold passSize
  split
  next => omega
  next => omega

/-- The passes of the copy loop. -/
def copyPieces (size loff nRead : Nat) : List CopyPiece :=
  if nRead < size then
    let nCopy := passSize size loff nRead
    ⟨(loff + nRead) / sdramSegmentSize, (loff + nRead) % sdramSegmentSize, nRead, nCopy⟩ ::
      copyPieces size loff (nRead + nCopy)
  else []
termination_by size - nRead
decreasing_by
  rename_i hlt
  have hfits := passSize_fits loff hlt
  omega

/-- What a pass does to the segment table. -/
def storePiece (buf : UserBuf) (info : Nat → SmmuMemInfo) (p : CopyPiece) :
    Option (Nat → SmmuMemInfo) :=
  (info p.idx).address.map fun mem =>
    let mem' := copyFromUser mem p.offset (fun k => buf.mem (p.nRead + k)) p.nCopy
    let mem' := imageSwap mem' p.offset (p.nCopy / 4)
    Function.update info p.idx
      { info p.idx with nCopy := (info p.idx).nCopy + p.nCopy, address := some mem' }

/-- The image size that `mei_write` takes from the header, in 32 bits. -/
def headerImageSize (buf : UserBuf) : Nat := (swab32 (loadBe buf.mem 0) + 8#32).toNat

/-- The part of `mei_write` before the copy loop. -/
def meiWritePrepare (kmalloc : Nat → Option (Nat → Byte)) (s : MeiState) (buf : UserBuf) :
    Except (MeiState × Int) MeiState :=
  if s.loff = 0 then meiWriteStart kmalloc s buf
  else if s.imageSize = 0 || !s.arcHaltFlag then
    .error ({ s with memInfo := freeImageBuffer s.memInfo }, -12)
  else .ok s

theorem meiWrite_eq (kmalloc : Nat → Option (Nat → Byte)) (s : MeiState) (buf : UserBuf) :
    meiWrite kmalloc s buf = match meiWritePrepare kmalloc s buf with
      | .error r => some r
      | .ok s => (do
        let info ← copyLoop buf s.loff s.memInfo 0
        pure ({ s with memInfo := info, loff := s.loff + buf.size }, (buf.size : Int))) := rfl

/-- The driver, and as history the segments that `alloc_processor_memory` got for the image. -/
structure MeiRun where
  st : MeiState
  image : Nat → Bool

inductive FirmwareEvent
  | reopen
  | write (kmalloc : Nat → Option (Nat → Byte)) (buf : UserBuf)

/-- The segments that `alloc_processor_memory` gets for the image of this header. -/
def imageSegments (kmalloc : Nat → Option (Nat → Byte)) (s : MeiState) (buf : UserBuf) :
    Nat → Bool :=
  match allocProcessorMemory kmalloc (freeImageBuffer s.memInfo) (headerImageSize buf) 0 with
  | .ok (info, _) => fun idx => (info idx).address.isSome
  | .error _ => fun _ => false

/-- The segments of the image to which a write belongs. -/
def MeiRun.imageOf (r : MeiRun) (kmalloc : Nat → Option (Nat → Byte)) (buf : UserBuf) :
    Nat → Bool :=
  if r.st.loff = 0 then imageSegments kmalloc r.st buf else r.image

/-- A new open of the device starts at offset 0 again. -/
def meiRunStep (r : MeiRun) : FirmwareEvent → Option MeiRun
  | .reopen => some { r with st := { r.st with loff := 0 } }
  | .write kmalloc buf =>
    (meiWrite kmalloc r.st buf).map fun result => ⟨result.1, r.imageOf kmalloc buf⟩

def meiFresh : MeiRun := ⟨⟨fun _ => .cleared, 0, 0, 0, false⟩, fun _ => false⟩

/-- Byte `k` of a pass goes to its place in a segment of the image. -/
structure StoredInside (image : Nat → Bool) (info : Nat → SmmuMemInfo) (loff : Nat)
    (p : CopyPiece) (k : Nat) : Prop where
  position : p.offset + k = (loff + p.nRead + k) % sdramSegmentSize
  image : image p.idx = true
  notXdata : p.idx ≠ xdataRegister
  allocated : (info p.idx).address.isSome = true
  inside : p.offset + k < (info p.idx).size

/-- Every byte that the write stores is stored inside. -/
def WriteInside (r : MeiRun) : FirmwareEvent → Prop
  | .reopen => True
  | .write kmalloc buf => ∀ s, meiWritePrepare kmalloc r.st buf = .ok s →
      ∀ p ∈ copyPieces buf.size s.loff 0, ∀ k, k < p.nCopy →
        StoredInside (r.imageOf kmalloc buf) s.memInfo s.loff p k

/-- What the segments before the one of XDATA hold of an image of `n` bytes, the last one filled. -/
def imageCapacity (n : Nat) : Nat :=
  sdramSegmentSize * min xdataRegister ((n + sdramSegmentSize - 1) / sdramSegmentSize)

/-- The write ends within the segments before the one of XDATA. -/
def WriteFits (r : MeiRun) : FirmwareEvent → Prop
  | .reopen => True
  | .write kmalloc buf =>
    if r.st.loff = 0 then
      (meiWriteStart kmalloc r.st buf).isOk = true → buf.size ≤ imageCapacity (headerImageSize buf)
    else r.st.loff + buf.size ≤ imageCapacity r.st.imageSize

section Pieces

variable {size loff nRead : Nat}

theorem copyLoop_eq_pieces (buf : UserBuf) (loff : Nat) (info : Nat → SmmuMemInfo) (nRead : Nat) :
    copyLoop buf loff info nRead = (copyPieces buf.size loff nRead).foldlM (storePiece buf) info := by
  generalize hleft : buf.size - nRead = left
  induction left using Nat.strong_induction_on generalizing info nRead with
  | _ left ih =>
    unfold copyLoop copyPieces
    by_cases hlt : nRead < buf.size
    · have hfits := passSize_fits loff hlt
      rw [if_pos hlt, if_pos hlt, List.foldlM_cons, storePiece]
      dsimp only
      cases hmem : (info ((loff + nRead) / sdramSegmentSize)).address with
      | none => rfl
      | some mem => exact ih (buf.size - (nRead + passSize buf.size loff nRead)) (by omega) _ _ rfl
    · rw [if_neg hlt, if_neg hlt]
      rfl

theorem segment_of_add {a k : Nat} (h : a % sdramSegmentSize + k < sdramSegmentSize) :
    (a + k) / sdramSegmentSize = a / sdramSegmentSize ∧
      (a + k) % sdramSegmentSize = a % sdramSegmentSize + k := by
  simp only [sdramSegmentSize] at h ⊢
  omega

/-- The passes cover the chunk, byte `o` of the image at its place in segment `o / 64 KiB`. -/
theorem copyPieces_bytes {P : Nat → Nat → Nat → Prop} :
    (∀ p ∈ copyPieces size loff nRead, ∀ k, k < p.nCopy →
        P (loff + p.nRead + k) p.idx (p.offset + k)) ↔
      ∀ o, loff + nRead ≤ o → o < loff + size →
        P o (o / sdramSegmentSize) (o % sdramSegmentSize) := by
  generalize hleft : size - nRead = left
  induction left using Nat.strong_induction_on generalizing nRead with
  | _ left ih =>
    unfold copyPieces
    by_cases hlt : nRead < size
    · obtain ⟨hpos, hle, hfit⟩ := passSize_fits loff hlt
      rw [if_pos hlt]
      generalize passSize size loff nRead = nCopy at hpos hle hfit ⊢
      have hrest := ih (size - (nRead + nCopy)) (by omega) rfl
      rw [List.forall_mem_cons, hrest]
      constructor
      · rintro ⟨hfirst, hothers⟩ o hlo hhi
        by_cases hin : o < loff + nRead + nCopy
        · have hk := hfirst (o - (loff + nRead)) (show o - (loff + nRead) < nCopy by omega)
          obtain ⟨hdiv, hmod⟩ := segment_of_add (a := loff + nRead) (k := o - (loff + nRead))
            (by omega)
          rw [← hmod, ← hdiv] at hk
          simpa only [show loff + nRead + (o - (loff + nRead)) = o by omega] using hk
        · exact hothers o (by omega) hhi
      · intro hall
        refine ⟨?_, fun o hlo hhi => hall o (by omega) hhi⟩
        intro k hk
        dsimp only at hk ⊢
        obtain ⟨hdiv, hmod⟩ := segment_of_add (a := loff + nRead) (k := k) (by omega)
        have ho := hall (loff + nRead + k) (by omega) (by omega)
        rwa [hdiv, hmod] at ho
    · rw [if_neg hlt]
      refine iff_of_true ?_ ?_
      · intro p hp
        exact absurd hp List.not_mem_nil
      · intro o hlo hhi
        omega

end Pieces

/-- The segments of an image of `n` bytes: those before XDATA in order, then the last one. -/
def SegmentOf (n idx : Nat) : Prop :=
  (idx < xdataRegister ∧ idx * sdramSegmentSize < n) ∨
    (idx = maxBarRegisters - 1 ∧ xdataRegister * sdramSegmentSize < n)

/-- `alloc_processor_memory` fills exactly the segments of the image. -/
theorem allocProcessorMemory_segments {kmalloc : Nat → Option (Nat → Byte)}
    {info info' : Nat → SmmuMemInfo} {imgSize idx bars : Nat} (hidx : idx ≤ xdataRegister)
    (h : allocProcessorMemory kmalloc info imgSize idx = .ok (info', bars)) (j : Nat) :
    (idx ≤ j ∧ SegmentOf (imgSize + idx * sdramSegmentSize) j →
      (info' j).address.isSome = true ∧ sdramSegmentSize ≤ (info' j).size) ∧
    (¬(idx ≤ j ∧ SegmentOf (imgSize + idx * sdramSegmentSize) j) → info' j = info j) := by
  generalize hleft : imgSize = left
  induction left using Nat.strong_induction_on generalizing info imgSize idx with
  | _ left ih =>
    subst hleft
    rw [allocProcessorMemory] at h
    by_cases hpos : 0 < imgSize
    · have hmax : idx < maxBarRegisters := lt_of_le_of_lt hidx (by decide)
      rw [if_pos ⟨hpos, hmax⟩] at h
      dsimp only at h
      obtain hlt | rfl := Nat.lt_or_eq_of_le hidx
      · rw [if_neg (ne_of_lt hlt)] at h
        split at h
        next => cases h
        next mem hmem =>
          have hnext := ih (imgSize - sdramSegmentSize)
            (by simp only [sdramSegmentSize] at hpos ⊢; omega) hlt h rfl
          by_cases hj : j = idx
          · -- the segment of this pass, which the later ones leave alone
            subst hj
            have hold := hnext.2 (fun hc => absurd hc.1 (by omega))
            have hlast : ¬j = maxBarRegisters - 1 := by
              simp only [xdataRegister, maxBarRegisters] at hlt ⊢
              omega
            rw [hold, Function.update_self, if_neg hlast]
            refine ⟨fun _ => ⟨rfl, le_refl _⟩, fun hc => absurd ⟨le_refl j, .inl ⟨hlt, ?_⟩⟩ hc⟩
            omega
          · have hseg : (idx + 1 ≤ j ∧
                SegmentOf (imgSize - sdramSegmentSize + (idx + 1) * sdramSegmentSize) j) ↔
                idx ≤ j ∧ SegmentOf (imgSize + idx * sdramSegmentSize) j := by
              simp only [SegmentOf, sdramSegmentSize, xdataRegister, maxBarRegisters] at hlt ⊢
              omega
            rw [hseg, Function.update_of_ne hj] at hnext
            exact hnext
      · -- the segment of XDATA is passed over, and the next one is the last
        rw [if_pos rfl] at h
        split at h
        next => cases h
        next mem hmem =>
          rw [allocProcessorMemory, if_neg (fun hc => absurd hc.2 (by decide))] at h
          split at h
          next => cases h
          next =>
            cases Except.ok.inj h
            by_cases hj : j = xdataRegister + 1
            · subst hj
              rw [Function.update_self]
              refine ⟨fun _ => ⟨rfl, ?_⟩, fun hc => absurd ⟨by decide, .inr ⟨rfl, ?_⟩⟩ hc⟩
              · change sdramSegmentSize ≤ 1024 * 1024
                decide
              · omega
            · refine ⟨?_, fun _ => Function.update_of_ne hj _ _⟩
              rintro ⟨hle, ⟨hlt, -⟩ | ⟨heq, -⟩⟩
              · exact absurd hle (by omega)
              · exact absurd heq hj
    · rw [if_neg (fun hc => hpos hc.1), if_neg hpos] at h
      cases Except.ok.inj h
      refine ⟨?_, fun _ => rfl⟩
      simp only [SegmentOf, sdramSegmentSize, xdataRegister, maxBarRegisters] at hidx ⊢
      omega

/-- With memory to be had, every image of at most 1 MiB gets its segments. -/
theorem allocProcessorMemory_ok {kmalloc : Nat → Option (Nat → Byte)}
    (hk : ∀ idx, (kmalloc idx).isSome = true) (info : Nat → SmmuMemInfo) (imgSize : Nat) {idx : Nat}
    (hidx : idx ≤ xdataRegister)
    (hsize : imgSize + idx * sdramSegmentSize ≤ 16 * sdramSegmentSize) :
    ∃ info' bars, allocProcessorMemory kmalloc info imgSize idx = .ok (info', bars) := by
  generalize hleft : imgSize = left
  induction left using Nat.strong_induction_on generalizing info imgSize idx with
  | _ left ih =>
    subst hleft
    rw [allocProcessorMemory]
    by_cases hpos : 0 < imgSize
    · have hmax : idx < maxBarRegisters := lt_of_le_of_lt hidx (by decide)
      rw [if_pos ⟨hpos, hmax⟩]
      dsimp only
      obtain hlt | rfl := Nat.lt_or_eq_of_le hidx
      · obtain ⟨mem, hmem⟩ := Option.isSome_iff_exists.mp (hk idx)
        simp only [if_neg (ne_of_lt hlt), hmem]
        refine ih (imgSize - sdramSegmentSize) ?_ _ _ hlt ?_ rfl
        · simp only [sdramSegmentSize] at hpos ⊢
          omega
        · simp only [sdramSegmentSize, xdataRegister] at hsize hlt ⊢
          omega
      · obtain ⟨mem, hmem⟩ := Option.isSome_iff_exists.mp (hk (xdataRegister + 1))
        simp only [if_true, hmem]
        rw [allocProcessorMemory, if_neg (fun hc => absurd hc.2 (by decide)), if_neg]
        · exact ⟨_, _, rfl⟩
        · simp only [sdramSegmentSize, xdataRegister] at hsize ⊢
          omega
    · rw [if_neg (fun hc => hpos hc.1), if_neg hpos]
      exact ⟨_, _, rfl⟩

/-- The two tables have the same segments. -/
def SameSegments (info info' : Nat → SmmuMemInfo) : Prop :=
  ∀ idx, (info' idx).size = (info idx).size ∧
    (info' idx).address.isSome = (info idx).address.isSome

theorem SameSegments.trans {info info₁ info₂ : Nat → SmmuMemInfo} (h : SameSegments info info₁)
    (h' : SameSegments info₁ info₂) : SameSegments info info₂ :=
  fun idx => ⟨(h' idx).1.trans (h idx).1, (h' idx).2.trans (h idx).2⟩

theorem storePiece_same {buf : UserBuf} {info info' : Nat → SmmuMemInfo} {p : CopyPiece}
    (h : storePiece buf info p = some info') : SameSegments info info' := by
  obtain ⟨mem, hmem, rfl⟩ := Option.map_eq_some_iff.mp h
  intro idx
  by_cases hi : idx = p.idx
  · subst hi
    rw [Function.update_self, hmem]
    exact ⟨rfl, rfl⟩
  · rw [Function.update_of_ne hi]
    exact ⟨rfl, rfl⟩

theorem storePieces_same {buf : UserBuf} {ps : List CopyPiece} {info info' : Nat → SmmuMemInfo}
    (h : ps.foldlM (storePiece buf) info = some info') : SameSegments info info' := by
  induction ps generalizing info with
  | nil =>
    cases Option.some.inj h
    exact fun idx => ⟨rfl, rfl⟩
  | cons p ps ih =>
    rw [List.foldlM_cons] at h
    obtain ⟨info₁, hp, hps⟩ := Option.bind_eq_some_iff.mp h
    exact (storePiece_same hp).trans (ih hps)

theorem copyLoop_same {buf : UserBuf} {loff : Nat} {info info' : Nat → SmmuMemInfo}
    (h : copyLoop buf loff info 0 = some info') : SameSegments info info' := by
  rw [copyLoop_eq_pieces] at h
  exact storePieces_same h

theorem setTypes_same (bars pOffset : Nat) (info : Nat → SmmuMemInfo) :
    SameSegments info (setTypes bars pOffset info) := by
  intro idx
  unfold setTypes
  split
  next => exact ⟨rfl, rfl⟩
  next => exact ⟨rfl, rfl⟩

/-- A segment that the table calls empty has no memory. -/
structure TableOk (info : Nat → SmmuMemInfo) : Prop where
  empty : ∀ idx, (info idx).size = 0 → (info idx).address.isSome = false
  beyond : ∀ idx, maxBarRegisters ≤ idx → (info idx).address.isSome = false

theorem TableOk.of_same {info info' : Nat → SmmuMemInfo} (h : TableOk info)
    (hs : SameSegments info info') : TableOk info' := by
  refine ⟨?_, ?_⟩
  · intro idx hsize
    rw [(hs idx).2]
    exact h.empty idx ((hs idx).1 ▸ hsize)
  · intro idx hidx
    rw [(hs idx).2]
    exact h.beyond idx hidx

theorem TableOk.freed {info : Nat → SmmuMemInfo} (h : TableOk info) (idx : Nat) :
    (freeImageBuffer info idx).address.isSome = false := by
  unfold freeImageBuffer
  split
  next => rfl
  next hc =>
    by_cases hidx : idx < maxBarRegisters
    · refine h.empty idx ?_
      by_contra hs
      exact hc ⟨hidx, Nat.pos_of_ne_zero hs⟩
    · exact h.beyond idx (not_lt.mp hidx)

theorem TableOk.free {info : Nat → SmmuMemInfo} (h : TableOk info) :
    TableOk (freeImageBuffer info) :=
  ⟨fun idx _ => h.freed idx, fun idx _ => h.freed idx⟩

/-- The segments of the image are those that the history names, each with its 64 KiB. -/
structure ImageReady (image : Nat → Bool) (info : Nat → SmmuMemInfo) (n : Nat) : Prop where
  exact : ∀ idx, image idx = true ↔ SegmentOf n idx
  memory : ∀ idx, image idx = true →
    (info idx).address.isSome = true ∧ sdramSegmentSize ≤ (info idx).size

theorem ImageReady.of_same {image : Nat → Bool} {info info' : Nat → SmmuMemInfo} {n : Nat}
    (h : ImageReady image info n) (hs : SameSegments info info') : ImageReady image info' n := by
  refine ⟨h.exact, ?_⟩
  intro idx hidx
  rw [(hs idx).1, (hs idx).2]
  exact h.memory idx hidx

theorem TableOk.update {info : Nat → SmmuMemInfo} {idx : Nat} {e : SmmuMemInfo} (h : TableOk info)
    (hidx : idx < maxBarRegisters) (hsize : 0 < e.size) : TableOk (Function.update info idx e) := by
  refine ⟨?_, ?_⟩
  · intro j hj
    by_cases hji : j = idx
    · subst hji
      rw [Function.update_self] at hj
      exact absurd hj (Nat.ne_of_gt hsize)
    · rw [Function.update_of_ne hji] at hj ⊢
      exact h.empty j hj
  · intro j hj
    rw [Function.update_of_ne (by omega)]
    exact h.beyond j hj

/-- `alloc_processor_memory` leaves a consistent table, also when it fails. -/
theorem allocProcessorMemory_table (kmalloc : Nat → Option (Nat → Byte))
    {info : Nat → SmmuMemInfo} (h : TableOk info) (imgSize idx : Nat) :
    match allocProcessorMemory kmalloc info imgSize idx with
    | .error (info', _) => TableOk info'
    | .ok (info', _) => TableOk info' := by
  have hentry : ∀ {idx : Nat}, idx < maxBarRegisters →
      (if idx = xdataRegister then idx + 1 else idx) < maxBarRegisters ∧
        ∀ j, 0 < if j = maxBarRegisters - 1 then 1024 * 1024 else sdramSegmentSize := by
    intro idx hidx
    refine ⟨?_, ?_⟩
    · by_cases hx : idx = xdataRegister
      · rw [if_pos hx, hx]
        decide
      · rw [if_neg hx]
        exact hidx
    · intro j
      split <;> decide
  fun_induction allocProcessorMemory kmalloc info imgSize idx with
  | case1 info imgSize idx hc idx' size hmem =>
    obtain ⟨hidx, hsize⟩ := hentry hc.2
    exact (h.update hidx (hsize _)).free
  | case2 info imgSize idx hc idx' size mem hmem ih =>
    obtain ⟨hidx, hsize⟩ := hentry hc.2
    exact ih (h.update hidx (hsize _))
  | case3 info imgSize idx hc hpos => exact h.free
  | case4 info imgSize idx hc hpos => exact h

theorem meiWriteStart_cases {kmalloc : Nat → Option (Nat → Byte)} {s s' : MeiState} {buf : UserBuf}
    (h : meiWriteStart kmalloc s buf = .ok s') :
    ∃ info bars mem, allocProcessorMemory kmalloc (freeImageBuffer s.memInfo)
        (headerImageSize buf) 0 = .ok (info, bars) ∧
      s' = { s with
        arcHaltFlag := true, imageSize := headerImageSize buf, nBar := bars
        memInfo := Function.update (setTypes bars (swab32 (loadBe buf.mem 12)).toNat info)
          xdataRegister
          { setTypes bars (swab32 (loadBe buf.mem 12)).toNat info xdataRegister with
            type := .reload, size := sdramSegmentSize, address := some mem } } := by
  unfold meiWriteStart at h
  split at h
  next => cases h
  next =>
    dsimp only at h
    split at h
    next => cases h
    next =>
      split at h
      next => cases h
      next info bars halloc =>
        split at h
        next => cases h
        next mem hmem =>
          cases Except.ok.inj h
          exact ⟨info, bars, mem, halloc, rfl⟩

/-- A rejected first write leaves a consistent table and the offset. -/
theorem meiWriteStart_error {kmalloc : Nat → Option (Nat → Byte)} {s s' : MeiState} {e : Int}
    {buf : UserBuf} (h : TableOk s.memInfo)
    (hs : meiWriteStart kmalloc s buf = .error (s', e)) : TableOk s'.memInfo ∧ s'.loff = s.loff := by
  unfold meiWriteStart at hs
  split at hs
  next => cases Except.error.inj hs; exact ⟨h, rfl⟩
  next =>
    dsimp only at hs
    split at hs
    next => cases Except.error.inj hs; exact ⟨h, rfl⟩
    next =>
      have htable := allocProcessorMemory_table kmalloc h.free
        (swab32 (loadBe buf.mem 0) + 8#32).toNat 0
      split at hs
      next info e' halloc =>
        rw [halloc] at htable
        cases Except.error.inj hs
        exact ⟨TableOk.free htable, rfl⟩
      next info bars halloc =>
        rw [halloc] at htable
        have htyped := TableOk.of_same htable
          (setTypes_same bars (swab32 (loadBe buf.mem 12)).toNat info)
        split at hs
        next => cases Except.error.inj hs; exact ⟨htyped.free, rfl⟩
        next => cases hs

theorem not_segmentOf_xdata (n : Nat) : ¬SegmentOf n xdataRegister := by
  simp only [SegmentOf, xdataRegister, maxBarRegisters]
  omega

/-- An accepted header gets exactly the segments of its image. -/
theorem meiWriteStart_ready {kmalloc : Nat → Option (Nat → Byte)} {s s' : MeiState} {buf : UserBuf}
    (h : TableOk s.memInfo) (hs : meiWriteStart kmalloc s buf = .ok s') :
    TableOk s'.memInfo ∧ ImageReady (imageSegments kmalloc s buf) s'.memInfo s'.imageSize ∧
      s'.imageSize = headerImageSize buf ∧ s'.arcHaltFlag = true ∧ s'.loff = s.loff := by
  obtain ⟨info, bars, mem, halloc, rfl⟩ := meiWriteStart_cases hs
  have htable := allocProcessorMemory_table kmalloc h.free (headerImageSize buf) 0
  rw [halloc] at htable
  have htyped : SameSegments info (setTypes bars (swab32 (loadBe buf.mem 12)).toNat info) :=
    setTypes_same bars _ info
  have himage : imageSegments kmalloc s buf = fun idx => (info idx).address.isSome := by
    rw [imageSegments, halloc]
  have hseg : ∀ idx, (SegmentOf (headerImageSize buf) idx →
      (info idx).address.isSome = true ∧ sdramSegmentSize ≤ (info idx).size) ∧
      (¬SegmentOf (headerImageSize buf) idx → (info idx).address.isSome = false) := by
    intro idx
    obtain ⟨hin, hout⟩ := allocProcessorMemory_segments (Nat.zero_le _) halloc idx
    rw [Nat.zero_mul, Nat.add_zero] at hin hout
    refine ⟨fun hc => hin ⟨Nat.zero_le _, hc⟩, ?_⟩
    intro hc
    rw [hout (fun hc' => hc hc'.2)]
    exact h.freed idx
  have hexact : ∀ idx, (info idx).address.isSome = true ↔ SegmentOf (headerImageSize buf) idx := by
    intro idx
    refine ⟨?_, fun hc => ((hseg idx).1 hc).1⟩
    intro hsome
    by_contra hc
    exact absurd (((hseg idx).2 hc).symm.trans hsome) Bool.false_ne_true
  refine ⟨?_, ⟨?_, ?_⟩, rfl, rfl, rfl⟩
  · exact (TableOk.of_same htable htyped).update (by decide) (show 0 < sdramSegmentSize by decide)
  · intro idx
    rw [himage]
    exact hexact idx
  · intro idx hidx
    rw [himage] at hidx
    have hof := (hexact idx).mp hidx
    have hx : idx ≠ xdataRegister := fun hc => not_segmentOf_xdata _ (hc ▸ hof)
    dsimp only
    rw [Function.update_of_ne hx, (htyped idx).1, (htyped idx).2]
    exact (hseg idx).1 hof

/-- Between two events of a run. -/
structure MeiImageInv (r : MeiRun) : Prop where
  table : TableOk r.st.memInfo
  copying : r.st.loff ≠ 0 → ImageReady r.image r.st.memInfo r.st.imageSize ∧
    r.st.arcHaltFlag = true ∧ r.st.loff ≤ imageCapacity r.st.imageSize

section Writes

variable {r : MeiRun} {kmalloc : Nat → Option (Nat → Byte)} {buf : UserBuf} {s : MeiState}

theorem imageCapacity_zero : imageCapacity 0 = 0 := rfl

theorem MeiImageInv.continues (h : MeiImageInv r) (hl : r.st.loff ≠ 0) :
    meiWritePrepare kmalloc r.st buf = .ok r.st := by
  obtain ⟨-, hhalt, hle⟩ := h.copying hl
  have hsize : r.st.imageSize ≠ 0 := by
    intro hc
    rw [hc, imageCapacity_zero] at hle
    exact hl (Nat.le_zero.mp hle)
  rw [meiWritePrepare, if_neg hl, if_neg]
  simp [hsize, hhalt]

/-- What holds when the copy loop begins. -/
theorem MeiImageInv.prepared (h : MeiImageInv r)
    (hs : meiWritePrepare kmalloc r.st buf = .ok s) :
    TableOk s.memInfo ∧ ImageReady (r.imageOf kmalloc buf) s.memInfo s.imageSize ∧
      s.arcHaltFlag = true ∧ s.loff = r.st.loff ∧ s.loff ≤ imageCapacity s.imageSize := by
  by_cases hl : r.st.loff = 0
  · rw [meiWritePrepare, if_pos hl] at hs
    obtain ⟨htable, hready, -, hhalt, hloff⟩ := meiWriteStart_ready h.table hs
    rw [MeiRun.imageOf, if_pos hl]
    exact ⟨htable, hready, hhalt, hloff, by omega⟩
  · rw [h.continues hl] at hs
    cases Except.ok.inj hs
    obtain ⟨hready, hhalt, hle⟩ := h.copying hl
    rw [MeiRun.imageOf, if_neg hl]
    exact ⟨h.table, hready, hhalt, rfl, hle⟩

theorem writeFits_iff (h : MeiImageInv r) :
    WriteFits r (.write kmalloc buf) ↔ ∀ s, meiWritePrepare kmalloc r.st buf = .ok s →
      s.loff + buf.size ≤ imageCapacity s.imageSize := by
  unfold WriteFits
  by_cases hl : r.st.loff = 0
  · simp only [if_pos hl, meiWritePrepare]
    constructor
    · intro hfit s hs
      obtain ⟨-, -, himage, -, hloff⟩ := meiWriteStart_ready h.table hs
      rw [himage, hloff, hl, Nat.zero_add]
      exact hfit (by rw [hs]; rfl)
    · intro hfit hok
      cases hs : meiWriteStart kmalloc r.st buf with
      | error e =>
        rw [hs] at hok
        cases hok
      | ok s =>
        obtain ⟨-, -, himage, -, hloff⟩ := meiWriteStart_ready h.table hs
        have hle := hfit s hs
        rwa [himage, hloff, hl, Nat.zero_add] at hle
  · simp only [if_neg hl, h.continues hl, Except.ok.injEq, forall_eq']

/-- The chunk lies in the segments of the image exactly when it ends before the one of XDATA and
within the last segment of the image. -/
theorem segments_iff {n loff size : Nat} (hloff : loff ≤ imageCapacity n) :
    (∀ o, loff ≤ o → o < loff + size → SegmentOf n (o / sdramSegmentSize)) ↔
      loff + size ≤ imageCapacity n := by
  simp only [imageCapacity, SegmentOf, sdramSegmentSize, xdataRegister, maxBarRegisters] at hloff ⊢
  constructor
  · intro h
    by_contra hc
    have ho := h (65536 * min 15 ((n + 65536 - 1) / 65536)) hloff (by omega)
    omega
  · intro hle o hlo hhi
    omega

theorem storedInside_iff {image : Nat → Bool} {info : Nat → SmmuMemInfo} {n loff : Nat}
    (hready : ImageReady image info n) {p : CopyPiece} {k : Nat} :
    StoredInside image info loff p k ↔
      p.offset + k = (loff + p.nRead + k) % sdramSegmentSize ∧ SegmentOf n p.idx ∧
        p.offset + k < (info p.idx).size := by
  constructor
  · intro h
    exact ⟨h.position, (hready.exact _).mp h.image, h.inside⟩
  · rintro ⟨hpos, hseg, hin⟩
    have himage := (hready.exact _).mpr hseg
    refine ⟨hpos, himage, ?_, (hready.memory _ himage).1, hin⟩
    intro hx
    exact not_segmentOf_xdata n (hx ▸ hseg)

theorem writeInside_iff (h : MeiImageInv r) :
    WriteInside r (.write kmalloc buf) ↔ WriteFits r (.write kmalloc buf) := by
  rw [writeFits_iff h]
  unfold WriteInside
  refine forall_congr' fun s => imp_congr_right fun hs => ?_
  obtain ⟨-, hready, -, -, hle⟩ := h.prepared hs
  simp only [storedInside_iff hready]
  rw [copyPieces_bytes (P := fun o idx pos => pos = o % sdramSegmentSize ∧
    SegmentOf s.imageSize idx ∧ pos < (s.memInfo idx).size), ← segments_iff hle]
  constructor
  · intro hall o hlo hhi
    exact (hall o hlo hhi).2.1
  · intro hall o hlo hhi
    have hseg := hall o hlo hhi
    have hmod := Nat.mod_lt o (show 0 < sdramSegmentSize by decide)
    obtain ⟨-, hsize⟩ := hready.memory _ ((hready.exact _).mpr hseg)
    exact ⟨rfl, hseg, by omega⟩

theorem MeiImageInv.write {r' : MeiRun} (h : MeiImageInv r)
    (hfit : WriteFits r (.write kmalloc buf))
    (hs : meiRunStep r (.write kmalloc buf) = some r') : MeiImageInv r' := by
  obtain ⟨⟨s', e⟩, hw, rfl⟩ := Option.map_eq_some_iff.mp hs
  rw [meiWrite_eq] at hw
  cases hp : meiWritePrepare kmalloc r.st buf with
  | error result =>
    simp only [hp] at hw
    cases Option.some.inj hw
    by_cases hl : r.st.loff = 0
    · rw [meiWritePrepare, if_pos hl] at hp
      obtain ⟨htable, hloff⟩ := meiWriteStart_error h.table hp
      exact ⟨htable, fun hc => absurd (hloff.trans hl) hc⟩
    · rw [h.continues hl] at hp
      cases hp
  | ok s =>
    simp only [hp] at hw
    obtain ⟨info, hcopy, hw⟩ := Option.bind_eq_some_iff.mp hw
    cases Option.some.inj hw
    obtain ⟨htable, hready, hhalt, -, -⟩ := h.prepared hp
    have hsame := copyLoop_same hcopy
    exact ⟨htable.of_same hsame, fun _ => ⟨hready.of_same hsame, hhalt,
      (writeFits_iff h).mp hfit s hp⟩⟩

end Writes

theorem MeiImageInv.step {r r' : MeiRun} {e : FirmwareEvent} (h : MeiImageInv r)
    (hfit : WriteFits r e) (hs : meiRunStep r e = some r') : MeiImageInv r' := by
  cases e with
  | reopen =>
    cases Option.some.inj hs
    exact ⟨h.table, fun hc => absurd rfl hc⟩
  | write kmalloc buf => exact h.write hfit hs

theorem meiFresh_inv : MeiImageInv meiFresh :=
  ⟨⟨fun _ _ => rfl, fun _ _ => rfl⟩, fun hc => absurd rfl hc⟩

/-- All bytes of a run of writes are stored inside the image's segments exactly when every write
ends within the segments before the one of XDATA. -/
theorem mei_writes_inside_iff (es : List FirmwareEvent) :
    RunMeets meiRunStep WriteInside meiFresh es ↔ RunMeets meiRunStep WriteFits meiFresh es := by
  have hiff : ∀ {r : MeiRun} {e : FirmwareEvent}, MeiImageInv r → (WriteFits r e ↔ WriteInside r e) := by
    intro r e h
    cases e with
    | reopen => exact Iff.rfl
    | write kmalloc buf => exact (writeInside_iff h).symm
  exact (runMeets_congr hiff MeiImageInv.step meiFresh_inv es).symm

theorem meiWriteStart_ok {kmalloc : Nat → Option (Nat → Byte)}
    (hk : ∀ idx, (kmalloc idx).isSome = true) (s : MeiState) {buf : UserBuf} (hbuf : 4 ≤ buf.size)
    (hsize : headerImageSize buf ≤ 1024 * 1024) : (meiWriteStart kmalloc s buf).isOk = true := by
  obtain ⟨info, bars, halloc⟩ := allocProcessorMemory_ok hk (freeImageBuffer s.memInfo)
    (headerImageSize buf) (Nat.zero_le xdataRegister) (by simp only [sdramSegmentSize]; omega)
  obtain ⟨mem, hmem⟩ := Option.isSome_iff_exists.mp (hk xdataRegister)
  unfold headerImageSize at hsize halloc
  unfold meiWriteStart
  rw [if_neg (not_lt.mpr hbuf)]
  simp only [if_neg (not_lt.mpr hsize), halloc, hmem]
  rfl

/-- An image of 1 MiB in one write; its size field is `0xffff8`. -/
def mebibyteImage : UserBuf :=
  ⟨fun | 0 => 0xf8 | 1 => 0xff | 2 => 0x0f | _ => 0, 1024 * 1024⟩

/-- Its header is accepted, but the bytes from `15 * 64 KiB` on go to the segment of XDATA. -/
theorem mebibyte_image_hits_xdata :
    ¬RunMeets meiRunStep WriteInside meiFresh [.write (fun _ => some fun _ => 0) mebibyteImage] := by
  rintro ⟨hinside, -⟩
  have hfits := (writeInside_iff meiFresh_inv).mp hinside
  have hsize : headerImageSize mebibyteImage = 1024 * 1024 := by decide
  have hok : (meiWriteStart (fun _ => some fun _ => 0) meiFresh.st mebibyteImage).isOk = true :=
    meiWriteStart_ok (fun _ => rfl) meiFresh.st (by decide) (le_of_eq hsize)
  have hle := hfits hok
  rw [hsize] at hle
  exact absurd hle (by decide)

end DanubeBsp
