import DanubeBsp.MeiFirmware
import DanubeBsp.TableSum

namespace DanubeBsp

/-- The little-endian word of the image at byte `a`. -/
def leWordAt (bytes : List Byte) (a : Nat) : Word :=
  leWord (bytes.getD a 0) (bytes.getD (a + 1) 0) (bytes.getD (a + 2) 0) (bytes.getD (a + 3) 0)

/-- A firmware image: `ARC_IMG_HDR` with the size (its own field and the checksum not counted) and
the number of page headers, which are all inside. -/
structure FirmwareImage where
  bytes : List Byte
  small : bytes.length ≤ 15 * sdramSegmentSize
  size : (leWordAt bytes 0).toNat + 8 = bytes.length
  pages : 12 + 24 * (leWordAt bytes 8).toNat ≤ bytes.length

def FirmwareImage.count (img : FirmwareImage) : Nat := (leWordAt img.bytes 8).toNat

/-- The size in words of a page's program or data segment, without the boot bit. -/
def FirmwareImage.pageSize (img : FirmwareImage) (page : Nat) (data : Bool) : Nat :=
  (leWordAt img.bytes (12 + 24 * page + if data then 20 else 8) &&& 0x7fffffff#32).toNat

def FirmwareImage.pageOffset (img : FirmwareImage) (page : Nat) (data : Bool) : Nat :=
  (leWordAt img.bytes (12 + 24 * page + if data then 12 else 0)).toNat

def FirmwareImage.pageWords (img : FirmwareImage) (page : Nat) (data : Bool) : List Word :=
  (List.range (img.pageSize page data)).map fun k =>
    leWordAt img.bytes (img.pageOffset page data + 4 * k)

theorem imageSwap_outside {mem : Nat → Byte} {base n x : Nat}
    (h : x < base ∨ base + 4 * n ≤ x) : imageSwap mem base n x = mem x := by
  induction n with
  | zero => rfl
  | succ n ih =>
    unfold imageSwap
    rw [storeBe_of_outside (by omega)]
    exact ih (by omega)

theorem imageSwap_load {mem : Nat → Byte} {base n k : Nat} (hk : k < n) :
    loadBe (imageSwap mem base n) (base + 4 * k) = swab32 (loadBe mem (base + 4 * k)) := by
  induction n with
  | zero => omega
  | succ n ih =>
    unfold imageSwap
    by_cases hkn : k = n
    · -- the word was not touched by the first `n` passes
      subst hkn
      rw [loadBe_storeBe]
      congr 1
      apply loadBe_congr
      intro x hx _
      exact imageSwap_outside (by omega)
    · rw [← ih (by omega)]
      apply loadBe_congr
      intro x hx hx'
      exact storeBe_of_outside (by omega)

/-- The memory after a piece of `m` words was copied and swapped. -/
theorem piece_load {mem buf : Nat → Byte} {offset m k : Nat} (hk : k < m) :
    loadBe (imageSwap (copyFromUser mem offset buf (4 * m)) offset m) (offset + 4 * k) =
      leWord (buf (4 * k)) (buf (4 * k + 1)) (buf (4 * k + 2)) (buf (4 * k + 3)) := by
  have hin : ∀ j, j < 4 * m → copyFromUser mem offset buf (4 * m) (offset + j) = buf j := by
    intro j hj
    unfold copyFromUser
    rw [if_pos (by omega), Nat.add_sub_cancel_left]
  rw [imageSwap_load hk]
  unfold loadBe
  simp only [Nat.add_assoc]
  rw [hin (4 * k) (by omega), hin (4 * k + 1) (by omega), hin (4 * k + 2) (by omega),
    hin (4 * k + 3) (by omega), swab32_beWord]

theorem piece_outside {mem buf : Nat → Byte} {offset m x : Nat}
    (h : x < offset ∨ offset + 4 * m ≤ x) :
    imageSwap (copyFromUser mem offset buf (4 * m)) offset m x = mem x := by
  rw [imageSwap_outside h]
  unfold copyFromUser
  rw [if_neg (by omega)]

/-- The first `total` bytes of the image are in the segments, as words of the machine. -/
def ImageHeld (info : Nat → SmmuMemInfo) (bytes : List Byte) (total : Nat) : Prop :=
  ∀ a, 4 ∣ a → a + 4 ≤ total → ∃ mem, (info (a / sdramSegmentSize)).address = some mem ∧
    loadBe mem (a % sdramSegmentSize) = leWordAt bytes a

/-- The state of the segment table after `total` bytes. -/
structure CopyInv (info : Nat → SmmuMemInfo) (bytes : List Byte) (total : Nat) : Prop where
  room : ∃ bars, bytes.length ≤ bars * sdramSegmentSize ∧
    ∀ idx, idx < bars → ∃ mem, (info idx).address = some mem
  held : ImageHeld info bytes total
  copied : ∑ idx ∈ Finset.range maxBarRegisters, (info idx).nCopy = total

/-- One pass of the copy loop: `m` words go to the segment of byte `total`. -/
theorem CopyInv.piece {info : Nat → SmmuMemInfo} {bytes : List Byte} {total m : Nat}
    {mem buf : Nat → Byte} {e : SmmuMemInfo} (h : CopyInv info bytes total) (hal : 4 ∣ total)
    (hmem : (info (total / sdramSegmentSize)).address = some mem)
    (hfit : total % sdramSegmentSize + 4 * m ≤ sdramSegmentSize)
    (hidx : total / sdramSegmentSize < maxBarRegisters)
    (hbuf : ∀ j, j < 4 * m → buf j = bytes.getD (total + j) 0)
    (hn : e.nCopy = (info (total / sdramSegmentSize)).nCopy + 4 * m)
    (he : e.address = some (imageSwap (copyFromUser mem (total % sdramSegmentSize) buf (4 * m))
      (total % sdramSegmentSize) m)) :
    CopyInv (Function.update info (total / sdramSegmentSize) e) bytes (total + 4 * m) := by
  refine ⟨?_, ?_, ?_⟩
  · obtain ⟨bars, hlen, haddr⟩ := h.room
    refine ⟨bars, hlen, ?_⟩
    intro idx hlt
    by_cases hs : idx = total / sdramSegmentSize
    · subst hs
      exact ⟨_, by rw [Function.update_self, he]⟩
    · rw [Function.update_of_ne hs]
      exact haddr idx hlt
  · intro a ha hle
    by_cases hs : a / sdramSegmentSize = total / sdramSegmentSize
    · rw [hs]
      refine ⟨_, by rw [Function.update_self, he], ?_⟩
      by_cases hlt : a < total
      · -- a word of the same segment that was there before
        obtain ⟨mem', hmem', hload⟩ := h.held a ha (by omega)
        rw [hs, hmem] at hmem'
        cases Option.some.inj hmem'
        rw [← hload]
        apply loadBe_congr
        intro x hx hx'
        apply piece_outside
        simp only [sdramSegmentSize] at hs hx hx' ⊢
        omega
      · obtain ⟨k, hk⟩ : ∃ k, a = total + 4 * k := by
          obtain ⟨p, hp⟩ := ha
          obtain ⟨q, hq⟩ := hal
          exact ⟨p - q, by omega⟩
        have hpos : a % sdramSegmentSize = total % sdramSegmentSize + 4 * k := by
          simp only [sdramSegmentSize] at hs hfit ⊢
          omega
        rw [hpos, piece_load (by omega), hbuf _ (by omega), hbuf _ (by omega), hbuf _ (by omega),
          hbuf _ (by omega), hk]
        rfl
    · rw [Function.update_of_ne hs]
      apply h.held a ha
      simp only [sdramSegmentSize] at hs hfit
      omega
  · have hsum := sum_table_update (Finset.mem_range.mpr hidx) info e fun _ => SmmuMemInfo.nCopy
    have hc := h.copied
    omega

/-- A pass copies whole words, up to the end of the segment or of the chunk. -/
theorem copySize_words {total size nRead : Nat} (hal : 4 ∣ total) (hsize : 4 ∣ size - nRead)
    (hlt : nRead < size) :
    ∃ m, (if size - nRead + total % sdramSegmentSize > sdramSegmentSize then
        sdramSegmentSize - total % sdramSegmentSize else size - nRead) = 4 * m ∧
      0 < m ∧ nRead + 4 * m ≤ size ∧ total % sdramSegmentSize + 4 * m ≤ sdramSegmentSize := by
  unfold sdramSegmentSize
  by_cases hc : size - nRead + total % 65536 > 65536
  · rw [if_pos hc]
    exact ⟨(65536 - total % 65536) / 4, by omega, by omega, by omega, by omega⟩
  · rw [if_neg hc]
    exact ⟨(size - nRead) / 4, by omega, by omega, by omega, by omega⟩

/-- The copy loop from byte `loff + nRead` of the image on, by induction on what is left. -/
theorem CopyInv.loop {info : Nat → SmmuMemInfo} {bytes : List Byte} {buf : UserBuf}
    {loff nRead : Nat} (h : CopyInv info bytes (loff + nRead)) (hal : 4 ∣ loff + nRead)
    (hsize : 4 ∣ loff + buf.size) (hread : nRead ≤ buf.size) (hlen : loff + buf.size ≤ bytes.length)
    (hsmall : bytes.length ≤ 15 * sdramSegmentSize)
    (hbuf : ∀ k, k < buf.size → buf.mem k = bytes.getD (loff + k) 0) :
    ∃ info', copyLoop buf loff info nRead = some info' ∧
      CopyInv info' bytes (loff + buf.size) := by
  generalize hleft : buf.size - nRead = left
  induction left using Nat.strong_induction_on generalizing info nRead with
  | _ left ih =>
    unfold copyLoop
    by_cases hlt : nRead < buf.size
    · rw [if_pos hlt]
      obtain ⟨bars, hcap, haddr⟩ := h.room
      obtain ⟨mem, hmem⟩ := haddr ((loff + nRead) / sdramSegmentSize) (by
        simp only [sdramSegmentSize] at hcap ⊢
        omega)
      obtain ⟨m, hm, hpos, hend, hfit⟩ := copySize_words hal (by omega) hlt
      have hdiv : 4 * m / 4 = m := by omega
      simp only [hmem, hm, hdiv]
      have hidx : (loff + nRead) / sdramSegmentSize < maxBarRegisters := by
        simp only [sdramSegmentSize, maxBarRegisters] at hsmall ⊢
        omega
      have hsrc : ∀ j, j < 4 * m → (fun k => buf.mem (nRead + k)) j =
          bytes.getD (loff + nRead + j) 0 := by
        intro j hj
        rw [Nat.add_assoc]
        exact hbuf (nRead + j) (by omega)
      have hpiece := h.piece (e :=
        { info ((loff + nRead) / sdramSegmentSize) with
          nCopy := (info ((loff + nRead) / sdramSegmentSize)).nCopy + 4 * m
          address := some (imageSwap (copyFromUser mem ((loff + nRead) % sdramSegmentSize)
            (fun k => buf.mem (nRead + k)) (4 * m)) ((loff + nRead) % sdramSegmentSize) m) })
        hal hmem hfit hidx hsrc rfl rfl
      rw [Nat.add_assoc loff nRead] at hpiece
      exact ih (buf.size - (nRead + 4 * m)) (by omega) hpiece (by omega) (by omega) rfl
    · rw [if_neg hlt]
      have he : nRead = buf.size := by omega
      exact ⟨info, rfl, he ▸ h⟩

theorem allocProcessorMemory_spec {kmalloc : Nat → Option (Nat → Byte)}
    (hk : ∀ idx, ∃ mem, kmalloc idx = some mem) (info : Nat → SmmuMemInfo) (imgSize idx : Nat)
    (hfit : imgSize + idx * sdramSegmentSize ≤ 15 * sdramSegmentSize) :
    ∃ info' bars, allocProcessorMemory kmalloc info imgSize idx = .ok (info', bars) ∧
      imgSize + idx * sdramSegmentSize ≤ bars * sdramSegmentSize ∧
      (∀ j, (info' j).nCopy = (info j).nCopy) ∧ (∀ j, j < idx → info' j = info j) ∧
      ∀ j, idx ≤ j → j < bars → ∃ mem, (info' j).address = some mem := by
  generalize hleft : imgSize = left
  induction left using Nat.strong_induction_on generalizing info imgSize idx with
  | _ left ih =>
    unfold allocProcessorMemory
    subst hleft
    by_cases hpos : 0 < imgSize
    · have hlt : idx < 15 := by
        simp only [sdramSegmentSize] at hfit
        omega
      obtain ⟨mem, hmem⟩ := hk idx
      have hmax : idx < maxBarRegisters := by
        simp only [maxBarRegisters]
        omega
      have hx : ¬idx = xdataRegister := by
        simp only [xdataRegister]
        omega
      have hlast : ¬idx = maxBarRegisters - 1 := by
        simp only [maxBarRegisters]
        omega
      simp only [if_pos (And.intro hpos hmax), if_neg hx, if_neg hlast, hmem]
      obtain ⟨info', bars, heq, hcap, hn, hold, hnew⟩ := ih (imgSize - sdramSegmentSize)
        (by simp only [sdramSegmentSize]; omega)
        (Function.update info idx { info idx with size := sdramSegmentSize, address := some mem })
        (imgSize - sdramSegmentSize) (idx + 1)
        (by simp only [sdramSegmentSize] at hfit ⊢; omega) rfl
      refine ⟨info', bars, heq, ?_, ?_, ?_, ?_⟩
      · simp only [sdramSegmentSize] at hcap ⊢
        omega
      · intro j
        rw [hn j]
        by_cases hj : j = idx
        · subst hj
          rw [Function.update_self]
        · rw [Function.update_of_ne hj]
      · intro j hj
        rw [hold j (by omega), Function.update_of_ne (by omega)]
      · intro j hj hjb
        by_cases he : j = idx
        · subst he
          exact ⟨mem, by rw [hold j (by omega), Function.update_self]⟩
        · exact hnew j (by omega) hjb
    · have hc : ¬(0 < imgSize ∧ idx < maxBarRegisters) := fun h => hpos h.1
      rw [if_neg hc, if_neg hpos]
      exact ⟨info, idx, rfl, by omega, fun _ => rfl, fun _ _ => rfl, fun j h h' => by omega⟩

/-- Only segments that have memory have a copy count. -/
def CleanTable (s : MeiState) : Prop :=
  ∀ idx, idx < maxBarRegisters → (s.memInfo idx).size = 0 → (s.memInfo idx).nCopy = 0

theorem freeImageBuffer_nCopy {s : MeiState} (h : CleanTable s) {idx : Nat}
    (hidx : idx < maxBarRegisters) : (freeImageBuffer s.memInfo idx).nCopy = 0 := by
  unfold freeImageBuffer
  by_cases hs : 0 < (s.memInfo idx).size
  · rw [if_pos ⟨hidx, hs⟩]
    rfl
  · rw [if_neg (fun hc => hs hc.2)]
    exact h idx hidx (by omega)

/-- The first write allocates segments for the whole image and forgets earlier copies. -/
theorem meiWriteStart_spec {kmalloc : Nat → Option (Nat → Byte)}
    (hk : ∀ idx, ∃ mem, kmalloc idx = some mem) (img : FirmwareImage) {s : MeiState}
    (hclean : CleanTable s) {buf : UserBuf} (hsize : 4 ≤ buf.size)
    (hbuf : ∀ k, k < buf.size → buf.mem k = img.bytes.getD k 0) :
    ∃ s', meiWriteStart kmalloc s buf = .ok s' ∧ s'.imageSize = img.bytes.length ∧
      s'.arcHaltFlag = true ∧ s'.loff = s.loff ∧ CopyInv s'.memInfo img.bytes 0 := by
  have hsmall := img.small
  simp only [sdramSegmentSize] at hsmall
  have hword : swab32 (loadBe buf.mem 0) = leWordAt img.bytes 0 := by
    unfold loadBe leWordAt
    rw [hbuf 0 (by omega), hbuf 1 (by omega), hbuf 2 (by omega), hbuf 3 (by omega), swab32_beWord]
  have himg : (swab32 (loadBe buf.mem 0) + 8#32).toNat = img.bytes.length := by
    have hs := img.size
    rw [hword, BitVec.toNat_add, BitVec.toNat_ofNat]
    omega
  obtain ⟨info, bars, halloc, hcap, hn, -, hmem⟩ := allocProcessorMemory_spec hk
    (freeImageBuffer s.memInfo) img.bytes.length 0 (by simp only [sdramSegmentSize]; omega)
  obtain ⟨xmem, hxmem⟩ := hk xdataRegister
  unfold meiWriteStart
  rw [if_neg (by omega)]
  simp only [himg, if_neg (by omega : ¬1024 * 1024 < img.bytes.length), halloc, hxmem]
  refine ⟨_, rfl, rfl, rfl, rfl, ?_, ?_, ?_⟩
  · refine ⟨bars, by omega, ?_⟩
    intro idx hidx
    by_cases hx : idx = xdataRegister
    · subst hx
      exact ⟨xmem, by dsimp only; rw [Function.update_self]⟩
    · obtain ⟨mem, hm⟩ := hmem idx (Nat.zero_le _) hidx
      refine ⟨mem, ?_⟩
      dsimp only
      rw [Function.update_of_ne hx]
      unfold setTypes
      split <;> exact hm
  · intro a _ ha
    omega
  · apply Finset.sum_eq_zero
    intro idx hidx
    have hzero := (hn idx).trans (freeImageBuffer_nCopy hclean (Finset.mem_range.mp hidx))
    have htypes : (setTypes bars (swab32 (loadBe buf.mem 12)).toNat info idx).nCopy = 0 := by
      unfold setTypes
      split <;> exact hzero
    dsimp only
    by_cases hx : idx = xdataRegister
    · subst hx
      rw [Function.update_self]
      exact htypes
    · rw [Function.update_of_ne hx]
      exact htypes

/-- The state between two writes, after `total` bytes of the image. -/
inductive Downloading (bytes : List Byte) : Nat → MeiState → Prop
  | idle {s : MeiState} (hloff : s.loff = 0) (hclean : CleanTable s) : Downloading bytes 0 s
  | copying {s : MeiState} {total : Nat} (hpos : 0 < total) (hloff : s.loff = total)
      (himage : s.imageSize = bytes.length) (hhalt : s.arcHaltFlag = true)
      (hcopy : CopyInv s.memInfo bytes total) : Downloading bytes total s

theorem Downloading.write {kmalloc : Nat → Option (Nat → Byte)}
    (hk : ∀ idx, ∃ mem, kmalloc idx = some mem) (img : FirmwareImage) {total : Nat} {s : MeiState}
    (h : Downloading img.bytes total s) (hal : 4 ∣ total) {buf : UserBuf} (hsize : 4 ∣ buf.size)
    (hlen : total + buf.size ≤ img.bytes.length)
    (hbuf : ∀ k, k < buf.size → buf.mem k = img.bytes.getD (total + k) 0) :
    ∃ r, meiWrite kmalloc s buf = some r ∧ Downloading img.bytes (total + buf.size) r.1 := by
  have hfinish : ∀ {s' : MeiState}, 0 < total + buf.size → s'.loff = total →
      s'.imageSize = img.bytes.length → s'.arcHaltFlag = true → CopyInv s'.memInfo img.bytes total →
      ∃ r : MeiState × Int, (do
        let info ← copyLoop buf s'.loff s'.memInfo 0
        pure ({ s' with memInfo := info, loff := s'.loff + buf.size }, (buf.size : Int))) =
          some r ∧ Downloading img.bytes (total + buf.size) r.1 := by
    intro s' hpos hloff himage hhalt hcopy
    subst hloff
    obtain ⟨info, hloop, hinv⟩ := CopyInv.loop hcopy hal (by omega) (Nat.zero_le _) hlen img.small
      hbuf
    exact ⟨_, by rw [hloop]; rfl, .copying hpos rfl himage hhalt hinv⟩
  unfold meiWrite
  cases h with
  | idle hloff hclean =>
    by_cases hz : buf.size < 4
    · -- an empty write at the start is refused and changes nothing
      have hzero : buf.size = 0 := by omega
      refine ⟨(s, -12), ?_, ?_⟩
      · simp only [hloff, if_true, meiWriteStart, if_pos hz]
      · rw [hzero]
        exact .idle hloff hclean
    · obtain ⟨s', hstart, himage, hhalt, hloff', hcopy⟩ := meiWriteStart_spec hk img hclean
        (by omega : 4 ≤ buf.size) (by simpa using hbuf)
      simp only [hloff, if_true, hstart]
      exact hfinish (by omega) (hloff'.trans hloff) himage hhalt hcopy
  | copying hpos hloff himage hhalt hcopy =>
    have hne : ¬s.loff = 0 := by omega
    have himg : ¬s.imageSize = 0 := by omega
    have hgo : ¬(s.imageSize = 0 || !s.arcHaltFlag) = true := by simp [himg, hhalt]
    simp only [if_neg hne, if_neg hgo]
    exact hfinish (by omega) hloff himage hhalt hcopy

theorem getD_of_drop_eq_append {bytes us vs : List Byte} {total : Nat}
    (h : bytes.drop total = us ++ vs) {k : Nat} (hk : k < us.length) :
    bytes.getD (total + k) 0 = us.getD k 0 := by
  have hdrop : bytes[total + k]? = (us ++ vs)[k]? := by rw [← h, List.getElem?_drop]
  rw [List.getElem?_append_left hk] at hdrop
  rw [List.getD_eq_getElem?_getD, hdrop, List.getD_eq_getElem?_getD]

/-- All writes of a split of what is left of the image. -/
theorem Downloading.run {kmalloc : Nat → Option (Nat → Byte)}
    (hk : ∀ idx, ∃ mem, kmalloc idx = some mem) (img : FirmwareImage) {total : Nat} {s : MeiState}
    (h : Downloading img.bytes total s) (hal : 4 ∣ total) {bufs : List UserBuf}
    (hsplit : img.bytes.drop total = (bufs.map UserBuf.bytes).flatten)
    (hle : total ≤ img.bytes.length) (hsizes : ∀ b ∈ bufs, 4 ∣ b.size) :
    ∃ s', meiDownload kmalloc s bufs = some s' ∧
      Downloading img.bytes img.bytes.length s' := by
  induction bufs generalizing total s with
  | nil =>
    have hend : img.bytes.length ≤ total := by simpa using hsplit
    have he : total = img.bytes.length := by omega
    exact ⟨s, rfl, he ▸ h⟩
  | cons b bufs ih =>
    rw [List.map_cons, List.flatten_cons] at hsplit
    have hblen : b.bytes.length = b.size := by simp [UserBuf.bytes]
    have hlen : total + b.size ≤ img.bytes.length := by
      have hl := congrArg List.length hsplit
      rw [List.length_drop, List.length_append, hblen] at hl
      omega
    obtain ⟨r, hr, hnext⟩ := h.write hk img hal (hsizes b List.mem_cons_self) hlen (by
      intro k hlt
      rw [getD_of_drop_eq_append hsplit (by omega)]
      simp [UserBuf.bytes, List.getD_eq_getElem?_getD, hlt])
    have hrest : img.bytes.drop (total + b.size) = (bufs.map UserBuf.bytes).flatten := by
      rw [← List.drop_drop, hsplit, ← hblen, List.drop_left]
    have hb := hsizes b List.mem_cons_self
    obtain ⟨s', hs', hdone⟩ := ih hnext (by omega) hrest hlen
      (fun b' hb' => hsizes b' (List.mem_cons_of_mem b hb'))
    refine ⟨s', ?_, hdone⟩
    unfold meiDownload
    rw [hr]
    exact hs'

/-- The read loop: `off` bytes into segment `idx`, the end of the segment included, is where the
words continue. -/
theorem pageLoop_spec {info : Nat → SmmuMemInfo} {bytes : List Byte} {offset : Nat}
    (hheld : ImageHeld info bytes bytes.length) (n : Nat) {i idx nBar off : Nat} (hpos : offset + 4 * i = nBar * sdramSegmentSize + off)
    (hoff : off ≤ sdramSegmentSize) (hal : 4 ∣ off)
    (hend : idx * sdramSegmentSize + off + 4 * n ≤ bytes.length) :
    pageLoop info offset n i idx nBar off =
      some ((List.range n).map fun k => leWordAt bytes (idx * sdramSegmentSize + off + 4 * k)) := by
  induction n generalizing i idx nBar off with
  | zero => rfl
  | succ n ih =>
    have hpassed : (((offset : Int) + i * 4 - nBar * sdramSegmentSize) % 2 ^ 32).toNat = off := by
      simp only [sdramSegmentSize] at *
      omega
    have hlist : ∀ a, ((List.range (n + 1)).map fun k => leWordAt bytes (a + 4 * k)) =
        leWordAt bytes a :: (List.range n).map fun k => leWordAt bytes (a + 4 + 4 * k) := by
      intro a
      rw [List.range_succ_eq_map, List.map_cons, List.map_map]
      congr 1
      apply List.map_congr_left
      intro k _
      show leWordAt bytes (a + 4 * (k + 1)) = _
      congr 1
      omega
    -- one word, read where the pointer is after the test
    have hread : ∀ idx' nBar' off', off' < sdramSegmentSize →
        idx' * sdramSegmentSize + off' = idx * sdramSegmentSize + off →
        nBar' * sdramSegmentSize + off' = nBar * sdramSegmentSize + off → 4 ∣ off' →
        ∃ mem, (info idx').address = some mem ∧
          (pageLoop info offset n (i + 1) idx' nBar' (off' + 4)).map (loadBe mem off' :: ·) =
            some ((List.range (n + 1)).map fun k =>
              leWordAt bytes (idx * sdramSegmentSize + off + 4 * k)) := by
      intro idx' nBar' off' hlt hpos' hbar' hal'
      obtain ⟨mem, hmem, hload⟩ := hheld (idx' * sdramSegmentSize + off')
        (by simp only [sdramSegmentSize]; omega) (by omega)
      have hdiv : (idx' * sdramSegmentSize + off') / sdramSegmentSize = idx' := by
        simp only [sdramSegmentSize] at hlt ⊢
        omega
      have hmod : (idx' * sdramSegmentSize + off') % sdramSegmentSize = off' := by
        simp only [sdramSegmentSize] at hlt ⊢
        omega
      rw [hdiv] at hmem
      rw [hmod] at hload
      refine ⟨mem, hmem, ?_⟩
      rw [ih (i := i + 1) (by omega) (by simp only [sdramSegmentSize] at hlt ⊢; omega) (by omega)
        (by omega), Option.map_some, hload, hlist, ← hpos', Nat.add_assoc]
    unfold pageLoop
    simp only [hpassed]
    by_cases hc : sdramSegmentSize ≤ off
    · simp only [hc, decide_true, if_true]
      have hnext : (idx + 1) * sdramSegmentSize + 0 = idx * sdramSegmentSize + off ∧
          (nBar + 1) * sdramSegmentSize + 0 = nBar * sdramSegmentSize + off := by
        rw [Nat.add_mul, Nat.add_mul]
        omega
      obtain ⟨mem, hmem, hrest⟩ :=
        hread (idx + 1) (nBar + 1) 0 (by decide) hnext.1 hnext.2 (Nat.dvd_zero 4)
      rw [hmem]
      exact hrest
    · simp only [hc, decide_false, Bool.false_eq_true, if_false]
      obtain ⟨mem, hmem, hrest⟩ := hread idx nBar off (by omega) rfl rfl hal
      rw [hmem]
      exact hrest

/-- `meiGetPage` on a complete image, for a page header that is inside segment 0. -/
theorem meiGetPage_spec (img : FirmwareImage) {s : MeiState} {hdr : Nat → Byte}
    (hhdr : (s.memInfo 0).address = some hdr)
    (hheld : ImageHeld s.memInfo img.bytes img.bytes.length) {page maxSize : Nat} (data : Bool)
    (hseg : 12 + 24 * img.count ≤ sdramSegmentSize) (hpage : page < img.count)
    (hal : 4 ∣ img.pageOffset page data) (hsize : img.pageSize page data ≤ maxSize)
    (hend : img.pageOffset page data + 4 * img.pageSize page data ≤ img.bytes.length) :
    ∃ r, meiGetPage s page data maxSize = some r ∧ r.ret = img.pageSize page data ∧
      r.buffer = img.pageWords page data := by
  have hpages : 12 + 24 * img.count ≤ img.bytes.length := img.pages
  have hword : ∀ a, 4 ∣ a → a + 4 ≤ 12 + 24 * img.count → loadBe hdr a = leWordAt img.bytes a := by
    intro a ha hle
    obtain ⟨mem, hmem, hload⟩ := hheld a ha (by omega)
    simp only [sdramSegmentSize] at hseg hmem hload
    have hdiv : a / 65536 = 0 := by omega
    have hmod : a % 65536 = a := by omega
    rw [hdiv, hhdr] at hmem
    cases Option.some.inj hmem
    rw [hmod] at hload
    exact hload
  have hcount : (loadBe hdr 8).toNat = img.count := by
    rw [hword 8 (by omega) (by omega)]
    rfl
  have hsz : (loadBe hdr (if data then 12 + 24 * page + 20 else 12 + 24 * page + 8) &&&
      0x7fffffff#32).toNat = img.pageSize page data := by
    rw [hword _ (by split <;> omega) (by split <;> omega)]
    cases data <;> rfl
  have hof : (loadBe hdr (if data then 12 + 24 * page + 12 else 12 + 24 * page)).toNat =
      img.pageOffset page data := by
    rw [hword _ (by split <;> omega) (by split <;> omega)]
    cases data <;> rfl
  unfold meiGetPage
  simp only [hhdr, hcount, hsz, hof, if_neg (by omega : ¬img.count < page),
    if_neg (by omega : ¬maxSize < img.pageSize page data)]
  by_cases hz : img.pageSize page data = 0
  · rw [if_pos hz]
    refine ⟨_, rfl, by rw [hz]; rfl, ?_⟩
    rw [FirmwareImage.pageWords, hz]
    rfl
  · rw [if_neg hz]
    generalize hoff : img.pageOffset page data = i at hal hend
    have hsplit : i / sdramSegmentSize * sdramSegmentSize + i % sdramSegmentSize = i := by
      rw [Nat.mul_comm]
      exact Nat.div_add_mod i _
    have hloop : pageLoop s.memInfo (i % sdramSegmentSize) (img.pageSize page data) 0
        (i / sdramSegmentSize) 0 (i % sdramSegmentSize) =
          some ((List.range (img.pageSize page data)).map fun k => leWordAt img.bytes
            (i / sdramSegmentSize * sdramSegmentSize + i % sdramSegmentSize + 4 * k)) := by
      apply pageLoop_spec hheld
      · omega
      · exact (Nat.mod_lt i (by decide)).le
      · simp only [sdramSegmentSize]
        omega
      · omega
    rw [hloop, hsplit]
    refine ⟨_, rfl, rfl, ?_⟩
    rw [FirmwareImage.pageWords, hoff]

/-- After the download the checks of `meiRunAdslModem` only depend on the number of pages. -/
theorem meiImageComplete_eq (img : FirmwareImage) {s : MeiState}
    (himage : s.imageSize = img.bytes.length)
    (hcopy : CopyInv s.memInfo img.bytes img.bytes.length) :
    meiImageComplete s = decide (24 * img.count ≤ sdramSegmentSize) := by
  have hpages : 12 + 24 * img.count ≤ img.bytes.length := img.pages
  have hsmall := img.small
  obtain ⟨hdr, hhdr, hload⟩ := hcopy.held 8 (by omega) (by omega)
  have hhdr : (s.memInfo 0).address = some hdr := hhdr
  have hcount : (loadBe hdr 8).toNat = img.count := congrArg BitVec.toNat hload
  have hmul : (loadBe hdr 8 * 24#32).toNat = 24 * img.count := by
    rw [BitVec.toNat_mul, hcount, BitVec.toNat_ofNat, Nat.mul_comm]
    apply Nat.mod_eq_of_lt
    simp only [sdramSegmentSize] at hsmall
    omega
  have hcopied : meiCopied s = s.imageSize := hcopy.copied.trans himage.symm
  unfold meiImageComplete
  simp only [hhdr, hmul, hcopied, beq_self_eq_true, Bool.and_true]

/-- After the download of an image, in whole words and in any pieces, all its bytes are counted, and
once `meiRunAdslModem` accepts the image, `meiGetPage` gives the words of every page that lies inside
it. -/
theorem meiDownload_exact (kmalloc : Nat → Option (Nat → Byte))
    (hk : ∀ idx, ∃ mem, kmalloc idx = some mem) (img : FirmwareImage) (s : MeiState)
    (hloff : s.loff = 0) (hclean : CleanTable s) (bufs : List UserBuf)
    (hsplit : (bufs.map UserBuf.bytes).flatten = img.bytes) (hsizes : ∀ b ∈ bufs, 4 ∣ b.size) :
    ∃ s', meiDownload kmalloc s bufs = some s' ∧ meiCopied s' = img.bytes.length ∧
      meiImageComplete s' = decide (24 * img.count ≤ sdramSegmentSize) ∧
      (meiImageComplete s' = true → ∀ page data maxSize, page < img.count →
        4 ∣ img.pageOffset page data → img.pageSize page data ≤ maxSize →
        img.pageOffset page data + 4 * img.pageSize page data ≤ img.bytes.length →
        ∃ r, meiGetPage s' page data maxSize = some r ∧ r.ret = img.pageSize page data ∧
          r.buffer = img.pageWords page data) := by
  obtain ⟨s', hdown, hdone⟩ := (Downloading.idle hloff hclean).run hk img (Nat.dvd_zero 4)
    (by rw [hsplit]; rfl) (Nat.zero_le _) hsizes
  have hpages := img.pages
  obtain ⟨himage, hcopy⟩ : s'.imageSize = img.bytes.length ∧
      CopyInv s'.memInfo img.bytes img.bytes.length := by
    generalize hn : img.bytes.length = n at hdone
    cases hdone with
    | idle => omega
    | copying _ _ hi _ hc => exact ⟨by omega, hn ▸ hc⟩
  have hcomplete := meiImageComplete_eq img himage hcopy
  refine ⟨s', hdown, hcopy.copied, hcomplete, ?_⟩
  intro hrun page data maxSize hpage hal hsize hend
  rw [hcomplete, decide_eq_true_eq] at hrun
  obtain ⟨hdr, hhdr, -⟩ := hcopy.held 8 (by omega) (by omega)
  apply meiGetPage_spec img hhdr hcopy.held data _ hpage hal hsize hend
  simp only [sdramSegmentSize] at hrun ⊢
  omega

/-- An image of one page with one program word, `0x04030201`. -/
def smallImage : FirmwareImage where
  bytes := [32, 0, 0, 0] ++ [0, 0, 0, 0] ++ [1, 0, 0, 0] ++ [36, 0, 0, 0] ++ [0, 0, 0, 0] ++
    [1, 0, 0, 0] ++ [0, 0, 0, 0] ++ [0, 0, 0, 0] ++ [0, 0, 0, 0] ++ [1, 2, 3, 4]
  small := by decide
  size := by decide
  pages := by decide

theorem meiDownload_exact_small :
    ∃ s' r, meiDownload (fun _ => some fun _ => 0) ⟨fun _ => .cleared, 0, 0, 0, false⟩
        [⟨fun k => smallImage.bytes.getD k 0, 4⟩, ⟨fun k => smallImage.bytes.getD (4 + k) 0, 36⟩] =
          some s' ∧ meiCopied s' = 40 ∧ meiGetPage s' 0 false 8192 = some r ∧
      r.buffer = [0x04030201#32] := by
  obtain ⟨s', hdown, hcopied, hcomplete, hpages⟩ := meiDownload_exact (fun _ => some fun _ => 0)
    (fun _ => ⟨_, rfl⟩) smallImage ⟨fun _ => .cleared, 0, 0, 0, false⟩ rfl (fun _ _ _ => rfl)
    [⟨fun k => smallImage.bytes.getD k 0, 4⟩, ⟨fun k => smallImage.bytes.getD (4 + k) 0, 36⟩]
    (by decide) (by decide)
  obtain ⟨r, hr, -, hbuffer⟩ := hpages (hcomplete.trans (by decide)) 0 false 8192 (by decide)
    (by decide) (by decide) (by decide)
  exact ⟨s', r, hdown, hcopied, hr, hbuffer.trans (by decide)⟩

end DanubeBsp
