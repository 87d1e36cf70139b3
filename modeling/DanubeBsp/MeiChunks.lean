import DanubeBsp.MeiFirmwarePages
import DanubeBsp.MeiImage

namespace DanubeBsp

/-- `sizeof(ARC_IMG_HDR)`, with one page header. -/
def arcImgHdrSize : Nat := 36

/-- The lengths of the `mei_write` calls for an image of `n` bytes. -/
structure Chunking (n : Nat) where
  first : Nat
  rest : List Nat
  header : arcImgHdrSize ≤ first
  total : first + rest.sum = n

/-- The calls of `mei_write` for the image from byte `o` on. A call that fails is the last one. -/
def meiTransfer (kmalloc : Nat → Option (Nat → Byte)) (image : Nat → Byte) :
    MeiState → Nat → List Nat → Option MeiState
  | s, _, [] => some s
  | s, o, n :: ns => do
    let r ← meiWrite kmalloc s ⟨fun k => image (o + k), n⟩
    if r.2 < 0 then pure r.1 else meiTransfer kmalloc image r.1 (o + n) ns

/-- The memory and the `nCopy` counter of every segment. -/
def segmentsOf (s : MeiState) : Nat → Option (Nat → Byte) × Nat :=
  fun idx => ((s.memInfo idx).address, (s.memInfo idx).nCopy)

structure MeiDevice extends MeiState where
  table : TableOk memInfo

def MeiDevice.opened (d : MeiDevice) : MeiState := { d.toMeiState with loff := 0 }

/-- What is in the segments after the download of an image; `none` if a byte has no segment, when the
code goes on at `KSEG1ADDR(0)`. -/
def downloaded (kmalloc : Nat → Option (Nat → Byte)) (d : MeiDevice) (image : Nat → Byte) {n : Nat}
    (c : Chunking n) : Option (Nat → Option (Nat → Byte) × Nat) :=
  (meiTransfer kmalloc image d.opened 0 (c.first :: c.rest)).map segmentsOf

/-- The byte of the image that a copied piece from `a` to `b` leaves at `p`: its whole words are
swapped, counted from `a`. -/
def swapSource (a b p : Nat) : Nat :=
  if a + (p - a) / 4 * 4 + 4 ≤ b then a + (p - a) / 4 * 4 + (3 - (p - a) % 4) else p

/-- The same for a chunk from `o` to `e`, which the segments cut into pieces. -/
def chunkSource (o e p : Nat) : Nat :=
  swapSource (max o (p / sdramSegmentSize * sdramSegmentSize))
    (min e (p / sdramSegmentSize * sdramSegmentSize + sdramSegmentSize)) p

/-- The same for chunks of the given lengths from byte `o` on. -/
def sourceFrom : Nat → List Nat → Nat → Nat
  | _, [], p => p
  | o, n :: ns, p => if p < o + n then chunkSource o (o + n) p else sourceFrom (o + n) ns p

def Chunking.source {n : Nat} (c : Chunking n) (p : Nat) : Nat :=
  sourceFrom 0 (c.first :: c.rest) p

/-- All bytes from `lo` to `hi` have a segment with memory. -/
def HasRoom (info : Nat → SmmuMemInfo) (lo hi : Nat) : Prop :=
  ∀ p, lo ≤ p → p < hi → (info (p / sdramSegmentSize)).address.isSome = true

/-- Both downloads stay in the segments and leave the same in them. -/
def SameDownload (kmalloc : Nat → Option (Nat → Byte)) (d : MeiDevice) (image : Nat → Byte) {n : Nat}
    (c c' : Chunking n) : Prop :=
  ∃ segs, downloaded kmalloc d image c = some segs ∧ downloaded kmalloc d image c' = some segs

/-- The segment table with the bytes from `lo` to `hi` of an image stored and counted. -/
def filled (src : Nat → Byte) (lo hi : Nat) (info : Nat → SmmuMemInfo) : Nat → SmmuMemInfo :=
  fun idx =>
    { info idx with
      nCopy := (info idx).nCopy +
        (min hi (idx * sdramSegmentSize + sdramSegmentSize) - max lo (idx * sdramSegmentSize))
      address := (info idx).address.map fun mem x =>
        if x < sdramSegmentSize ∧ lo ≤ idx * sdramSegmentSize + x ∧ idx * sdramSegmentSize + x < hi
        then src (idx * sdramSegmentSize + x) else mem x }

section Filled

variable {src src' : Nat → Byte} {lo mid hi : Nat} {info : Nat → SmmuMemInfo}

theorem filled_room {lo' hi' : Nat} :
    HasRoom (filled src lo hi info) lo' hi' ↔ HasRoom info lo' hi' := by
  simp only [HasRoom, filled, Option.isSome_map]

theorem filled_congr (h : ∀ p, lo ≤ p → p < hi → src p = src' p) :
    filled src lo hi info = filled src' lo hi info := by
  funext idx
  simp only [filled, SmmuMemInfo.mk.injEq, true_and]
  congr 1
  funext mem x
  split
  next hx => exact h _ hx.2.1 hx.2.2
  next => rfl

theorem filled_self : filled src lo lo info = info := by
  funext idx
  have hcount : min lo (idx * sdramSegmentSize + sdramSegmentSize) -
      max lo (idx * sdramSegmentSize) = 0 := by omega
  have hmem : (fun (mem : Nat → Byte) x =>
      if x < sdramSegmentSize ∧ lo ≤ idx * sdramSegmentSize + x ∧ idx * sdramSegmentSize + x < lo
      then src (idx * sdramSegmentSize + x) else mem x) = id := by
    funext mem x
    rw [if_neg (by omega)]
    rfl
  simp only [filled, hcount, hmem, Nat.add_zero, Option.map_id, id_eq]

theorem filled_filled (hlo : lo ≤ mid) (hhi : mid ≤ hi) :
    filled src' mid hi (filled src lo mid info) =
      filled (fun p => if p < mid then src p else src' p) lo hi info := by
  funext idx
  simp only [filled, SmmuMemInfo.mk.injEq, true_and, Option.map_map]
  refine ⟨by omega, ?_⟩
  congr 1
  funext mem x
  simp only [Function.comp_apply]
  by_cases hmid : idx * sdramSegmentSize + x < mid
  · rw [if_neg (by omega), if_pos hmid]
    simp only [hmid, and_true, lt_of_lt_of_le hmid hhi]
  · rw [if_neg hmid]
    by_cases hx : x < sdramSegmentSize ∧ mid ≤ idx * sdramSegmentSize + x ∧
        idx * sdramSegmentSize + x < hi
    · rw [if_pos hx, if_pos ⟨hx.1, le_trans hlo hx.2.1, hx.2.2⟩]
    · rw [if_neg hx, if_neg (fun hc => hmid hc.2.2), if_neg]
      rintro ⟨hs, -, hlt⟩
      exact hx ⟨hs, by omega, hlt⟩

theorem filled_inj (hroom : HasRoom info lo hi)
    (h : ∀ idx, (filled src lo hi info idx).address = (filled src' lo hi info idx).address)
    {p : Nat} (hlo : lo ≤ p) (hhi : p < hi) : src p = src' p := by
  obtain ⟨mem, hmem⟩ := Option.isSome_iff_exists.mp (hroom p hlo hhi)
  have hp := h (p / sdramSegmentSize)
  simp only [filled, hmem, Option.map_some, Option.some.injEq] at hp
  have hdiv : p / sdramSegmentSize * sdramSegmentSize + p % sdramSegmentSize = p :=
    Nat.div_add_mod' p sdramSegmentSize
  have hx := congrFun hp (p % sdramSegmentSize)
  have hlt := Nat.mod_lt p (show 0 < sdramSegmentSize by decide)
  rw [hdiv, if_pos ⟨hlt, hlo, hhi⟩, if_pos ⟨hlt, hlo, hhi⟩] at hx
  exact hx

end Filled

theorem imageSwap_byte {mem : Nat → Byte} {base n k i : Nat} (hk : k < n) (hi : i < 4) :
    imageSwap mem base n (base + 4 * k + i) = mem (base + 4 * k + (3 - i)) := by
  have hload := @imageSwap_load mem base n k hk
  unfold loadBe at hload
  rw [swab32_beWord, leWord] at hload
  have hbyte : ∀ j, beByte (beWord (imageSwap mem base n (base + 4 * k))
      (imageSwap mem base n (base + 4 * k + 1)) (imageSwap mem base n (base + 4 * k + 2))
      (imageSwap mem base n (base + 4 * k + 3))) j = beByte (beWord (mem (base + 4 * k + 3))
      (mem (base + 4 * k + 2)) (mem (base + 4 * k + 1)) (mem (base + 4 * k))) j := by
    intro j
    rw [hload]
  have hcases : i = 0 ∨ i = 1 ∨ i = 2 ∨ i = 3 := by omega
  rcases hcases with rfl | rfl | rfl | rfl
  · simpa only [beByte_beWord_zero, Nat.add_zero, Nat.sub_zero] using hbyte 0
  · simpa only [beByte_beWord_one] using hbyte 1
  · simpa only [beByte_beWord_two] using hbyte 2
  · simpa only [beByte_beWord_three, Nat.add_zero, Nat.sub_self] using hbyte 3

theorem piece_byte {mem image : Nat → Byte} {offset a n x : Nat} (hx : x < n) :
    imageSwap (copyFromUser mem offset (fun k => image (a + k)) n) offset (n / 4) (offset + x) =
      image (swapSource a (a + n) (a + x)) := by
  have hin : ∀ y, y < n → copyFromUser mem offset (fun k => image (a + k)) n (offset + y) =
      image (a + y) := by
    intro y hy
    rw [copyFromUser, if_pos (by omega), Nat.add_sub_cancel_left]
  unfold swapSource
  rw [Nat.add_sub_cancel_left]
  by_cases hword : x / 4 < n / 4
  · have hsplit : offset + x = offset + 4 * (x / 4) + x % 4 := by omega
    rw [hsplit, imageSwap_byte hword (by omega), if_pos (by omega), Nat.add_assoc, hin _ (by omega)]
    congr 1
    omega
  · rw [imageSwap_outside (by omega), hin x hx, if_neg (by omega)]

/-- A pass of the copy loop: the bytes from `a` to `a + n` lie in one segment. -/
theorem storePiece_filled {buf : UserBuf} {image : Nat → Byte} {info : Nat → SmmuMemInfo}
    {loff nRead n : Nat} (himage : ∀ k, buf.mem k = image (loff + k))
    (hfit : (loff + nRead) % sdramSegmentSize + n ≤ sdramSegmentSize) (hn : 0 < n) :
    storePiece buf info ⟨(loff + nRead) / sdramSegmentSize, (loff + nRead) % sdramSegmentSize,
        nRead, n⟩ =
      if (info ((loff + nRead) / sdramSegmentSize)).address.isSome then
        some (filled (fun p => image (swapSource (loff + nRead) (loff + nRead + n) p))
          (loff + nRead) (loff + nRead + n) info)
      else none := by
  have hbuf : (fun k => buf.mem (nRead + k)) = fun k => image (loff + nRead + k) := by
    funext k
    rw [himage, Nat.add_assoc]
  have hbase : (loff + nRead) / sdramSegmentSize * sdramSegmentSize +
      (loff + nRead) % sdramSegmentSize = loff + nRead := Nat.div_add_mod' _ _
  generalize hidx : (loff + nRead) / sdramSegmentSize = idx at hbase ⊢
  generalize hoff : (loff + nRead) % sdramSegmentSize = offset at hbase hfit ⊢
  generalize loff + nRead = a at hbase hbuf ⊢
  unfold storePiece
  dsimp only
  rw [hbuf]
  cases hmem : (info idx).address with
  | none => rfl
  | some mem =>
    rw [Option.map_some, Option.isSome_some, if_pos rfl]
    congr 1
    funext j
    by_cases hj : j = idx
    · subst hj
      rw [Function.update_self]
      simp only [filled, SmmuMemInfo.mk.injEq, true_and, hmem, Option.map_some, Option.some.injEq]
      refine ⟨by omega, ?_⟩
      funext x
      by_cases hx : offset ≤ x ∧ x < offset + n
      · obtain ⟨y, rfl⟩ : ∃ y, x = offset + y := ⟨x - offset, by omega⟩
        rw [piece_byte (by omega), if_pos (by omega)]
        congr 2
        omega
      · rw [imageSwap_outside (by omega), copyFromUser, if_neg hx, if_neg]
        rintro ⟨-, hlo, hhi⟩
        exact hx (by omega)
    · -- the piece does not reach another segment
      rw [Function.update_of_ne hj]
      have hout : ∀ x, x < sdramSegmentSize →
          ¬(a ≤ j * sdramSegmentSize + x ∧ j * sdramSegmentSize + x < a + n) := by
        intro x hx
        simp only [sdramSegmentSize] at hbase hfit hx ⊢
        omega
      have hcount : min (a + n) (j * sdramSegmentSize + sdramSegmentSize) -
          max a (j * sdramSegmentSize) = 0 := by
        simp only [sdramSegmentSize] at hbase hfit ⊢
        omega
      have hsame : (fun (mem : Nat → Byte) x =>
          if x < sdramSegmentSize ∧ a ≤ j * sdramSegmentSize + x ∧ j * sdramSegmentSize + x < a + n
          then image (swapSource a (a + n) (j * sdramSegmentSize + x)) else mem x) = id := by
        funext mem x
        rw [if_neg (fun hc => hout x hc.1 hc.2)]
        rfl
      simp only [filled, hcount, hsame, Nat.add_zero, Option.map_id, id_eq]

theorem passSize_cases (size loff nRead : Nat) :
    (sdramSegmentSize < size - nRead + (loff + nRead) % sdramSegmentSize ∧
      passSize size loff nRead = sdramSegmentSize - (loff + nRead) % sdramSegmentSize) ∨
    (size - nRead + (loff + nRead) % sdramSegmentSize ≤ sdramSegmentSize ∧
      passSize size loff nRead = size - nRead) := by
  unfold passSize
  split
  next hc => exact .inl ⟨hc, rfl⟩
  next hc => exact .inr ⟨not_lt.mp hc, rfl⟩

/-- The first piece of a chunk from `a` on, which goes to the end of the chunk or of the segment. -/
theorem chunkSource_piece {a size nRead loff p : Nat} (ha : a = loff + nRead) (hlt : nRead < size)
    (hlo : a ≤ p) (hhi : p < a + passSize size loff nRead) :
    chunkSource a (loff + size) p = swapSource a (a + passSize size loff nRead) p := by
  obtain ⟨-, hle, hfit⟩ := passSize_fits loff hlt
  rw [← ha] at hfit
  have hseg : p / sdramSegmentSize = a / sdramSegmentSize := by
    simp only [sdramSegmentSize] at hfit ⊢
    omega
  have hend : min (loff + size) (p / sdramSegmentSize * sdramSegmentSize + sdramSegmentSize) =
      a + passSize size loff nRead := by
    have hcases := passSize_cases size loff nRead
    rw [hseg]
    rw [← ha] at hcases
    simp only [sdramSegmentSize] at hcases ⊢
    omega
  have hstart : max a (p / sdramSegmentSize * sdramSegmentSize) = a := by
    rw [hseg]
    exact max_eq_left (Nat.div_mul_le_self a sdramSegmentSize)
  rw [chunkSource, hend, hstart]

/-- Behind its first piece a chunk goes on from the start of a segment. -/
theorem chunkSource_later {a size nRead loff p : Nat} (ha : a = loff + nRead) (hlt : nRead < size)
    (hlo : a + passSize size loff nRead ≤ p) (hhi : p < loff + size) :
    chunkSource (a + passSize size loff nRead) (loff + size) p = chunkSource a (loff + size) p := by
  have hstart : max (a + passSize size loff nRead) (p / sdramSegmentSize * sdramSegmentSize) =
      max a (p / sdramSegmentSize * sdramSegmentSize) := by
    have hcases := passSize_cases size loff nRead
    rw [← ha] at hcases
    simp only [sdramSegmentSize] at hcases hlo ⊢
    omega
  rw [chunkSource, chunkSource, hstart]

/-- The copy loop of `mei_write` succeeds when the chunk has its segments, and then fills them. -/
theorem copyLoop_filled {buf : UserBuf} {image : Nat → Byte} {loff nRead : Nat}
    (himage : ∀ k, buf.mem k = image (loff + k)) (hread : nRead ≤ buf.size)
    (info info' : Nat → SmmuMemInfo) :
    copyLoop buf loff info nRead = some info' ↔ HasRoom info (loff + nRead) (loff + buf.size) ∧
      info' = filled (fun p => image (chunkSource (loff + nRead) (loff + buf.size) p))
        (loff + nRead) (loff + buf.size) info := by
  rw [copyLoop_eq_pieces]
  generalize hleft : buf.size - nRead = left
  induction left using Nat.strong_induction_on generalizing info nRead with
  | _ left ih =>
    unfold copyPieces
    by_cases hlt : nRead < buf.size
    · obtain ⟨hpos, hle, hfit⟩ := passSize_fits loff hlt
      have hpiece := fun p => @chunkSource_piece _ buf.size nRead loff p rfl hlt
      have hlater := fun p => @chunkSource_later _ buf.size nRead loff p rfl hlt
      rw [if_pos hlt, List.foldlM_cons, storePiece_filled himage hfit hpos]
      generalize passSize buf.size loff nRead = n at hpos hle hfit hpiece hlater ⊢
      by_cases haddr : (info ((loff + nRead) / sdramSegmentSize)).address.isSome = true
      · have hrest := @ih (buf.size - (nRead + n)) (by omega) (nRead + n) (by omega)
          (filled (fun p => image (swapSource (loff + nRead) (loff + nRead + n) p))
            (loff + nRead) (loff + nRead + n) info) rfl
        rw [if_pos haddr]
        refine hrest.trans (and_congr ?_ ?_)
        · rw [filled_room]
          constructor
          · intro hroom p hlo hhi
            by_cases hp : p < loff + nRead + n
            · have hseg : p / sdramSegmentSize = (loff + nRead) / sdramSegmentSize := by
                simp only [sdramSegmentSize] at hfit ⊢
                omega
              rw [hseg]
              exact haddr
            · exact hroom p (by omega) hhi
          · intro hroom p hlo hhi
            exact hroom p (by omega) hhi
        · rw [← Nat.add_assoc, filled_filled (by omega) (by omega)]
          refine iff_of_eq (congrArg (info' = ·) (filled_congr ?_))
          intro p hlo hhi
          split
          next hp => rw [hpiece p hlo hp]
          next hp => rw [hlater p (by omega) hhi]
      · rw [if_neg haddr]
        refine iff_of_false (fun hc => by cases hc) ?_
        rintro ⟨hroom, -⟩
        exact haddr (hroom _ (le_refl _) (by omega))
    · obtain rfl : nRead = buf.size := by omega
      rw [if_neg hlt, filled_self]
      refine ⟨?_, ?_⟩
      · intro h
        cases Option.some.inj h
        exact ⟨fun p hlo hhi => absurd hhi (by omega), rfl⟩
      · rintro ⟨-, rfl⟩
        rfl

theorem meiWrite_filled {kmalloc : Nat → Option (Nat → Byte)} {image : Nat → Byte} {s s₁ : MeiState}
    {buf : UserBuf} (hstart : meiWritePrepare kmalloc s buf = .ok s₁)
    (himage : ∀ k, buf.mem k = image (s₁.loff + k)) (r : MeiState × Int) :
    meiWrite kmalloc s buf = some r ↔ HasRoom s₁.memInfo s₁.loff (s₁.loff + buf.size) ∧
      r = ({ s₁ with
        memInfo := filled (fun p => image (chunkSource s₁.loff (s₁.loff + buf.size) p))
          s₁.loff (s₁.loff + buf.size) s₁.memInfo
        loff := s₁.loff + buf.size }, (buf.size : Int)) := by
  have hcopy := copyLoop_filled himage (Nat.zero_le _) s₁.memInfo
  rw [Nat.add_zero] at hcopy
  rw [meiWrite_eq, hstart]
  constructor
  · intro h
    obtain ⟨info, hinfo, hr⟩ := Option.bind_eq_some_iff.mp h
    obtain ⟨hroom, rfl⟩ := (hcopy info).mp hinfo
    exact ⟨hroom, (Option.some.inj hr).symm⟩
  · rintro ⟨hroom, rfl⟩
    exact Option.bind_eq_some_iff.mpr ⟨_, (hcopy _).mpr ⟨hroom, rfl⟩, rfl⟩

theorem HasRoom.append {info : Nat → SmmuMemInfo} {lo mid hi : Nat} (hlo : lo ≤ mid)
    (hhi : mid ≤ hi) : HasRoom info lo hi ↔ HasRoom info lo mid ∧ HasRoom info mid hi := by
  constructor
  · intro h
    exact ⟨fun p hp hp' => h p hp (by omega), fun p hp hp' => h p (by omega) hp'⟩
  · rintro ⟨h, h'⟩ p hp hp'
    by_cases hmid : p < mid
    · exact h p hp hmid
    · exact h' p (by omega) hp'

theorem meiTransfer_rest {kmalloc : Nat → Option (Nat → Byte)} {image : Nat → Byte} {s s' : MeiState}
    {o : Nat} {ns : List Nat} (ho : o ≠ 0) (hloff : s.loff = o) (hsize : s.imageSize ≠ 0)
    (hhalt : s.arcHaltFlag = true) :
    meiTransfer kmalloc image s o ns = some s' ↔ HasRoom s.memInfo o (o + ns.sum) ∧
      s' = { s with
        memInfo := filled (fun p => image (sourceFrom o ns p)) o (o + ns.sum) s.memInfo
        loff := o + ns.sum } := by
  induction ns generalizing s o with
  | nil =>
    subst hloff
    rw [meiTransfer, List.sum_nil, Nat.add_zero, filled_self, Option.some.injEq]
    exact ⟨fun h => ⟨fun p hlo hhi => absurd hhi (by omega), h.symm⟩, fun h => h.2.symm⟩
  | cons n ns ih =>
    subst hloff
    have hstart : meiWritePrepare kmalloc s ⟨fun k => image (s.loff + k), n⟩ = .ok s := by
      rw [meiWritePrepare, if_neg ho, if_neg]
      simp [hsize, hhalt]
    have hwrite := meiWrite_filled hstart (fun _ => rfl)
    have hrest := @ih { s with
      memInfo := filled (fun p => image (chunkSource s.loff (s.loff + n) p)) s.loff (s.loff + n)
        s.memInfo
      loff := s.loff + n } (s.loff + n) (by omega) rfl hsize hhalt
    have hjoin : filled (fun p => image (sourceFrom (s.loff + n) ns p)) (s.loff + n)
        (s.loff + n + ns.sum) (filled (fun p => image (chunkSource s.loff (s.loff + n) p)) s.loff
          (s.loff + n) s.memInfo) =
        filled (fun p => image (sourceFrom s.loff (n :: ns) p)) s.loff (s.loff + (n + ns.sum))
          s.memInfo := by
      rw [← Nat.add_assoc, filled_filled (by omega) (by omega)]
      refine filled_congr ?_
      intro p hlo hhi
      rw [sourceFrom]
      split
      next => rfl
      next => rfl
    rw [filled_room, hjoin] at hrest
    rw [List.sum_cons, HasRoom.append (show s.loff ≤ s.loff + n by omega) (by omega), meiTransfer]
    constructor
    · intro h
      obtain ⟨r, hr, hgo⟩ := Option.bind_eq_some_iff.mp h
      obtain ⟨hroom, rfl⟩ := (hwrite r).mp hr
      rw [if_neg (by dsimp only; omega)] at hgo
      obtain ⟨hroom', rfl⟩ := hrest.mp hgo
      rw [← Nat.add_assoc]
      exact ⟨⟨hroom, hroom'⟩, rfl⟩
    · rintro ⟨⟨hroom, hroom'⟩, rfl⟩
      refine Option.bind_eq_some_iff.mpr ⟨_, (hwrite _).mpr ⟨hroom, rfl⟩, ?_⟩
      rw [if_neg (by dsimp only; omega)]
      refine hrest.mpr ⟨?_, ?_⟩
      · rw [← Nat.add_assoc] at hroom'
        exact hroom'
      · rw [Nat.add_assoc]

theorem allocProcessorMemory_negative {kmalloc : Nat → Option (Nat → Byte)}
    {info : Nat → SmmuMemInfo} {imgSize idx : Nat} {info' : Nat → SmmuMemInfo} {e : Int}
    (h : allocProcessorMemory kmalloc info imgSize idx = .error (info', e)) : e < 0 := by
  fun_induction allocProcessorMemory kmalloc info imgSize idx with
  | case1 =>
    cases Except.error.inj h
    decide
  | case2 info imgSize idx hc idx' size mem hmem ih => exact ih h
  | case3 =>
    cases Except.error.inj h
    decide
  | case4 => cases h

theorem meiWriteStart_negative {kmalloc : Nat → Option (Nat → Byte)} {s : MeiState} {buf : UserBuf}
    {s' : MeiState} {e : Int} (h : meiWriteStart kmalloc s buf = .error (s', e)) : e < 0 := by
  unfold meiWriteStart at h
  split at h
  next =>
    cases Except.error.inj h
    decide
  next =>
    dsimp only at h
    split at h
    next =>
      cases Except.error.inj h
      decide
    next =>
      split at h
      next info e' halloc =>
        cases Except.error.inj h
        exact allocProcessorMemory_negative halloc
      next info bars halloc =>
        split at h
        next =>
          cases Except.error.inj h
          decide
        next => cases h

/-- An image that is empty by its header gets no segment. -/
theorem meiWriteStart_nonempty {kmalloc : Nat → Option (Nat → Byte)} {s s' : MeiState}
    {buf : UserBuf} (htable : TableOk s.memInfo) (h : meiWriteStart kmalloc s buf = .ok s')
    (hroom : (s'.memInfo 0).address.isSome = true) : s'.imageSize ≠ 0 := by
  obtain ⟨info, bars, mem, halloc, rfl⟩ := meiWriteStart_cases h
  intro hzero
  have hzero : headerImageSize buf = 0 := hzero
  rw [hzero, allocProcessorMemory, if_neg (by omega), if_neg (by omega)] at halloc
  cases Except.ok.inj halloc
  have hnone := htable.freed 0
  dsimp only at hroom
  rw [Function.update_of_ne (by decide), setTypes, if_neg (by omega), hnone] at hroom
  exact absurd hroom Bool.false_ne_true

section Download

variable {kmalloc : Nat → Option (Nat → Byte)} {d : MeiDevice} {image : Nat → Byte} {n : Nat}

theorem Chunking.start (c : Chunking n) :
    meiWritePrepare kmalloc d.opened ⟨fun k => image (0 + k), c.first⟩ =
      meiWriteStart kmalloc d.opened ⟨image, n⟩ := by
  have hmem : (fun k => image (0 + k)) = image := by
    funext k
    rw [Nat.zero_add]
  have hheader : 36 ≤ c.first := c.header
  have htotal := c.total
  rw [meiWritePrepare, if_pos (show d.opened.loff = 0 from rfl), hmem]
  unfold meiWriteStart
  rw [if_neg (by omega : ¬c.first < 4), if_neg (by omega : ¬n < 4)]

theorem meiTransfer_rejected (c : Chunking n) {r : MeiState × Int}
    (h : meiWriteStart kmalloc d.opened ⟨image, n⟩ = .error r) :
    meiTransfer kmalloc image d.opened 0 (c.first :: c.rest) = some r.1 := by
  have hwrite : meiWrite kmalloc d.opened ⟨fun k => image (0 + k), c.first⟩ = some r := by
    rw [meiWrite_eq, c.start, h]
  rw [meiTransfer, hwrite]
  exact if_pos (meiWriteStart_negative h)

/-- An accepted image is downloaded when it has its segments, each byte from where the split says. -/
theorem meiTransfer_accepted (c : Chunking n) {s : MeiState}
    (h : meiWriteStart kmalloc d.opened ⟨image, n⟩ = .ok s) (s' : MeiState) :
    meiTransfer kmalloc image d.opened 0 (c.first :: c.rest) = some s' ↔ HasRoom s.memInfo 0 n ∧
      s' = { s with
        memInfo := filled (fun p => image (c.source p)) 0 n s.memInfo
        loff := n } := by
  have hheader : 36 ≤ c.first := c.header
  have htotal := c.total
  obtain ⟨-, -, -, hhalt, hloff⟩ := meiWriteStart_ready (s := d.opened) d.table h
  have hloff : s.loff = 0 := hloff
  have himage : ∀ k, image (0 + k) = image (s.loff + k) := by
    intro k
    rw [hloff]
  have hwrite := meiWrite_filled (c.start.trans h) himage
  have hzero : 0 + c.first = c.first := Nat.zero_add _
  simp only [hloff, hzero] at hwrite
  have hroom : HasRoom s.memInfo 0 n ↔
      HasRoom s.memInfo 0 c.first ∧ HasRoom s.memInfo c.first n :=
    HasRoom.append (Nat.zero_le _) (by omega)
  have hjoin : filled (fun p => image (sourceFrom c.first c.rest p)) c.first n
      (filled (fun p => image (chunkSource 0 c.first p)) 0 c.first s.memInfo) =
      filled (fun p => image (c.source p)) 0 n s.memInfo := by
    rw [filled_filled (Nat.zero_le _) (by omega)]
    refine filled_congr ?_
    intro p hlo hhi
    rw [Chunking.source, sourceFrom, Nat.zero_add]
    split
    next => rfl
    next => rfl
  have hrest : HasRoom s.memInfo 0 c.first → (meiTransfer kmalloc image { s with
      memInfo := filled (fun p => image (chunkSource 0 c.first p)) 0 c.first s.memInfo
      loff := c.first } c.first c.rest = some s' ↔ HasRoom s.memInfo c.first n ∧ s' = { s with
        memInfo := filled (fun p => image (c.source p)) 0 n s.memInfo
        loff := n }) := by
    intro hfirst
    have hsize := meiWriteStart_nonempty (s := d.opened) d.table h
      (hfirst 0 (Nat.zero_le _) (by omega))
    have hgo := @meiTransfer_rest kmalloc image { s with
      memInfo := filled (fun p => image (chunkSource 0 c.first p)) 0 c.first s.memInfo
      loff := c.first } s' c.first c.rest (by omega) rfl hsize hhalt
    rw [htotal, filled_room, hjoin] at hgo
    exact hgo
  rw [meiTransfer, hroom]
  constructor
  · intro hgo
    obtain ⟨r, hr, hgo⟩ := Option.bind_eq_some_iff.mp hgo
    obtain ⟨hfirst, rfl⟩ := (hwrite r).mp hr
    rw [if_neg (by dsimp only; omega), Nat.zero_add] at hgo
    obtain ⟨hlater, rfl⟩ := (hrest hfirst).mp hgo
    exact ⟨⟨hfirst, hlater⟩, rfl⟩
  · rintro ⟨⟨hfirst, hlater⟩, rfl⟩
    refine Option.bind_eq_some_iff.mpr ⟨_, (hwrite _).mpr ⟨hfirst, rfl⟩, ?_⟩
    rw [if_neg (by dsimp only; omega), Nat.zero_add]
    exact (hrest hfirst).mpr ⟨hlater, rfl⟩

theorem downloaded_stored (c : Chunking n) {s : MeiState}
    (h : meiWriteStart kmalloc d.opened ⟨image, n⟩ = .ok s) (hroom : HasRoom s.memInfo 0 n) :
    downloaded kmalloc d image c = some (segmentsOf
      { s with memInfo := filled (fun p => image (c.source p)) 0 n s.memInfo, loff := n }) := by
  rw [downloaded, (meiTransfer_accepted c h _).mpr ⟨hroom, rfl⟩, Option.map_some]

/-- Without the segments every download stops in a null pointer. -/
theorem downloaded_none (c : Chunking n) {s : MeiState}
    (h : meiWriteStart kmalloc d.opened ⟨image, n⟩ = .ok s) (hroom : ¬HasRoom s.memInfo 0 n) :
    downloaded kmalloc d image c = none := by
  rw [downloaded, Option.map_eq_none_iff, Option.eq_none_iff_forall_ne_some]
  intro s' hs'
  exact hroom ((meiTransfer_accepted c h s').mp hs').1

theorem downloaded_inj {c c' : Chunking n} {s : MeiState}
    (h : meiWriteStart kmalloc d.opened ⟨image, n⟩ = .ok s) (hroom : HasRoom s.memInfo 0 n)
    (heq : downloaded kmalloc d image c = downloaded kmalloc d image c') {p : Nat} (hp : p < n) :
    image (c.source p) = image (c'.source p) := by
  rw [downloaded_stored c h hroom, downloaded_stored c' h hroom, Option.some.injEq] at heq
  refine @filled_inj (fun p => image (c.source p)) (fun p => image (c'.source p)) 0 n s.memInfo
    hroom ?_ p (Nat.zero_le p) hp
  intro idx
  exact congrArg Prod.fst (congrFun heq idx)

end Download

theorem swapSource_words {a b p : Nat} (ha : 4 ∣ a) (hp : a ≤ p) :
    swapSource a b p = if p / 4 * 4 + 4 ≤ b then p / 4 * 4 + (3 - p % 4) else p := by
  have hgroup : a + (p - a) / 4 * 4 = p / 4 * 4 := by omega
  have hbyte : (p - a) % 4 = p % 4 := by omega
  rw [swapSource, hgroup, hbyte]

/-- Chunks of whole words, but for the last one, swap the words of the image. -/
theorem sourceFrom_words {o : Nat} {ns : List Nat} {p : Nat} (ho : 4 ∣ o)
    (hwords : ∀ n ∈ ns.dropLast, 4 ∣ n) (hlo : o ≤ p) (hhi : p < o + ns.sum) :
    sourceFrom o ns p = swapSource 0 (o + ns.sum) p := by
  induction ns generalizing o with
  | nil => simp only [List.sum_nil] at hhi; omega
  | cons n ns ih =>
    rw [List.sum_cons] at hhi ⊢
    by_cases hp : p < o + n
    · have hlast : 4 ∣ n ∨ ns.sum = 0 := by
        cases ns with
        | nil => exact .inr rfl
        | cons m ms => exact .inl (hwords n (by simp))
      have hseg : 4 ∣ p / sdramSegmentSize * sdramSegmentSize :=
        Dvd.dvd.mul_left (show 4 ∣ sdramSegmentSize by decide) _
      have hbelow := Nat.div_mul_le_self p sdramSegmentSize
      have habove := Nat.lt_div_mul_add (show 0 < sdramSegmentSize by decide) (a := p)
      rw [sourceFrom, if_pos hp, chunkSource]
      generalize p / sdramSegmentSize * sdramSegmentSize = start at hseg hbelow habove ⊢
      simp only [sdramSegmentSize] at habove ⊢
      rw [swapSource_words (by omega) (by omega), swapSource_words (Nat.dvd_zero 4) (Nat.zero_le _)]
      by_cases hword : p / 4 * 4 + 4 ≤ o + (n + ns.sum)
      · rw [if_pos (by omega), if_pos hword]
      · rw [if_neg (by omega), if_neg hword]
    · have hn : 4 ∣ n := by
        cases ns with
        | nil => simp only [List.sum_nil] at hhi; omega
        | cons m ms => exact hwords n (by simp)
      have hmem : ∀ m ∈ ns.dropLast, 4 ∣ m := by
        intro m hm
        cases ns with
        | nil => simp at hm
        | cons k ks => exact hwords m (by rw [List.dropLast_cons_cons]; exact List.mem_cons_of_mem _ hm)
      rw [sourceFrom, if_neg hp, ih (Nat.dvd_add ho hn) hmem (by omega) (by omega), Nat.add_assoc]

def SplitsAgree (image : Nat → Byte) {n : Nat} (c c' : Chunking n) : Prop :=
  ∀ p, p < n → image (c.source p) = image (c'.source p)

theorem splitsAgree_of_words (image : Nat → Byte) {n : Nat} {c c' : Chunking n}
    (hc : ∀ m ∈ (c.first :: c.rest).dropLast, 4 ∣ m)
    (hc' : ∀ m ∈ (c'.first :: c'.rest).dropLast, 4 ∣ m) : SplitsAgree image c c' := by
  have hsource : ∀ c : Chunking n, (∀ m ∈ (c.first :: c.rest).dropLast, 4 ∣ m) → ∀ p, p < n →
      c.source p = swapSource 0 n p := by
    intro c hc p hp
    have htotal : 0 + (c.first :: c.rest).sum = n := by
      rw [List.sum_cons, c.total, Nat.zero_add]
    rw [Chunking.source, sourceFrom_words (Nat.dvd_zero 4) hc (Nat.zero_le p) (by omega), htotal]
  intro p hp
  rw [hsource c hc p hp, hsource c' hc' p hp]

/-- What the download of an image leaves in the segments does not depend on how it is split exactly when
the image is rejected, or has its segments and the splits move every byte alike. -/
theorem download_chunking_iff (kmalloc : Nat → Option (Nat → Byte)) (d : MeiDevice)
    (image : Nat → Byte) {n : Nat} (c c' : Chunking n) :
    SameDownload kmalloc d image c c' ↔
      ∀ s, meiWriteStart kmalloc d.opened ⟨image, n⟩ = .ok s →
        HasRoom s.memInfo 0 n ∧ SplitsAgree image c c' := by
  constructor
  · rintro ⟨segs, hsegs, hsegs'⟩ s hstart
    have hroom : HasRoom s.memInfo 0 n := by
      by_contra hno
      rw [downloaded_none c hstart hno] at hsegs
      cases hsegs
    exact ⟨hroom, fun p hp => downloaded_inj hstart hroom (hsegs.trans hsegs'.symm) hp⟩
  · intro hagree
    cases hstart : meiWriteStart kmalloc d.opened ⟨image, n⟩ with
    | error r =>
      refine ⟨segmentsOf r.1, ?_, ?_⟩
      · rw [downloaded, meiTransfer_rejected c hstart, Option.map_some]
      · rw [downloaded, meiTransfer_rejected c' hstart, Option.map_some]
    | ok s =>
      obtain ⟨hroom, hsplits⟩ := hagree s hstart
      have hfill : filled (fun p => image (c.source p)) 0 n s.memInfo =
          filled (fun p => image (c'.source p)) 0 n s.memInfo :=
        filled_congr fun p _ hp => hsplits p hp
      refine ⟨_, downloaded_stored c hstart hroom, ?_⟩
      rw [downloaded_stored c' hstart hroom, hfill]

/-- An image of 40 bytes that ends in the word `0x04030201`. -/
def fortyBytes : Nat → Byte
  | 0 => 32
  | 36 => 1
  | 37 => 2
  | 38 => 3
  | 39 => 4
  | _ => 0

/-- A chunk that ends inside the last word leaves that word as it is. -/
theorem split_word_not_swapped :
    (downloaded (fun _ => some fun _ => 0) ⟨meiFresh.st, meiFresh_inv.table⟩ fortyBytes
        (⟨40, [], by decide, rfl⟩ : Chunking 40)).isSome = true ∧
      (downloaded (fun _ => some fun _ => 0) ⟨meiFresh.st, meiFresh_inv.table⟩ fortyBytes
        (⟨37, [3], by decide, rfl⟩ : Chunking 40)).isSome = true ∧
      downloaded (fun _ => some fun _ => 0) ⟨meiFresh.st, meiFresh_inv.table⟩ fortyBytes
          (⟨40, [], by decide, rfl⟩ : Chunking 40) ≠
        downloaded (fun _ => some fun _ => 0) ⟨meiFresh.st, meiFresh_inv.table⟩ fortyBytes
          (⟨37, [3], by decide, rfl⟩ : Chunking 40) := by
  have hsize : headerImageSize ⟨fortyBytes, 40⟩ = 40 := by decide
  have hok : (meiWriteStart (fun _ => some fun _ => 0)
      (MeiDevice.opened ⟨meiFresh.st, meiFresh_inv.table⟩) ⟨fortyBytes, 40⟩).isOk = true :=
    meiWriteStart_ok (fun _ => rfl) _ (by decide) (by rw [hsize]; decide)
  cases hstart : meiWriteStart (fun _ => some fun _ => 0)
      (MeiDevice.opened ⟨meiFresh.st, meiFresh_inv.table⟩) ⟨fortyBytes, 40⟩ with
  | error r =>
    rw [hstart] at hok
    cases hok
  | ok s =>
    obtain ⟨-, hready, himage, -, -⟩ := meiWriteStart_ready meiFresh_inv.table hstart
    have hseg : SegmentOf s.imageSize 0 := by
      rw [himage, hsize]
      exact .inl (by decide)
    have hroom : HasRoom s.memInfo 0 40 := by
      intro p _ hp
      have hzero : p / sdramSegmentSize = 0 := Nat.div_eq_of_lt (by simp only [sdramSegmentSize]; omega)
      rw [hzero]
      exact (hready.memory 0 ((hready.exact 0).mpr hseg)).1
    refine ⟨?_, ?_, ?_⟩
    · rw [downloaded_stored _ hstart hroom]
      rfl
    · rw [downloaded_stored _ hstart hroom]
      rfl
    · intro heq
      exact absurd (downloaded_inj hstart hroom heq (show 36 < 40 by decide)) (by decide)

end DanubeBsp
