import DanubeBsp.BlockStream
import DanubeBsp.HashEngine
import Mathlib.Tactic.IntervalCases

namespace DanubeBsp

/-- `md5_ctx`, with `block` as the bytes of its 16 words. The digest is kept by the engine. -/
structure Md5Ctx where
  block : Nat → Byte
  byteCount : BitVec 64

/-- `md5_init`, as far as the context goes. -/
def md5Init (mctx : Md5Ctx) : Md5Ctx := { mctx with byteCount := 0 }

/-- `md5_transform`: the words written to `MR`, each through `cpu_to_le32`. -/
def md5Transform (block : Nat → Byte) : List Word :=
  (List.range 16).map fun i => swab32 (loadBe block (4 * i))

def md5Offset (byteCount : BitVec 64) : Nat := (byteCount &&& 0x3f).toNat

/-- The blocks of `md5_update` behind the first; each is copied to the context. -/
def md5Loop : Nat → (Nat → Byte) → List Byte → (Nat → Byte) × List (List Word)
  | 0, block, data => (writeBlock block 0 data, [])
  | fuel + 1, block, data =>
    if 64 ≤ data.length then
      let block := writeBlock block 0 (data.take 64)
      let (block', bs) := md5Loop fuel block (data.drop 64)
      (block', md5Transform block :: bs)
    else (writeBlock block 0 data, [])

/-- `md5_update` with the blocks of words that it writes. -/
def md5Update (mctx : Md5Ctx) (data : List Byte) : Md5Ctx × List (List Word) :=
  let avail := 64 - md5Offset mctx.byteCount
  let byteCount := mctx.byteCount + BitVec.ofNat 64 data.length
  if data.length < avail then (⟨writeBlock mctx.block (64 - avail) data, byteCount⟩, [])
  else
    let block := writeBlock mctx.block (64 - avail) (data.take avail)
    let (block', bs) := md5Loop data.length block (data.drop avail)
    (⟨block', byteCount⟩, md5Transform block :: bs)

def memset (mem : Nat → Byte) (p : Nat) (n : Int) : Nat → Byte :=
  writeBlock mem p (List.replicate n.toNat 0)

/-- The blocks of words that `md5_final` writes. -/
def md5Final (mctx : Md5Ctx) : List (List Word) :=
  let offset := md5Offset mctx.byteCount
  let padding : Int := 56 - (offset + 1)
  let block := Function.update mctx.block offset 0x80
  let (bs, block, p, padding) :=
    if padding < 0 then
      let block := memset block (offset + 1) (padding + 8)
      ([md5Transform block], block, 0, 56)
    else ([], block, offset + 1, padding)
  let block := memset block p padding
  let block := storeBe block 56 (swab32 ((mctx.byteCount <<< 3).setWidth 32))
  let block := storeBe block 60 (swab32 ((mctx.byteCount >>> 29).setWidth 32))
  bs ++ [md5Transform block]

/-- The digest registers as `md5_final` stores them: words through `le32_to_cpu`, on a big-endian
machine. -/
def md5Output (digest : HashDigest) : List Byte :=
  [0, 1, 2, 3].flatMap fun i =>
    let w := swab32 (digest i)
    [beByte w 0, beByte w 1, beByte w 2, beByte w 3]

/-- A message in several calls of `md5_update`. -/
def md5Chunks (mctx : Md5Ctx) : List (List Byte) → Md5Ctx × List (List Word)
  | [] => (mctx, [])
  | d :: ds =>
    let (mctx, bs) := md5Update mctx d
    let (mctx, cs) := md5Chunks mctx ds
    (mctx, bs ++ cs)

/-- All blocks of words from `md5_init` to `md5_final`. -/
def md5Written (mctx : Md5Ctx) (chunks : List (List Byte)) : List (List Word) :=
  let (mctx, bs) := md5Chunks (md5Init mctx) chunks
  bs ++ md5Final mctx

/-- The digest that `md5_final` returns when the engine is used by this context alone. -/
def md5Digest (core : HashCore) (mctx : Md5Ctx) (chunks : List (List Byte)) : List Byte :=
  md5Output (feedBlocks core (initHash core .md5) (md5Written mctx chunks)).digest

/-- The bytes of the message that wait in the context. -/
def Md5Ctx.pending (mctx : Md5Ctx) : List Byte :=
  readBlock mctx.block 0 (md5Offset mctx.byteCount)

theorem md5Offset_eq (byteCount : BitVec 64) : md5Offset byteCount = byteCount.toNat % 64 := by
  unfold md5Offset
  rw [BitVec.toNat_and]
  exact Nat.and_two_pow_sub_one_eq_mod _ 6

theorem md5Offset_lt (byteCount : BitVec 64) : md5Offset byteCount < 64 := by
  rw [md5Offset_eq]
  omega

theorem md5Offset_add (byteCount : BitVec 64) (n : Nat) :
    md5Offset (byteCount + BitVec.ofNat 64 n) = (md5Offset byteCount + n) % 64 := by
  rw [md5Offset_eq, md5Offset_eq, BitVec.toNat_add, BitVec.toNat_ofNat]
  omega

theorem Md5Ctx.pending_length (mctx : Md5Ctx) :
    mctx.pending.length = md5Offset mctx.byteCount :=
  readBlock_length _ _ _

theorem md5Transform_eq (block : Nat → Byte) : md5Transform block = leWords (readBlock block 0 64) := by
  have h := map_swab32_loadBe block 0 16
  simp only [Nat.zero_add] at h
  exact h

theorem md5Loop_eq (fuel : Nat) (block : Nat → Byte) (data : List Byte)
    (hfuel : data.length ≤ 64 * fuel) :
    (md5Loop fuel block data).2 = (wholeBlocks 64 data).map leWords ∧
      readBlock (md5Loop fuel block data).1 0 (data.length % 64) = blockRest 64 data := by
  have hcopy : ∀ (mem : Nat → Byte) (xs : List Byte),
      readBlock (writeBlock mem 0 xs) 0 xs.length = xs := by
    intro mem xs
    exact readBlock_of_blockAt (blockAt_writeBlock mem 0 xs)
  have hshort : ∀ xs : List Byte, xs.length < 64 →
      [] = (wholeBlocks 64 xs).map leWords ∧
        ∀ mem, readBlock (writeBlock mem 0 xs) 0 (xs.length % 64) = blockRest 64 xs := by
    intro xs hxs
    rw [wholeBlocks_short hxs, blockRest_short hxs, Nat.mod_eq_of_lt hxs]
    exact ⟨rfl, fun mem => hcopy mem xs⟩
  induction fuel generalizing block data with
  | zero => exact ⟨(hshort data (by omega)).1, (hshort data (by omega)).2 block⟩
  | succ fuel ih =>
    unfold md5Loop
    split
    next hlen =>
      have htake : (data.take 64).length = 64 := by rw [List.length_take]; omega
      have hsplit := List.take_append_drop 64 data
      have hread := hcopy block (data.take 64)
      rw [htake] at hread
      obtain ⟨hws, hrest⟩ := ih (writeBlock block 0 (data.take 64)) (data.drop 64)
        (by rw [List.length_drop]; omega)
      have hmod : (data.drop 64).length % 64 = data.length % 64 := by
        rw [List.length_drop]
        omega
      rw [hmod] at hrest
      constructor
      · rw [← hsplit, wholeBlocks_cons (by omega) htake, List.map_cons, ← hws, hsplit]
        dsimp only
        rw [md5Transform_eq, hread]
      · rw [← hsplit, blockRest_cons (by omega) htake, ← hrest, hsplit]
    next hlt =>
      exact ⟨(hshort data (by omega)).1, (hshort data (by omega)).2 block⟩

/-- `md5_update` writes the whole blocks of what was pending and the new data. -/
theorem md5Update_eq (mctx : Md5Ctx) (data : List Byte) :
    (md5Update mctx data).2 = (wholeBlocks 64 (mctx.pending ++ data)).map leWords ∧
      (md5Update mctx data).1.byteCount = mctx.byteCount + BitVec.ofNat 64 data.length ∧
      (md5Update mctx data).1.pending = blockRest 64 (mctx.pending ++ data) := by
  have hoff := md5Offset_lt mctx.byteCount
  have hadd := md5Offset_add mctx.byteCount data.length
  have hlen := mctx.pending_length
  have hpos : 64 - (64 - md5Offset mctx.byteCount) = md5Offset mctx.byteCount := by omega
  unfold md5Update
  dsimp only
  rw [hpos]
  split
  next hlt =>
    have hshort : (mctx.pending ++ data).length < 64 := by
      rw [List.length_append, hlen]
      omega
    rw [wholeBlocks_short hshort, blockRest_short hshort]
    refine ⟨rfl, rfl, ?_⟩
    have hread := readBlock_writeBlock mctx.block 0 (md5Offset mctx.byteCount) data
    rw [Nat.zero_add] at hread
    simp only [Md5Ctx.pending]
    rw [hadd, Nat.mod_eq_of_lt (by omega)]
    exact hread
  next hge =>
    have htake : (data.take (64 - md5Offset mctx.byteCount)).length =
        64 - md5Offset mctx.byteCount := by
      rw [List.length_take]
      omega
    have hread := readBlock_writeBlock mctx.block 0 (md5Offset mctx.byteCount)
      (data.take (64 - md5Offset mctx.byteCount))
    rw [Nat.zero_add, htake, Nat.add_sub_cancel' (by omega)] at hread
    have hblock : (mctx.pending ++ data.take (64 - md5Offset mctx.byteCount)).length = 64 := by
      rw [List.length_append, hlen, htake]
      omega
    have hsplit : mctx.pending ++ data = (mctx.pending ++
        data.take (64 - md5Offset mctx.byteCount)) ++ data.drop (64 - md5Offset mctx.byteCount) := by
      rw [List.append_assoc, List.take_append_drop]
    obtain ⟨hws, hrest⟩ := md5Loop_eq data.length
      (writeBlock mctx.block (md5Offset mctx.byteCount)
        (data.take (64 - md5Offset mctx.byteCount)))
      (data.drop (64 - md5Offset mctx.byteCount)) (by rw [List.length_drop]; omega)
    have hmod : (data.drop (64 - md5Offset mctx.byteCount)).length % 64 =
        (md5Offset mctx.byteCount + data.length) % 64 := by
      rw [List.length_drop]
      omega
    refine ⟨?_, rfl, ?_⟩
    · rw [hsplit, wholeBlocks_cons (by omega) hblock, List.map_cons, ← hws]
      dsimp only
      rw [md5Transform_eq, hread, Md5Ctx.pending]
    · rw [hsplit, blockRest_cons (by omega) hblock, ← hrest, hmod, ← hadd]
      rfl

theorem md5Chunks_eq (mctx : Md5Ctx) (chunks : List (List Byte)) :
    (md5Chunks mctx chunks).2 = (wholeBlocks 64 (mctx.pending ++ chunks.flatten)).map leWords ∧
      (md5Chunks mctx chunks).1.byteCount =
        mctx.byteCount + BitVec.ofNat 64 chunks.flatten.length ∧
      (md5Chunks mctx chunks).1.pending = blockRest 64 (mctx.pending ++ chunks.flatten) := by
  induction chunks generalizing mctx with
  | nil =>
    have hshort : (mctx.pending ++ ([] : List (List Byte)).flatten).length < 64 := by
      rw [List.flatten_nil, List.append_nil, mctx.pending_length]
      exact md5Offset_lt _
    rw [wholeBlocks_short hshort, blockRest_short hshort]
    simp [md5Chunks]
  | cons d ds ih =>
    obtain ⟨hw, hc, hp⟩ := md5Update_eq mctx d
    obtain ⟨hws, hcs, hps⟩ := ih (md5Update mctx d).1
    rw [List.flatten_cons, ← List.append_assoc]
    refine ⟨?_, ?_, ?_⟩
    · rw [wholeBlocks_append (by omega) (mctx.pending ++ d), List.map_append, ← hw, ← hp, ← hws]
      rfl
    · rw [List.length_append, BitVec.ofNat_add, ← BitVec.add_assoc, ← hc, ← hcs]
      rfl
    · rw [blockRest_append (by omega) (mctx.pending ++ d), ← hp, ← hps]
      rfl

theorem toNat_beByte (w : Word) (i : Nat) : (beByte w i).toNat = w.toNat / 2 ^ (24 - 8 * i) % 256 := by
  simp only [beByte, BitVec.extractLsb'_toNat, Nat.shiftRight_eq_div_pow]

/-- The two length words of `md5_final` are the 64-bit length, the low bytes first. -/
theorem leBytes_length (n : Nat) :
    leBytes ((BitVec.ofNat 64 n <<< 3).setWidth 32) ++
      leBytes ((BitVec.ofNat 64 n >>> 29).setWidth 32) = littleEndian64 (8 * n) := by
  have hlow : ((BitVec.ofNat 64 n <<< 3).setWidth 32).toNat = 8 * n % 2 ^ 32 := by
    simp only [BitVec.toNat_setWidth, BitVec.toNat_shiftLeft, BitVec.toNat_ofNat, Nat.shiftLeft_eq]
    omega
  have hhigh : ((BitVec.ofNat 64 n >>> 29).setWidth 32).toNat = 8 * n / 2 ^ 32 % 2 ^ 32 := by
    simp only [BitVec.toNat_setWidth, BitVec.toNat_ushiftRight, BitVec.toNat_ofNat,
      Nat.shiftRight_eq_div_pow]
    omega
  have hbyte : ∀ (w : Word) (i m : Nat), w.toNat / 2 ^ (24 - 8 * i) % 256 = m % 256 →
      beByte w i = BitVec.ofNat 8 m := by
    intro w i m h
    apply BitVec.eq_of_toNat_eq
    rw [toNat_beByte, h, BitVec.toNat_ofNat]
  simp only [leBytes, littleEndian64, List.range_succ, List.range_zero, List.map_cons, List.map_nil,
    List.nil_append, List.cons_append, List.cons.injEq, and_true]
  refine ⟨hbyte _ _ _ ?_, hbyte _ _ _ ?_, hbyte _ _ _ ?_, hbyte _ _ _ ?_, hbyte _ _ _ ?_,
    hbyte _ _ _ ?_, hbyte _ _ _ ?_, hbyte _ _ _ ?_⟩
  · rw [hlow]; omega
  · rw [hlow]; omega
  · rw [hlow]; omega
  · rw [hlow]; omega
  · rw [hhigh]; omega
  · rw [hhigh]; omega
  · rw [hhigh]; omega
  · rw [hhigh]; omega

/-- The last block: what was filled up to byte 56, and the two length words. -/
theorem md5_lastBlock {block : Nat → Byte} {xs : List Byte} (h : readBlock block 0 56 = xs)
    (low high : Word) :
    md5Transform (storeBe (storeBe block 56 (swab32 low)) 60 (swab32 high)) =
      leWords (xs ++ (leBytes low ++ leBytes high)) := by
  have hlow := readBlock_writeBlock block 0 56 (leBytes low)
  have hhigh := readBlock_writeBlock (writeBlock block 56 (leBytes low)) 0 60 (leBytes high)
  rw [md5Transform_eq, storeBe_eq_writeBlock, storeBe_eq_writeBlock, beBytes_swab32, beBytes_swab32]
  rw [Nat.zero_add, h] at hlow
  rw [Nat.zero_add] at hhigh
  have h60 : readBlock (writeBlock block 56 (leBytes low)) 0 60 = xs ++ leBytes low := hlow
  rw [h60, List.append_assoc] at hhigh
  exact congrArg leWords hhigh

theorem readBlock_memset (mem : Nat → Byte) (m n : Nat) :
    readBlock (memset mem m (n : Int)) 0 (m + n) = readBlock mem 0 m ++ List.replicate n 0 := by
  have h := readBlock_writeBlock mem 0 m (List.replicate n (0 : Byte))
  rw [Nat.zero_add, List.length_replicate] at h
  exact h

/-- `md5_final` writes the blocks that are still missing of the padded message. -/
theorem md5Final_eq {mctx : Md5Ctx} {n : Nat} (hn : mctx.byteCount = BitVec.ofNat 64 n) :
    md5Final mctx = (wholeBlocks 64 (mctx.pending ++
      0x80 :: (List.replicate ((119 - n % 64) % 64) 0 ++ littleEndian64 (8 * n)))).map leWords := by
  have hoff : md5Offset mctx.byteCount = n % 64 := by
    rw [md5Offset_eq, hn, BitVec.toNat_ofNat]
    omega
  have hlt : n % 64 < 64 := Nat.mod_lt n (by omega)
  have hlen : mctx.pending.length = n % 64 := by rw [mctx.pending_length, hoff]
  have hmark : readBlock (Function.update mctx.block (n % 64) 0x80) 0 (n % 64 + 1) =
      mctx.pending ++ [0x80] := by
    have h := readBlock_writeBlock mctx.block 0 (n % 64) [0x80]
    rw [Nat.zero_add] at h
    rw [Md5Ctx.pending, hoff]
    exact h
  unfold md5Final
  simp only [hoff]
  generalize Function.update mctx.block (n % 64) 0x80 = block at hmark ⊢
  by_cases hlate : (56 : Int) - ((n % 64 : Nat) + 1) < 0
  · -- the length does not fit: zeros fill the block, and another one follows
    have hcount : (56 : Int) - ((n % 64 : Nat) + 1) + 8 = ((63 - n % 64 : Nat) : Int) := by omega
    have hfill := readBlock_memset block (n % 64 + 1) (63 - n % 64)
    have h64 : n % 64 + 1 + (63 - n % 64) = 64 := by omega
    rw [h64, hmark] at hfill
    have hzero : ∀ mem, readBlock (memset mem 0 56) 0 56 = List.replicate 56 0 := by
      intro mem
      exact readBlock_memset mem 0 56
    have hz : (119 - n % 64) % 64 = (63 - n % 64) + 56 := by omega
    have hstream : mctx.pending ++ 0x80 :: (List.replicate ((119 - n % 64) % 64) 0 ++
        littleEndian64 (8 * n)) = (mctx.pending ++ [0x80] ++ List.replicate (63 - n % 64) 0) ++
          (List.replicate 56 0 ++ littleEndian64 (8 * n)) := by
      rw [hz, List.replicate_add]
      simp
    have hfirst : (mctx.pending ++ [0x80] ++ List.replicate (63 - n % 64) 0).length = 64 := by
      simp only [List.length_append, List.length_singleton, List.length_replicate, hlen]
      omega
    rw [if_pos hlate, hcount, hstream, wholeBlocks_cons (by omega) hfirst,
      wholeBlocks_single (by omega) (by simp), md5_lastBlock (hzero _), md5Transform_eq, hfill, hn,
      leBytes_length]
    rfl
  · have hcount : (56 : Int) - ((n % 64 : Nat) + 1) = ((55 - n % 64 : Nat) : Int) := by omega
    have hfill := readBlock_memset block (n % 64 + 1) (55 - n % 64)
    have h56 : n % 64 + 1 + (55 - n % 64) = 56 := by omega
    rw [h56, hmark] at hfill
    have hz : (119 - n % 64) % 64 = 55 - n % 64 := by omega
    have hstream : mctx.pending ++ 0x80 :: (List.replicate ((119 - n % 64) % 64) 0 ++
        littleEndian64 (8 * n)) = mctx.pending ++ [0x80] ++ List.replicate (55 - n % 64) 0 ++
          littleEndian64 (8 * n) := by
      rw [hz]
      simp
    have hsize : (mctx.pending ++ [0x80] ++ List.replicate (55 - n % 64) 0 ++
        littleEndian64 (8 * n)).length = 64 := by
      simp only [List.length_append, List.length_singleton, List.length_replicate, hlen,
        littleEndian64_length]
      omega
    rw [if_neg hlate, hcount, hstream, wholeBlocks_single (by omega) hsize, md5_lastBlock hfill, hn,
      leBytes_length]
    rfl

theorem leWords_length (bs : List Byte) : (leWords bs).length = bs.length / 4 := by
  fun_induction leWords bs with
  | case1 b₀ b₁ b₂ b₃ bs ih =>
    simp only [List.length_cons, ih]
    omega
  | case2 bs hne =>
    match bs with
    | [] => simp
    | [_] => simp
    | [_, _] => simp
    | [_, _, _] => simp
    | b₀ :: b₁ :: b₂ :: b₃ :: bs => exact absurd rfl (hne b₀ b₁ b₂ b₃ bs)

local instance md5DigestNeZero : NeZero 5 := ⟨by decide⟩

/-- The blocks of words of the padded message. -/
def md5Blocks (msg : List Byte) : List (List Word) :=
  (wholeBlocks 64 (mdPad littleEndian64 msg)).map leWords

/-- The digest of a message: the blocks compressed in order, and the four words with their low bytes
first. -/
def md5Of (core : HashCore) (msg : List Byte) : List Byte :=
  [0, 1, 2, 3].flatMap fun i =>
    leBytes ((md5Blocks msg).foldl (core.compress .md5) (core.iv .md5) i)

/-- However a message is split, the engine gets the padded message in little-endian words, and
`md5_final` returns its digest. -/
theorem md5_digest_exact (core : HashCore) (mctx : Md5Ctx) (chunks : List (List Byte)) :
    md5Written mctx chunks = md5Blocks chunks.flatten ∧
      md5Digest core mctx chunks = md5Of core chunks.flatten := by
  have hwritten : md5Written mctx chunks = md5Blocks chunks.flatten := by
    obtain ⟨hw, hc, hp⟩ := md5Chunks_eq (md5Init mctx) chunks
    have hcount : (md5Init mctx).byteCount + BitVec.ofNat 64 chunks.flatten.length =
        BitVec.ofNat 64 chunks.flatten.length := BitVec.zero_add _
    have hpend : (md5Init mctx).pending = [] := by
      apply List.eq_nil_of_length_eq_zero
      rw [Md5Ctx.pending_length, md5Offset_eq]
      rfl
    rw [hcount] at hc
    rw [hpend, List.nil_append] at hw hp
    have hf := md5Final_eq hc
    rw [hp] at hf
    change (md5Chunks (md5Init mctx) chunks).2 ++ md5Final (md5Chunks (md5Init mctx) chunks).1 = _
    rw [hw, hf, ← List.map_append, ← wholeBlocks_append (by omega)]
    rfl
  have hlen : ∀ b ∈ md5Blocks chunks.flatten, b.length = 16 := by
    intro b hb
    obtain ⟨xs, hxs, rfl⟩ := List.mem_map.mp hb
    rw [leWords_length, length_of_mem_wholeBlocks (by omega) hxs]
  refine ⟨hwritten, ?_⟩
  rw [md5Digest, hwritten, feedBlocks_eq core rfl hlen, md5Of, md5Output]
  simp only [beBytes_swab32]
  rfl

end DanubeBsp
