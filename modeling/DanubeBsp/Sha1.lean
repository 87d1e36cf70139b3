import DanubeBsp.BlockStream
import Mathlib.Algebra.BigOperators.Group.List.Basic
import Mathlib.Tactic.IntervalCases

namespace DanubeBsp

/-- `sha1_hw_ctx`. The buffer is its last member; the digest is kept by the engine. -/
structure Sha1Ctx where
  count : BitVec 64
  buffer : Nat → Byte

/-- `sha1_init` clears memory of its own that it allocates, and not the context. -/
def sha1Init (sctx : Sha1Ctx) : Sha1Ctx := sctx

/-- The place in the buffer, from the count of bits. -/
def bufferIndex (count : BitVec 64) : Nat := ((count >>> 3) &&& 0x3f).toNat

/-- The blocks that are taken from the data directly, and the place behind them. The index is 32 bits
wide; a block that reaches past the data is not read. -/
def sha1Loop (data : List Byte) : Nat → Nat → Option (List (List Byte) × Nat)
  | 0, i => some ([], i)
  | fuel + 1, i =>
    if (i + 63) % 2 ^ 32 < data.length then
      if i + 64 ≤ data.length then
        (sha1Loop data fuel (i + 64)).map fun (bs, k) => ((data.drop i).take 64 :: bs, k)
      else none
    else some ([], i)

/-- `sha1_update` with the blocks that it gives to the engine. The length is an `unsigned int`; a copy
that would leave the buffer has no result. -/
def sha1Update (sctx : Sha1Ctx) (data : List Byte) : Option (Sha1Ctx × List (List Byte)) :=
  let j := bufferIndex sctx.count
  let count := sctx.count + (BitVec.ofNat 32 data.length <<< 3).setWidth 64
  if 63 < (j + data.length) % 2 ^ 32 then
    let buffer := writeBlock sctx.buffer j (data.take (64 - j))
    (sha1Loop data data.length (64 - j)).map fun (bs, i) =>
      (⟨count, writeBlock buffer 0 (data.drop i)⟩, readBlock buffer 0 64 :: bs)
  else if j + data.length ≤ 64 then some (⟨count, writeBlock sctx.buffer j data⟩, [])
  else none

/-- Byte `k` of a 64-bit number, counted from the least significant. -/
def byteOf (t : BitVec 64) (k : Nat) : Byte := (t >>> (8 * k)).setWidth 8

/-- The eight bytes of a number, the most significant first. -/
def bits64 (t : BitVec 64) : List Byte :=
  [byteOf t 7, byteOf t 6, byteOf t 5, byteOf t 4, byteOf t 3, byteOf t 2, byteOf t 1, byteOf t 0]

def sha1Padding : List Byte := 0x80 :: List.replicate 63 0

/-- `sha1_final` up to the read of the digest, with the blocks of its two updates. -/
def sha1Final (sctx : Sha1Ctx) : Option (Sha1Ctx × List (List Byte)) := do
  let bits := bits64 sctx.count
  let index := bufferIndex sctx.count
  let padlen := if index < 56 then 56 - index else 64 + 56 - index
  let (sctx, bs) ← sha1Update sctx (sha1Padding.take padlen)
  let (sctx, cs) ← sha1Update sctx bits
  return (sctx, bs ++ cs)

/-- A message in several calls of `sha1_update`. -/
def sha1Chunks (sctx : Sha1Ctx) : List (List Byte) → Option (Sha1Ctx × List (List Byte))
  | [] => some (sctx, [])
  | d :: ds => do
    let (sctx, bs) ← sha1Update sctx d
    let (sctx, cs) ← sha1Chunks sctx ds
    return (sctx, bs ++ cs)

/-- All blocks of a digest, from `sha1_init` to `sha1_final`. -/
def sha1Digest (sctx : Sha1Ctx) (chunks : List (List Byte)) : Option (List (List Byte)) := do
  let (sctx, bs) ← sha1Chunks (sha1Init sctx) chunks
  let (_, cs) ← sha1Final sctx
  return bs ++ cs

/-- The bytes of the message that wait in the buffer. -/
def Sha1Ctx.pending (sctx : Sha1Ctx) : List Byte :=
  readBlock sctx.buffer 0 (bufferIndex sctx.count)

theorem bufferIndex_eq (count : BitVec 64) : bufferIndex count = count.toNat / 8 % 64 := by
  unfold bufferIndex
  simp only [BitVec.toNat_and, BitVec.toNat_ushiftRight, Nat.shiftRight_eq_div_pow]
  exact Nat.and_two_pow_sub_one_eq_mod _ 6

theorem bufferIndex_lt (count : BitVec 64) : bufferIndex count < 64 := by
  rw [bufferIndex_eq]
  omega

theorem pending_length (sctx : Sha1Ctx) : sctx.pending.length = bufferIndex sctx.count :=
  readBlock_length _ _ _

/-- The bits of a call, shifted in 32 bits. -/
theorem toNat_lenBits (n : Nat) :
    ((BitVec.ofNat 32 n <<< 3).setWidth 64).toNat = 8 * n % 2 ^ 32 := by
  simp only [BitVec.toNat_setWidth, BitVec.toNat_shiftLeft, BitVec.toNat_ofNat, Nat.shiftLeft_eq]
  omega

theorem bufferIndex_add (count : BitVec 64) (n : Nat) :
    bufferIndex (count + (BitVec.ofNat 32 n <<< 3).setWidth 64) = (bufferIndex count + n) % 64 := by
  rw [bufferIndex_eq, bufferIndex_eq, BitVec.toNat_add, toNat_lenBits]
  omega

/-- The loop takes the whole blocks that are left, when the index does not overflow. -/
theorem sha1Loop_eq {data : List Byte} {j : Nat} (hj : j < 64) (hfit : j + data.length < 2 ^ 32)
    (fuel i : Nat) (hal : (i + j) % 64 = 0) (hi : i ≤ data.length)
    (hfuel : data.length ≤ i + 64 * fuel) :
    ∃ k, sha1Loop data fuel i = some (wholeBlocks 64 (data.drop i), k) ∧
      data.drop k = blockRest 64 (data.drop i) := by
  induction fuel generalizing i with
  | zero =>
    have hnil : (data.drop i).length < 64 := by rw [List.length_drop]; omega
    refine ⟨i, ?_, ?_⟩
    · rw [wholeBlocks_short hnil, sha1Loop]
    · rw [blockRest_short hnil]
  | succ fuel ih =>
    have hwrap : i + 63 < 2 ^ 32 := by omega
    rw [sha1Loop, Nat.mod_eq_of_lt hwrap]
    by_cases hlt : i + 63 < data.length
    · have hle : i + 64 ≤ data.length := by omega
      obtain ⟨k, hk, hrest⟩ := ih (i + 64) (by omega) hle (by omega)
      have hblock : ((data.drop i).take 64).length = 64 := by
        rw [List.length_take, List.length_drop]
        omega
      have hsplit : data.drop i = (data.drop i).take 64 ++ data.drop (i + 64) := by
        rw [← List.drop_drop, List.take_append_drop]
      refine ⟨k, ?_, ?_⟩
      · rw [if_pos hlt, if_pos hle, hk]
        conv_rhs => rw [hsplit, wholeBlocks_cons (by omega) hblock]
        rfl
      · rw [hrest]
        conv_rhs => rw [hsplit, blockRest_cons (by omega) hblock]
    · have hshort : (data.drop i).length < 64 := by rw [List.length_drop]; omega
      refine ⟨i, ?_, ?_⟩
      · rw [if_neg hlt, wholeBlocks_short hshort]
      · rw [blockRest_short hshort]

/-- `sha1_update` gives the whole blocks of what was pending and the new data to the engine. -/
theorem sha1Update_eq {sctx : Sha1Ctx} {data : List Byte}
    (hfit : bufferIndex sctx.count + data.length < 2 ^ 32) :
    ∃ sctx', sha1Update sctx data = some (sctx', wholeBlocks 64 (sctx.pending ++ data)) ∧
      sctx'.count = sctx.count + (BitVec.ofNat 32 data.length <<< 3).setWidth 64 ∧
      sctx'.pending = blockRest 64 (sctx.pending ++ data) := by
  have hj := bufferIndex_lt sctx.count
  have hidx := bufferIndex_add sctx.count data.length
  have hlen := pending_length sctx
  unfold sha1Update
  dsimp only
  rw [Nat.mod_eq_of_lt hfit]
  generalize hcount : sctx.count + (BitVec.ofNat 32 data.length <<< 3).setWidth 64 = count at hidx ⊢
  by_cases hfull : 63 < bufferIndex sctx.count + data.length
  · obtain ⟨k, hk, hrest⟩ := sha1Loop_eq hj hfit data.length (64 - bufferIndex sctx.count)
      (by omega) (by omega) (by omega)
    have htake : (data.take (64 - bufferIndex sctx.count)).length = 64 - bufferIndex sctx.count := by
      rw [List.length_take]
      omega
    have hread := readBlock_writeBlock sctx.buffer 0 (bufferIndex sctx.count)
      (data.take (64 - bufferIndex sctx.count))
    rw [Nat.zero_add, htake, Nat.add_sub_cancel' (by omega)] at hread
    have hblock : (sctx.pending ++ data.take (64 - bufferIndex sctx.count)).length = 64 := by
      rw [List.length_append, hlen, htake]
      omega
    have hsplit : sctx.pending ++ data = (sctx.pending ++
        data.take (64 - bufferIndex sctx.count)) ++ data.drop (64 - bufferIndex sctx.count) := by
      rw [List.append_assoc, List.take_append_drop]
    rw [if_pos hfull, hk]
    refine ⟨⟨count, writeBlock (writeBlock sctx.buffer (bufferIndex sctx.count)
      (data.take (64 - bufferIndex sctx.count))) 0 (data.drop k)⟩, ?_, rfl, ?_⟩
    · rw [hsplit, wholeBlocks_cons (by omega) hblock]
      simp only [Option.map_some, hread]
      rfl
    · rw [hsplit, blockRest_cons (by omega) hblock, ← hrest]
      have hklen : (data.drop k).length = bufferIndex count := by
        rw [hrest, blockRest_length, List.length_drop, hidx]
        omega
      simp only [Sha1Ctx.pending]
      rw [← hklen]
      exact readBlock_of_blockAt (blockAt_writeBlock _ _ _)
  · have hshort : (sctx.pending ++ data).length < 64 := by
      rw [List.length_append, hlen]
      omega
    rw [if_neg hfull, if_pos (by omega), wholeBlocks_short hshort, blockRest_short hshort]
    refine ⟨_, rfl, rfl, ?_⟩
    have hread := readBlock_writeBlock sctx.buffer 0 (bufferIndex sctx.count) data
    rw [Nat.zero_add] at hread
    have hpos : bufferIndex count = bufferIndex sctx.count + data.length := by
      rw [hidx]
      omega
    simp only [Sha1Ctx.pending]
    rw [hpos]
    exact hread

/-- A length that overflows with the place in the buffer makes the copy leave the buffer. -/
theorem sha1Update_none {sctx : Sha1Ctx} {data : List Byte} (hlen : data.length < 2 ^ 32)
    (hfit : ¬bufferIndex sctx.count + data.length < 2 ^ 32) : sha1Update sctx data = none := by
  have hj := bufferIndex_lt sctx.count
  unfold sha1Update
  dsimp only
  rw [if_neg (by omega), if_neg (by omega)]

/-- No call overflows the place in the buffer with its length. -/
def ChunksFit : Nat → List (List Byte) → Prop
  | _, [] => True
  | j, d :: ds => j + d.length < 2 ^ 32 ∧ ChunksFit ((j + d.length) % 64) ds

/-- The bits of the message that the 32-bit shifts lose. -/
def lostBits (chunks : List (List Byte)) : Nat :=
  2 ^ 32 * (chunks.map fun d => d.length / 2 ^ 29).sum

theorem sha1Chunks_cons {sctx s₁ : Sha1Ctx} {d : List Byte} {bs : List (List Byte)}
    (h : sha1Update sctx d = some (s₁, bs)) (ds : List (List Byte)) :
    sha1Chunks sctx (d :: ds) = (sha1Chunks s₁ ds).map fun (s, cs) => (s, bs ++ cs) := by
  rw [sha1Chunks, h]
  change (sha1Chunks s₁ ds).bind _ = _
  cases sha1Chunks s₁ ds with
  | none => rfl
  | some r => rfl

theorem sha1Chunks_eq {sctx : Sha1Ctx} {chunks : List (List Byte)}
    (hfit : ChunksFit (bufferIndex sctx.count) chunks) :
    ∃ sctx', sha1Chunks sctx chunks =
        some (sctx', wholeBlocks 64 (sctx.pending ++ chunks.flatten)) ∧
      sctx'.pending = blockRest 64 (sctx.pending ++ chunks.flatten) ∧
      sctx'.count + BitVec.ofNat 64 (lostBits chunks) =
        sctx.count + BitVec.ofNat 64 (8 * chunks.flatten.length) := by
  induction chunks generalizing sctx with
  | nil =>
    have hshort : (sctx.pending ++ ([] : List (List Byte)).flatten).length < 64 := by
      rw [List.flatten_nil, List.append_nil, pending_length]
      exact bufferIndex_lt _
    refine ⟨sctx, ?_, ?_, ?_⟩
    · rw [wholeBlocks_short hshort, sha1Chunks]
    · rw [blockRest_short hshort, List.flatten_nil, List.append_nil]
    · simp [lostBits]
  | cons d ds ih =>
    obtain ⟨hd, hds⟩ := hfit
    obtain ⟨s₁, hs₁, hc₁, hp₁⟩ := sha1Update_eq hd
    have hidx := bufferIndex_add sctx.count d.length
    rw [← hc₁] at hidx
    rw [← hidx] at hds
    obtain ⟨s₂, hs₂, hp₂, hc₂⟩ := ih hds
    have hstream : s₁.pending ++ ds.flatten = blockRest 64 (sctx.pending ++ d) ++ ds.flatten := by
      rw [hp₁]
    refine ⟨s₂, ?_, ?_, ?_⟩
    · rw [sha1Chunks_cons hs₁, hs₂, List.flatten_cons, ← List.append_assoc,
        wholeBlocks_append (by omega) (sctx.pending ++ d), ← hstream]
      rfl
    · rw [hp₂, hstream, List.flatten_cons, ← List.append_assoc,
        blockRest_append (by omega) (sctx.pending ++ d)]
    · have hb := BitVec.eq_of_toNat_eq (x := (BitVec.ofNat 32 d.length <<< 3).setWidth 64)
        (y := BitVec.ofNat 64 (8 * d.length % 2 ^ 32)) (by
          rw [toNat_lenBits, BitVec.toNat_ofNat]
          omega)
      have hlost : lostBits (d :: ds) = lostBits ds + 2 ^ 32 * (d.length / 2 ^ 29) := by
        simp only [lostBits, List.map_cons, List.sum_cons]
        omega
      have hsum : 8 * d.length % 2 ^ 32 + 2 ^ 32 * (d.length / 2 ^ 29) = 8 * d.length := by omega
      calc s₂.count + BitVec.ofNat 64 (lostBits (d :: ds))
          = s₂.count + BitVec.ofNat 64 (lostBits ds) +
              BitVec.ofNat 64 (2 ^ 32 * (d.length / 2 ^ 29)) := by
            rw [hlost, BitVec.ofNat_add, BitVec.add_assoc]
        _ = sctx.count + BitVec.ofNat 64 (8 * ds.flatten.length) +
              (BitVec.ofNat 64 (8 * d.length % 2 ^ 32) +
                BitVec.ofNat 64 (2 ^ 32 * (d.length / 2 ^ 29))) := by
            rw [hc₂, hc₁, hb]
            ac_rfl
        _ = sctx.count + BitVec.ofNat 64 (8 * (d :: ds).flatten.length) := by
            rw [← BitVec.ofNat_add, hsum, BitVec.add_assoc, ← BitVec.ofNat_add, List.flatten_cons,
              List.length_append]
            congr 2
            omega

theorem sha1Chunks_none {sctx : Sha1Ctx} {chunks : List (List Byte)}
    (hlen : ∀ d ∈ chunks, d.length < 2 ^ 32)
    (hfit : ¬ChunksFit (bufferIndex sctx.count) chunks) : sha1Chunks sctx chunks = none := by
  induction chunks generalizing sctx with
  | nil => exact absurd trivial hfit
  | cons d ds ih =>
    by_cases hd : bufferIndex sctx.count + d.length < 2 ^ 32
    · obtain ⟨s₁, hs₁, hc₁, -⟩ := sha1Update_eq hd
      have hidx := bufferIndex_add sctx.count d.length
      rw [← hc₁] at hidx
      have hds : ¬ChunksFit (bufferIndex s₁.count) ds := by
        rw [hidx]
        exact fun h => hfit ⟨hd, h⟩
      rw [sha1Chunks_cons hs₁, ih (fun e he => hlen e (List.mem_cons_of_mem d he)) hds]
      rfl
    · rw [sha1Chunks, sha1Update_none (hlen d List.mem_cons_self) hd]
      rfl

theorem sha1Padding_take {n : Nat} (h0 : 0 < n) (h : n ≤ 64) :
    sha1Padding.take n = 0x80 :: List.replicate (n - 1) 0 := by
  obtain ⟨m, rfl⟩ : ∃ m, n = m + 1 := ⟨n - 1, by omega⟩
  rw [sha1Padding, List.take_succ_cons, List.take_replicate, Nat.min_eq_left (by omega),
    Nat.add_sub_cancel]

@[simp] theorem bits64_length (t : BitVec 64) : (bits64 t).length = 8 := rfl

/-- The two updates of `sha1_final` complete the last block. -/
theorem sha1Final_eq (sctx : Sha1Ctx) :
    ∃ sctx', sha1Final sctx = some (sctx', wholeBlocks 64 (sctx.pending ++
      0x80 :: (List.replicate ((119 - bufferIndex sctx.count) % 64) 0 ++ bits64 sctx.count))) := by
  have hj := bufferIndex_lt sctx.count
  generalize hn : (if bufferIndex sctx.count < 56 then 56 - bufferIndex sctx.count
    else 64 + 56 - bufferIndex sctx.count) = n
  have hpos : 0 < n ∧ n ≤ 64 ∧ n - 1 = (119 - bufferIndex sctx.count) % 64 := by
    split at hn <;> omega
  have htake := sha1Padding_take hpos.1 hpos.2.1
  rw [hpos.2.2] at htake
  have hlen : (sha1Padding.take n).length = n := by
    rw [List.length_take, sha1Padding, List.length_cons, List.length_replicate]
    omega
  have hfit₁ : bufferIndex sctx.count + (sha1Padding.take n).length < 2 ^ 32 := by omega
  obtain ⟨s₁, hs₁, -, hp₁⟩ := sha1Update_eq hfit₁
  have hfit₂ : bufferIndex s₁.count + (bits64 sctx.count).length < 2 ^ 32 := by
    have hidx := bufferIndex_lt s₁.count
    rw [bits64_length]
    omega
  obtain ⟨s₂, hs₂, -, -⟩ := sha1Update_eq hfit₂
  refine ⟨s₂, ?_⟩
  have hstream : sctx.pending ++ 0x80 :: (List.replicate ((119 - bufferIndex sctx.count) % 64) 0 ++
      bits64 sctx.count) = (sctx.pending ++ sha1Padding.take n) ++ bits64 sctx.count := by
    rw [htake, List.append_assoc, List.cons_append]
  rw [hstream, wholeBlocks_append (by omega) (sctx.pending ++ sha1Padding.take n), ← hp₁]
  unfold sha1Final
  dsimp only
  rw [hn, hs₁, Option.bind_eq_bind, Option.bind_some]
  dsimp only
  rw [hs₂]
  rfl

theorem byteOf_ofNat {k : Nat} (hk : k < 8) (n : Nat) :
    byteOf (BitVec.ofNat 64 n) k = BitVec.ofNat 8 (n / 2 ^ (8 * k)) := by
  apply BitVec.eq_of_toNat_eq
  simp only [byteOf, BitVec.toNat_setWidth, BitVec.toNat_ushiftRight, BitVec.toNat_ofNat,
    Nat.shiftRight_eq_div_pow]
  interval_cases k <;> omega

theorem bits64_ofNat (n : Nat) : bits64 (BitVec.ofNat 64 n) = bigEndian64 n := by
  simp only [bits64, bigEndian64, List.range_succ, List.range_zero, List.map_cons, List.map_nil,
    List.nil_append, List.cons_append]
  simp only [byteOf_ofNat (by omega : 7 < 8), byteOf_ofNat (by omega : 6 < 8),
    byteOf_ofNat (by omega : 5 < 8), byteOf_ofNat (by omega : 4 < 8),
    byteOf_ofNat (by omega : 3 < 8), byteOf_ofNat (by omega : 2 < 8),
    byteOf_ofNat (by omega : 1 < 8), byteOf_ofNat (by omega : 0 < 8)]

theorem bits64_inj {s t : BitVec 64} (h : bits64 s = bits64 t) : s = t := by
  have hb : ∀ k, k < 8 → byteOf s k = byteOf t k := by
    intro k hk
    simp only [bits64, List.cons.injEq, and_true] at h
    interval_cases k <;> simp only [h]
  apply BitVec.eq_of_getLsbD_eq
  intro i hi
  have hbit := congrArg (fun b : Byte => b.getLsbD (i % 8)) (hb (i / 8) (by omega))
  have hpos : 8 * (i / 8) + i % 8 = i := by omega
  simpa [byteOf, hpos, Nat.mod_lt] using hbit

/-- The blocks given to the engine are the padded message. -/
def Sha1Exact (sctx : Sha1Ctx) (chunks : List (List Byte)) : Prop :=
  ∃ blocks, sha1Digest sctx chunks = some blocks ∧ (∀ b ∈ blocks, b.length = 64) ∧
    blocks.flatten = mdPad bigEndian64 chunks.flatten

/-- What the engine gets when no length overflows: what was pending in the context, the message, the
padding and the count. -/
theorem sha1Digest_eq {sctx : Sha1Ctx} {chunks : List (List Byte)}
    (hfit : ChunksFit (bufferIndex sctx.count) chunks) :
    ∃ blocks count, sha1Digest sctx chunks = some blocks ∧ (∀ b ∈ blocks, b.length = 64) ∧
      count + BitVec.ofNat 64 (lostBits chunks) =
        sctx.count + BitVec.ofNat 64 (8 * chunks.flatten.length) ∧
      blocks.flatten = sctx.pending ++ (chunks.flatten ++ 0x80 ::
        (List.replicate ((119 - (bufferIndex sctx.count + chunks.flatten.length) % 64) % 64) 0 ++
          bits64 count)) := by
  obtain ⟨s₁, hs₁, hp₁, hc₁⟩ := sha1Chunks_eq hfit
  obtain ⟨s₂, hs₂⟩ := sha1Final_eq s₁
  have hidx : bufferIndex s₁.count = (bufferIndex sctx.count + chunks.flatten.length) % 64 := by
    rw [← pending_length, hp₁, blockRest_length, List.length_append, pending_length]
  rw [hidx, hp₁] at hs₂
  have hstream := wholeBlocks_append (n := 64) (by omega) (sctx.pending ++ chunks.flatten)
    (0x80 :: (List.replicate ((119 - (bufferIndex sctx.count + chunks.flatten.length) % 64) % 64) 0 ++
      bits64 s₁.count))
  refine ⟨wholeBlocks 64 ((sctx.pending ++ chunks.flatten) ++ 0x80 :: (List.replicate
    ((119 - (bufferIndex sctx.count + chunks.flatten.length) % 64) % 64) 0 ++ bits64 s₁.count)),
    s₁.count, ?_, ?_, hc₁, ?_⟩
  · rw [hstream, sha1Digest, sha1Init, hs₁, Option.bind_eq_bind, Option.bind_some]
    dsimp only
    rw [hs₂]
    rfl
  · intro b hb
    exact length_of_mem_wholeBlocks (by omega) hb
  · rw [flatten_wholeBlocks_of_dvd (by omega), List.append_assoc]
    simp only [List.length_append, List.length_cons, List.length_replicate, bits64_length,
      pending_length]
    omega

/-- The engine gets the padded message exactly when the count that `sha1_init` leaves in the context
is the number of bits that the 32-bit shifts lose, and no length overflows. -/
theorem sha1_blocks_iff (sctx : Sha1Ctx) (chunks : List (List Byte))
    (hlen : ∀ d ∈ chunks, d.length < 2 ^ 32) :
    Sha1Exact sctx chunks ↔
      sctx.count = BitVec.ofNat 64 (lostBits chunks) ∧ ChunksFit 0 chunks := by
  have hzero : sctx.count = BitVec.ofNat 64 (lostBits chunks) → bufferIndex sctx.count = 0 := by
    intro hc
    rw [hc, bufferIndex_eq, BitVec.toNat_ofNat, lostBits]
    omega
  constructor
  · rintro ⟨blocks, hd, -, hflat⟩
    have hfit : ChunksFit (bufferIndex sctx.count) chunks := by
      by_contra hno
      rw [sha1Digest, sha1Init, sha1Chunks_none hlen hno] at hd
      simp at hd
    obtain ⟨blocks', count, hd', -, hc, hflat'⟩ := sha1Digest_eq hfit
    rw [hd'] at hd
    cases Option.some.inj hd
    have hcount : count = BitVec.ofNat 64 (8 * chunks.flatten.length) := by
      rw [hflat', mdPad, ← bits64_ofNat] at hflat
      have htail : ∀ (xs ys : List Byte) (m : Nat) (t : BitVec 64),
          xs ++ (ys ++ 0x80 :: (List.replicate m 0 ++ bits64 t)) =
            (xs ++ ys ++ 0x80 :: List.replicate m 0) ++ bits64 t := by
        intro xs ys m t
        simp
      have hnil := htail [] chunks.flatten
      rw [htail, ← List.nil_append (chunks.flatten ++ _), hnil] at hflat
      exact bits64_inj (List.append_inj' hflat rfl).2
    have hstart : sctx.count = BitVec.ofNat 64 (lostBits chunks) := by
      rw [hcount, BitVec.add_comm] at hc
      exact (BitVec.add_left_inj _).mp hc.symm
    refine ⟨hstart, ?_⟩
    rwa [hzero hstart] at hfit
  · rintro ⟨hstart, hfit⟩
    have hj := hzero hstart
    rw [← hj] at hfit
    obtain ⟨blocks, count, hd, hall, hc, hflat⟩ := sha1Digest_eq hfit
    have hpend : sctx.pending = [] := by
      rw [Sha1Ctx.pending, hj]
      rfl
    have hcount : count = BitVec.ofNat 64 (8 * chunks.flatten.length) := by
      rw [hstart, BitVec.add_comm] at hc
      exact (BitVec.add_right_inj _).mp hc
    refine ⟨blocks, hd, hall, ?_⟩
    rw [hflat, hpend, hj, hcount, bits64_ofNat, mdPad, List.nil_append, Nat.zero_add]

/-- A message in two parts, with a clear context. -/
theorem sha1_blocks_small :
    (∀ d ∈ [[0x61], [0x62, 0x63]], (d : List Byte).length < 2 ^ 32) ∧
      Sha1Exact ⟨0, fun _ => 0xff⟩ [[0x61], [0x62, 0x63]] := by
  have hlen : ∀ d ∈ [[0x61], [0x62, 0x63]], (d : List Byte).length < 2 ^ 32 := by decide
  refine ⟨hlen, ?_⟩
  apply (sha1_blocks_iff _ _ hlen).mpr
  exact ⟨by decide, by decide, by decide, trivial⟩

/-- A digest that was given up after one byte leaves its count in the context: the next message is
behind that byte in the block, and its length is wrong. -/
theorem sha1_blocks_stale_count : ¬Sha1Exact ⟨8, fun _ => 0xff⟩ [[0x61]] := by
  rintro ⟨blocks, hd, -, hflat⟩
  cases Option.some.inj hd
  revert hflat
  decide

end DanubeBsp
