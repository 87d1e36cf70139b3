import DanubeBsp.DebugServer
import DanubeBsp.WordBits

namespace DanubeBsp

/-- Byte `n` of a payload, the low byte of each half first. -/
def MPMessage.payloadByte (m : MPMessage) (n : Nat) : Byte :=
  (m.iPayload (n / 2)).extractLsb' (8 * (n % 2)) 8

/-- Byte `k` of the words of a buffer, the low byte of each first. -/
def blockByte (buffer : Nat → Word) (k : Nat) : Byte :=
  (buffer (k / 4)).extractLsb' (8 * (k % 4)) 8

/-- Where the loop over the words of a read of bytes takes payload byte `n` from. -/
def byteSource (offset n : Nat) : Nat :=
  match offset, n % 4 with
  | 0, _ => n
  | 1, 0 => 8 * (n / 4) + 1
  | 1, 1 => 8 * (n / 4) + 6
  | 1, 2 => 8 * (n / 4) + 7
  | 1, _ => 8 * (n / 4) + 4
  | 2, r => 8 * (n / 4) + 2 + r
  | _, 0 => 8 * (n / 4) + 6
  | _, 1 => 8 * (n / 4) + 4
  | _, 2 => 8 * (n / 4) + 5
  | _, _ => 8 * (n / 4) + 10

/-- The same for a read of 16-bit words. -/
def wordSource (offset n : Nat) : Nat :=
  if offset = 0 then n
  else if n % 4 < 2 then 4 * (n / 4 + offset + 1) + 2 + n % 4
  else 4 * (n / 4 + offset) + (n % 4 - 2)

section Bytes

variable {w v m : Word}

theorem extract_mask_shr (s p : Nat) : ((w &&& m) >>> s).extractLsb' p 8 =
    w.extractLsb' (s + p) 8 &&& m.extractLsb' (s + p) 8 := by
  ext j hj
  simp only [BitVec.getElem_extractLsb', BitVec.getLsbD_ushiftRight, BitVec.getLsbD_and,
    BitVec.getElem_and]
  rw [Nat.add_assoc]

theorem extract_loHalf {p : Nat} (hp : p ≤ 8) :
    (loHalf w).extractLsb' p 8 = w.extractLsb' p 8 := by
  ext j hj
  simp only [loHalf, BitVec.getElem_extractLsb', BitVec.getLsbD_extractLsb', Nat.zero_add]
  rw [decide_eq_true (by omega), Bool.true_and]

theorem extract_hiHalf {p : Nat} (hp : p ≤ 8) :
    (hiHalf w).extractLsb' p 8 = w.extractLsb' (16 + p) 8 := by
  ext j hj
  simp only [hiHalf, BitVec.getElem_extractLsb', BitVec.getLsbD_extractLsb']
  rw [decide_eq_true (by omega), Bool.true_and, Nat.add_assoc]

theorem extract_shl_low : ((w <<< 8)).extractLsb' 0 8 = 0#8 := by
  ext j hj
  simp only [BitVec.getElem_extractLsb', BitVec.getLsbD_shiftLeft, Nat.zero_add]
  simp [hj]

theorem extract_shl_high : ((w <<< 8)).extractLsb' 8 8 = w.extractLsb' 0 8 := by
  ext j hj
  simp only [BitVec.getElem_extractLsb', BitVec.getLsbD_shiftLeft]
  have hlt : 8 + j < 32 := by omega
  simp [hlt]

end Bytes

section Layout

variable {buffer : Nat → Word} {m : MPMessage}

/-- Byte `r` of a pair of halves. -/
def pairByte (lo hi : Half) (r : Nat) : Byte :=
  (if r < 2 then lo else hi).extractLsb' (8 * (r % 2)) 8

theorem setPair_payloadByte (i : Nat) (lo hi : Half) (n : Nat) :
    (m.setPair (i * 2) lo hi).payloadByte n =
      if n / 4 = i then pairByte lo hi (n % 4) else m.payloadByte n := by
  have hpar : n % 4 % 2 = n % 2 := by omega
  unfold MPMessage.payloadByte pairByte
  rw [hpar]
  show (Function.update (Function.update m.iPayload (i * 2 + 1) hi) (i * 2) lo (n / 2)).extractLsb'
    (8 * (n % 2)) 8 = _
  by_cases hturn : n / 4 = i
  · rw [if_pos hturn]
    by_cases hlow : n % 4 < 2
    · have hpos : n / 2 = i * 2 := by omega
      rw [if_pos hlow, hpos, Function.update_self]
    · have hpos : n / 2 = i * 2 + 1 := by omega
      rw [if_neg hlow, hpos, Function.update_of_ne (Nat.succ_ne_self _), Function.update_self]
  · have hlo : n / 2 ≠ i * 2 := by omega
    have hhi : n / 2 ≠ i * 2 + 1 := by omega
    rw [if_neg hturn, Function.update_of_ne hlo, Function.update_of_ne hhi]

theorem blockByte_eq {j r : Nat} (hr : r < 4) :
    blockByte buffer (4 * j + r) = (buffer j).extractLsb' (8 * r) 8 := by
  have hdiv : (4 * j + r) / 4 = j := by omega
  have hmod : (4 * j + r) % 4 = r := by omega
  unfold blockByte
  rw [hdiv, hmod]

/-- A turn of a loop puts four bytes of the buffer in their place. -/
def LaysFrom (lay : (Nat → Word) → MPMessage → Nat → MPMessage) (source : Nat → Nat) : Prop :=
  ∀ buffer m i n, (lay buffer m i).payloadByte n =
    if n / 4 = i then blockByte buffer (source n) else MPMessage.payloadByte m n

theorem LaysFrom.fold {lay : (Nat → Word) → MPMessage → Nat → MPMessage} {source : Nat → Nat}
    (h : LaysFrom lay source) (k n : Nat) :
    ((List.range k).foldl (lay buffer) m).payloadByte n =
      if n / 4 < k then blockByte buffer (source n) else m.payloadByte n := by
  induction k with
  | zero => rfl
  | succ k ih =>
    rw [List.range_succ, List.foldl_append, List.foldl_cons, List.foldl_nil, h, ih]
    by_cases hlast : n / 4 = k
    · rw [if_pos hlast, if_pos (by omega)]
    · rw [if_neg hlast]
      by_cases hlt : n / 4 < k
      · rw [if_pos hlt, if_pos (by omega)]
      · rw [if_neg hlt, if_neg (by omega)]

theorem laysFrom_pair {lo hi : (Nat → Word) → Nat → Half} {source : Nat → Nat}
    (h : ∀ buffer i r, r < 4 → pairByte (lo buffer i) (hi buffer i) r =
      blockByte buffer (source (4 * i + r))) :
    LaysFrom (fun buffer m i => m.setPair (i * 2) (lo buffer i) (hi buffer i)) source := by
  intro buffer m i n
  rw [setPair_payloadByte]
  by_cases hturn : n / 4 = i
  · have hn : n = 4 * i + n % 4 := by omega
    rw [if_pos hturn, if_pos hturn, h buffer i (n % 4) (Nat.mod_lt n (by decide)), ← hn]
  · rw [if_neg hturn, if_neg hturn]

theorem quarter_cases {r : Nat} (hr : r < 4) : r = 0 ∨ r = 1 ∨ r = 2 ∨ r = 3 := by
  omega

/-- The halves of a word in their order. -/
theorem pairByte_halves (w : Word) {r : Nat} (hr : r < 4) :
    pairByte (loHalf w) (hiHalf w) r = w.extractLsb' (8 * r) 8 := by
  obtain rfl | rfl | rfl | rfl := quarter_cases hr
  · exact extract_loHalf (Nat.zero_le 8)
  · exact extract_loHalf (le_refl 8)
  · exact extract_hiHalf (Nat.zero_le 8)
  · exact extract_hiHalf (le_refl 8)

/-- The high half of one word and then the low half of another. -/
theorem pairByte_crossed (w v : Word) {r : Nat} (hr : r < 4) :
    pairByte (hiHalf w) (loHalf v) r =
      if r < 2 then w.extractLsb' (8 * (2 + r)) 8 else v.extractLsb' (8 * (r - 2)) 8 := by
  obtain rfl | rfl | rfl | rfl := quarter_cases hr
  · exact extract_hiHalf (Nat.zero_le 8)
  · exact extract_hiHalf (le_refl 8)
  · exact extract_loHalf (Nat.zero_le 8)
  · exact extract_loHalf (le_refl 8)

theorem layWord_from (offset : Nat) :
    LaysFrom (fun buffer => layWord buffer offset) (wordSource offset) := by
  unfold layWord wordSource
  by_cases hoff : offset = 0
  · simp only [if_pos hoff]
    apply laysFrom_pair
    intro buffer i r hr
    rw [blockByte_eq hr]
    exact pairByte_halves (buffer i) hr
  · simp only [if_neg hoff]
    apply laysFrom_pair
    intro buffer i r hr
    have hdiv : (4 * i + r) / 4 = i := by omega
    have hmod : (4 * i + r) % 4 = r := by omega
    rw [hdiv, hmod, pairByte_crossed _ _ hr]
    split_ifs with hlow
    · rw [Nat.add_assoc (4 * (i + offset + 1)) 2 r, blockByte_eq (by omega)]
    · rw [blockByte_eq (by omega)]

theorem extract_masked {w m : Word} (s p : Nat) (hm : m.extractLsb' (s + p) 8 = 0xff#8) (hp : p ≤ 8) :
    (loHalf ((w &&& m) >>> s)).extractLsb' p 8 = w.extractLsb' (s + p) 8 := by
  rw [extract_loHalf hp, extract_mask_shr, hm]
  exact BitVec.and_allOnes

theorem extract_masked_zero {w m : Word} (s p : Nat) (hm : m.extractLsb' (s + p) 8 = 0#8)
    (hp : p ≤ 8) : (loHalf ((w &&& m) >>> s)).extractLsb' p 8 = 0#8 := by
  rw [extract_loHalf hp, extract_mask_shr, hm]
  exact BitVec.and_zero

theorem extract_shl_masked {w m : Word} (hm : m.extractLsb' 0 8 = 0xff#8) :
    (loHalf ((w &&& m) <<< 8)).extractLsb' 0 8 = 0#8 ∧
      (loHalf ((w &&& m) <<< 8)).extractLsb' 8 8 = w.extractLsb' 0 8 := by
  rw [extract_loHalf (Nat.zero_le 8), extract_loHalf (le_refl 8), extract_shl_low, extract_shl_high,
    BitVec.extractLsb'_and, hm]
  exact ⟨rfl, BitVec.and_allOnes⟩

/-- A half merged from a byte of one word and a byte of another. -/
theorem extract_merged (x y mx my : Word) (sx sy : Nat) (hx : mx.extractLsb' sx 8 = 0xff#8)
    (hx' : mx.extractLsb' (sx + 8) 8 = 0#8) (hy : my.extractLsb' sy 8 = 0#8)
    (hy' : my.extractLsb' (sy + 8) 8 = 0xff#8) :
    (loHalf ((x &&& mx) >>> sx) ||| loHalf ((y &&& my) >>> sy)).extractLsb' 0 8 =
        x.extractLsb' sx 8 ∧
      (loHalf ((x &&& mx) >>> sx) ||| loHalf ((y &&& my) >>> sy)).extractLsb' 8 8 =
        y.extractLsb' (sy + 8) 8 := by
  constructor
  · rw [BitVec.extractLsb'_or, extract_masked sx 0 hx (Nat.zero_le 8),
      extract_masked_zero sy 0 hy (Nat.zero_le 8)]
    exact BitVec.or_zero
  · rw [BitVec.extractLsb'_or, extract_masked_zero sx 8 hx' (le_refl 8),
      extract_masked sy 8 hy' (le_refl 8)]
    exact BitVec.zero_or

/-- A half merged from a byte of a word and its lowest byte. -/
theorem extract_merged_shl (x y mx my : Word) (sx : Nat) (hx : mx.extractLsb' sx 8 = 0xff#8)
    (hx' : mx.extractLsb' (sx + 8) 8 = 0#8) (hy : my.extractLsb' 0 8 = 0xff#8) :
    (loHalf ((x &&& mx) >>> sx) ||| loHalf ((y &&& my) <<< 8)).extractLsb' 0 8 =
        x.extractLsb' sx 8 ∧
      (loHalf ((x &&& mx) >>> sx) ||| loHalf ((y &&& my) <<< 8)).extractLsb' 8 8 =
        y.extractLsb' 0 8 := by
  obtain ⟨hshl, hshl'⟩ := @extract_shl_masked y my hy
  constructor
  · rw [BitVec.extractLsb'_or, extract_masked sx 0 hx (Nat.zero_le 8), hshl]
    exact BitVec.or_zero
  · rw [BitVec.extractLsb'_or, extract_masked_zero sx 8 hx' (le_refl 8), hshl']
    exact BitVec.zero_or

theorem layByte_one (buffer : Nat → Word) (j : Nat) {r : Nat} (hr : r < 4) :
    pairByte
      (loHalf ((buffer j &&& 0x0000ff00#32) >>> 8) ||| loHalf ((buffer (j + 1) &&& 0x00ff0000#32) >>> 8))
      (loHalf ((buffer (j + 1) &&& 0xff000000#32) >>> 24) |||
        loHalf ((buffer (j + 1) &&& 0x000000ff#32) <<< 8)) r =
      match r with
      | 0 => (buffer j).extractLsb' 8 8
      | 1 => (buffer (j + 1)).extractLsb' 16 8
      | 2 => (buffer (j + 1)).extractLsb' 24 8
      | _ => (buffer (j + 1)).extractLsb' 0 8 := by
  have hlo := extract_merged (buffer j) (buffer (j + 1)) 0x0000ff00#32 0x00ff0000#32 8 8
    rfl rfl rfl rfl
  have hhi := extract_merged_shl (buffer (j + 1)) (buffer (j + 1)) 0xff000000#32 0x000000ff#32 24
    rfl rfl rfl
  obtain rfl | rfl | rfl | rfl := quarter_cases hr
  · exact hlo.1
  · exact hlo.2
  · exact hhi.1
  · exact hhi.2

theorem layByte_three (buffer : Nat → Word) (j : Nat) {r : Nat} (hr : r < 4) :
    pairByte
      (loHalf ((buffer (j + 1) &&& 0x00ff0000#32) >>> 16) |||
        loHalf ((buffer (j + 1) &&& 0x000000ff#32) <<< 8))
      (loHalf ((buffer (j + 1) &&& 0x0000ff00#32) >>> 8) |||
        loHalf ((buffer (j + 2) &&& 0x00ff0000#32) >>> 8)) r =
      match r with
      | 0 => (buffer (j + 1)).extractLsb' 16 8
      | 1 => (buffer (j + 1)).extractLsb' 0 8
      | 2 => (buffer (j + 1)).extractLsb' 8 8
      | _ => (buffer (j + 2)).extractLsb' 16 8 := by
  have hlo := extract_merged_shl (buffer (j + 1)) (buffer (j + 1)) 0x00ff0000#32 0x000000ff#32 16
    rfl rfl rfl
  have hhi := extract_merged (buffer (j + 1)) (buffer (j + 2)) 0x0000ff00#32 0x00ff0000#32 8 8
    rfl rfl rfl rfl
  obtain rfl | rfl | rfl | rfl := quarter_cases hr
  · exact hlo.1
  · exact hlo.2
  · exact hhi.1
  · exact hhi.2

/-- Each alignment of a read of bytes takes its bytes from places of its own. -/
theorem layByte_from {offset : Nat} (hoff : offset < 4) :
    LaysFrom (fun buffer => layByte buffer offset) (byteSource offset) := by
  have hdiv : ∀ i r, r < 4 → (4 * i + r) / 4 = i := by
    intro i r hr
    omega
  have hmod : ∀ i r, r < 4 → (4 * i + r) % 4 = r := by
    intro i r hr
    omega
  have hplace : ∀ (buffer : Nat → Word) i k r, r < 4 →
      blockByte buffer (8 * i + (4 * k + r)) = (buffer (i * 2 + k)).extractLsb' (8 * r) 8 := by
    intro buffer i k r hr
    have heq : 8 * i + (4 * k + r) = 4 * (i * 2 + k) + r := by omega
    rw [heq, blockByte_eq hr]
  obtain rfl | rfl | rfl | rfl := quarter_cases hoff
  · apply laysFrom_pair
    intro buffer i r hr
    show _ = blockByte buffer (4 * i + r)
    rw [blockByte_eq hr]
    exact pairByte_halves (buffer i) hr
  · apply laysFrom_pair
    intro buffer i r hr
    rw [layByte_one buffer (i * 2) hr]
    unfold byteSource
    rw [hdiv i r hr, hmod i r hr]
    obtain rfl | rfl | rfl | rfl := quarter_cases hr
    · exact (hplace buffer i 0 1 (by decide)).symm
    · exact (hplace buffer i 1 2 (by decide)).symm
    · exact (hplace buffer i 1 3 (by decide)).symm
    · exact (hplace buffer i 1 0 (by decide)).symm
  · apply laysFrom_pair
    intro buffer i r hr
    rw [pairByte_crossed _ _ hr]
    unfold byteSource
    rw [hdiv i r hr, hmod i r hr]
    obtain rfl | rfl | rfl | rfl := quarter_cases hr
    · exact (hplace buffer i 0 2 (by decide)).symm
    · exact (hplace buffer i 0 3 (by decide)).symm
    · exact (hplace buffer i 1 0 (by decide)).symm
    · exact (hplace buffer i 1 1 (by decide)).symm
  · apply laysFrom_pair
    intro buffer i r hr
    rw [layByte_three buffer (i * 2) hr]
    unfold byteSource
    rw [hdiv i r hr, hmod i r hr]
    obtain rfl | rfl | rfl | rfl := quarter_cases hr
    · exact (hplace buffer i 1 2 (by decide)).symm
    · exact (hplace buffer i 1 0 (by decide)).symm
    · exact (hplace buffer i 1 1 (by decide)).symm
    · exact (hplace buffer i 2 2 (by decide)).symm

end Layout

inductive DebugSize
  | byte
  | word
  | dword
  deriving DecidableEq

def DebugSize.bits : DebugSize → Half
  | byte => byteSize
  | word => wordSize
  | dword => dwordSize

def DebugSize.bytes : DebugSize → Nat
  | byte => 1
  | word => 2
  | dword => 4

/-- A request to read memory in items of one of the three sizes. -/
structure DebugRequest where
  m : MPMessage
  size : DebugSize
  sized : m.iFunction &&& 0xc000#16 = size.bits

namespace DebugRequest

variable (r : DebugRequest)

def addr : Word := r.m.iAddress ++ r.m.iIndex

def count : Nat := (r.m.iFunction &&& 0x0f#16).toNat

/-- How many bytes are asked for. -/
def length : Nat := r.size.bytes * r.count

/-- The address that the driver gets. -/
def askedAddr : Word :=
  match r.size with
  | .dword => r.addr
  | _ => r.addr &&& 0xfffffffc#32

end DebugRequest

/-- The count of double words that the driver gets, for the low bits of the address. -/
def askedCount (size : DebugSize) (count low : Nat) : Nat :=
  match size with
  | .byte => (byteRead count low).1
  | .word => (wordRead count low).1
  | .dword => count

/-- Where the bytes of the reply come from. -/
def replySource (size : DebugSize) (count low : Nat) : Nat → Nat :=
  match size with
  | .byte => byteSource (byteRead count low).2
  | .word => wordSource (wordRead count low).2
  | .dword => wordSource 0

/-- What the driver is asked for. -/
def DebugRequest.asked (r : DebugRequest) (p : ReadDebugParameter) : ReadDebugParameter :=
  { p with
    iAddress := r.askedAddr
    iReadCount := askedCount r.size r.count (r.addr.toNat % 4) }

/-- A driver that keeps what it is asked to read. -/
def recorder : MeiDriver (List ReadDebugParameter) where
  ctl _ d := (d, 0)
  remote _ d := d
  firmware d := d
  readDebug p d := (d ++ [p], p)
  cmvRead p d := (d, p)
  cmvWrite p d := (d, p)
  cmvWinhost m d := (d, m)

/-- The driver reads double words of a byte-wise memory. It keeps the count, leaves the rest of the buffer
as it was, and reads what it is asked to where the address is that of a double word. -/
def ServesMemory {δ : Type} (mem : Word → Byte) (mei : MeiDriver δ) : Prop :=
  ∀ p d, (mei.readDebug p d).2.iReadCount = p.iReadCount ∧
    (p.iAddress.toNat % 4 = 0 → ∀ k, k < 4 * p.iReadCount →
      blockByte (mei.readDebug p d).2.buffer k = mem (p.iAddress + BitVec.ofNat 32 k)) ∧
    ∀ k, 4 * p.iReadCount ≤ k → blockByte (mei.readDebug p d).2.buffer k = blockByte p.buffer k

/-- The driver with anything behind the 20 words of the buffer. -/
def MeiDriver.withTail {δ : Type} (mei : MeiDriver δ) (tail : Nat → Word) : MeiDriver δ :=
  { mei with
    readDebug := fun p d =>
      let r := mei.readDebug p d
      (r.1, { r.2 with buffer := fun i => if i < 20 then r.2.buffer i else tail i }) }

/-- The reply to a request. -/
structure ReplyRight {δ : Type} (r : DebugRequest) (mem : Word → Byte) (mei : MeiDriver δ)
    (s : DebugServer δ) : Prop where
  inside : ∀ n, 2 * newMpPayloadSize ≤ n →
    (readDebug mei s r.m).tx.payloadByte n = s.tx.payloadByte n
  buffer : ∀ tail n, (readDebug (mei.withTail tail) s r.m).tx.payloadByte n =
    (readDebug mei s r.m).tx.payloadByte n
  items : ∀ n, n < r.length → n < 2 * newMpPayloadSize →
    (readDebug mei s r.m).tx.payloadByte n = mem (r.addr + BitVec.ofNat 32 n)

/-- The block that is asked for covers the items, and the reply has them. -/
structure DebugReadRight (r : DebugRequest) : Prop where
  asks : ∀ s, ∃ p, (readDebug recorder s r.m).dev = s.dev ++ [p] ∧
    ∀ n, n < r.length → (r.addr - p.iAddress).toNat + n < 4 * p.iReadCount
  replies : ∀ (δ : Type) (mei : MeiDriver δ) (mem : Word → Byte) (s : DebugServer δ),
    ServesMemory mem mei → ReplyRight r mem mei s

/-- Aligned items that fit into the payload, one byte behind the first of a double word, and one, two or
four in the middle of it. -/
def RequestGood (size : DebugSize) (count low : Nat) : Prop :=
  count = 0 ∨ (low = 0 ∧ size.bytes * count ≤ 2 * newMpPayloadSize) ∨
    (size = .byte ∧ ((low = 1 ∧ count = 1) ∨ (low = 2 ∧ (count = 1 ∨ count = 2 ∨ count = 4))))

instance (size : DebugSize) (count low : Nat) : Decidable (RequestGood size count low) :=
  inferInstanceAs (Decidable (_ ∨ _))

/-- How far the item bytes lie behind the address that is asked for. -/
def askedShift (size : DebugSize) (low : Nat) : Nat :=
  match size with
  | .dword => 0
  | _ => low

/-- What the right reply needs of the numbers: no turn past the payload, and every byte from its own place
in a block at the address of a double word. -/
structure PlanGood (size : DebugSize) (count low : Nat) : Prop where
  turns : min (askedCount size count low) 12 ≤ 6
  covered : ∀ n, n < size.bytes * count → askedShift size low + n < 4 * askedCount size count low
  sources : ∀ n, n < 2 * newMpPayloadSize → n < size.bytes * count →
    n / 4 < min (askedCount size count low) 12 ∧ (size = .dword → low = 0) ∧
      replySource size count low n = askedShift size low + n

section Numbers

variable {size : DebugSize} {count low : Nat}

theorem planGood_iff_all : PlanGood size count low ↔
    min (askedCount size count low) 12 ≤ 6 ∧
    (∀ n, n < size.bytes * count → askedShift size low + n < 4 * askedCount size count low) ∧
    ∀ n, n < 2 * newMpPayloadSize → n < size.bytes * count →
      n / 4 < min (askedCount size count low) 12 ∧ (size = .dword → low = 0) ∧
        replySource size count low n = askedShift size low + n :=
  ⟨fun h => ⟨h.turns, h.covered, h.sources⟩, fun h => ⟨h.1, h.2.1, h.2.2⟩⟩

instance : Decidable (PlanGood size count low) := decidable_of_iff _ planGood_iff_all.symm

/-- The counts and alignments are few. -/
theorem planGood_iff (hcount : count < 16) (hlow : low < 4) :
    PlanGood size count low ↔ RequestGood size count low := by
  have hall : ∀ size ∈ [DebugSize.byte, .word, .dword], ∀ count, count < 16 → ∀ low, low < 4 →
      (PlanGood size count low ↔ RequestGood size count low) := by
    decide +kernel
  have hmem : size ∈ [DebugSize.byte, .word, .dword] := by
    cases size <;> decide
  exact hall size hmem count hcount low hlow

theorem byteRead_low (addr : Nat) : byteRead count (addr % 4) = byteRead count addr := by
  unfold byteRead
  rw [Nat.mod_mod]

theorem wordRead_low (addr : Nat) : wordRead count (addr % 4) = wordRead count addr := by
  have hbit : addr % 4 / 2 % 2 = addr / 2 % 2 := by omega
  unfold wordRead
  rw [hbit]

theorem byteRead_offset (addr : Nat) : (byteRead count addr).2 < 4 := by
  unfold byteRead
  split_ifs <;> dsimp only <;> omega

theorem byteRead_count (hcount : count < 16) (addr : Nat) : (byteRead count addr).1 ≤ 5 := by
  unfold byteRead
  split_ifs <;> dsimp only <;> omega

theorem wordRead_count (hcount : count < 16) (addr : Nat) : (wordRead count addr).1 ≤ 8 := by
  unfold wordRead
  split_ifs <;> dsimp only <;> omega

theorem wordRead_offset (addr : Nat) : (wordRead count addr).2 ≤ 1 := by
  unfold wordRead
  split_ifs <;> dsimp only <;> omega

theorem byteSource_le (offset n : Nat) : byteSource offset n ≤ 8 * (n / 4) + 10 := by
  have hrem : n % 4 < 4 := Nat.mod_lt n (by decide)
  unfold byteSource
  split <;> omega

theorem wordSource_le {offset : Nat} (hoff : offset ≤ 1) (n : Nat) :
    wordSource offset n ≤ 4 * (n / 4) + 11 := by
  have hrem : n % 4 < 4 := Nat.mod_lt n (by decide)
  unfold wordSource
  split_ifs <;> omega

/-- No loop takes a byte from behind the buffer. -/
theorem replySource_lt (hcount : count < 16) {n : Nat}
    (hn : n / 4 < min (askedCount size count low) 12) : replySource size count low n < 4 * 20 := by
  unfold askedCount at hn
  unfold replySource
  cases size with
  | byte =>
    have hasked := byteRead_count hcount low
    have hle := byteSource_le (byteRead count low).2 n
    dsimp only at hn ⊢
    omega
  | word =>
    have hasked := wordRead_count hcount low
    have hle := wordSource_le (@wordRead_offset count low) n
    dsimp only at hn ⊢
    omega
  | dword =>
    have hle := wordSource_le (Nat.zero_le 1) n
    dsimp only at hn ⊢
    omega

end Numbers

section Reply

variable {δ : Type} {mei : MeiDriver δ} {s : DebugServer δ} {r : DebugRequest}

theorem DebugRequest.count_lt (r : DebugRequest) : r.count < 16 := by
  unfold DebugRequest.count
  rw [BitVec.toNat_and]
  exact lt_of_le_of_lt Nat.and_le_right (by decide)

/-- What a reading ioctl leaves of the reply, for a loop that takes its bytes from known places. -/
theorem readDebugInto_payload {p : ReadDebugParameter}
    {lay : (Nat → Word) → MPMessage → Nat → MPMessage} {source : Nat → Nat}
    (h : LaysFrom lay source) (n : Nat) :
    (readDebugInto mei s p lay).tx.payloadByte n =
      if n / 4 < min (mei.readDebug p s.dev).2.iReadCount 12 then
        blockByte (mei.readDebug p s.dev).2.buffer (source n)
      else s.tx.payloadByte n :=
  h.fold _ n

theorem readDebug_spec (n : Nat) :
    (readDebug mei s r.m).dev = (mei.readDebug (r.asked s.debug) s.dev).1 ∧
      (readDebug mei s r.m).tx.payloadByte n =
        if n / 4 < min (mei.readDebug (r.asked s.debug) s.dev).2.iReadCount 12 then
          blockByte (mei.readDebug (r.asked s.debug) s.dev).2.buffer
            (replySource r.size r.count (r.addr.toNat % 4) n)
        else s.tx.payloadByte n := by
  have hcount := r.count_lt
  have hsized := r.sized
  unfold readDebug DebugRequest.asked DebugRequest.askedAddr askedCount replySource
  cases hsize : r.size with
  | byte =>
    have heq : r.m.iFunction &&& 0xc000#16 = byteSize := by rw [hsized, hsize]; rfl
    dsimp only
    rw [byteRead_low, if_pos heq]
    exact ⟨rfl, readDebugInto_payload (layByte_from (byteRead_offset _)) n⟩
  | word =>
    have heq : r.m.iFunction &&& 0xc000#16 = wordSize := by rw [hsized, hsize]; rfl
    have hne : ¬wordSize = byteSize := by decide
    dsimp only
    have hle : (wordRead (r.m.iFunction &&& 0x0f#16).toNat
        (r.m.iAddress ++ r.m.iIndex : Word).toNat).1 ≤ 20 :=
      (wordRead_count hcount _).trans (by decide)
    rw [wordRead_low, heq, if_neg hne, if_pos (Eq.refl wordSize), if_pos hle]
    exact ⟨rfl, readDebugInto_payload (layWord_from _) n⟩
  | dword =>
    have heq : r.m.iFunction &&& 0xc000#16 = dwordSize := by rw [hsized, hsize]; rfl
    have hne : ¬dwordSize = byteSize := by decide
    have hne' : ¬dwordSize = wordSize := by decide
    dsimp only
    rw [heq, if_neg hne, if_neg hne', if_pos (Eq.refl dwordSize)]
    exact ⟨rfl, readDebugInto_payload (layWord_from 0) n⟩

end Reply

section Addresses

variable (r : DebugRequest)

theorem askedAddr_toNat :
    r.askedAddr.toNat + askedShift r.size (r.addr.toNat % 4) = r.addr.toNat := by
  have haligned : (r.addr &&& 0xfffffffc#32).toNat = r.addr.toNat / 4 * 4 := toNat_alignDown r.addr
  unfold DebugRequest.askedAddr askedShift
  cases r.size with
  | byte =>
    show (r.addr &&& 0xfffffffc#32).toNat + r.addr.toNat % 4 = _
    omega
  | word =>
    show (r.addr &&& 0xfffffffc#32).toNat + r.addr.toNat % 4 = _
    omega
  | dword => rfl

theorem askedAddr_sub : (r.addr - r.askedAddr).toNat = askedShift r.size (r.addr.toNat % 4) := by
  have hsum := askedAddr_toNat r
  have hlt := r.addr.isLt
  rw [BitVec.toNat_sub]
  omega

/-- An item byte, from the address that is asked for on. -/
theorem askedAddr_add (n : Nat) :
    r.askedAddr + BitVec.ofNat 32 (askedShift r.size (r.addr.toNat % 4) + n) =
      r.addr + BitVec.ofNat 32 n := by
  have hsum := askedAddr_toNat r
  apply BitVec.eq_of_toNat_eq
  simp only [BitVec.toNat_add, BitVec.toNat_ofNat]
  omega

theorem askedAddr_aligned (h : r.size = .dword → r.addr.toNat % 4 = 0) :
    r.askedAddr.toNat % 4 = 0 := by
  have hsum := askedAddr_toNat r
  unfold askedShift at hsum
  cases hsize : r.size with
  | byte =>
    simp only [hsize] at hsum
    omega
  | word =>
    simp only [hsize] at hsum
    omega
  | dword =>
    have hlow := h hsize
    simp only [hsize] at hsum
    omega

end Addresses

section Plan

variable {δ : Type} {mei : MeiDriver δ} {mem : Word → Byte} {s : DebugServer δ} {r : DebugRequest}

theorem asks_iff : (∀ s, ∃ p, (readDebug recorder s r.m).dev = s.dev ++ [p] ∧
      ∀ n, n < r.length → (r.addr - p.iAddress).toNat + n < 4 * p.iReadCount) ↔
    ∀ n, n < r.length → askedShift r.size (r.addr.toNat % 4) + n <
      4 * askedCount r.size r.count (r.addr.toNat % 4) := by
  have hdev : ∀ s, (readDebug recorder s r.m).dev = s.dev ++ [r.asked s.debug] := by
    intro s
    exact (readDebug_spec 0).1
  constructor
  · intro h n hn
    let s : DebugServer (List ReadDebugParameter) :=
      ⟨[], fun _ => 0, .bare 0, ⟨0, 0, fun _ => 0⟩, [], [], []⟩
    obtain ⟨p, hp, hcover⟩ := h s
    have heq : p = r.asked s.debug := by
      rw [hdev] at hp
      exact (List.cons.inj hp).1.symm
    have hbyte := hcover n hn
    rw [heq] at hbyte
    rw [← askedAddr_sub]
    exact hbyte
  · intro h s
    refine ⟨_, hdev s, ?_⟩
    intro n hn
    show (r.addr - r.askedAddr).toNat + n < _
    rw [askedAddr_sub]
    exact h n hn

theorem ServesMemory.count (h : ServesMemory mem mei) (d : δ) (p : ReadDebugParameter) :
    (mei.readDebug (r.asked p) d).2.iReadCount = askedCount r.size r.count (r.addr.toNat % 4) :=
  (h _ d).1

/-- The reply where the driver serves a memory. -/
theorem readDebug_payload (h : ServesMemory mem mei) (n : Nat) :
    (readDebug mei s r.m).tx.payloadByte n =
      if n / 4 < min (askedCount r.size r.count (r.addr.toNat % 4)) 12 then
        blockByte (mei.readDebug (r.asked s.debug) s.dev).2.buffer
          (replySource r.size r.count (r.addr.toNat % 4) n)
      else s.tx.payloadByte n := by
  rw [(readDebug_spec n).2, h.count]

theorem ServesMemory.tail (h : ServesMemory mem mei) (tail : Nat → Word) (n : Nat) :
    (readDebug (mei.withTail tail) s r.m).tx.payloadByte n =
      (readDebug mei s r.m).tx.payloadByte n := by
  have hcount := h.count (r := r) s.dev s.debug
  rw [(readDebug_spec n).2, (readDebug_spec n).2]
  show (if n / 4 < min (mei.readDebug (r.asked s.debug) s.dev).2.iReadCount 12 then _ else _) = _
  by_cases hn : n / 4 < min (mei.readDebug (r.asked s.debug) s.dev).2.iReadCount 12
  · rw [if_pos hn, if_pos hn]
    rw [hcount] at hn
    have hlt := replySource_lt r.count_lt hn
    have hin : replySource r.size r.count (r.addr.toNat % 4) n / 4 < 20 := by omega
    show (if replySource r.size r.count (r.addr.toNat % 4) n / 4 < 20 then _ else _ : Word).extractLsb'
      _ 8 = _
    rw [if_pos hin]
    rfl
  · rw [if_neg hn, if_neg hn]

/-- The numbers are enough for the reply. -/
theorem PlanGood.reply (hplan : PlanGood r.size r.count (r.addr.toNat % 4))
    (h : ServesMemory mem mei) : ReplyRight r mem mei s where
  inside := by
    intro n hn
    have hturns := hplan.turns
    have hout : ¬n / 4 < min (askedCount r.size r.count (r.addr.toNat % 4)) 12 := by
      have hsize : 2 * newMpPayloadSize = 24 := rfl
      omega
    rw [readDebug_payload h, if_neg hout]
  buffer := h.tail
  items := by
    intro n hn hsize
    obtain ⟨hturn, hdword, hsource⟩ := hplan.sources n hsize hn
    have hcover := hplan.covered n hn
    rw [readDebug_payload h, if_pos hturn, hsource]
    have hread := (h (r.asked s.debug) s.dev).2.1 (askedAddr_aligned r hdword)
      (askedShift r.size (r.addr.toNat % 4) + n) hcover
    rw [hread]
    exact congrArg mem (askedAddr_add r n)

end Plan

section Probes

/-- The double word at an address. -/
def dwordAt (mem : Word → Byte) (a : Word) : Word :=
  leWord (mem a) (mem (a + 1)) (mem (a + 2)) (mem (a + 3))

/-- A driver that serves `mem` and nothing else. -/
def memoryDriver (mem : Word → Byte) : MeiDriver Unit where
  ctl _ d := (d, 0)
  remote _ d := d
  firmware d := d
  readDebug p d := (d, { p with
    buffer := fun i =>
      if p.iAddress.toNat % 4 = 0 ∧ i < p.iReadCount then
        dwordAt mem (p.iAddress + BitVec.ofNat 32 (4 * i))
      else p.buffer i })
  cmvRead p d := (d, p)
  cmvWrite p d := (d, p)
  cmvWinhost m d := (d, m)

theorem extract_dwordAt (mem : Word → Byte) (a : Word) {r : Nat} (hr : r < 4) :
    (dwordAt mem a).extractLsb' (8 * r) 8 = mem (a + BitVec.ofNat 32 r) := by
  obtain rfl | rfl | rfl | rfl := quarter_cases hr
  · exact (beByte_beWord_three _ _ _ _).trans (congrArg mem (BitVec.add_zero a).symm)
  · exact beByte_beWord_two _ _ _ _
  · exact beByte_beWord_one _ _ _ _
  · exact beByte_beWord_zero _ _ _ _

theorem memoryDriver_byte (mem : Word → Byte) (p : ReadDebugParameter) (d : Unit) (k : Nat) :
    blockByte ((memoryDriver mem).readDebug p d).2.buffer k =
      if p.iAddress.toNat % 4 = 0 ∧ k < 4 * p.iReadCount then mem (p.iAddress + BitVec.ofNat 32 k)
      else blockByte p.buffer k := by
  show (if p.iAddress.toNat % 4 = 0 ∧ k / 4 < p.iReadCount then _ else _ : Word).extractLsb' _ 8 = _
  by_cases hin : p.iAddress.toNat % 4 = 0 ∧ k < 4 * p.iReadCount
  · have hword : p.iAddress.toNat % 4 = 0 ∧ k / 4 < p.iReadCount := ⟨hin.1, by omega⟩
    have hk : 4 * (k / 4) + k % 4 = k := by omega
    rw [if_pos hin, if_pos hword, extract_dwordAt _ _ (Nat.mod_lt k (by decide)), BitVec.add_assoc,
      ← BitVec.ofNat_add, hk]
  · have hword : ¬(p.iAddress.toNat % 4 = 0 ∧ k / 4 < p.iReadCount) := by
      intro h
      exact hin ⟨h.1, by omega⟩
    rw [if_neg hin, if_neg hword]
    rfl

theorem memoryDriver_serves (mem : Word → Byte) : ServesMemory mem (memoryDriver mem) := by
  intro p d
  refine ⟨rfl, ?_, ?_⟩
  · intro haligned k hk
    rw [memoryDriver_byte, if_pos ⟨haligned, hk⟩]
  · intro k hk
    have hout : ¬(p.iAddress.toNat % 4 = 0 ∧ k < 4 * p.iReadCount) := by omega
    rw [memoryDriver_byte, if_neg hout]

/-- A server with a buffer of zeros and a byte all over the last reply. -/
def freshServer (b : Half) : DebugServer Unit :=
  ⟨(), fun _ => 0, ⟨0, 0, 0, 0, fun _ => b⟩, ⟨0, 0, fun _ => 0⟩, [], [], []⟩

theorem blockByte_zero (k : Nat) : blockByte (fun _ => 0#32) k = 0#8 :=
  BitVec.extractLsb'_zero

variable {r : DebugRequest}

/-- A turn past the payload stores there. -/
theorem inside_turns (h : ReplyRight r (fun _ => 0) (memoryDriver fun _ => 0) (freshServer 0xffff)) :
    min (askedCount r.size r.count (r.addr.toNat % 4)) 12 ≤ 6 := by
  by_contra hturns
  have hout : 24 / 4 < min (askedCount r.size r.count (r.addr.toNat % 4)) 12 := by omega
  have hstay := h.inside 24 (le_refl 24)
  rw [readDebug_payload (memoryDriver_serves _), if_pos hout, memoryDriver_byte] at hstay
  have hstored : (0 : Byte) = (freshServer 0xffff).tx.payloadByte 24 := by
    by_cases hread : (r.asked (freshServer 0xffff).debug).iAddress.toNat % 4 = 0 ∧
        replySource r.size r.count (r.addr.toNat % 4) 24 <
          4 * (r.asked (freshServer 0xffff).debug).iReadCount
    · rw [if_pos hread] at hstay
      exact hstay
    · rw [if_neg hread] at hstay
      exact (blockByte_zero _).symm.trans hstay
  exact absurd hstored (by decide)

/-- The memory with a one in one place. -/
def oneAt (a : Word) (b : Word) : Byte := if b = a then 1 else 0

/-- A byte of the reply that is the item for this memory is so because it is taken from its place. -/
theorem items_source {n : Nat} (hn : n < r.length) (hsize : n < 2 * newMpPayloadSize)
    (h : ReplyRight r (oneAt (r.addr + BitVec.ofNat 32 n))
      (memoryDriver (oneAt (r.addr + BitVec.ofNat 32 n))) (freshServer 0)) :
    n / 4 < min (askedCount r.size r.count (r.addr.toNat % 4)) 12 ∧
      (r.size = .dword → r.addr.toNat % 4 = 0) ∧
      replySource r.size r.count (r.addr.toNat % 4) n = askedShift r.size (r.addr.toNat % 4) + n := by
  have hone : (0 : Byte) ≠ 1 := by decide
  have hitem := h.items n hn hsize
  have hmem : oneAt (r.addr + BitVec.ofNat 32 n) (r.addr + BitVec.ofNat 32 n) = 1 := if_pos rfl
  rw [hmem, readDebug_payload (memoryDriver_serves _)] at hitem
  by_cases hturn : n / 4 < min (askedCount r.size r.count (r.addr.toNat % 4)) 12
  · rw [if_pos hturn, memoryDriver_byte] at hitem
    by_cases hread : (r.asked (freshServer 0).debug).iAddress.toNat % 4 = 0 ∧
        replySource r.size r.count (r.addr.toNat % 4) n <
          4 * (r.asked (freshServer 0).debug).iReadCount
    · rw [if_pos hread] at hitem
      have hplace : r.askedAddr + BitVec.ofNat 32 (replySource r.size r.count (r.addr.toNat % 4) n) =
          r.addr + BitVec.ofNat 32 n := by
        by_contra hne
        have hzero : oneAt (r.addr + BitVec.ofNat 32 n) (r.askedAddr +
            BitVec.ofNat 32 (replySource r.size r.count (r.addr.toNat % 4) n)) = 0 := if_neg hne
        exact hone (hzero.symm.trans hitem)
      rw [← askedAddr_add] at hplace
      have hoff := congrArg BitVec.toNat ((BitVec.add_right_inj _).mp hplace)
      have hlt := replySource_lt r.count_lt hturn
      have hshift : askedShift r.size (r.addr.toNat % 4) < 4 := by
        have hsum := askedAddr_toNat r
        unfold askedShift
        cases r.size with
        | byte => exact Nat.mod_lt _ (by decide)
        | word => exact Nat.mod_lt _ (by decide)
        | dword => exact (by decide : 0 < 4)
      have hpayload : 2 * newMpPayloadSize = 24 := rfl
      have hsource : replySource r.size r.count (r.addr.toNat % 4) n < 2 ^ 32 := by omega
      have hitemAt : askedShift r.size (r.addr.toNat % 4) + n < 2 ^ 32 := by omega
      rw [BitVec.toNat_ofNat, BitVec.toNat_ofNat, Nat.mod_eq_of_lt hsource,
        Nat.mod_eq_of_lt hitemAt] at hoff
      refine ⟨hturn, ?_, hoff⟩
      intro hdword
      have haddr : r.askedAddr = r.addr := by
        unfold DebugRequest.askedAddr
        rw [hdword]
      rw [← haddr]
      exact hread.1
    · rw [if_neg hread] at hitem
      exact absurd ((blockByte_zero _).symm.trans hitem) hone
  · rw [if_neg hturn] at hitem
    exact absurd (Eq.trans BitVec.extractLsb'_zero.symm hitem) hone

end Probes

theorem planGood_of_right {r : DebugRequest} (h : DebugReadRight r) :
    PlanGood r.size r.count (r.addr.toNat % 4) where
  turns := inside_turns (h.replies Unit _ _ _ (memoryDriver_serves _))
  covered := asks_iff.mp h.asks
  sources := by
    intro n hsize hn
    exact items_source hn hsize (h.replies Unit _ _ _ (memoryDriver_serves _))

theorem right_of_planGood {r : DebugRequest} (h : PlanGood r.size r.count (r.addr.toNat % 4)) :
    DebugReadRight r where
  asks := asks_iff.mpr h.covered
  replies := by
    intro δ mei mem s hserves
    exact h.reply hserves

/-- The reply has the items for the aligned requests that fit into it, and for a few bytes behind the
start of a double word. -/
theorem debug_read_right_iff (r : DebugRequest) :
    DebugReadRight r ↔ RequestGood r.size r.count (r.addr.toNat % 4) := by
  rw [← planGood_iff r.count_lt (Nat.mod_lt _ (by decide))]
  exact ⟨planGood_of_right, right_of_planGood⟩

/-- Two bytes from address 1 on. The second is taken from the double word behind them. -/
def twoBytes : DebugRequest where
  m := ⟨0x5142#16, 0, 0, 1, fun _ => 0⟩
  size := .byte
  sized := by decide

theorem two_bytes_wrong : ¬DebugReadRight twoBytes := by
  intro h
  have hplan := (items_source (r := twoBytes) (by decide : 1 < twoBytes.length) (by decide)
    (h.replies Unit _ _ _ (memoryDriver_serves _))).2.2
  exact absurd hplan (by decide)

end DanubeBsp
