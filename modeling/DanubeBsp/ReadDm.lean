import Mathlib.Data.List.GetD
import DanubeBsp.DebugRead

namespace DanubeBsp

/-- The payload as bytes, with the bytes that were read or stored so far. -/
structure PayloadBytes where
  bytes : Nat → Byte
  touched : List Nat

/-- `tmp = p[i]; p[i] = p[i + 1]; p[i + 1] = tmp`. -/
def PayloadBytes.swap (p : PayloadBytes) (i : Nat) : PayloadBytes where
  bytes := Function.update (Function.update p.bytes i (p.bytes (i + 1))) (i + 1) (p.bytes i)
  touched := p.touched ++ [i, i + 1]

/-- `p[i] = p[i + 1]`. -/
def PayloadBytes.move (p : PayloadBytes) (i : Nat) : PayloadBytes where
  bytes := Function.update p.bytes i (p.bytes (i + 1))
  touched := p.touched ++ [i, i + 1]

/-- `data_idx` goes up by two. -/
def swapTurns (p : PayloadBytes) (turns : Nat) : PayloadBytes :=
  (List.range turns).foldl (fun p turn => p.swap (2 * turn)) p

def moveTurns (p : PayloadBytes) (turns : Nat) : PayloadBytes :=
  (List.range turns).foldl PayloadBytes.move p

/-- The three loops over the payload of a reply at an odd index. -/
def offsetLoops (p : PayloadBytes) : PayloadBytes :=
  swapTurns (moveTurns (swapTurns p 12) 23) 12

/-- The other byte of a half. -/
def across (n : Nat) : Nat := if n % 2 = 0 then n + 1 else n - 1

theorem across_across (n : Nat) : across (across n) = n := by
  unfold across
  split_ifs <;> omega

theorem across_lt {n k : Nat} (hn : n < 2 * k) : across n < 2 * k := by
  unfold across
  split_ifs <;> omega

section Loops

variable (p : PayloadBytes)

theorem swapTurns_succ (k : Nat) : swapTurns p (k + 1) = (swapTurns p k).swap (2 * k) := by
  unfold swapTurns
  rw [List.range_succ, List.foldl_append]
  rfl

theorem moveTurns_succ (k : Nat) : moveTurns p (k + 1) = (moveTurns p k).move k := by
  unfold moveTurns
  rw [List.range_succ, List.foldl_append]
  rfl

theorem swapTurns_bytes (k n : Nat) : (swapTurns p k).bytes n =
    p.bytes (if n < 2 * k then across n else n) := by
  induction k generalizing n with
  | zero => rfl
  | succ k ih =>
    have hlow : ¬2 * k < 2 * k := by omega
    have hhigh : ¬2 * k + 1 < 2 * k := by omega
    rw [swapTurns_succ]
    unfold PayloadBytes.swap
    dsimp only
    rw [ih, ih, if_neg hlow, if_neg hhigh]
    by_cases hsecond : n = 2 * k + 1
    · have hin : n < 2 * (k + 1) := by omega
      have hacross : across n = 2 * k := by
        unfold across
        rw [if_neg (by omega)]
        omega
      rw [if_pos hin, hacross, hsecond, Function.update_self]
    · rw [Function.update_of_ne hsecond]
      by_cases hfirst : n = 2 * k
      · have hin : n < 2 * (k + 1) := by omega
        have hacross : across n = 2 * k + 1 := by
          unfold across
          rw [if_pos (by omega), hfirst]
        rw [if_pos hin, hacross, hfirst, Function.update_self]
      · have hsame : n < 2 * (k + 1) ↔ n < 2 * k := by omega
        rw [Function.update_of_ne hfirst, ih, if_congr hsame rfl rfl]

theorem moveTurns_bytes (k n : Nat) : (moveTurns p k).bytes n =
    p.bytes (if n < k then n + 1 else n) := by
  induction k generalizing n with
  | zero => rfl
  | succ k ih =>
    rw [moveTurns_succ]
    unfold PayloadBytes.move
    dsimp only
    rw [ih, if_neg (by omega : ¬k + 1 < k)]
    by_cases hlast : n = k
    · rw [if_pos (by omega), hlast, Function.update_self]
    · have hsame : n < k + 1 ↔ n < k := by omega
      rw [Function.update_of_ne hlast, ih, if_congr hsame rfl rfl]

/-- In the order of the protocol the loops take the payload one byte down. -/
theorem offsetLoops_bytes {n : Nat} (hn : n < 24) : (offsetLoops p).bytes (across n) =
    p.bytes (across (if n < 23 then n + 1 else n)) := by
  have hstep : (if n < 23 then n + 1 else n) < 2 * 12 := by
    split_ifs <;> omega
  unfold offsetLoops
  rw [swapTurns_bytes, if_pos (across_lt (k := 12) hn), across_across, moveTurns_bytes,
    swapTurns_bytes, if_pos hstep]

theorem swapTurns_touched (k : Nat) :
    ∀ a ∈ (swapTurns p k).touched, a ∈ p.touched ∨ a < 2 * k := by
  induction k with
  | zero =>
    intro a ha
    exact Or.inl ha
  | succ k ih =>
    intro a ha
    rw [swapTurns_succ] at ha
    obtain hold | hnew := List.mem_append.mp ha
    · obtain h | h := ih a hold
      · exact Or.inl h
      · exact Or.inr (by omega)
    · have heq : a = 2 * k ∨ a = 2 * k + 1 := by simpa using hnew
      exact Or.inr (by omega)

theorem moveTurns_touched (k : Nat) :
    ∀ a ∈ (moveTurns p k).touched, a ∈ p.touched ∨ a < k + 1 := by
  induction k with
  | zero =>
    intro a ha
    exact Or.inl ha
  | succ k ih =>
    intro a ha
    rw [moveTurns_succ] at ha
    obtain hold | hnew := List.mem_append.mp ha
    · obtain h | h := ih a hold
      · exact Or.inl h
      · exact Or.inr (by omega)
    · have heq : a = k ∨ a = k + 1 := by simpa using hnew
      exact Or.inr (by omega)

theorem offsetLoops_touched : ∀ a ∈ (offsetLoops p).touched, a ∈ p.touched ∨ a < 24 := by
  intro a ha
  obtain hmove | hlt := swapTurns_touched _ 12 a ha
  · obtain hswap | hlt := moveTurns_touched _ 23 a hmove
    · exact swapTurns_touched p 12 a hswap
    · exact Or.inr hlt
  · exact Or.inr hlt

end Loops

section Memory

theorem swapPairs_length (bs : List Byte) : (swapPairs bs).length = bs.length := by
  fun_induction swapPairs bs with
  | case1 a b rest ih => rw [List.length_cons, List.length_cons, ih, List.length_cons, List.length_cons]
  | case2 => rfl

theorem swapPairs_getD {bs : List Byte} (heven : bs.length % 2 = 0) (n : Nat) :
    (swapPairs bs).getD n 0 = bs.getD (across n) 0 := by
  fun_induction swapPairs bs generalizing n with
  | case1 a b rest ih =>
    have hrest : rest.length % 2 = 0 := by
      rw [List.length_cons, List.length_cons] at heven
      omega
    match n with
    | 0 => rfl
    | 1 => rfl
    | n + 2 =>
      have hacross : across (n + 2) = across n + 2 := by
        unfold across
        split_ifs <;> omega
      rw [hacross]
      exact ih hrest n
  | case2 rest hshort =>
    have hnil : rest = [] := by
      match rest with
      | [] => rfl
      | [a] => exact absurd heven Nat.one_ne_zero
      | a :: b :: rest => exact absurd rfl (hshort a b rest)
    rw [hnil]
    rfl

theorem flatMap_halfBytes_length (f : Nat → Half) (k : Nat) :
    ((List.range k).flatMap fun i => halfBytes (f i)).length = 2 * k := by
  induction k with
  | zero => rfl
  | succ k ih =>
    rw [List.range_succ, List.flatMap_append, List.length_append, ih]
    rfl

theorem flatMap_halfBytes_getD (f : Nat → Half) {k n : Nat} (hn : n < 2 * k) :
    ((List.range k).flatMap fun i => halfBytes (f i)).getD (across n) 0 =
      (f (n / 2)).extractLsb' (8 * (n % 2)) 8 := by
  induction k with
  | zero => exact absurd hn (Nat.not_lt_zero n)
  | succ k ih =>
    have hlen := flatMap_halfBytes_length f k
    rw [List.range_succ, List.flatMap_append]
    by_cases hlt : n < 2 * k
    · rw [List.getD_append _ _ _ _ (by rw [hlen]; exact across_lt hlt), ih hlt]
    · have hcase : n = 2 * k ∨ n = 2 * k + 1 := by omega
      have hge : 2 * k ≤ across n := by
        unfold across
        split_ifs <;> omega
      rw [List.getD_append_right _ _ _ _ (by rw [hlen]; exact hge), hlen]
      obtain rfl | rfl := hcase
      · have hdiv : 2 * k / 2 = k := by omega
        have hmod : 2 * k % 2 = 0 := by omega
        have hpos : across (2 * k) - 2 * k = 1 := by
          unfold across
          rw [if_pos hmod]
          omega
        rw [hpos, hdiv, hmod]
        rfl
      · have hdiv : (2 * k + 1) / 2 = k := by omega
        have hmod : (2 * k + 1) % 2 = 1 := by omega
        have hpos : across (2 * k + 1) - 2 * k = 0 := by
          unfold across
          rw [if_neg (by omega)]
          omega
        rw [hpos, hdiv, hmod]
        rfl

variable (m : MPMessage)

/-- The protocol has the bytes of a half the other way round than the memory. -/
theorem payloadByte_eq {n : Nat} (hn : n < 24) :
    m.payloadByte n = m.payloadBytes.getD (across n) 0 :=
  (flatMap_halfBytes_getD m.iPayload (k := newMpPayloadSize) hn).symm

theorem payloadByte_ofBytes (bytes : List Byte) (n : Nat) :
    MPMessage.payloadByte
      { m with iPayload := fun i => beHalf (bytes.getD (2 * i) 0) (bytes.getD (2 * i + 1) 0) } n =
      bytes.getD (across n) 0 := by
  unfold MPMessage.payloadByte across
  dsimp only
  by_cases heven : n % 2 = 0
  · have hpos : 2 * (n / 2) + 1 = n + 1 := by omega
    rw [if_pos heven, heven, hpos]
    exact BitVec.extractLsb'_append_eq_right
  · have hmod : n % 2 = 1 := by omega
    have hpos : 2 * (n / 2) = n - 1 := by omega
    rw [if_neg heven, hmod, hpos]
    exact BitVec.extractLsb'_append_eq_left

theorem offsetPayload_byte {n : Nat} (hn : n < 24) :
    (offsetPayload m).payloadByte n = m.payloadByte (if n < 23 then n + 1 else n) := by
  have hlen : m.payloadBytes.length = 24 := flatMap_halfBytes_length m.iPayload 12
  have hswap : (swapPairs m.payloadBytes).length = 24 := (swapPairs_length _).trans hlen
  have hlow : ((swapPairs m.payloadBytes).drop 1).length = 23 := by
    rw [List.length_drop, hswap]
  have hhigh : ((swapPairs m.payloadBytes).drop 23).length = 1 := by
    rw [List.length_drop, hswap]
  have heven : (((swapPairs m.payloadBytes).drop 1) ++ (swapPairs m.payloadBytes).drop 23).length % 2 =
      0 := by
    rw [List.length_append, hlow, hhigh]
  have hmoved : (offsetPayload m).payloadByte n =
      (((swapPairs m.payloadBytes).drop 1) ++ (swapPairs m.payloadBytes).drop 23).getD n 0 := by
    unfold offsetPayload
    dsimp only
    rw [payloadByte_ofBytes, swapPairs_getD heven, across_across]
  have hold : ∀ k, k < 24 → (swapPairs m.payloadBytes).getD k 0 = m.payloadByte k := by
    intro k hk
    rw [swapPairs_getD (by rw [hlen]), ← payloadByte_eq m hk]
  rw [hmoved]
  by_cases hlt : n < 23
  · rw [if_pos hlt, List.getD_append _ _ _ _ (by rw [hlow]; exact hlt), ← hold (n + 1) (by omega),
      List.getD_eq_getElem?_getD, List.getElem?_drop, Nat.add_comm 1 n, ← List.getD_eq_getElem?_getD]
  · have hlast : n = 23 := by omega
    rw [if_neg hlt, List.getD_append_right _ _ _ _ (by rw [hlow]; omega), hlow, hlast,
      ← hold 23 (by decide), List.getD_eq_getElem?_getD, List.getElem?_drop,
      ← List.getD_eq_getElem?_getD]

/-- The loops do to the memory of the payload what `offsetPayload` does to the message. -/
theorem offsetPayload_loops {n : Nat} (hn : n < 24) : (offsetPayload m).payloadBytes.getD n 0 =
    (offsetLoops ⟨fun i => m.payloadBytes.getD i 0, []⟩).bytes n := by
  have hstep : (if across n < 23 then across n + 1 else across n) < 24 := by
    have hlt := across_lt (k := 12) hn
    split_ifs <;> omega
  have hbyte := payloadByte_eq (offsetPayload m) (across_lt (k := 12) hn)
  have hloop := offsetLoops_bytes ⟨fun i => m.payloadBytes.getD i 0, []⟩ (across_lt (k := 12) hn)
  rw [across_across] at hbyte hloop
  rw [← hbyte, hloop, offsetPayload_byte m (across_lt (k := 12) hn), payloadByte_eq m hstep]

end Memory

/-- How many words a message to the modem asks for. -/
def MPMessage.words (m : MPMessage) : Nat := (m.iFunction &&& 0xf#16).toNat

/-- A request to read the memory of the modem in bytes. -/
structure DmByteRead where
  m : MPMessage
  sized : m.iFunction &&& 0xc000#16 = byteSize

namespace DmByteRead

variable (r : DmByteRead)

def index : Nat := r.m.iIndex.toNat

def count : Nat := (r.m.iFunction &&& 0xf#16).toNat

/-- The message that goes to the modem. -/
def sent : MPMessage :=
  { r.m with
    iIndex := r.m.iIndex - BitVec.ofNat 16 (r.index % 2)
    iFunction := ((r.m.iFunction &&& ~~~0xf#16) ||| BitVec.ofNat 16 ((r.count + 1) / 2 + 1)) &&&
      ~~~0xc000#16 }

/-- What happens to the payload of the answer. -/
def shift (p : PayloadBytes) : PayloadBytes :=
  if r.index % 2 = 0 then p else offsetLoops p

end DmByteRead

/-- A driver that keeps the messages for the modem. -/
def requestLog : MeiDriver (List MPMessage) where
  ctl _ d := (d, 0)
  remote _ d := d
  firmware d := d
  readDebug p d := (d, p)
  cmvRead p d := (d, p)
  cmvWrite p d := (d, p)
  cmvWinhost m d := (d ++ [m], m)

/-- The modem answers a read at an even index with the words from there on. The memory of each group and
address is one of bytes. -/
def AnswersRead {δ : Type} (mem : Half → Half → Nat → Byte) (mei : MeiDriver δ) : Prop :=
  ∀ m d, (mei.cmvWinhost m d).2.iIndex = m.iIndex ∧
    (m.iIndex.toNat % 2 = 0 → ∀ n, n < 2 * m.words → n < 2 * newMpPayloadSize →
      (mei.cmvWinhost m d).2.payloadByte n = mem m.iGroup m.iAddress (m.iIndex.toNat + n))

/-- The reply has the bytes and names what was asked for. -/
structure DmReplyRight (r : DmByteRead) (mem : Half → Half → Nat → Byte) (tx : MPMessage) : Prop where
  bytes : ∀ n, n < r.count → tx.payloadByte n = mem r.m.iGroup r.m.iAddress (r.index + n)
  index : tx.iIndex = r.m.iIndex
  count : tx.words = r.count

structure DmReadRight (r : DmByteRead) : Prop where
  asks : ∀ s, ∃ m, (readDm requestLog s r.m).dev = s.dev ++ [m] ∧ m.iIndex.toNat ≤ r.index ∧
    r.index + r.count ≤ m.iIndex.toNat + 2 * m.words
  inside : ∀ bytes, ∀ a ∈ (r.shift ⟨bytes, []⟩).touched, a < 2 * newMpPayloadSize
  replies : ∀ (δ : Type) (mei : MeiDriver δ) (mem : Half → Half → Nat → Byte) (s : DebugServer δ),
    AnswersRead mem mei → DmReplyRight r mem (readDm mei s r.m).tx

section Requests

variable {r : DmByteRead}

theorem DmByteRead.count_lt (r : DmByteRead) : r.count < 16 := by
  unfold DmByteRead.count
  rw [BitVec.toNat_and]
  exact lt_of_le_of_lt Nat.and_le_right (by decide)

theorem sent_index : r.sent.iIndex.toNat = r.index - r.index % 2 := by
  have hlt := r.m.iIndex.isLt
  unfold DmByteRead.sent DmByteRead.index
  rw [BitVec.toNat_sub, BitVec.toNat_ofNat]
  omega

/-- The low bits of a function code with other low bits and no size. -/
theorem low_function (f w : Half) : (((f &&& ~~~0xf#16) ||| w) &&& ~~~0xc000#16) &&& 0xf#16 =
    w &&& 0xf#16 := by
  have hsize : ~~~0xc000#16 &&& 0xf#16 = 0xf#16 := by decide
  have hcount : ~~~0xf#16 &&& 0xf#16 = 0#16 := by decide
  rw [BitVec.and_assoc, hsize, BitVec.and_or_distrib_right, BitVec.and_assoc, hcount, BitVec.and_zero,
    BitVec.zero_or]

theorem sent_words : r.sent.words = (r.count + 1) / 2 + 1 := by
  have hcount := r.count_lt
  unfold MPMessage.words DmByteRead.sent
  dsimp only
  rw [low_function, BitVec.toNat_and, BitVec.toNat_ofNat]
  have hmask : (0xf#16).toNat = 2 ^ 4 - 1 := rfl
  rw [hmask, Nat.and_two_pow_sub_one_eq_mod]
  omega

/-- The words that are asked for cover the bytes. -/
theorem sent_covers : r.index + r.count ≤ r.sent.iIndex.toNat + 2 * r.sent.words := by
  rw [sent_index, sent_words]
  omega

variable {δ : Type} {mei : MeiDriver δ} {s : DebugServer δ}

theorem readDm_spec : (readDm mei s r.m).dev = (mei.cmvWinhost r.sent s.dev).1 ∧
    (readDm mei s r.m).tx.iIndex = (mei.cmvWinhost r.sent s.dev).2.iIndex ∧
    (readDm mei s r.m).tx.iFunction = opcodeBits 0x03 ||| (r.m.iFunction &&& 0xf#16) ||| byteSize ∧
    ∀ n, (readDm mei s r.m).tx.payloadByte n =
      if r.index % 2 = 0 then (mei.cmvWinhost r.sent s.dev).2.payloadByte n
      else (offsetPayload (mei.cmvWinhost r.sent s.dev).2).payloadByte n := by
  have hpayload : min (((r.m.iFunction &&& 0xf#16).toNat + 1) / 2 + 1) 12 = (r.count + 1) / 2 + 1 := by
    have hcount := r.count_lt
    unfold DmByteRead.count at hcount ⊢
    omega
  unfold readDm
  dsimp only
  rw [if_pos r.sized, if_pos r.sized, if_pos r.sized, hpayload]
  by_cases heven : r.index % 2 = 0
  · have hoff : ¬(r.m.iIndex.toNat % 2 ≠ 0) := fun h => h heven
    rw [if_neg hoff]
    refine ⟨rfl, rfl, rfl, ?_⟩
    intro n
    rw [if_pos heven]
    rfl
  · have hoff : r.m.iIndex.toNat % 2 ≠ 0 := heven
    rw [if_pos hoff]
    refine ⟨rfl, rfl, rfl, ?_⟩
    intro n
    rw [if_neg heven]
    rfl

theorem readDm_words : (readDm mei s r.m).tx.words = r.count := by
  have hopcode : opcodeBits 0x03 &&& 0xf#16 = 0#16 := by decide
  have hsize : byteSize &&& 0xf#16 = 0#16 := by decide
  have hmask : (opcodeBits 0x03 ||| (r.m.iFunction &&& 0xf#16) ||| byteSize) &&& 0xf#16 =
      r.m.iFunction &&& 0xf#16 := by
    rw [BitVec.and_or_distrib_right, BitVec.and_or_distrib_right, hopcode, hsize, BitVec.and_assoc,
      BitVec.and_self, BitVec.or_zero, BitVec.zero_or]
  unfold MPMessage.words DmByteRead.count
  rw [readDm_spec.2.2.1, hmask]

/-- No access is behind the payload. -/
theorem shift_inside (bytes : Nat → Byte) :
    ∀ a ∈ (r.shift ⟨bytes, []⟩).touched, a < 2 * newMpPayloadSize := by
  intro a ha
  unfold DmByteRead.shift at ha
  split_ifs at ha
  · exact absurd ha List.not_mem_nil
  · obtain hold | hlt := offsetLoops_touched _ a ha
    · exact absurd hold List.not_mem_nil
    · exact hlt

/-- The bytes of the reply are right at every index. -/
theorem readDm_bytes {mem : Half → Half → Nat → Byte} (h : AnswersRead mem mei) {n : Nat}
    (hn : n < r.count) :
    (readDm mei s r.m).tx.payloadByte n = mem r.m.iGroup r.m.iAddress (r.index + n) := by
  have hcount := r.count_lt
  have hsent : r.sent.iIndex.toNat % 2 = 0 := by
    rw [sent_index]
    omega
  have hsize : 2 * newMpPayloadSize = 24 := rfl
  have hanswer : ∀ k, k < r.index % 2 + r.count →
      (mei.cmvWinhost r.sent s.dev).2.payloadByte k =
        mem r.m.iGroup r.m.iAddress (r.index - r.index % 2 + k) := by
    intro k hk
    have hcovers := sent_words (r := r)
    have hread := (h r.sent s.dev).2 hsent k (by omega) (by omega)
    rw [sent_index] at hread
    exact hread
  rw [readDm_spec.2.2.2]
  by_cases heven : r.index % 2 = 0
  · rw [if_pos heven, hanswer n (by omega), heven, Nat.sub_zero]
  · have hplace : r.index - r.index % 2 + (n + 1) = r.index + n := by omega
    rw [if_neg heven, offsetPayload_byte _ (by omega), if_pos (by omega), hanswer (n + 1) (by omega),
      hplace]

end Requests

/-- A modem that answers with the bytes of `mem`. -/
def memoryModem (mem : Half → Half → Nat → Byte) : MeiDriver Unit where
  ctl _ d := (d, 0)
  remote _ d := d
  firmware d := d
  readDebug p d := (d, p)
  cmvRead p d := (d, p)
  cmvWrite p d := (d, p)
  cmvWinhost m d := (d, { m with
    iPayload := fun i =>
      let item (j : Nat) : Byte := mem m.iGroup m.iAddress (m.iIndex.toNat + (2 * i + j))
      beHalf (item 1) (item 0) })

theorem memoryModem_answers (mem : Half → Half → Nat → Byte) : AnswersRead mem (memoryModem mem) := by
  intro m d
  refine ⟨rfl, ?_⟩
  intro _ n _ _
  show (beHalf (mem m.iGroup m.iAddress (m.iIndex.toNat + (2 * (n / 2) + 1)))
    (mem m.iGroup m.iAddress (m.iIndex.toNat + (2 * (n / 2) + 0)))).extractLsb' (8 * (n % 2)) 8 = _
  by_cases heven : n % 2 = 0
  · have hpos : 2 * (n / 2) + 0 = n := by omega
    rw [heven, hpos]
    exact BitVec.extractLsb'_append_eq_right
  · have hmod : n % 2 = 1 := by omega
    have hpos : 2 * (n / 2) + 1 = n := by omega
    rw [hmod, hpos]
    exact BitVec.extractLsb'_append_eq_left

/-- The reply of a modem that names what it is sent is right at even indexes only. -/
theorem even_of_dmReadRight {r : DmByteRead} (h : DmReadRight r) : r.index % 2 = 0 := by
  have hreply := h.replies Unit (memoryModem fun _ _ _ => 0) _
    ⟨(), fun _ => 0, .bare 0, ⟨0, 0, fun _ => 0⟩, [], [], []⟩ (memoryModem_answers _)
  have hindex := congrArg BitVec.toNat hreply.index
  rw [readDm_spec.2.1] at hindex
  have hsent : r.sent.iIndex.toNat = r.index := hindex
  have hlt : r.index % 2 < 2 := Nat.mod_lt _ (by decide)
  have hle := Nat.mod_le r.index 2
  rw [sent_index] at hsent
  omega

theorem dmReadRight_of_even {r : DmByteRead} (heven : r.index % 2 = 0) : DmReadRight r where
  asks := by
    intro s
    refine ⟨r.sent, readDm_spec.1, ?_, sent_covers⟩
    rw [sent_index]
    exact Nat.sub_le _ _
  inside := shift_inside
  replies := by
    intro δ mei mem s h
    have hindex : r.sent.iIndex = r.m.iIndex := by
      unfold DmByteRead.sent
      dsimp only
      rw [heven]
      exact BitVec.sub_zero _
    constructor
    · intro n hn
      exact readDm_bytes h hn
    · rw [readDm_spec.2.1, (h r.sent s.dev).1, hindex]
    · exact readDm_words

/-- The reply to a read at an odd index names the index before it. -/
theorem dm_read_right_iff (r : DmByteRead) : DmReadRight r ↔ r.index % 2 = 0 :=
  ⟨even_of_dmReadRight, dmReadRight_of_even⟩

/-- One byte at index 1. -/
def oneOddByte : DmByteRead := ⟨⟨0x4021#16, 0, 0, 1, fun _ => 0⟩, by decide⟩

theorem odd_index_misnamed : ¬DmReadRight oneOddByte := by
  intro h
  exact absurd (even_of_dmReadRight h) (by decide)

end DanubeBsp
