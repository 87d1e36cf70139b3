import Mathlib.Data.List.Basic
import DanubeBsp.ByteOrder

namespace DanubeBsp

variable {α : Type*}

/-- The first `k` blocks of `n` elements. -/
def blocksOf (n : Nat) : Nat → List α → List (List α)
  | 0, _ => []
  | k + 1, xs => xs.take n :: blocksOf n k (xs.drop n)

/-- The complete blocks of a stream, and what is left behind them. -/
def wholeBlocks (n : Nat) (xs : List α) : List (List α) := blocksOf n (xs.length / n) xs

def blockRest (n : Nat) (xs : List α) : List α := xs.drop (n * (xs.length / n))

theorem wholeBlocks_short {n : Nat} {xs : List α} (h : xs.length < n) : wholeBlocks n xs = [] := by
  unfold wholeBlocks
  rw [Nat.div_eq_of_lt h, blocksOf]

theorem blockRest_short {n : Nat} {xs : List α} (h : xs.length < n) : blockRest n xs = xs := by
  unfold blockRest
  rw [Nat.div_eq_of_lt h, Nat.mul_zero, List.drop_zero]

theorem blockRest_length (n : Nat) (xs : List α) : (blockRest n xs).length = xs.length % n := by
  unfold blockRest
  rw [List.length_drop]
  have h := Nat.div_add_mod xs.length n
  omega

theorem wholeBlocks_cons {n : Nat} (hn : 0 < n) {xs : List α} (h : xs.length = n) (ys : List α) :
    wholeBlocks n (xs ++ ys) = xs :: wholeBlocks n ys := by
  have hdiv : (xs ++ ys).length / n = ys.length / n + 1 := by
    rw [List.length_append, h, Nat.add_comm, Nat.add_div_right _ hn]
  unfold wholeBlocks
  rw [hdiv, blocksOf, ← h, List.take_left, List.drop_left]

theorem blockRest_cons {n : Nat} (hn : 0 < n) {xs : List α} (h : xs.length = n) (ys : List α) :
    blockRest n (xs ++ ys) = blockRest n ys := by
  have hdiv : (xs ++ ys).length / n = ys.length / n + 1 := by
    rw [List.length_append, h, Nat.add_comm, Nat.add_div_right _ hn]
  unfold blockRest
  rw [hdiv, Nat.mul_add, Nat.mul_one, Nat.add_comm, ← List.drop_drop]
  conv_lhs => rw [← h]
  rw [List.drop_left, h]

theorem wholeBlocks_single {n : Nat} (hn : 0 < n) {xs : List α} (h : xs.length = n) :
    wholeBlocks n xs = [xs] := by
  have hcons := wholeBlocks_cons hn h []
  have hnil : ([] : List α).length < n := by simpa using hn
  rwa [List.append_nil, wholeBlocks_short hnil] at hcons

/-- The induction over the blocks of a stream. -/
theorem block_induction {n : Nat} (hn : 0 < n) {P : List α → Prop}
    (short : ∀ xs, xs.length < n → P xs)
    (block : ∀ xs ys, xs.length = n → P ys → P (xs ++ ys)) (xs : List α) : P xs := by
  induction hk : xs.length / n generalizing xs with
  | zero =>
    apply short
    exact Nat.lt_of_div_eq_zero hn hk
  | succ k ih =>
    have hlen : n ≤ xs.length := by
      by_contra hlt
      rw [Nat.div_eq_of_lt (by omega)] at hk
      omega
    have hrest : (xs.drop n).length / n = k := by
      have hsub := Nat.sub_mul_div xs.length n 1
      rw [Nat.mul_one] at hsub
      rw [List.length_drop, hsub, hk, Nat.add_sub_cancel]
    rw [← List.take_append_drop n xs]
    exact block _ _ (by rw [List.length_take]; omega) (ih _ hrest)

/-- Blocks can be taken from a stream as it arrives. -/
theorem wholeBlocks_append {n : Nat} (hn : 0 < n) (xs ys : List α) :
    wholeBlocks n (xs ++ ys) = wholeBlocks n xs ++ wholeBlocks n (blockRest n xs ++ ys) := by
  induction xs using block_induction hn with
  | short xs h => rw [wholeBlocks_short h, blockRest_short h, List.nil_append]
  | block xs zs h ih =>
    rw [List.append_assoc, wholeBlocks_cons hn h, wholeBlocks_cons hn h, blockRest_cons hn h, ih,
      List.cons_append]

theorem blockRest_append {n : Nat} (hn : 0 < n) (xs ys : List α) :
    blockRest n (xs ++ ys) = blockRest n (blockRest n xs ++ ys) := by
  induction xs using block_induction hn with
  | short xs h => rw [blockRest_short h]
  | block xs zs h ih => rw [List.append_assoc, blockRest_cons hn h, blockRest_cons hn h, ih]

theorem flatten_wholeBlocks {n : Nat} (hn : 0 < n) (xs : List α) :
    (wholeBlocks n xs).flatten ++ blockRest n xs = xs := by
  induction xs using block_induction hn with
  | short xs h => rw [wholeBlocks_short h, blockRest_short h, List.flatten_nil, List.nil_append]
  | block xs ys h ih =>
    rw [wholeBlocks_cons hn h, blockRest_cons hn h, List.flatten_cons, List.append_assoc, ih]

/-- A stream of complete blocks leaves nothing over. -/
theorem flatten_wholeBlocks_of_dvd {n : Nat} (hn : 0 < n) {xs : List α} (h : xs.length % n = 0) :
    (wholeBlocks n xs).flatten = xs := by
  have hrest : blockRest n xs = [] := by
    apply List.eq_nil_of_length_eq_zero
    rw [blockRest_length, h]
  have hall := flatten_wholeBlocks hn xs
  rwa [hrest, List.append_nil] at hall

theorem length_of_mem_wholeBlocks {n : Nat} (hn : 0 < n) {xs b : List α}
    (h : b ∈ wholeBlocks n xs) : b.length = n := by
  induction xs using block_induction hn with
  | short xs hs =>
    rw [wholeBlocks_short hs] at h
    simp at h
  | block xs ys hs ih =>
    rw [wholeBlocks_cons hn hs] at h
    rcases List.mem_cons.mp h with rfl | h
    · exact hs
    · exact ih h

/-- Blocks of one length are determined by the elements in them. -/
theorem wholeBlocks_flatten {n : Nat} (hn : 0 < n) {xs : List (List α)}
    (h : ∀ x ∈ xs, x.length = n) : wholeBlocks n xs.flatten = xs := by
  induction xs with
  | nil => exact wholeBlocks_short hn
  | cons x xs ih =>
    rw [List.flatten_cons, wholeBlocks_cons hn (h x List.mem_cons_self),
      ih (fun y hy => h y (List.mem_cons_of_mem x hy))]

theorem full_le (n : Nat) (chunks : List (List α)) :
    n * (chunks.filter fun c => c.length = n).length ≤ chunks.flatten.length := by
  induction chunks with
  | nil => simp
  | cons c cs ih =>
    rw [List.flatten_cons, List.length_append]
    by_cases hc : c.length = n
    · rw [List.filter_cons_of_pos (by simpa using hc), List.length_cons, Nat.mul_succ]
      omega
    · rw [List.filter_cons_of_neg (by simpa using hc)]
      omega

/-- Where the full blocks hold all the bytes there is no other block. -/
theorem full_of_count {n : Nat} {chunks : List (List α)}
    (hpos : ∀ c ∈ chunks, 0 < c.length)
    (h : n * (chunks.filter fun c => c.length = n).length = chunks.flatten.length) :
    ∀ c ∈ chunks, c.length = n := by
  induction chunks with
  | nil => simp
  | cons c cs ih =>
    have hc := hpos c List.mem_cons_self
    have hle := full_le n cs
    rw [List.flatten_cons, List.length_append] at h
    by_cases hfull : c.length = n
    · rw [List.filter_cons_of_pos (by simpa using hfull), List.length_cons, Nat.mul_succ] at h
      have hrest := ih (fun d hd => hpos d (List.mem_cons_of_mem c hd)) (by omega)
      intro d hd
      obtain rfl | hd := List.mem_cons.mp hd
      · exact hfull
      · exact hrest d hd
    · rw [List.filter_cons_of_neg (by simpa using hfull)] at h
      omega

theorem length_flatten_blocks {n : Nat} {xs : List (List α)}
    (h : ∀ x ∈ xs, x.length = n) : xs.flatten.length = n * xs.length := by
  induction xs with
  | nil => rfl
  | cons x xs ih =>
    rw [List.flatten_cons, List.length_append, h x List.mem_cons_self,
      ih (fun y hy => h y (List.mem_cons_of_mem x hy)), List.length_cons, Nat.mul_succ]
    omega

/-- The padding of a message for a hash of 64-byte blocks: a one bit, zeros up to 56 modulo 64, and the
number of message bits in the encoding `enc`. -/
def mdPad (enc : Nat → List Byte) (msg : List Byte) : List Byte :=
  msg ++ 0x80 :: (List.replicate ((119 - msg.length % 64) % 64) 0 ++ enc (8 * msg.length))

/-- The low 64 bits of a number as eight bytes. -/
def bigEndian64 (n : Nat) : List Byte :=
  (List.range 8).map fun k => BitVec.ofNat 8 (n / 2 ^ (8 * (7 - k)))

def littleEndian64 (n : Nat) : List Byte :=
  (List.range 8).map fun k => BitVec.ofNat 8 (n / 2 ^ (8 * k))

@[simp] theorem littleEndian64_length (n : Nat) : (littleEndian64 n).length = 8 := rfl

end DanubeBsp
