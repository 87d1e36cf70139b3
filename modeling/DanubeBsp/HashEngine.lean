import DanubeBsp.WordMemory

namespace DanubeBsp

/-- The two algorithms of the hash unit, by its `ALGO` bit. -/
inductive HashAlgo
  | sha1
  | md5
  deriving DecidableEq

/-- The digest registers `D1R` to `D5R`. -/
abbrev HashDigest := Fin 5 → Word

/-- What the hash unit computes: the start value of `INIT` and the compression of a block of 16 words. -/
structure HashCore where
  iv : HashAlgo → HashDigest
  compress : HashAlgo → HashDigest → List Word → HashDigest

/-- The hash unit. `fill` holds the words of a block that is not complete. -/
structure HashUnit where
  algo : HashAlgo
  digest : HashDigest
  fill : List Word

/-- Write `ALGO` and then 1 to `INIT`. -/
def initHash (core : HashCore) (algo : HashAlgo) : HashUnit := ⟨algo, core.iv algo, []⟩

/-- A write to `MR`; the 16th word of a block starts the compression. -/
def writeMR (core : HashCore) (u : HashUnit) (w : Word) : HashUnit :=
  if u.fill.length + 1 = 16 then
    { u with digest := core.compress u.algo u.digest (u.fill ++ [w]), fill := [] }
  else { u with fill := u.fill ++ [w] }

def feedWords (core : HashCore) (u : HashUnit) (ws : List Word) : HashUnit :=
  ws.foldl (writeMR core) u

def feedBlocks (core : HashCore) (u : HashUnit) (bs : List (List Word)) : HashUnit :=
  bs.foldl (feedWords core) u

/-- The words that complete a block are compressed with those before them. -/
theorem feedWords_complete (core : HashCore) {u : HashUnit} {ws : List Word} (hne : ws ≠ [])
    (hlen : u.fill.length + ws.length = 16) :
    feedWords core u ws =
      { u with digest := core.compress u.algo u.digest (u.fill ++ ws), fill := [] } := by
  induction ws generalizing u with
  | nil => exact absurd rfl hne
  | cons w ws ih =>
    rw [List.length_cons] at hlen
    unfold feedWords
    rw [List.foldl_cons]
    by_cases hnil : ws = []
    · subst hnil
      rw [List.length_nil] at hlen
      rw [List.foldl_nil, writeMR, if_pos hlen]
    · have hpos : 0 < ws.length := List.length_pos_iff.mpr hnil
      have hmore : u.fill.length + 1 ≠ 16 := by omega
      have hrest := ih (u := { u with fill := u.fill ++ [w] }) hnil
        (by rw [List.length_append, List.length_singleton]; omega)
      rw [writeMR, if_neg hmore]
      rw [List.append_assoc, List.singleton_append] at hrest
      exact hrest

/-- Complete blocks are compressed one after the other. -/
theorem feedBlocks_eq (core : HashCore) {u : HashUnit} {bs : List (List Word)}
    (hfill : u.fill = []) (hbs : ∀ b ∈ bs, b.length = 16) :
    feedBlocks core u bs = { u with digest := bs.foldl (core.compress u.algo) u.digest } := by
  induction bs generalizing u with
  | nil => rfl
  | cons b bs ih =>
    have hb := hbs b List.mem_cons_self
    have hne : b ≠ [] := by
      intro h
      rw [h] at hb
      simp at hb
    have hblock := feedWords_complete core hne
      (show u.fill.length + b.length = 16 by rw [hfill, hb, List.length_nil, Nat.zero_add])
    rw [hfill, List.nil_append] at hblock
    unfold feedBlocks
    rw [List.foldl_cons, hblock, List.foldl_cons]
    have hrest := ih (u := { u with digest := core.compress u.algo u.digest b, fill := [] }) rfl
      (fun c hc => hbs c (List.mem_cons_of_mem b hc))
    unfold feedBlocks at hrest
    rw [hrest, hfill]

end DanubeBsp
