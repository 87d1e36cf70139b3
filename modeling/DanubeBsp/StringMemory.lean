import DanubeBsp.WordMemory

namespace DanubeBsp

section StringMemory

variable {α : Type*} {nul : α} {mem mem' : Nat → α} {a z : Nat} {b : α} {s t : List α}

/-- The string at an address: the cells before the first that holds `nul`. -/
def StringAt (nul : α) (mem : Nat → α) (a : Nat) (s : List α) : Prop :=
  BlockAt mem a (s ++ [nul]) ∧ ∀ b ∈ s, b ≠ nul

theorem stringAt_nil : StringAt nul mem a [] ↔ mem a = nul := by
  constructor
  · intro h
    exact h.1.1
  · intro h
    exact ⟨⟨h, trivial⟩, fun b hb => absurd hb List.not_mem_nil⟩

theorem stringAt_cons :
    StringAt nul mem a (b :: s) ↔ mem a = b ∧ b ≠ nul ∧ StringAt nul mem (a + 1) s := by
  constructor
  · rintro ⟨⟨hb, hblock⟩, hall⟩
    exact ⟨hb, hall b List.mem_cons_self, hblock, fun c hc => hall c (List.mem_cons_of_mem b hc)⟩
  · rintro ⟨hb, hne, hblock, hall⟩
    refine ⟨⟨hb, hblock⟩, ?_⟩
    intro c hc
    rcases List.mem_cons.mp hc with rfl | hc
    · exact hne
    · exact hall c hc

theorem stringAt_append : StringAt nul mem a (s ++ t) ↔
    BlockAt mem a s ∧ (∀ b ∈ s, b ≠ nul) ∧ StringAt nul mem (a + s.length) t := by
  unfold StringAt
  rw [List.append_assoc, blockAt_append, List.forall_mem_append]
  exact ⟨fun ⟨⟨hs, ht⟩, hs', ht'⟩ => ⟨hs, hs', ht, ht'⟩,
    fun ⟨hs, hs', ht, ht'⟩ => ⟨⟨hs, ht⟩, hs', ht'⟩⟩

theorem StringAt.at_end (h : StringAt nul mem a s) : mem (a + s.length) = nul :=
  (blockAt_append.mp h.1).2.1

theorem StringAt.congr (heq : ∀ i, a ≤ i → i ≤ a + s.length → mem' i = mem i)
    (h : StringAt nul mem a s) : StringAt nul mem' a s := by
  refine ⟨blockAt_congr ?_ h.1, h.2⟩
  intro i hi hlt
  rw [List.length_append, List.length_singleton] at hlt
  exact heq i hi (by omega)

/-- Cells that do not hold `nul` are in the string. -/
theorem StringAt.block_prefix (hs : BlockAt mem a s) (hne : ∀ b ∈ s, b ≠ nul)
    (ht : StringAt nul mem a t) : s <+: t := by
  induction s generalizing a t with
  | nil => exact List.nil_prefix
  | cons b s ih =>
    have hb := hne b List.mem_cons_self
    cases t with
    | nil => exact absurd (hs.1.symm.trans (stringAt_nil.mp ht)) hb
    | cons c t =>
      obtain ⟨hc, _, ht⟩ := stringAt_cons.mp ht
      rw [hs.1.symm.trans hc]
      exact (List.prefix_cons_inj c).mpr
        (ih hs.2 (fun b hb => hne b (List.mem_cons_of_mem _ hb)) ht)

theorem StringAt.unique (hs : StringAt nul mem a s) (ht : StringAt nul mem a t) : s = t := by
  have hst := StringAt.block_prefix (blockAt_append.mp hs.1).1 hs.2 ht
  have hts := StringAt.block_prefix (blockAt_append.mp ht.1).1 ht.2 hs
  exact hst.eq_of_length (le_antisymm hst.length_le hts.length_le)

theorem exists_stringAt (h : mem z = nul) (hle : a ≤ z) :
    ∃ s, StringAt nul mem a s ∧ a + s.length ≤ z := by
  obtain ⟨n, rfl⟩ := Nat.exists_eq_add_of_le hle
  induction n generalizing a with
  | zero => exact ⟨[], stringAt_nil.mpr h, Nat.le_refl _⟩
  | succ n ih =>
    by_cases ha : mem a = nul
    · exact ⟨[], stringAt_nil.mpr ha, Nat.le_add_right _ _⟩
    · have hnext : a + (n + 1) = a + 1 + n := by omega
      rw [hnext] at h
      obtain ⟨s, hs, hle⟩ := ih h (Nat.le_add_right _ _)
      refine ⟨mem a :: s, stringAt_cons.mpr ⟨rfl, ha, hs⟩, ?_⟩
      rw [List.length_cons]
      omega

/-- A string written behind a string. -/
theorem stringAt_writeBlock (hs : StringAt nul mem a s) (ht : ∀ b ∈ t, b ≠ nul) :
    StringAt nul (writeBlock mem (a + s.length) (t ++ [nul])) a (s ++ t) := by
  refine stringAt_append.mpr ⟨?_, hs.2, blockAt_writeBlock _ _ _, ht⟩
  refine blockAt_congr ?_ (blockAt_append.mp hs.1).1
  intro i _ hi
  exact writeBlock_outside (.inl hi)

theorem blockAt_readBlock (mem : Nat → α) (a n : Nat) : BlockAt mem a (readBlock mem a n) := by
  induction n generalizing a with
  | zero => trivial
  | succ n ih =>
    rw [Nat.add_comm, readBlock_add]
    exact blockAt_append.mpr ⟨⟨rfl, trivial⟩, ih (a + 1)⟩

/-- A string starts with a word without `nul` if the cells do. -/
theorem StringAt.readBlock_eq_iff (hs : StringAt nul mem a s) (ht : ∀ b ∈ t, b ≠ nul) :
    readBlock mem a t.length = t ↔ t <+: s := by
  constructor
  · intro h
    have hblock := blockAt_readBlock mem a t.length
    rw [h] at hblock
    exact StringAt.block_prefix hblock ht hs
  · rintro ⟨rest, rfl⟩
    exact readBlock_of_blockAt (stringAt_append.mp hs).1

section Search

variable [DecidableEq α]

/-- The end of the string at `a`, which is looked for in `fuel` cells. -/
def strend (nul : α) (mem : Nat → α) : Nat → Nat → Option Nat
  | 0, _ => none
  | fuel + 1, a => if mem a = nul then some a else strend nul mem fuel (a + 1)

theorem strend_eq_some_iff {fuel : Nat} : strend nul mem fuel a = some z ↔
    ∃ s, StringAt nul mem a s ∧ s.length < fuel ∧ z = a + s.length := by
  induction fuel generalizing a with
  | zero =>
    refine iff_of_false (fun h => by cases h) ?_
    rintro ⟨s, _, hlt, _⟩
    exact Nat.not_lt_zero _ hlt
  | succ fuel ih =>
    unfold strend
    by_cases ha : mem a = nul
    · rw [if_pos ha]
      constructor
      · intro h
        exact ⟨[], stringAt_nil.mpr ha, Nat.succ_pos fuel, (Option.some.inj h).symm⟩
      · rintro ⟨s, hs, _, hz⟩
        rw [hz, hs.unique (stringAt_nil.mpr ha)]
        rfl
    · rw [if_neg ha, ih]
      constructor
      · rintro ⟨s, hs, hlt, hz⟩
        refine ⟨mem a :: s, stringAt_cons.mpr ⟨rfl, ha, hs⟩, Nat.succ_lt_succ hlt, ?_⟩
        rw [List.length_cons]
        omega
      · rintro ⟨s, hs, hlt, hz⟩
        cases s with
        | nil => exact absurd (stringAt_nil.mp hs) ha
        | cons b s =>
          rw [List.length_cons] at hlt hz
          exact ⟨s, (stringAt_cons.mp hs).2.2, by omega, by omega⟩

end Search

end StringMemory

end DanubeBsp
