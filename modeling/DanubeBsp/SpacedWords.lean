import Mathlib.Data.List.Basic

namespace DanubeBsp

section SpacedWords

/-- The words in order, with at least one separator between two of them and any number of separators
before and behind. -/
inductive Spaced {α : Type*} (sep : α) : List (List α) → List α → Prop
  | nil : Spaced sep [] []
  | sep {ws line} : Spaced sep ws line → Spaced sep ws (sep :: line)
  | last (w) : Spaced sep [w] w
  | word (w) {ws line} : Spaced sep ws line → Spaced sep (w :: ws) (w ++ sep :: line)

variable {α : Type*} {sep : α} {w line : List α} {ws vs : List (List α)}

/-- The words, each with a separator behind it. -/
def spread (sep : α) (ws : List (List α)) : List α := (ws.map (· ++ [sep])).flatten

theorem spread_cons (sep : α) (w : List α) (ws : List (List α)) :
    spread sep (w :: ws) = w ++ sep :: spread sep ws := by
  unfold spread
  rw [List.map_cons, List.flatten_cons, List.append_assoc, List.singleton_append]

theorem spread_append (sep : α) (ws vs : List (List α)) :
    spread sep (ws ++ vs) = spread sep ws ++ spread sep vs := by
  unfold spread
  rw [List.map_append, List.flatten_append]

theorem spread_concat (sep : α) (ws : List (List α)) (w : List α) :
    spread sep (ws ++ [w]) = spread sep ws ++ w ++ [sep] := by
  rw [spread_append, spread_cons, List.append_assoc]
  rfl

theorem length_spread_le_of_prefix (sep : α) (h : ws <+: vs) :
    (spread sep ws).length ≤ (spread sep vs).length := by
  obtain ⟨us, rfl⟩ := h
  rw [spread_append, List.length_append]
  exact Nat.le_add_right _ _

theorem spread_eq_intercalate (sep : α) (h : ws ≠ []) :
    spread sep ws = [sep].intercalate ws ++ [sep] := by
  induction ws with
  | nil => exact absurd rfl h
  | cons w ws ih =>
    by_cases hws : ws = []
    · rw [hws, List.intercalate_singleton]
      exact spread_cons sep w []
    · rw [spread_cons, ih hws, List.intercalate_cons_of_ne_nil hws]
      simp only [List.append_assoc, List.cons_append, List.nil_append]

theorem length_intercalate_succ (sep : α) (h : ws ≠ []) :
    ([sep].intercalate ws).length + 1 = (spread sep ws).length := by
  rw [spread_eq_intercalate sep h, List.length_append]
  rfl

/-- Up to the end of one of the words. -/
theorem prefix_intercalate (sep : α) (ws : List (List α)) (w : List α) (vs : List (List α)) :
    spread sep ws ++ w <+: [sep].intercalate (ws ++ w :: vs) := by
  have hne : ws ++ w :: vs ≠ [] := List.append_ne_nil_of_right_ne_nil ws (List.cons_ne_nil w vs)
  have hspread : spread sep (ws ++ w :: vs) = spread sep ws ++ w ++ sep :: spread sep vs := by
    rw [spread_append, spread_cons, List.append_assoc]
  have hwhole : [sep].intercalate (ws ++ w :: vs) <+: spread sep (ws ++ w :: vs) := by
    rw [spread_eq_intercalate sep hne]
    exact List.prefix_append _ _
  have hlen := length_intercalate_succ sep hne
  rw [hspread] at hwhole hlen
  refine List.prefix_of_prefix_length_le (List.prefix_append _ _) hwhole ?_
  have hsplit : (spread sep ws ++ w ++ sep :: spread sep vs).length =
      (spread sep ws ++ w).length + ((spread sep vs).length + 1) := List.length_append
  omega

theorem spaced_nil_iff : Spaced sep [] line ↔ ∀ b ∈ line, b = sep := by
  constructor
  · intro h
    generalize hws : ([] : List (List α)) = ws at h
    induction h with
    | nil => exact fun b hb => absurd hb List.not_mem_nil
    | sep _ ih =>
      intro b hb
      rcases List.mem_cons.mp hb with rfl | hb
      · rfl
      · exact ih hws b hb
    | last w => cases hws
    | word w _ => cases hws
  · intro h
    induction line with
    | nil => exact .nil
    | cons b line ih =>
      rw [h b List.mem_cons_self]
      exact .sep (ih fun c hc => h c (List.mem_cons_of_mem b hc))

/-- An empty word shows as a separator more. -/
theorem Spaced.behind_spread [DecidableEq α] (h : Spaced sep vs line) (ws : List (List α)) :
    Spaced sep (ws.filter (· ≠ []) ++ vs) (spread sep ws ++ line) := by
  induction ws with
  | nil => exact h
  | cons w ws ih =>
    rw [spread_cons, List.append_assoc, List.cons_append]
    by_cases hw : w = []
    · rw [hw, List.filter_cons_of_neg (by simp)]
      exact .sep ih
    · rw [List.filter_cons_of_pos (by simpa using hw)]
      exact .word w ih

/-- What is not a separator stands in the line as in the words. -/
theorem Spaced.filter_ne [DecidableEq α] (h : Spaced sep ws line) :
    line.filter (· ≠ sep) = ws.flatten.filter (· ≠ sep) := by
  induction h with
  | nil => rfl
  | sep _ ih => rw [List.filter_cons_of_neg (by simp), ih]
  | last w => rw [List.flatten_singleton]
  | word w _ ih =>
    rw [List.filter_append, List.filter_cons_of_neg (by simp), ih, List.flatten_cons,
      List.filter_append]

theorem filter_spread [DecidableEq α] (sep : α) (ws : List (List α)) :
    (spread sep ws).filter (· ≠ sep) = (ws.filter (· ≠ [])).flatten.filter (· ≠ sep) := by
  have h := (@Spaced.nil α sep).behind_spread ws
  rw [List.append_nil, List.append_nil] at h
  exact h.filter_ne

/-- In a line of words, what stands behind the first of them has the characters of the others. -/
theorem Spaced.filter_rest [DecidableEq α]
    (h : Spaced sep (ws.filter (· ≠ []) ++ vs) (spread sep ws ++ line)) :
    line.filter (· ≠ sep) = vs.flatten.filter (· ≠ sep) := by
  have hall := h.filter_ne
  rw [List.filter_append, filter_spread, List.flatten_append, List.filter_append] at hall
  exact List.append_cancel_left hall

end SpacedWords

end DanubeBsp
