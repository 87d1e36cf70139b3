import Mathlib.Data.List.Induction
import Mathlib.Data.List.Nodup
import Mathlib.Logic.Function.Basic

namespace DanubeBsp

/-- What a link of a circular list with elements `α` can be: `NULL`, the head or an element. -/
inductive ListPtr (α : Type*)
  | null
  | head
  | elem (a : α)
  deriving DecidableEq

def ListPtr.elem? {α : Type*} : ListPtr α → Option α
  | .elem a => some a
  | _ => none

/-- The `next` and the `prev` members of the head and of all elements. -/
structure Links (α : Type*) where
  next : ListPtr α → ListPtr α
  prev : ListPtr α → ListPtr α

variable {α : Type*}

theorem elem_ne_head (a : α) : ListPtr.elem a ≠ .head := nofun

/-- The links `f` lead from `p` through the elements of `l` to `q`. -/
def Linked (f : ListPtr α → ListPtr α) : ListPtr α → List α → ListPtr α → Prop
  | p, [], q => f p = q
  | p, a :: l, q => f p = .elem a ∧ Linked f (.elem a) l q

/-- The last node of a path that begins at `p`. -/
def lastPtr : ListPtr α → List α → ListPtr α
  | p, [] => p
  | _, a :: l => lastPtr (.elem a) l

def firstPtr : List α → ListPtr α
  | [] => .head
  | a :: _ => .elem a

/-- The elements met on the way from `p` along `f`, `n` at most. -/
def follow (f : ListPtr α → ListPtr α) : Nat → ListPtr α → List α
  | 0, _ => []
  | n + 1, p =>
    match p with
    | .elem a => a :: follow f n (f (.elem a))
    | _ => []

/-- Both directions of a list with the elements `l`. -/
structure IsList (s : Links α) (l : List α) : Prop where
  next : Linked s.next .head l .head
  prev : Linked s.prev .head l.reverse .head

theorem Linked.congr {f g : ListPtr α → ListPtr α} {p p' q : ListPtr α} {l : List α}
    (hp : g p' = f p) (hl : ∀ a ∈ l, g (.elem a) = f (.elem a)) (h : Linked f p l q) :
    Linked g p' l q := by
  induction l generalizing p p' with
  | nil => exact hp.trans h
  | cons a l ih =>
    obtain ⟨ha, h⟩ := h
    refine ⟨hp.trans ha, ?_⟩
    exact ih (hl a List.mem_cons_self) (fun b hb => hl b (List.mem_cons_of_mem a hb)) h

theorem linked_snoc {f : ListPtr α → ListPtr α} {p q : ListPtr α} {l : List α} {a : α} :
    Linked f p (l ++ [a]) q ↔ Linked f p l (.elem a) ∧ f (.elem a) = q := by
  induction l generalizing p with
  | nil => exact Iff.rfl
  | cons b l ih =>
    rw [List.cons_append, Linked, ih, Linked]
    exact and_assoc.symm

theorem lastPtr_snoc (p : ListPtr α) (l : List α) (a : α) : lastPtr p (l ++ [a]) = .elem a := by
  induction l generalizing p with
  | nil => rfl
  | cons b l ih => exact ih _

theorem lastPtr_mem (p : ListPtr α) (l : List α) : lastPtr p l ∈ p :: l.map .elem := by
  cases l using List.reverseRecOn with
  | nil => exact List.mem_cons_self
  | append_singleton l a _ =>
    rw [lastPtr_snoc]
    exact List.mem_cons_of_mem _ (List.mem_map_of_mem (List.mem_append_right l List.mem_cons_self))

theorem Linked.first_eq {f : ListPtr α → ListPtr α} {p : ListPtr α} {l : List α}
    (h : Linked f p l .head) : f p = firstPtr l := by
  cases l with
  | nil => exact h
  | cons a l => exact h.1

theorem firstPtr_reverse (l : List α) : firstPtr l.reverse = lastPtr .head l := by
  cases l using List.reverseRecOn with
  | nil => rfl
  | append_singleton l a _ =>
    rw [List.reverse_append, List.reverse_singleton, lastPtr_snoc]
    rfl

theorem firstPtr_elem? (l : List α) : (firstPtr l).elem? = l.head? := by
  cases l <;> rfl

theorem firstPtr_ne_null (l : List α) : firstPtr l ≠ .null := by
  cases l <;> exact nofun

theorem firstPtr_eq_head {l : List α} : firstPtr l = .head ↔ l = [] := by
  cases l with
  | nil => simp [firstPtr]
  | cons a l => simp [firstPtr]

theorem Linked.follow_eq {f : ListPtr α → ListPtr α} {p : ListPtr α} {l : List α} {n : Nat}
    (h : Linked f p l .head) (hn : l.length ≤ n) : follow f n (f p) = l := by
  induction l generalizing p n with
  | nil =>
    have hp : f p = .head := h
    cases n with
    | zero => rfl
    | succ n => rw [hp]; rfl
  | cons a l ih =>
    obtain ⟨n, rfl⟩ : ∃ m, n = m + 1 := Nat.exists_eq_add_one.mpr (by
      rw [List.length_cons] at hn
      omega)
    rw [h.1]
    show a :: follow f n (f (.elem a)) = a :: l
    rw [ih h.2 (by simpa using hn)]

theorem nodup_head_map {l : List α} (h : l.Nodup) :
    (ListPtr.head :: l.map ListPtr.elem).Nodup := by
  have hinj : Function.Injective (@ListPtr.elem α) := fun a b hab => ListPtr.elem.inj hab
  exact List.nodup_cons.mpr ⟨by simp, List.Nodup.map hinj h⟩

variable [DecidableEq α]

/-- A store into the link of the last node gives the path another end. -/
theorem Linked.store_last {f : ListPtr α → ListPtr α} {p q : ListPtr α} {l : List α}
    (r : ListPtr α) (hnd : (p :: l.map .elem).Nodup) (h : Linked f p l q) :
    Linked (Function.update f (lastPtr p l) r) p l r := by
  induction l generalizing p with
  | nil => exact Function.update_self _ _ _
  | cons a l ih =>
    rw [List.map_cons] at hnd
    obtain ⟨hp, hnd⟩ := List.nodup_cons.mp hnd
    refine ⟨?_, ih hnd h.2⟩
    have hne : p ≠ lastPtr (.elem a) l := by
      intro hlast
      exact hp (hlast ▸ lastPtr_mem (.elem a) l)
    rw [lastPtr, Function.update_of_ne hne]
    exact h.1

/-- The store `prev->next = new` of an insertion before the head, when `new->next` is set. -/
theorem Linked.add_next {f : ListPtr α → ListPtr α} {l : List α} {a : α} (hnd : l.Nodup)
    (ha : a ∉ l) (hnew : f (.elem a) = .head) (h : Linked f .head l .head) :
    Linked (Function.update f (lastPtr .head l) (.elem a)) .head (l ++ [a]) .head := by
  refine linked_snoc.mpr ⟨h.store_last _ (nodup_head_map hnd), ?_⟩
  have hne : ListPtr.elem a ≠ lastPtr .head l := by
    intro he
    have hmem := lastPtr_mem .head l
    rw [← he] at hmem
    exact ha (by simpa using hmem)
  rw [Function.update_of_ne hne, hnew]

/-- The `prev` links of an insertion before the head: with `head->prev` as it was, they are those of
the old list, and the new element leads there. -/
theorem Linked.add_prev {f : ListPtr α → ListPtr α} {l : List α} {a : α} {p : ListPtr α}
    (hhead : f .head = .elem a) (hnew : f (.elem a) = p)
    (h : Linked (Function.update f .head p) .head l.reverse .head) :
    Linked f .head (l ++ [a]).reverse .head := by
  rw [List.reverse_append, List.reverse_singleton, List.singleton_append]
  refine ⟨hhead, h.congr ?_ ?_⟩
  · rw [hnew, Function.update_self]
  · intro b _
    rw [Function.update_of_ne (elem_ne_head b)]

/-- The links of the first element and the store `next->prev = prev` of its removal. -/
theorem IsList.del_prev {s : Links α} {l : List α} {a : α} (hnd : l.Nodup)
    (h : IsList s (a :: l)) :
    s.next (.elem a) = firstPtr l ∧ s.prev (.elem a) = .head ∧
      Linked (Function.update s.prev (firstPtr l) .head) .head l.reverse .head := by
  have hp := h.prev
  rw [List.reverse_cons] at hp
  obtain ⟨hp, ha⟩ := linked_snoc.mp hp
  refine ⟨h.next.2.first_eq, ha, ?_⟩
  have hlast : firstPtr l = lastPtr .head l.reverse := by
    rw [← firstPtr_reverse, List.reverse_reverse]
  rw [hlast]
  exact hp.store_last _ (nodup_head_map (List.nodup_reverse.mpr hnd))

/-- The store `prev->next = next` when the first element is removed. -/
theorem Linked.del_next {f : ListPtr α → ListPtr α} {l : List α} {a : α}
    (h : Linked f .head (a :: l) .head) :
    Linked (Function.update f .head (firstPtr l)) .head l .head := by
  refine h.2.congr ?_ ?_
  · rw [Function.update_self, h.2.first_eq]
  · intro b _
    rw [Function.update_of_ne (elem_ne_head b)]

/-- A store into an element that is not in the list. -/
theorem Linked.store_out {f : ListPtr α → ListPtr α} {p q : ListPtr α} {l : List α} {a : α}
    (r : ListPtr α) (hp : p ≠ .elem a) (ha : a ∉ l) (h : Linked f p l q) :
    Linked (Function.update f (.elem a) r) p l q := by
  refine h.congr (Function.update_of_ne hp _ _) ?_
  intro b hb
  apply Function.update_of_ne
  rintro he
  cases he
  exact ha hb

end DanubeBsp
