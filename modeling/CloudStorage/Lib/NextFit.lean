import Mathlib.Data.List.Induction

/-!
# Next fit

Items are put into groups in their order: the last group takes the next item if
it may join, and otherwise the item begins a group of its own.
-/

namespace NextFit

variable {α : Type} (joins : List α → α → Prop) [∀ group item, Decidable (joins group item)]

def place (groups : List (List α)) (item : α) : List (List α) :=
  match groups.getLast? with
  | none => [[item]]
  | some group =>
    if joins group item then groups.dropLast ++ [group ++ [item]] else groups ++ [[item]]

def fill (items : List α) : List (List α) := items.foldl (place joins) []

theorem place_nil (item : α) : place joins [] item = [[item]] := rfl

theorem fill_snoc (items : List α) (item : α) :
    fill joins (items ++ [item]) = place joins (fill joins items) item := by
  simp only [fill, List.foldl_append, List.foldl_cons, List.foldl_nil]

variable {joins}

theorem place_joined {groups : List (List α)} {group : List α} {item : α} (h : joins group item) :
    place joins (groups ++ [group]) item = groups ++ [group ++ [item]] := by
  rw [place, List.getLast?_concat]
  simp only [if_pos h, List.dropLast_concat]

theorem place_apart {groups : List (List α)} {group : List α} {item : α}
    (h : ¬joins group item) :
    place joins (groups ++ [group]) item = groups ++ [group] ++ [[item]] := by
  rw [place, List.getLast?_concat]
  simp only [if_neg h]

theorem flatten_place (groups : List (List α)) (item : α) :
    (place joins groups item).flatten = groups.flatten ++ [item] := by
  cases groups using List.reverseRecOn with
  | nil => rfl
  | append_singleton groups group =>
    by_cases h : joins group item
    · rw [place_joined h]
      simp only [List.flatten_append, List.flatten_cons, List.flatten_nil, List.append_nil,
        List.append_assoc]
    · rw [place_apart h]
      simp only [List.flatten_append, List.flatten_cons, List.flatten_nil, List.append_nil]

/-- Every item is in one group, and the order is kept. -/
theorem flatten_fill (items : List α) : (fill joins items).flatten = items := by
  induction items using List.reverseRecOn with
  | nil => rfl
  | append_singleton items item ih => rw [fill_snoc, flatten_place, ih]

/-- What holds of a group of one item, and still does when an item joins. -/
theorem fill_forall {P : List α → Prop} (hone : ∀ item, P [item])
    (hjoin : ∀ group item, P group → joins group item → P (group ++ [item])) (items : List α) :
    ∀ group ∈ fill joins items, P group := by
  induction items using List.reverseRecOn with
  | nil =>
    intro group hmem
    cases hmem
  | append_singleton items item ih =>
    rw [fill_snoc]
    generalize fill joins items = groups at ih
    intro group hmem
    cases groups using List.reverseRecOn with
    | nil =>
      rw [place_nil, List.mem_singleton] at hmem
      rw [hmem]
      exact hone item
    | append_singleton groups last =>
      by_cases h : joins last item
      · rw [place_joined h, List.mem_append, List.mem_singleton] at hmem
        rcases hmem with hmem | rfl
        · exact ih group (List.mem_append_left _ hmem)
        · exact hjoin last item (ih last (by simp)) h
      · rw [place_apart h, List.mem_append, List.mem_singleton] at hmem
        rcases hmem with hmem | rfl
        · exact ih group hmem
        · exact hone item

end NextFit
