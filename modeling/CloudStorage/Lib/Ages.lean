import Mathlib.Data.List.Infix

/-!
# Contents by age

A row of places, one for each age, and what they hold with the oldest first. Contents
move on from one age to the next, and grow where they are youngest.
-/

namespace Ages

variable {α : Type} {f f' : Nat → List α} {m n j : Nat}

/-- What is younger than `n`, the oldest first. -/
def below (f : Nat → List α) : Nat → List α
  | 0 => []
  | n + 1 => f n ++ below f n

theorem below_congr (h : ∀ i < n, f' i = f i) : below f' n = below f n := by
  induction n with
  | zero => rfl
  | succ n ih =>
    have hrest := ih fun i hi => h i (Nat.lt_succ_of_lt hi)
    rw [below, below, hrest, h n (Nat.lt_succ_self n)]

theorem suffix_of_le (h : m ≤ n) : below f m <:+ below f n := by
  induction h with
  | refl => exact List.suffix_refl _
  | step _ ih => exact ih.trans (List.suffix_append _ _)

/-- The youngest grows. -/
theorem below_grown {data : List α} (hfirst : f' 0 = f 0 ++ data)
    (hother : ∀ i, 0 < i → f' i = f i) (hn : 0 < n) : below f' n = below f n ++ data := by
  induction n with
  | zero => omega
  | succ n ih =>
    cases n with
    | zero =>
      show f' 0 ++ [] = f 0 ++ [] ++ data
      rw [hfirst, List.append_nil, List.append_nil]
    | succ n =>
      have hrest := ih (Nat.succ_pos n)
      rw [below, hrest, hother (n + 1) (Nat.succ_pos n), ← List.append_assoc]
      rfl

/-- The oldest is dropped. -/
theorem below_dropped (hold : f' n = []) (hother : ∀ i, i ≠ n → f' i = f i) :
    below f' (n + 1) = below f n := by
  have hrest : below f' n = below f n := below_congr fun i hi => hother i (Nat.ne_of_lt hi)
  rw [below, hold, hrest, List.nil_append]

/-- What was of age `j` is of age `j + 1`, in the place of what was there. -/
structure Moved (j : Nat) (f f' : Nat → List α) : Prop where
  new : f' (j + 1) = f j
  old : f' j = []
  other : ∀ i, i ≠ j → i ≠ j + 1 → f' i = f i

namespace Moved

theorem below_younger (h : Moved j f f') (hn : n ≤ j) : below f' n = below f n :=
  below_congr fun i hi => h.other i (by omega) (by omega)

theorem below_top (h : Moved j f f') : below f' (j + 2) = below f (j + 1) := by
  rw [below, below, below, h.new, h.old, h.below_younger (Nat.le_refl j), List.nil_append]

theorem suffix_top (h : Moved j f f') : below f' (j + 2) <:+ below f (j + 2) := by
  rw [h.below_top]
  exact suffix_of_le (Nat.le_succ _)

/-- Into an empty place nothing is lost. -/
theorem below_free (h : Moved j f f') (hfree : f (j + 1) = []) (hn : j + 1 < n) :
    below f' n = below f n := by
  induction n with
  | zero => omega
  | succ n ih =>
    by_cases hlast : n = j + 1
    · subst hlast
      rw [h.below_top]
      show below f (j + 1) = f (j + 1) ++ below f (j + 1)
      rw [hfree, List.nil_append]
    · have hrest := ih (by omega)
      rw [below, below, hrest, h.other n (by omega) hlast]

end Moved
end Ages
