import Mathlib.Algebra.Group.Nat.Defs

/-!
# The arithmetic of `uint64_t`

A function is given its subtractions and additions. Where the machine and the
checked ones give the same result, nothing has wrapped.
-/

namespace CloudStorage

/-- Subtraction and addition, where they are defined. -/
structure Uint64Ops where
  sub : Nat → Nat → Option Nat
  add : Nat → Nat → Option Nat

namespace Uint64Ops

/-- Modulo `2^64`. -/
def machine : Uint64Ops where
  sub a b := some ((a + (2 ^ 64 - b)) % 2 ^ 64)
  add a b := some ((a + b) % 2 ^ 64)

/-- Without a result where the machine wraps. -/
def checked : Uint64Ops where
  sub a b := if b ≤ a then some (a - b) else none
  add a b := if a + b < 2 ^ 64 then some (a + b) else none

structure Sound (ops : Uint64Ops) : Prop where
  sub : ∀ a b, b ≤ a → a < 2 ^ 64 → ops.sub a b = some (a - b)
  add : ∀ a b, a + b < 2 ^ 64 → ops.add a b = some (a + b)

theorem machine_sound : machine.Sound := by
  constructor
  · intro a b hle hlt
    have hwrap : (a + (2 ^ 64 - b)) % 2 ^ 64 = a - b := by omega
    exact congrArg some hwrap
  · intro a b hlt
    exact congrArg some (Nat.mod_eq_of_lt hlt)

theorem checked_sound : checked.Sound := by
  constructor
  · intro a b hle _
    exact if_pos hle
  · intro a b hlt
    exact if_pos hlt

end Uint64Ops

end CloudStorage
