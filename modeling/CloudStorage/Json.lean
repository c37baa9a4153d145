import CloudStorage.Lib.Bytes
import Mathlib.Algebra.Group.Int.Defs
import Mathlib.Algebra.Group.Nat.Defs
import Mathlib.Data.List.Nodup

/-!
# JSON values (`Json::Value`)

What the metadata and the configuration read of jsoncpp values. An integer is
held as its mathematical value: jsoncpp keeps signed and unsigned 64-bit kinds
apart, but its tests below look only at the range. A `double` is held as its
integral value, when it has one; the tests accept such a number as an integer.
-/

namespace CloudStorage
open Posix

/-- `std::to_string` on a signed number. -/
def decimalInt (n : Int) : Bytes :=
  if n < 0 then 45 :: decimal n.natAbs else decimal n.natAbs

theorem bind_ok {ε α β : Type} {x : Except ε α} {f : α → Except ε β} {b : β}
    (h : x >>= f = .ok b) : ∃ a, x = .ok a ∧ f a = .ok b := by
  cases x with
  | error e => cases h
  | ok a => exact ⟨a, rfl, h⟩

inductive Json
  | null
  | bool (b : Bool)
  | int (n : Int)
  | real (whole : Option Int)
  | str (s : Bytes)
  | arr (items : List Json)
  | obj (members : List (Bytes × Json))

namespace Json

/-- The integral value of a number. -/
def whole : Json → Option Int
  | .int n => some n
  | .real n => n
  | _ => none

def isWholeIn (v : Json) (lo hi : Int) : Bool :=
  match v.whole with
  | some n => decide (lo ≤ n ∧ n < hi)
  | none => false

def isInt (v : Json) : Bool := v.isWholeIn (-(2 ^ 31 : Nat)) (2 ^ 31 : Nat)
def isUInt (v : Json) : Bool := v.isWholeIn 0 (2 ^ 32 : Nat)
def isInt64 (v : Json) : Bool := v.isWholeIn (-(2 ^ 63 : Nat)) (2 ^ 63 : Nat)
def isUInt64 (v : Json) : Bool := v.isWholeIn 0 (2 ^ 64 : Nat)

theorem isInt64_int {n : Int} (hlo : 0 ≤ n) (hhi : n < 2 ^ 63) : (Json.int n).isInt64 = true := by
  simp only [Json.isInt64, Json.isWholeIn, Json.whole, decide_eq_true_eq]
  omega

theorem isUInt64_int {n : Nat} (h : n < 2 ^ 64) : (Json.int n).isUInt64 = true := by
  simp only [Json.isUInt64, Json.isWholeIn, Json.whole, decide_eq_true_eq]
  omega

/-- `asInt64` and its siblings, used only after the test of the same name. -/
def asWhole (v : Json) : Int := v.whole.getD 0

def isString : Json → Bool
  | .str _ => true
  | _ => false

def asString : Json → Bytes
  | .str s => s
  | _ => []

def isBool : Json → Bool
  | .bool _ => true
  | _ => false

def asBool : Json → Bool
  | .bool b => b
  | _ => false

def isNull : Json → Bool
  | .null => true
  | _ => false

def isObject : Json → Bool
  | .obj _ => true
  | _ => false

def isArray : Json → Bool
  | .arr _ => true
  | _ => false

def items : Json → List Json
  | .arr vs => vs
  | _ => []

def members : Json → List (Bytes × Json)
  | .obj ms => ms
  | _ => []

/-- `value[name]` on a constant value: null when there is no such member. -/
def member (v : Json) (name : Bytes) : Json := (v.members.lookup name).getD .null

def isMember (v : Json) (name : Bytes) : Bool := (v.members.lookup name).isSome

/-! ### Equality -/

mutual

/-- Equality of values, computed. -/
def same : Json → Json → Bool
  | .null, .null => true
  | .bool a, .bool b => decide (a = b)
  | .int a, .int b => decide (a = b)
  | .real a, .real b => decide (a = b)
  | .str a, .str b => decide (a = b)
  | .arr a, .arr b => sameItems a b
  | .obj a, .obj b => sameMembers a b
  | _, _ => false

def sameItems : List Json → List Json → Bool
  | [], [] => true
  | v :: vs, u :: us => same v u && sameItems vs us
  | _, _ => false

def sameMembers : List (Bytes × Json) → List (Bytes × Json) → Bool
  | [], [] => true
  | (m, v) :: vs, (n, u) :: us => decide (m = n) && same v u && sameMembers vs us
  | _, _ => false

end

mutual

theorem eq_of_same : ∀ {v u : Json}, same v u = true → v = u
  | .null, u, h => by cases u <;> simp [same] at h ⊢
  | .bool a, u, h => by cases u <;> simp [same] at h ⊢; exact h
  | .int a, u, h => by cases u <;> simp [same] at h ⊢; exact h
  | .real a, u, h => by cases u <;> simp [same] at h ⊢; exact h
  | .str a, u, h => by cases u <;> simp [same] at h ⊢; exact h
  | .arr a, u, h => by
    cases u <;> simp [same] at h ⊢
    exact eq_of_sameItems h
  | .obj a, u, h => by
    cases u <;> simp [same] at h ⊢
    exact eq_of_sameMembers h

theorem eq_of_sameItems : ∀ {vs us : List Json}, sameItems vs us = true → vs = us
  | [], us, h => by cases us <;> simp [sameItems] at h ⊢
  | v :: vs, us, h => by
    cases us with
    | nil => simp [sameItems] at h
    | cons u us =>
      simp only [sameItems, Bool.and_eq_true] at h
      rw [eq_of_same h.1, eq_of_sameItems h.2]

theorem eq_of_sameMembers :
    ∀ {vs us : List (Bytes × Json)}, sameMembers vs us = true → vs = us
  | [], us, h => by cases us <;> simp [sameMembers] at h ⊢
  | (m, v) :: vs, us, h => by
    cases us with
    | nil => simp [sameMembers] at h
    | cons u us =>
      obtain ⟨n, u⟩ := u
      simp only [sameMembers, Bool.and_eq_true, decide_eq_true_eq] at h
      rw [h.1.1, eq_of_same h.1.2, eq_of_sameMembers h.2]

end

end Json

/-- The writer and the reader of jsoncpp; a reader error has a text. A written text
is a `std::string`, shorter than `2^63`. -/
structure JsonText where
  write : Json → Option Bytes
  parse : Bytes → Except Bytes Json
  write_length : ∀ v b, write v = some b → b.length < 2 ^ 63

/-- Parsing a written text gives back the value. -/
def JsonText.RoundTrips (text : JsonText) : Prop :=
  ∀ v b, text.write v = some b → text.parse b = .ok v

/-- A writer and a reader that know the texts of some values only. -/
def JsonText.ofPairs (pairs : List (Json × Bytes)) : JsonText where
  write v := ((pairs.find? fun p => p.1.same v).map Prod.snd).filter fun b =>
    decide (b.length < 2 ^ 63)
  parse b := ((pairs.find? fun p => decide (p.2 = b)).map Prod.fst).elim (.error []) .ok
  write_length := by
    intro v b hb
    simpa using (Option.filter_eq_some_iff.mp hb).2

theorem JsonText.ofPairs_roundTrips {pairs : List (Json × Bytes)}
    (hnd : (pairs.map Prod.snd).Nodup) : (JsonText.ofPairs pairs).RoundTrips := by
  intro v b hb
  obtain ⟨p, hp, rfl⟩ := Option.map_eq_some_iff.mp (Option.filter_eq_some_iff.mp hb).1
  have hsame : p.1.same v = true := by simpa using List.find?_some hp
  have hv : p.1 = v := Json.eq_of_same hsame
  have hmem := List.mem_of_find?_eq_some hp
  show ((pairs.find? fun q => decide (q.2 = p.2)).map Prod.fst).elim _ _ = _
  cases hq : pairs.find? fun q => decide (q.2 = p.2) with
  | none =>
    have hnone := List.find?_eq_none.mp hq p hmem
    simp at hnone
  | some q =>
    have he : q.2 = p.2 := by simpa using List.find?_some hq
    have hqp : q = p := List.inj_on_of_nodup_map hnd (List.mem_of_find?_eq_some hq) hmem he
    rw [hqp, ← hv]
    rfl

end CloudStorage
