import CloudStorage.Lib.Bytes
import Mathlib.Algebra.Group.Nat.Defs

/-!
# Range requests (`Range.hpp`)
-/

namespace CloudStorage
open Posix

inductive RangeStatus
  | ignore
  | partialContent
  | unsatisfiable
  deriving DecidableEq, Repr

structure ByteRange where
  status : RangeStatus := .ignore
  offset : Nat := 0
  length : Nat := 0
  deriving DecidableEq, Repr

def isDigit (b : Byte) : Bool := 48 ≤ b.toNat && b.toNat ≤ 57

/-- `ParseUnsigned`: the whole text is a number below `2^64`. -/
def parseUnsigned (text : Bytes) : Option Nat :=
  if text = [] ∨ text.all isDigit = false then none
  else
    let value := text.foldl (fun n b => n * 10 + (b.toNat - 48)) 0
    if value < 2 ^ 64 then some value else none

def bytesUnit : Bytes := lit "bytes="
def comma : Byte := 44
def dash : Byte := 45

/-- A suffix range `-n`. -/
def suffixRange (endText : Bytes) (fileSize : Nat) : ByteRange :=
  match parseUnsigned endText with
  | none => {}
  | some suffixLength =>
    if fileSize = 0 ∨ suffixLength = 0 then { status := .unsatisfiable }
    else
      let length := if suffixLength ≥ fileSize then fileSize else suffixLength
      { status := .partialContent, offset := fileSize - length, length }

/-- A range `a-` or `a-b`. -/
def startRange (startText endText : Bytes) (fileSize : Nat) : ByteRange :=
  match parseUnsigned startText with
  | none => {}
  | some start =>
    if fileSize = 0 ∨ start ≥ fileSize then { status := .unsatisfiable }
    else
      match if endText = [] then some (fileSize - 1) else parseUnsigned endText with
      | none => {}
      | some last =>
        if start > last then { status := .unsatisfiable }
        else
          let last := if last ≥ fileSize then fileSize - 1 else last
          { status := .partialContent, offset := start, length := last - start + 1 }

def parseRangeHeader (header : Bytes) (fileSize : Nat) : ByteRange :=
  if header.take bytesUnit.length ≠ bytesUnit then {}
  else
    let value := header.drop bytesUnit.length
    if value = [] ∨ comma ∈ value then {}
    else
      let startText := value.takeWhile fun b => decide (b ≠ dash)
      match value.dropWhile fun b => decide (b ≠ dash) with
      | [] => {}
      | _ :: endText =>
        if dash ∈ endText then {}
        else if startText = [] then suffixRange endText fileSize
        else startRange startText endText fileSize

/-- The range lies inside the file and is not empty. -/
def ByteRange.Within (r : ByteRange) (fileSize : Nat) : Prop :=
  r.status = .partialContent → 0 < r.length ∧ r.offset + r.length ≤ fileSize

theorem suffixRange_within (endText : Bytes) (fileSize : Nat) :
    (suffixRange endText fileSize).Within fileSize := by
  intro h
  unfold suffixRange at h ⊢
  split at h
  · cases h
  · split at h
    · cases h
    · rename_i hz
      simp only [hz, ite_false]
      split <;> omega

theorem startRange_within (startText endText : Bytes) (fileSize : Nat) :
    (startRange startText endText fileSize).Within fileSize := by
  intro h
  unfold startRange at h ⊢
  split at h
  · cases h
  · split at h
    · cases h
    · rename_i hz
      split at h
      · cases h
      · rename_i last hlast
        split at h
        · cases h
        · rename_i hle
          simp only [hz, hle, ite_false]
          split <;> omega

theorem parseRangeHeader_within (header : Bytes) (fileSize : Nat) :
    (parseRangeHeader header fileSize).Within fileSize := by
  unfold parseRangeHeader
  split
  · intro h
    cases h
  · simp only
    split
    · intro h
      cases h
    · split
      · intro h
        cases h
      · split
        · intro h
          cases h
        · split
          · exact suffixRange_within _ _
          · exact startRange_within _ _ _

end CloudStorage
