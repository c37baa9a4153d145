import CloudStorage.Lib.Bytes

/-!
# Percent-encoding (`Util.hpp`)
-/

namespace CloudStorage
open Posix

def percent : Byte := 37

def fromHex (input : Byte) : Option Nat :=
  let n := input.toNat
  if 65 ≤ n ∧ n ≤ 70 then some (n - 65 + 10)
  else if 97 ≤ n ∧ n ≤ 102 then some (n - 97 + 10)
  else if 48 ≤ n ∧ n ≤ 57 then some (n - 48)
  else none

def urlDecode : Bytes → Option Bytes
  | [] => some []
  | c :: rest =>
    if c ≠ percent then (urlDecode rest).map fun out => c :: out
    else match rest with
      | high :: low :: rest' =>
        match fromHex high, fromHex low with
        | some h, some l =>
          -- an encoded NUL byte is refused
          if h * 16 + l = 0 then none
          else (urlDecode rest').map fun out => UInt8.ofNat (h * 16 + l) :: out
        | _, _ => none
      | _ => none

def hexDigit (n : Nat) : Byte := if n < 10 then UInt8.ofNat (48 + n) else UInt8.ofNat (55 + n)

def unreserved (b : Byte) : Bool :=
  let n := b.toNat
  (65 ≤ n && n ≤ 90) || (97 ≤ n && n ≤ 122) || (48 ≤ n && n ≤ 57) ||
    n == 45 || n == 95 || n == 46 || n == 126

def urlEncode (input : Bytes) (preserveSlash : Bool := false) : Bytes :=
  input.flatMap fun b =>
    if unreserved b || (preserveSlash && b == 47) then [b]
    else [percent, hexDigit (b.toNat / 16), hexDigit (b.toNat % 16)]

/-! ### Decoding what was encoded -/

theorem fromHex_hexDigit : ∀ n < 16, fromHex (hexDigit n) = some n := by decide

theorem urlDecode_plain {b : Byte} (hb : b ≠ percent) (rest : Bytes) :
    urlDecode (b :: rest) = (urlDecode rest).map fun out => b :: out := by
  rw [urlDecode.eq_def]
  exact if_pos hb

/-- An escape takes the decoder three bytes on. -/
theorem urlDecode_escape {b : Byte} (hb : b ≠ 0) (rest : Bytes) :
    urlDecode (percent :: hexDigit (b.toNat / 16) :: hexDigit (b.toNat % 16) :: rest) =
      (urlDecode rest).map fun out => b :: out := by
  have hlt := b.toNat_lt
  have hhigh := fromHex_hexDigit (b.toNat / 16) (by omega)
  have hlow := fromHex_hexDigit (b.toNat % 16) (by omega)
  have hsum : b.toNat / 16 * 16 + b.toNat % 16 = b.toNat := by omega
  have hzero : b.toNat ≠ 0 := fun h => hb (UInt8.toNat_inj.mp h)
  rw [urlDecode]
  simp only [ne_eq, not_true_eq_false, if_false, hhigh, hlow, hsum, hzero, UInt8.ofNat_toNat]

theorem unreserved_ne_percent {b : Byte} (h : unreserved b = true) : b ≠ percent := by
  rintro rfl
  revert h
  decide

theorem urlEncode_cons (b : Byte) (rest : Bytes) (preserveSlash : Bool) :
    urlEncode (b :: rest) preserveSlash =
      (if unreserved b || (preserveSlash && b == 47) then [b]
        else [percent, hexDigit (b.toNat / 16), hexDigit (b.toNat % 16)]) ++
        urlEncode rest preserveSlash :=
  List.flatMap_cons ..

theorem urlDecode_urlEncode {input : Bytes} (hnul : (0 : Byte) ∉ input) (preserveSlash : Bool) :
    urlDecode (urlEncode input preserveSlash) = some input := by
  induction input with
  | nil => rfl
  | cons b rest ih =>
    have hb : b ≠ 0 := fun h => hnul (h ▸ List.mem_cons_self ..)
    have hrest := ih fun h => hnul (List.mem_cons_of_mem _ h)
    rw [urlEncode_cons]
    split
    · rename_i hplain
      have hne : b ≠ percent := by
        rcases Bool.or_eq_true_iff.mp hplain with h | h
        · exact unreserved_ne_percent h
        · rintro rfl
          exact absurd (Bool.and_eq_true_iff.mp h).2 (by decide)
      rw [List.singleton_append, urlDecode_plain hne, hrest]
      rfl
    · simp only [List.cons_append, List.nil_append]
      rw [urlDecode_escape hb, hrest]
      rfl

/-- The bytes of an encoded string. -/
def encodedByte (preserveSlash : Bool) (b : Byte) : Bool :=
  unreserved b || b == percent || (preserveSlash && b == 47)

theorem unreserved_hexDigit : ∀ n < 16, unreserved (hexDigit n) = true := by decide

theorem urlEncode_bytes (input : Bytes) (preserveSlash : Bool) :
    ∀ b ∈ urlEncode input preserveSlash, encodedByte preserveSlash b = true := by
  intro c hc
  obtain ⟨b, -, hc⟩ := List.mem_flatMap.mp hc
  have hlt := b.toNat_lt
  unfold encodedByte
  split at hc
  · rename_i hplain
    rw [List.mem_singleton.mp hc]
    rcases Bool.or_eq_true_iff.mp hplain with h | h
    · simp only [h, Bool.true_or]
    · simp only [h, Bool.or_true]
  · simp only [List.mem_cons, List.not_mem_nil, or_false] at hc
    rcases hc with rfl | rfl | rfl
    · rfl
    · simp only [unreserved_hexDigit (b.toNat / 16) (by omega), Bool.true_or]
    · simp only [unreserved_hexDigit (b.toNat % 16) (by omega), Bool.true_or]

end CloudStorage
