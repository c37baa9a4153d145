import Mathlib.Data.List.Basic
import Mathlib.Data.Char

/-!
# Strings of a browser

A string of JavaScript is a sequence of code units, and one with a surrogate
that stands alone is no text. `encodeURIComponent` takes a text to the escapes of
its UTF-8 bytes, and `unescape` takes escapes to code units; one after the other
they give the bytes, each as a code unit.
-/

namespace JsText

abbrev CodeUnits := List UInt16

/-- The text of the code units, if they are well formed. -/
def chars : CodeUnits → Option (List Char)
  | [] => some []
  | u :: rest =>
    if u.toNat < 0xd800 ∨ 0xdfff < u.toNat then
      (chars rest).map fun text => Char.ofNat u.toNat :: text
    else if 0xdc00 ≤ u.toNat then none
    else match rest with
      | v :: rest =>
        if 0xdc00 ≤ v.toNat ∧ v.toNat ≤ 0xdfff then
          (chars rest).map fun text =>
            Char.ofNat (0x10000 + (u.toNat - 0xd800) * 0x400 + (v.toNat - 0xdc00)) :: text
        else none
      | [] => none

/-- The code units of a character. -/
def units (c : Char) : CodeUnits :=
  if c.toNat < 0x10000 then [UInt16.ofNat c.toNat]
  else [UInt16.ofNat (0xd800 + (c.toNat - 0x10000) / 0x400),
    UInt16.ofNat (0xdc00 + (c.toNat - 0x10000) % 0x400)]

def utf8 (text : List Char) : List UInt8 := text.flatMap String.utf8EncodeChar

/-! ### Escapes -/

/-- `%`, and the `u` of `%uXXXX`. -/
def percent : UInt16 := 37
def letterU : UInt16 := 117

/-- What `encodeURIComponent` leaves as it is. -/
def unescaped (n : Nat) : Bool :=
  (65 ≤ n && n ≤ 90) || (97 ≤ n && n ≤ 122) || (48 ≤ n && n ≤ 57) ||
    n == 45 || n == 95 || n == 46 || n == 33 || n == 126 || n == 42 || n == 39 || n == 40 || n == 41

def hexUnit (n : Nat) : UInt16 := if n < 10 then UInt16.ofNat (48 + n) else UInt16.ofNat (55 + n)

def hexValue (u : UInt16) : Option Nat :=
  let n := u.toNat
  if 48 ≤ n ∧ n ≤ 57 then some (n - 48)
  else if 65 ≤ n ∧ n ≤ 70 then some (n - 55)
  else if 97 ≤ n ∧ n ≤ 102 then some (n - 87)
  else none

def escapeByte (b : UInt8) : CodeUnits :=
  [percent, hexUnit (b.toNat / 16), hexUnit (b.toNat % 16)]

def encodeChar (c : Char) : CodeUnits :=
  if unescaped c.toNat then [UInt16.ofNat c.toNat]
  else (String.utf8EncodeChar c).flatMap escapeByte

/-- It throws on what is no text. -/
def encodeURIComponent (s : CodeUnits) : Option CodeUnits :=
  (chars s).map fun text => text.flatMap encodeChar

def hexNumber : List UInt16 → Nat → Option Nat
  | [], n => some n
  | u :: rest, n => (hexValue u).bind fun digit => hexNumber rest (n * 16 + digit)

/-- The escape that begins at a `%`, and how many code units follow it. -/
def escapeAt (rest : CodeUnits) : Option (UInt16 × Nat) :=
  match rest with
  | u :: a :: b :: c :: d :: _ =>
    if u = letterU ∧ (hexNumber [a, b, c, d] 0).isSome then
      (hexNumber [a, b, c, d] 0).map fun n => (UInt16.ofNat n, 5)
    else (hexNumber [u, a] 0).map fun n => (UInt16.ofNat n, 2)
  | u :: a :: _ => (hexNumber [u, a] 0).map fun n => (UInt16.ofNat n, 2)
  | _ => none

def unescapeFrom : Nat → CodeUnits → CodeUnits
  | _, [] => []
  | skip + 1, _ :: rest => unescapeFrom skip rest
  | 0, u :: rest =>
    if u = percent then
      match escapeAt rest with
      | some (v, skip) => v :: unescapeFrom skip rest
      | none => u :: unescapeFrom 0 rest
    else u :: unescapeFrom 0 rest

def unescape (s : CodeUnits) : CodeUnits := unescapeFrom 0 s

/-- Each byte as a code unit. -/
def byteUnits (bytes : List UInt8) : CodeUnits := bytes.map fun b => UInt16.ofNat b.toNat

/-- The bytes of a string of such code units; `btoa` and header values throw on others. -/
def latin1 (s : CodeUnits) : Option (List UInt8) :=
  if s.all fun u => decide (u.toNat < 256) then some (s.map fun u => UInt8.ofNat u.toNat) else none

/-! ### One after the other -/

theorem hexValue_hexUnit : ∀ n < 16, hexValue (hexUnit n) = some n := by decide

theorem hexUnit_ne_u : ∀ n < 16, hexUnit n ≠ letterU := by decide

theorem unescapeFrom_append (skipped rest : CodeUnits) :
    unescapeFrom skipped.length (skipped ++ rest) = unescapeFrom 0 rest := by
  induction skipped with
  | nil => rfl
  | cons u skipped ih => exact ih

theorem hexNumber_byte (b : UInt8) :
    hexNumber [hexUnit (b.toNat / 16), hexUnit (b.toNat % 16)] 0 = some b.toNat := by
  have hlt := b.toNat_lt
  have hhigh := hexValue_hexUnit (b.toNat / 16) (by omega)
  have hlow := hexValue_hexUnit (b.toNat % 16) (by omega)
  have hsum : (0 * 16 + b.toNat / 16) * 16 + b.toNat % 16 = b.toNat := by omega
  simp only [hexNumber, hhigh, hlow, Option.bind_some, hsum]

theorem escapeAt_byte (b : UInt8) (rest : CodeUnits) :
    escapeAt (hexUnit (b.toNat / 16) :: hexUnit (b.toNat % 16) :: rest) =
      some (UInt16.ofNat b.toNat, 2) := by
  have hlt := b.toNat_lt
  have hne := hexUnit_ne_u (b.toNat / 16) (by omega)
  unfold escapeAt
  split
  · rename_i u a b' c d rest' heq
    cases heq
    rw [if_neg fun h => hne h.1, hexNumber_byte]
    rfl
  · rename_i u a rest' _ heq
    cases heq
    rw [hexNumber_byte]
    rfl
  · rename_i _ hnone
    exact absurd rfl (hnone _ _ _)

theorem unescape_escapeByte (b : UInt8) (rest : CodeUnits) :
    unescapeFrom 0 (escapeByte b ++ rest) = UInt16.ofNat b.toNat :: unescapeFrom 0 rest := by
  have hskip := unescapeFrom_append [hexUnit (b.toNat / 16), hexUnit (b.toNat % 16)] rest
  simp only [escapeByte, List.cons_append, List.nil_append]
  rw [unescapeFrom, if_pos rfl, escapeAt_byte]
  exact congrArg (fun units => UInt16.ofNat b.toNat :: units) hskip

theorem unescape_escapeBytes (bytes : List UInt8) (rest : CodeUnits) :
    unescapeFrom 0 (bytes.flatMap escapeByte ++ rest) =
      byteUnits bytes ++ unescapeFrom 0 rest := by
  induction bytes with
  | nil => rfl
  | cons b bytes ih =>
    rw [List.flatMap_cons, List.append_assoc, unescape_escapeByte, ih]
    rfl

theorem unescaped_lt {n : Nat} (h : unescaped n = true) : n < 128 ∧ n ≠ 37 := by
  simp only [unescaped, Bool.or_eq_true, Bool.and_eq_true, decide_eq_true_eq, beq_iff_eq] at h
  omega

/-- A character of ASCII is one byte. -/
theorem utf8EncodeChar_ascii {c : Char} (h : c.toNat < 128) :
    String.utf8EncodeChar c = [UInt8.ofNat c.toNat] := by
  unfold String.utf8EncodeChar
  have hle : c.val.toNat ≤ 0x7f := by
    have hval : c.val.toNat = c.toNat := rfl
    omega
  simp only [hle, if_true]
  rfl

theorem unescape_encodeChar (c : Char) (rest : CodeUnits) :
    unescapeFrom 0 (encodeChar c ++ rest) =
      byteUnits (String.utf8EncodeChar c) ++ unescapeFrom 0 rest := by
  unfold encodeChar
  split
  · rename_i hplain
    obtain ⟨hlt, hne⟩ := unescaped_lt hplain
    have hunit : UInt16.ofNat c.toNat ≠ percent := by
      intro h
      have hnat := congrArg UInt16.toNat h
      rw [UInt16.toNat_ofNat', Nat.mod_eq_of_lt (by omega)] at hnat
      exact hne hnat
    have hbyte : (UInt8.ofNat c.toNat).toNat = c.toNat := by
      rw [UInt8.toNat_ofNat', Nat.mod_eq_of_lt (by omega)]
    rw [utf8EncodeChar_ascii hlt, List.singleton_append, unescapeFrom, if_neg hunit, byteUnits,
      List.map_singleton, hbyte]
    rfl
  · exact unescape_escapeBytes _ rest

/-- The UTF-8 bytes of the text, each as a code unit. -/
theorem unescape_encodeURIComponent (s : CodeUnits) :
    (encodeURIComponent s).map unescape = (chars s).map fun text => byteUnits (utf8 text) := by
  rw [encodeURIComponent, Option.map_map]
  congr 1
  funext text
  show unescapeFrom 0 (text.flatMap encodeChar) = _
  induction text with
  | nil => rfl
  | cons c text ih =>
    rw [List.flatMap_cons, unescape_encodeChar, ih, byteUnits, byteUnits, byteUnits, utf8, utf8,
      List.flatMap_cons, List.map_append]

theorem latin1_byteUnits (bytes : List UInt8) : latin1 (byteUnits bytes) = some bytes := by
  have hsmall : ∀ b : UInt8, (UInt16.ofNat b.toNat).toNat = b.toNat := by
    intro b
    have hlt := b.toNat_lt
    rw [UInt16.toNat_ofNat', Nat.mod_eq_of_lt (by omega)]
  have hall : (byteUnits bytes).all (fun u => decide (u.toNat < 256)) = true := by
    rw [byteUnits, List.all_map, List.all_eq_true]
    intro b _
    simp only [Function.comp, hsmall, b.toNat_lt, decide_true]
  have hback : (byteUnits bytes).map (fun u => UInt8.ofNat u.toNat) = bytes := by
    rw [byteUnits, List.map_map]
    conv_rhs => rw [← List.map_id bytes]
    apply List.map_congr_left
    intro b _
    simp only [Function.comp, hsmall, UInt8.ofNat_toNat, id]
  rw [latin1, if_pos hall, hback]

/-! ### Nothing is lost -/

/-- A text is told by its bytes. -/
theorem utf8_inj {text text' : List Char} (h : utf8 text = utf8 text') : text = text' := by
  have hbytes : text.utf8Encode = text'.utf8Encode := congrArg List.toByteArray h
  have hdecoded := congrArg ByteArray.utf8Decode? hbytes
  rw [List.utf8Decode?_utf8Encode, List.utf8Decode?_utf8Encode] at hdecoded
  exact congrArg Array.toList (Option.some.inj hdecoded)

theorem ofNat_toNat {n : Nat} (h : n < 0xd800 ∨ 0xdfff < n ∧ n < 0x110000) :
    (Char.ofNat n).toNat = n := by
  have hvalid : n.isValidChar := h
  rw [Char.ofNat, dif_pos hvalid]
  rfl

theorem units_chars {s : CodeUnits} {text : List Char} (h : chars s = some text) :
    text.flatMap units = s := by
  induction s using chars.induct generalizing text with
  | case1 =>
    cases h
    rfl
  | case2 u rest hplain ih =>
    rw [chars.eq_def] at h
    simp only [if_pos hplain] at h
    obtain ⟨tail, htail, rfl⟩ := Option.map_eq_some_iff.mp h
    have hlt := u.toNat_lt
    have hunit : units (Char.ofNat u.toNat) = [u] := by
      rw [units, ofNat_toNat (by omega), if_pos (by omega), UInt16.ofNat_toNat]
    rw [List.flatMap_cons, ih htail, hunit]
    rfl
  | case3 u rest hsurrogate hlow =>
    rw [chars.eq_def] at h
    simp only [if_neg hsurrogate, if_pos hlow] at h
    cases h
  | case4 u hsurrogate hhigh v rest hpair ih =>
    rw [chars.eq_def] at h
    simp only [if_neg hsurrogate, if_neg hhigh, if_pos hpair] at h
    obtain ⟨tail, htail, rfl⟩ := Option.map_eq_some_iff.mp h
    have hlt := u.toNat_lt
    have hcode : 0x10000 + (u.toNat - 0xd800) * 0x400 + (v.toNat - 0xdc00) - 0x10000 =
        (u.toNat - 0xd800) * 0x400 + (v.toNat - 0xdc00) := by omega
    have hfirst : 0xd800 + ((u.toNat - 0xd800) * 0x400 + (v.toNat - 0xdc00)) / 0x400 = u.toNat := by
      omega
    have hsecond : 0xdc00 + ((u.toNat - 0xd800) * 0x400 + (v.toNat - 0xdc00)) % 0x400 = v.toNat := by
      omega
    have hunits : units (Char.ofNat (0x10000 + (u.toNat - 0xd800) * 0x400 + (v.toNat - 0xdc00))) =
        [u, v] := by
      rw [units, ofNat_toNat (by omega), if_neg (by omega), hcode, hfirst, hsecond,
        UInt16.ofNat_toNat, UInt16.ofNat_toNat]
    rw [List.flatMap_cons, ih htail, hunits]
    rfl
  | case5 u hsurrogate hhigh v rest hpair =>
    rw [chars.eq_def] at h
    simp only [if_neg hsurrogate, if_neg hhigh, if_neg hpair] at h
    cases h
  | case6 u hsurrogate hhigh =>
    rw [chars.eq_def] at h
    simp only [if_neg hsurrogate, if_neg hhigh] at h
    cases h

theorem chars_inj {s s' : CodeUnits} {text : List Char} (h : chars s = some text)
    (h' : chars s' = some text) : s = s' := by
  rw [← units_chars h, ← units_chars h']

end JsText
