import CloudStorage.Lib.Bytes
import Mathlib.Algebra.Group.Nat.Defs
import Mathlib.Data.List.Basic

/-!
# Base64 (`base64.cpp`)

The checked decoder of `Upload`'s file names, and the encoder. Where the source
throws, the result is `none`. The validator accepts exactly the texts of the
format, and on these the decoder gives the bytes of the 6-bit groups.
-/

namespace CloudStorage
open Posix

def posOfChar (chr : Byte) : Option Nat :=
  let n := chr.toNat
  if 65 ≤ n ∧ n ≤ 90 then some (n - 65)
  else if 97 ≤ n ∧ n ≤ 122 then some (n - 97 + 25 + 1)
  else if 48 ≤ n ∧ n ≤ 57 then some (n - 48 + 25 + 25 + 2)
  else if n = 43 ∨ n = 45 then some 62
  else if n = 47 ∨ n = 95 then some 63
  else none

/-- `is_base64_data_char`. -/
def isBase64DataChar (chr : Byte) : Bool :=
  let n := chr.toNat
  decide ((65 ≤ n ∧ n ≤ 90) ∨ (97 ≤ n ∧ n ≤ 122) ∨ (48 ≤ n ∧ n ≤ 57) ∨ n = 43 ∨ n = 45 ∨
    n = 47 ∨ n = 95)

/-- An equal sign or a dot. -/
def isPad (chr : Byte) : Bool := chr.toNat == 61 || chr.toNat == 46

/-- `is_valid_base64`. -/
def isValidBase64 (input : Bytes) : Bool :=
  if input = [] then true
  else if input.length % 4 = 1 then false
  else
    let padding := input.reverse.takeWhile isPad
    if padding.any fun c => decide (some c ≠ padding.head?) then false
    else if padding.length > 2 ∨ padding.length ≠ 0 ∧ input.length % 4 ≠ 0 then false
    else (input.take (input.length - padding.length)).all isBase64DataChar

/-- The bytes of one chunk of positions; absent ones are padding. -/
def chunkBytes (p₀ p₁ : Nat) (p₂ p₃ : Option Nat) : Bytes :=
  UInt8.ofNat (p₀ * 4 + p₁ / 16 % 4) ::
    match p₂ with
    | none => []
    | some p₂ =>
      UInt8.ofNat (p₁ % 16 * 16 + p₂ / 4 % 16) ::
        match p₃ with
        | none => []
        | some p₃ => [UInt8.ofNat (p₂ % 4 * 64 + p₃)]

/-- A position, or padding. -/
def posOrPad (chr : Byte) : Option (Option Nat) :=
  if isPad chr then some none else (posOfChar chr).map some

/-- `decode` without line breaks; only the last chunk may be short. -/
def decode : Bytes → Option Bytes
  | [] => some []
  | [_] => none
  | [a, b] => do
    let p₁ ← posOfChar b
    let p₀ ← posOfChar a
    return chunkBytes p₀ p₁ none none
  | [a, b, c] => do
    let p₁ ← posOfChar b
    let p₀ ← posOfChar a
    let p₂ ← posOrPad c
    return chunkBytes p₀ p₁ p₂ none
  | a :: b :: c :: d :: rest => do
    let p₁ ← posOfChar b
    let p₀ ← posOfChar a
    let p₂ ← posOrPad c
    -- the fourth character is looked at only after a third position
    let p₃ ← if p₂.isSome then posOrPad d else some none
    let out ← decode rest
    return chunkBytes p₀ p₁ p₂ p₃ ++ out

/-- `base64_decode` into an output string. -/
def base64Decode (s : Bytes) : Option Bytes := if isValidBase64 s then decode s else none

example : base64Decode (lit "eC50eHQ=") = some (lit "x.txt") := by decide

/-! ### Encoding -/

/-- `base64_chars`. -/
def base64Chars (url : Bool) : Bytes :=
  lit "ABCDEFGHIJKLMNOPQRSTUVWXYZabcdefghijklmnopqrstuvwxyz0123456789" ++
    if url then lit "-_" else lit "+/"

def base64Char (url : Bool) (n : Nat) : Byte := (base64Chars url).getD n 0

def trailingChar (url : Bool) : Byte := if url then 46 else 61

/-- The four characters of one round; absent bytes are past the end. -/
def encodeChunk (url : Bool) (b₀ : Byte) (b₁ b₂ : Option Byte) : Bytes :=
  base64Char url (b₀.toNat / 4) ::
    match b₁ with
    | none => [base64Char url (b₀.toNat % 4 * 16), trailingChar url, trailingChar url]
    | some b₁ =>
      base64Char url (b₀.toNat % 4 * 16 + b₁.toNat / 16) ::
        match b₂ with
        | none => [base64Char url (b₁.toNat % 16 * 4), trailingChar url]
        | some b₂ =>
          [base64Char url (b₁.toNat % 16 * 4 + b₂.toNat / 64), base64Char url (b₂.toNat % 64)]

/-- The byte at a position below the length; the position is an `unsigned int`. -/
def byteBelow (bytes : Bytes) (pos : Nat) : Option Byte :=
  if pos % 2 ^ 32 < bytes.length then some (bytes.getD (pos % 2 ^ 32) 0) else none

/-- The loop over `pos`. Its result is `none` when the rounds do not suffice. -/
def encodeLoop (url : Bool) (bytes : Bytes) : Nat → Nat → Option Bytes
  | 0, _ => none
  | rounds + 1, pos =>
    match byteBelow bytes pos with
    | none => some []
    | some b₀ =>
      (encodeLoop url bytes rounds ((pos + 3) % 2 ^ 32)).map fun out =>
        encodeChunk url b₀ (byteBelow bytes (pos + 1)) (byteBelow bytes (pos + 2)) ++ out

/-- `base64_encode`, with a round for every byte and one more. -/
def base64Encode (bytes : Bytes) (url : Bool) : Option Bytes :=
  encodeLoop url bytes (bytes.length + 1) 0

example : base64Encode (lit "x.txt") false = some (lit "eC50eHQ=") := by decide

/-! ### Characters -/

/-- The test and the table know the same characters. -/
theorem isBase64DataChar_eq (c : Byte) : isBase64DataChar c = (posOfChar c).isSome := by
  unfold isBase64DataChar posOfChar
  simp only
  split
  · rename_i h
    exact decide_eq_true (Or.inl h)
  split
  · rename_i h
    exact decide_eq_true (Or.inr (Or.inl h))
  split
  · rename_i h
    exact decide_eq_true (Or.inr (Or.inr (Or.inl h)))
  split
  · rename_i h
    exact decide_eq_true (by omega)
  split
  · rename_i h
    exact decide_eq_true (by omega)
  · exact decide_eq_false (by omega)

theorem isBase64DataChar_iff {c : Byte} :
    isBase64DataChar c = true ↔ ∃ n, n < 64 ∧ posOfChar c = some n := by
  rw [isBase64DataChar_eq]
  constructor
  · intro h
    obtain ⟨n, hn⟩ := Option.isSome_iff_exists.mp h
    refine ⟨n, ?_, hn⟩
    simp only [posOfChar] at hn
    split at hn
    · cases hn
      omega
    · split at hn
      · cases hn
        omega
      · split at hn
        · cases hn
          omega
        · split at hn
          · cases hn
            omega
          · split at hn
            · cases hn
              omega
            · cases hn
  · rintro ⟨n, -, hn⟩
    exact Option.isSome_iff_exists.mpr ⟨n, hn⟩

theorem isPad_iff {c : Byte} : isPad c = true ↔ c = 61 ∨ c = 46 := by
  simp only [isPad, Bool.or_eq_true, beq_iff_eq]
  constructor
  · rintro (h | h)
    · exact .inl (UInt8.toNat_inj.mp h)
    · exact .inr (UInt8.toNat_inj.mp h)
  · rintro (rfl | rfl)
    · exact .inl rfl
    · exact .inr rfl

theorem posOfChar_pad {c : Byte} (h : isPad c = true) : posOfChar c = none := by
  rcases isPad_iff.mp h with rfl | rfl
  · rfl
  · rfl

theorem isPad_dataChar {c : Byte} (h : isBase64DataChar c = true) : isPad c = false := by
  by_contra hpad
  rw [Bool.not_eq_false] at hpad
  rw [isBase64DataChar_eq, posOfChar_pad hpad] at h
  cases h

theorem posOrPad_data {c : Byte} {n : Nat} (h : posOfChar c = some n) :
    posOrPad c = some (some n) := by
  have hdata : isBase64DataChar c = true := by
    rw [isBase64DataChar_eq, h]
    rfl
  rw [posOrPad, isPad_dataChar hdata, h]
  rfl

theorem posOrPad_pad {c : Byte} (h : isPad c = true) : posOrPad c = some none := by
  rw [posOrPad, if_pos h]

theorem posOfChar_base64Char : ∀ url, ∀ n < 64, posOfChar (base64Char url n) = some n := by decide

theorem isPad_trailingChar : ∀ url, isPad (trailingChar url) = true := by decide

/-! ### The texts of the format -/

/-- Characters of either alphabet, then as many equal padding characters as are missing, or
none. -/
def Base64Text (s : Bytes) : Prop :=
  ∃ data : Bytes, (∀ c ∈ data, isBase64DataChar c = true) ∧
    (s = data ∧ data.length % 4 ≠ 1 ∨
      ∃ pad count, isPad pad = true ∧ (count = 1 ∨ count = 2) ∧
        s = data ++ List.replicate count pad ∧ s.length % 4 = 0)

theorem takeWhile_pad {data : Bytes} (hdata : ∀ c ∈ data, isBase64DataChar c = true) {pad : Byte}
    (hpad : isPad pad = true) (count : Nat) :
    (data ++ List.replicate count pad).reverse.takeWhile isPad = List.replicate count pad := by
  have hpads : ∀ c ∈ List.replicate count pad, isPad c = true :=
    fun c hc => (List.eq_of_mem_replicate hc) ▸ hpad
  have hnone : data.reverse.takeWhile isPad = [] := by
    cases hrev : data.reverse with
    | nil => rfl
    | cons c rest =>
      have hc : c ∈ data := List.mem_reverse.mp (hrev ▸ List.mem_cons_self ..)
      rw [List.takeWhile_cons_of_neg (by simp [isPad_dataChar (hdata c hc)])]
  rw [List.reverse_append, List.reverse_replicate, List.takeWhile_append_of_pos hpads, hnone,
    List.append_nil]

/-- The validator cuts the padding off at the end. -/
theorem take_pads (s : Bytes) :
    s.take (s.length - (s.reverse.takeWhile isPad).length) ++ (s.reverse.takeWhile isPad).reverse =
      s := by
  obtain ⟨data, hsplit⟩ : ∃ data, s = data ++ (s.reverse.takeWhile isPad).reverse := by
    refine ⟨(s.reverse.dropWhile isPad).reverse, ?_⟩
    rw [← List.reverse_append, List.takeWhile_append_dropWhile, List.reverse_reverse]
  have hlength := congrArg List.length hsplit
  rw [List.length_append, List.length_reverse] at hlength
  have htake : s.take (s.length - (s.reverse.takeWhile isPad).length) = data := by
    rw [hlength, Nat.add_sub_cancel]
    conv_lhs => rw [hsplit]
    exact List.take_left
  rw [htake]
  exact hsplit.symm

theorem isValidBase64_text {s : Bytes} (h : isValidBase64 s = true) : Base64Text s := by
  by_cases hempty : s = []
  · exact ⟨[], fun _ hc => (nomatch hc), .inl ⟨hempty, by decide⟩⟩
  rw [isValidBase64, if_neg hempty] at h
  split at h
  · cases h
  rename_i hlength
  simp only at h
  have hsplit := take_pads s
  have hpads : ∀ c ∈ s.reverse.takeWhile isPad, isPad c = true :=
    fun c hc => List.all_eq_true.mp List.all_takeWhile c hc
  generalize s.reverse.takeWhile isPad = padding at h hsplit hpads
  generalize s.take (s.length - padding.length) = data at h hsplit
  split at h
  · cases h
  rename_i hequal
  split at h
  · cases h
  rename_i hcount
  rw [not_or, not_and_or, not_not, not_not] at hcount
  rw [List.all_eq_true] at h
  refine ⟨data, h, ?_⟩
  cases padding with
  | nil =>
    rw [List.reverse_nil, List.append_nil] at hsplit
    exact .inl ⟨hsplit.symm, hsplit.symm ▸ hlength⟩
  | cons pad rest =>
    right
    have hsame : pad :: rest = List.replicate (rest.length + 1) pad := by
      refine List.eq_replicate_iff.mpr ⟨rfl, fun c hc => ?_⟩
      rw [Bool.not_eq_true, List.any_eq_false] at hequal
      simpa using hequal c hc
    have hfour := hcount.2.resolve_left (by simp)
    refine ⟨pad, rest.length + 1, hpads pad (List.mem_cons_self ..), ?_, ?_, hfour⟩
    · have hfew := hcount.1
      rw [List.length_cons] at hfew
      omega
    · rw [← List.reverse_replicate, ← hsame]
      exact hsplit.symm

theorem text_isValidBase64 {s : Bytes} (h : Base64Text s) : isValidBase64 s = true := by
  obtain ⟨data, hdata, ⟨rfl, hlength⟩ | ⟨pad, count, hpad, hcount, rfl, hlength⟩⟩ := h
  · by_cases hempty : s = []
    · rw [isValidBase64, if_pos hempty]
    have hnone : s.reverse.takeWhile isPad = [] := by
      have hpads := @takeWhile_pad s hdata 61 (by decide) 0
      rwa [List.replicate_zero, List.append_nil] at hpads
    rw [isValidBase64, if_neg hempty, if_neg hlength]
    simp only [hnone, List.any_nil, Bool.false_eq_true, if_false, List.length_nil, Nat.sub_zero,
      List.take_length]
    simpa using hdata
  · have hpads := takeWhile_pad hdata hpad count
    have hempty : data ++ List.replicate count pad ≠ [] := by
      intro h
      have hnil := congrArg List.length h
      simp only [List.length_append, List.length_replicate, List.length_nil] at hnil
      omega
    have hone : ¬(data ++ List.replicate count pad).length % 4 = 1 := by omega
    have hequal : ((List.replicate count pad).any fun c =>
        decide (some c ≠ (List.replicate count pad).head?)) = false := by
      rw [List.any_eq_false]
      intro c hc
      have hhead : (List.replicate count pad).head? = some pad := by
        rcases hcount with rfl | rfl
        · rfl
        · rfl
      rw [List.eq_of_mem_replicate hc, hhead]
      simp
    have hfew : ¬((List.replicate count pad).length > 2 ∨ (List.replicate count pad).length ≠ 0 ∧
        (data ++ List.replicate count pad).length % 4 ≠ 0) := by
      rw [List.length_replicate]
      omega
    have htake : (data ++ List.replicate count pad).take
        ((data ++ List.replicate count pad).length - (List.replicate count pad).length) = data := by
      rw [List.length_append, Nat.add_sub_cancel, List.take_left]
    rw [isValidBase64, if_neg hempty, if_neg hone]
    simp only [hpads, hequal, Bool.false_eq_true, if_false, if_neg hfew, htake, List.all_eq_true]
    exact hdata

theorem isValidBase64_iff (s : Bytes) : isValidBase64 s = true ↔ Base64Text s :=
  ⟨isValidBase64_text, text_isValidBase64⟩

/-! ### Decoding by 6-bit groups -/

/-- The bits of a position, the highest first. -/
def sixBits (n : Nat) : List Nat :=
  [n / 32 % 2, n / 16 % 2, n / 8 % 2, n / 4 % 2, n / 2 % 2, n % 2]

def byteBits (b : Byte) : List Nat :=
  [b.toNat / 128 % 2, b.toNat / 64 % 2, b.toNat / 32 % 2, b.toNat / 16 % 2, b.toNat / 8 % 2,
    b.toNat / 4 % 2, b.toNat / 2 % 2, b.toNat % 2]

/-- The bits of the positions of a text, padding aside. -/
def groupBits (s : Bytes) : List Nat := (s.filterMap posOfChar).flatMap sixBits

/-- The bytes are the 6-bit groups of the text, but for less than a byte at the end. -/
def Groups (s out : Bytes) : Prop :=
  ∃ left : List Nat, left.length < 8 ∧ out.flatMap byteBits ++ left = groupBits s

theorem first_byte_bits {p₀ p₁ : Nat} (h₀ : p₀ < 64) (h₁ : p₁ < 64) :
    byteBits (UInt8.ofNat (p₀ * 4 + p₁ / 16 % 4)) =
      sixBits p₀ ++ [p₁ / 32 % 2, p₁ / 16 % 2] := by
  simp only [byteBits, sixBits, UInt8.toNat_ofNat', List.cons_append, List.nil_append,
    List.cons.injEq, and_true]
  omega

theorem second_byte_bits {p₁ p₂ : Nat} (h₂ : p₂ < 64) :
    byteBits (UInt8.ofNat (p₁ % 16 * 16 + p₂ / 4 % 16)) =
      [p₁ / 8 % 2, p₁ / 4 % 2, p₁ / 2 % 2, p₁ % 2] ++
        [p₂ / 32 % 2, p₂ / 16 % 2, p₂ / 8 % 2, p₂ / 4 % 2] := by
  simp only [byteBits, UInt8.toNat_ofNat', List.cons_append, List.nil_append, List.cons.injEq,
    and_true]
  omega

theorem third_byte_bits {p₂ p₃ : Nat} (h₃ : p₃ < 64) :
    byteBits (UInt8.ofNat (p₂ % 4 * 64 + p₃)) = [p₂ / 2 % 2, p₂ % 2] ++ sixBits p₃ := by
  simp only [byteBits, sixBits, UInt8.toNat_ofNat', List.cons_append, List.nil_append,
    List.cons.injEq, and_true]
  omega

theorem decode_four {a b c d : Byte} {p₀ p₁ p₂ p₃ : Nat} (ha : posOfChar a = some p₀)
    (hb : posOfChar b = some p₁) (hc : posOfChar c = some p₂) (hd : posOfChar d = some p₃)
    (rest : Bytes) :
    decode (a :: b :: c :: d :: rest) =
      (decode rest).map fun out => chunkBytes p₀ p₁ (some p₂) (some p₃) ++ out := by
  rw [decode, ha, hb, posOrPad_data hc]
  simp only [Option.bind_eq_bind, Option.bind_some, Option.isSome_some, if_true, posOrPad_data hd]
  cases decode rest with
  | none => rfl
  | some out => rfl

theorem decode_three {a b c : Byte} {p₀ p₁ p₂ : Nat} (ha : posOfChar a = some p₀)
    (hb : posOfChar b = some p₁) (hc : posOfChar c = some p₂) {tail : Bytes}
    (htail : tail = [] ∨ ∃ pad, isPad pad = true ∧ tail = [pad]) :
    decode (a :: b :: c :: tail) = some (chunkBytes p₀ p₁ (some p₂) none) := by
  rcases htail with rfl | ⟨pad, hpad, rfl⟩
  · rw [decode, ha, hb, posOrPad_data hc]
    rfl
  · rw [decode, ha, hb, posOrPad_data hc]
    simp only [Option.bind_eq_bind, Option.bind_some, Option.isSome_some, if_true,
      posOrPad_pad hpad]
    rfl

theorem decode_two {a b : Byte} {p₀ p₁ : Nat} (ha : posOfChar a = some p₀)
    (hb : posOfChar b = some p₁) {tail : Bytes}
    (htail : tail = [] ∨ ∃ pad, isPad pad = true ∧ tail = [pad, pad]) :
    decode (a :: b :: tail) = some (chunkBytes p₀ p₁ none none) := by
  rcases htail with rfl | ⟨pad, hpad, rfl⟩
  · rw [decode, ha, hb]
    rfl
  · rw [decode, ha, hb, posOrPad_pad hpad]
    rfl

/-- What may follow the characters of a text. -/
inductive Tail : Nat → Bytes → Prop
  | bare {n : Nat} : n % 4 ≠ 1 → Tail n []
  | one {n : Nat} {pad : Byte} : n % 4 = 3 → isPad pad = true → Tail n [pad]
  | two {n : Nat} {pad : Byte} : n % 4 = 2 → isPad pad = true → Tail n [pad, pad]

theorem Base64Text.tail {s : Bytes} (h : Base64Text s) :
    ∃ data tail, s = data ++ tail ∧ (∀ c ∈ data, isBase64DataChar c = true) ∧
      Tail data.length tail := by
  obtain ⟨data, hdata, ⟨rfl, hlength⟩ | ⟨pad, count, hpad, hcount, rfl, hlength⟩⟩ := h
  · exact ⟨s, [], (List.append_nil _).symm, hdata, .bare hlength⟩
  · rw [List.length_append, List.length_replicate] at hlength
    rcases hcount with rfl | rfl
    · exact ⟨data, _, rfl, hdata, .one (by omega) hpad⟩
    · exact ⟨data, _, rfl, hdata, .two (by omega) hpad⟩

theorem Tail.pads {n : Nat} {tail : Bytes} (h : Tail n tail) : tail.filterMap posOfChar = [] := by
  cases h with
  | bare => rfl
  | one _ hpad => rw [List.filterMap_cons_none (posOfChar_pad hpad), List.filterMap_nil]
  | two _ hpad =>
    rw [List.filterMap_cons_none (posOfChar_pad hpad), List.filterMap_cons_none (posOfChar_pad hpad),
      List.filterMap_nil]

theorem decode_data (data : Bytes) {tail : Bytes} (hdata : ∀ c ∈ data, isBase64DataChar c = true)
    (htail : Tail data.length tail) :
    ∃ out, decode (data ++ tail) = some out ∧ Groups data out := by
  match data with
  | [] =>
    cases htail with
    | bare => exact ⟨[], rfl, [], by decide, rfl⟩
    | one h => cases h
    | two h => cases h
  | [a] =>
    cases htail with
    | bare h => exact absurd rfl h
    | one h => cases h
    | two h => cases h
  | [a, b] =>
    obtain ⟨p₀, h₀, ha⟩ := isBase64DataChar_iff.mp (hdata a (by simp))
    obtain ⟨p₁, h₁, hb⟩ := isBase64DataChar_iff.mp (hdata b (by simp))
    have hpads : tail = [] ∨ ∃ pad, isPad pad = true ∧ tail = [pad, pad] := by
      cases htail with
      | bare => exact .inl rfl
      | one h => cases h
      | two _ hpad => exact .inr ⟨_, hpad, rfl⟩
    refine ⟨_, decode_two ha hb hpads, [p₁ / 8 % 2, p₁ / 4 % 2, p₁ / 2 % 2, p₁ % 2], by simp, ?_⟩
    simp only [groupBits, List.filterMap_cons, ha, hb, List.filterMap_nil, List.flatMap_cons,
      List.flatMap_nil, chunkBytes, first_byte_bits h₀ h₁, List.append_nil]
    rfl
  | [a, b, c] =>
    obtain ⟨p₀, h₀, ha⟩ := isBase64DataChar_iff.mp (hdata a (by simp))
    obtain ⟨p₁, h₁, hb⟩ := isBase64DataChar_iff.mp (hdata b (by simp))
    obtain ⟨p₂, h₂, hc⟩ := isBase64DataChar_iff.mp (hdata c (by simp))
    have hpads : tail = [] ∨ ∃ pad, isPad pad = true ∧ tail = [pad] := by
      cases htail with
      | bare => exact .inl rfl
      | one _ hpad => exact .inr ⟨_, hpad, rfl⟩
      | two h => cases h
    refine ⟨_, decode_three ha hb hc hpads, [p₂ / 2 % 2, p₂ % 2], by simp, ?_⟩
    simp only [groupBits, List.filterMap_cons, ha, hb, hc, List.filterMap_nil, List.flatMap_cons,
      List.flatMap_nil, chunkBytes, first_byte_bits h₀ h₁, second_byte_bits h₂, List.append_nil]
    rfl
  | a :: b :: c :: d :: rest =>
    obtain ⟨p₀, h₀, ha⟩ := isBase64DataChar_iff.mp (hdata a (by simp))
    obtain ⟨p₁, h₁, hb⟩ := isBase64DataChar_iff.mp (hdata b (by simp))
    obtain ⟨p₂, h₂, hc⟩ := isBase64DataChar_iff.mp (hdata c (by simp))
    obtain ⟨p₃, h₃, hd⟩ := isBase64DataChar_iff.mp (hdata d (by simp))
    have hlength : (a :: b :: c :: d :: rest).length % 4 = rest.length % 4 := by
      simp only [List.length_cons]
      omega
    have hrest : Tail rest.length tail := by
      cases htail with
      | bare h => exact .bare (hlength ▸ h)
      | one h hpad => exact .one (hlength ▸ h) hpad
      | two h hpad => exact .two (hlength ▸ h) hpad
    obtain ⟨out, hout, left, hleft, hbits⟩ :=
      decode_data rest (fun x hx => hdata x (by simp [hx])) hrest
    refine ⟨chunkBytes p₀ p₁ (some p₂) (some p₃) ++ out, ?_, left, hleft, ?_⟩
    · rw [List.cons_append, List.cons_append, List.cons_append, List.cons_append,
        decode_four ha hb hc hd, hout]
      rfl
    · rw [List.flatMap_append, List.append_assoc, hbits]
      simp only [groupBits, List.filterMap_cons, ha, hb, hc, hd, List.flatMap_cons, chunkBytes,
        first_byte_bits h₀ h₁, second_byte_bits h₂, third_byte_bits h₃, List.flatMap_nil]
      rfl
termination_by data.length

/-- The decoder behind the validator does not throw. -/
theorem decode_text {s : Bytes} (h : Base64Text s) : ∃ out, decode s = some out ∧ Groups s out := by
  obtain ⟨data, tail, rfl, hdata, htail⟩ := h.tail
  obtain ⟨out, hout, left, hleft, hbits⟩ := decode_data data hdata htail
  refine ⟨out, hout, left, hleft, ?_⟩
  rw [hbits, groupBits, groupBits, List.filterMap_append, htail.pads, List.append_nil]

/-! ### Decoding what was encoded -/

/-- The encoding by groups of three bytes. -/
def encodeGroups (url : Bool) : Bytes → Bytes
  | [] => []
  | [b₀] => encodeChunk url b₀ none none
  | [b₀, b₁] => encodeChunk url b₀ (some b₁) none
  | b₀ :: b₁ :: b₂ :: rest => encodeChunk url b₀ (some b₁) (some b₂) ++ encodeGroups url rest

theorem byteBelow_eq (bytes : Bytes) {pos : Nat} (h : pos < 2 ^ 32) :
    byteBelow bytes pos = (bytes.drop pos).head? := by
  rw [byteBelow, Nat.mod_eq_of_lt h, List.head?_drop]
  split
  · rename_i hlt
    rw [List.getD_eq_getElem?_getD, List.getElem?_eq_getElem hlt, Option.getD_some]
  · rename_i hge
    rw [List.getElem?_eq_none (by omega)]

/-- The positions are those of the groups; none of them wraps. -/
theorem encodeLoop_eq (url : Bool) {bytes : Bytes} (hlength : bytes.length < 2 ^ 32)
    (rounds pos : Nat) (hpos : pos < 2 ^ 32) (hthree : pos % 3 = 0)
    (hrounds : bytes.length - pos < rounds) :
    encodeLoop url bytes rounds pos = some (encodeGroups url (bytes.drop pos)) := by
  induction rounds generalizing pos with
  | zero => omega
  | succ rounds ih =>
    rw [encodeLoop, byteBelow_eq bytes hpos]
    cases hgroup : bytes.drop pos with
    | nil => rfl
    | cons b₀ tail =>
      have hlt : pos < bytes.length := by
        have := congrArg List.length hgroup
        simp only [List.length_drop, List.length_cons] at this
        omega
      have hnext := ih (pos + 3) (by omega) (by omega) (by omega)
      have hfrom : ∀ n, bytes.drop (pos + n) = (b₀ :: tail).drop n := by
        intro n
        rw [← hgroup, List.drop_drop]
      simp only [List.head?_cons, Nat.mod_eq_of_lt (show pos + 3 < 2 ^ 32 by omega), hnext,
        byteBelow_eq bytes (show pos + 1 < 2 ^ 32 by omega),
        byteBelow_eq bytes (show pos + 2 < 2 ^ 32 by omega), hfrom, Option.map_some]
      match tail with
      | [] => exact congrArg some (List.append_nil _)
      | [b₁] => exact congrArg some (List.append_nil _)
      | b₁ :: b₂ :: rest => rfl

theorem base64Encode_eq {bytes : Bytes} (hlength : bytes.length < 2 ^ 32) (url : Bool) :
    base64Encode bytes url = some (encodeGroups url bytes) :=
  encodeLoop_eq url hlength (bytes.length + 1) 0 (by omega) rfl (by omega)

theorem base64Char_data (url : Bool) {n : Nat} (hn : n < 64) :
    isBase64DataChar (base64Char url n) = true :=
  isBase64DataChar_iff.mpr ⟨n, hn, posOfChar_base64Char url n hn⟩

theorem Base64Text.after {four s : Bytes} (hfour : ∀ c ∈ four, isBase64DataChar c = true)
    (hlength : four.length = 4) (h : Base64Text s) : Base64Text (four ++ s) := by
  obtain ⟨data, hdata, hform⟩ := h
  refine ⟨four ++ data, ?_, ?_⟩
  · intro c hc
    rcases List.mem_append.mp hc with hc | hc
    · exact hfour c hc
    · exact hdata c hc
  · rcases hform with ⟨rfl, hone⟩ | ⟨pad, count, hpad, hcount, rfl, hzero⟩
    · left
      rw [List.length_append]
      exact ⟨rfl, by omega⟩
    · right
      refine ⟨pad, count, hpad, hcount, (List.append_assoc ..).symm, ?_⟩
      rw [List.length_append]
      omega

theorem encodeGroups_text (url : Bool) (bytes : Bytes) : Base64Text (encodeGroups url bytes) := by
  induction bytes using encodeGroups.induct with
  | case1 => exact ⟨[], fun _ h => (nomatch h), .inl ⟨rfl, by decide⟩⟩
  | case2 b₀ =>
    have h₀ := b₀.toNat_lt
    refine ⟨[base64Char url (b₀.toNat / 4), base64Char url (b₀.toNat % 4 * 16)], ?_,
      .inr ⟨trailingChar url, 2, isPad_trailingChar url, .inr rfl, rfl, ?_⟩⟩
    · simp only [List.forall_mem_cons, List.not_mem_nil, false_imp_iff, implies_true, and_true]
      exact ⟨base64Char_data url (by omega), base64Char_data url (by omega)⟩
    · simp only [encodeGroups, encodeChunk, List.length_cons, List.length_nil]
  | case3 b₀ b₁ =>
    have h₀ := b₀.toNat_lt
    have h₁ := b₁.toNat_lt
    refine ⟨[base64Char url (b₀.toNat / 4), base64Char url (b₀.toNat % 4 * 16 + b₁.toNat / 16),
      base64Char url (b₁.toNat % 16 * 4)], ?_,
      .inr ⟨trailingChar url, 1, isPad_trailingChar url, .inl rfl, rfl, ?_⟩⟩
    · simp only [List.forall_mem_cons, List.not_mem_nil, false_imp_iff, implies_true, and_true]
      exact ⟨base64Char_data url (by omega), base64Char_data url (by omega),
        base64Char_data url (by omega)⟩
    · simp only [encodeGroups, encodeChunk, List.length_cons, List.length_nil]
  | case4 b₀ b₁ b₂ rest ih =>
    have h₀ := b₀.toNat_lt
    have h₁ := b₁.toNat_lt
    have h₂ := b₂.toNat_lt
    refine Base64Text.after ?_ rfl ih
    simp only [encodeChunk, List.forall_mem_cons, List.not_mem_nil, false_imp_iff, implies_true,
      and_true]
    exact ⟨base64Char_data url (by omega), base64Char_data url (by omega),
      base64Char_data url (by omega), base64Char_data url (by omega)⟩

theorem ofNat_eq {n : Nat} {b : Byte} (h : n = b.toNat) : UInt8.ofNat n = b := by
  rw [h, UInt8.ofNat_toNat]

theorem decode_encodeGroups (url : Bool) (bytes : Bytes) :
    decode (encodeGroups url bytes) = some bytes := by
  have hchar := posOfChar_base64Char url
  have hpad := isPad_trailingChar url
  induction bytes using encodeGroups.induct with
  | case1 => rfl
  | case2 b₀ =>
    have h₀ := b₀.toNat_lt
    have hdecode := decode_two (hchar (b₀.toNat / 4) (by omega))
      (hchar (b₀.toNat % 4 * 16) (by omega)) (.inr ⟨_, hpad, rfl⟩)
    refine hdecode.trans (congrArg some ?_)
    rw [chunkBytes, @ofNat_eq _ b₀ (by omega)]
  | case3 b₀ b₁ =>
    have h₀ := b₀.toNat_lt
    have h₁ := b₁.toNat_lt
    have hdecode := decode_three (hchar (b₀.toNat / 4) (by omega))
      (hchar (b₀.toNat % 4 * 16 + b₁.toNat / 16) (by omega))
      (hchar (b₁.toNat % 16 * 4) (by omega)) (.inr ⟨_, hpad, rfl⟩)
    refine hdecode.trans (congrArg some ?_)
    simp only [chunkBytes]
    rw [@ofNat_eq _ b₀ (by omega), @ofNat_eq _ b₁ (by omega)]
  | case4 b₀ b₁ b₂ rest ih =>
    have h₀ := b₀.toNat_lt
    have h₁ := b₁.toNat_lt
    have h₂ := b₂.toNat_lt
    have hdecode := decode_four (hchar (b₀.toNat / 4) (by omega))
      (hchar (b₀.toNat % 4 * 16 + b₁.toNat / 16) (by omega))
      (hchar (b₁.toNat % 16 * 4 + b₂.toNat / 64) (by omega))
      (hchar (b₂.toNat % 64) (by omega)) (encodeGroups url rest)
    refine hdecode.trans ?_
    rw [ih, Option.map_some]
    simp only [chunkBytes]
    rw [@ofNat_eq _ b₀ (by omega), @ofNat_eq _ b₁ (by omega), @ofNat_eq _ b₂ (by omega)]
    rfl

/-- The checked decoder takes exactly the texts of the format, never throws on them, gives the
bytes of the groups, and undoes the encoder. -/
theorem base64_exact :
    (∀ s, (base64Decode s).isSome = true ↔ Base64Text s) ∧
      (∀ s, isValidBase64 s = true →
        ∃ out, decode s = some out ∧ base64Decode s = some out ∧ Groups s out) ∧
      ∀ (bytes : Bytes) (url : Bool), bytes.length < 2 ^ 32 →
        ∃ s, base64Encode bytes url = some s ∧ base64Decode s = some bytes := by
  have hdecode : ∀ s, isValidBase64 s = true →
      ∃ out, decode s = some out ∧ base64Decode s = some out ∧ Groups s out := by
    intro s hs
    obtain ⟨out, hout, hgroups⟩ := decode_text ((isValidBase64_iff s).mp hs)
    refine ⟨out, hout, ?_, hgroups⟩
    rw [base64Decode, if_pos hs, hout]
  refine ⟨fun s => ?_, hdecode, fun bytes url hlength => ?_⟩
  · rw [← isValidBase64_iff]
    constructor
    · intro h
      obtain ⟨out, hout⟩ := Option.isSome_iff_exists.mp h
      exact (Option.ite_none_right_eq_some.mp hout).1
    · intro h
      obtain ⟨out, -, hout, -⟩ := hdecode s h
      rw [hout]
      rfl
  · refine ⟨encodeGroups url bytes, base64Encode_eq hlength url, ?_⟩
    rw [base64Decode, if_pos ((isValidBase64_iff _).mpr (encodeGroups_text url bytes)),
      decode_encodeGroups]

end CloudStorage
