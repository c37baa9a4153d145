import CloudStorage.Range
import CloudStorage.Words
import Mathlib.Data.Set.Basic

/-!
# The grammar of single ranges and the positions they denote

`bytes=` followed by `DIGIT+ - DIGIT*` or by `- DIGIT+`. The parser looks at
the first number before it has seen the second one, and its number parser
stops at 64 bits, so what it ignores is compared with the grammar here, and
what it selects with the positions the header denotes.
-/

namespace CloudStorage
open Posix

/-! ### Grammar -/

def AllDigits (text : Bytes) : Prop := text.all isDigit = true
def Digits (text : Bytes) : Prop := text ≠ [] ∧ AllDigits text

instance (text : Bytes) : Decidable (AllDigits text) := inferInstanceAs (Decidable (_ = _))
instance (text : Bytes) : Decidable (Digits text) := inferInstanceAs (Decidable (_ ∧ _))

/-- The number written by digits. -/
def numeral (text : Bytes) : Nat := text.foldl (fun n b => n * 10 + (b.toNat - 48)) 0

inductive RangeForm (header : Bytes) : Prop
  | span (start last : Bytes) (hstart : Digits start) (hlast : AllDigits last)
      (h : header = bytesUnit ++ start ++ dash :: last)
  | suffix (count : Bytes) (hcount : Digits count) (h : header = bytesUnit ++ dash :: count)

theorem parseUnsigned_eq (text : Bytes) :
    parseUnsigned text =
      if Digits text ∧ numeral text < 2 ^ 64 then some (numeral text) else none := by
  unfold parseUnsigned Digits AllDigits numeral
  by_cases hnil : text = []
  · simp [hnil]
  · by_cases hdigits : text.all isDigit = true
    · simp [hnil, hdigits]
    · have hfalse : text.all isDigit = false := by simpa using hdigits
      rw [if_pos (Or.inr hfalse), if_neg (fun h => hdigits h.1.2)]

theorem parseUnsigned_some {text : Bytes} (h : Digits text) (hfits : numeral text < 2 ^ 64) :
    parseUnsigned text = some (numeral text) := by
  rw [parseUnsigned_eq, if_pos ⟨h, hfits⟩]

/-! ### How a header is cut -/

/-- The texts on the two sides of the only dash. -/
structure Parts (header start rest : Bytes) : Prop where
  spelled : header = bytesUnit ++ start ++ dash :: rest
  start_dash : dash ∉ start
  rest_dash : dash ∉ rest
  start_comma : comma ∉ start
  rest_comma : comma ∉ rest

theorem not_mem_of_digits {text : Bytes} (h : AllDigits text) {b : Byte}
    (hb : isDigit b = false) : b ∉ text := by
  intro hmem
  have hdigit : isDigit b = true := List.all_eq_true.mp h b hmem
  rw [hb] at hdigit
  exact Bool.false_ne_true hdigit

theorem dash_not_mem_digits {text : Bytes} (h : AllDigits text) : dash ∉ text :=
  not_mem_of_digits h (by decide)

theorem comma_not_mem_digits {text : Bytes} (h : AllDigits text) : comma ∉ text :=
  not_mem_of_digits h (by decide)

theorem span_parts {header start rest : Bytes} (hstart : AllDigits start) (hrest : AllDigits rest)
    (h : header = bytesUnit ++ start ++ dash :: rest) : Parts header start rest :=
  ⟨h, dash_not_mem_digits hstart, dash_not_mem_digits hrest, comma_not_mem_digits hstart,
    comma_not_mem_digits hrest⟩

theorem suffix_parts {header count : Bytes} (hcount : Digits count)
    (h : header = bytesUnit ++ dash :: count) : Parts header [] count :=
  span_parts (by rfl) hcount.2 (by rw [h, List.append_nil])

theorem Parts.unique {header start rest start' rest' : Bytes} (h : Parts header start rest)
    (h' : Parts header start' rest') : start = start' ∧ rest = rest' := by
  have heq : start ++ dash :: rest = start' ++ dash :: rest' := by
    have hboth := h.spelled.symm.trans h'.spelled
    simpa only [List.append_assoc, List.append_cancel_left_eq] using hboth
  have hstart := takeWhile_mark h.start_dash rest
  have hrest := dropWhile_mark h.start_dash rest
  rw [heq] at hstart hrest
  rw [takeWhile_mark h'.start_dash] at hstart
  rw [dropWhile_mark h'.start_dash] at hrest
  exact ⟨hstart.symm, (List.cons.inj hrest).2.symm⟩

theorem parseRangeHeader_parts {header start rest : Bytes} (h : Parts header start rest)
    (fileSize : Nat) :
    parseRangeHeader header fileSize =
      if start = [] then suffixRange rest fileSize else startRange start rest fileSize := by
  have htake : header.take bytesUnit.length = bytesUnit := by
    rw [h.spelled, List.append_assoc, List.take_left]
  have hdrop : header.drop bytesUnit.length = start ++ dash :: rest := by
    rw [h.spelled, List.append_assoc, List.drop_left]
  have hcomma : ¬(start ++ dash :: rest = [] ∨ comma ∈ start ++ dash :: rest) := by
    rintro (hnil | hmem)
    · simp at hnil
    · rcases List.mem_append.mp hmem with hmem | hmem
      · exact h.start_comma hmem
      · rcases List.mem_cons.mp hmem with heq | hmem
        · exact absurd heq (by decide)
        · exact h.rest_comma hmem
  have htext := takeWhile_mark h.start_dash rest
  have hlast := dropWhile_mark h.start_dash rest
  unfold parseRangeHeader
  simp only [htake, hdrop, ne_eq, not_true_eq_false, if_false, hcomma]
  rw [show (fun b : Byte => decide (¬b = dash)) = fun b => decide (b ≠ dash) from rfl, hlast, htext]
  simp only [h.rest_dash, if_false]

theorem parseRangeHeader_cut {header : Bytes} {fileSize : Nat}
    (h : ∀ start rest, ¬Parts header start rest) : parseRangeHeader header fileSize = {} := by
  unfold parseRangeHeader
  split
  · rfl
  · rename_i htake
    simp only [ne_eq, not_not] at htake
    simp only
    split
    · rfl
    · rename_i hvalue
      split
      · rfl
      · rename_i b rest hdrop
        split
        · rfl
        · rename_i hdash
          exfalso
          have hsplit := eq_of_dropWhile_mark hdrop
          refine h ((header.drop bytesUnit.length).takeWhile fun b => decide (b ≠ dash)) rest
            ⟨?_, ?_, hdash, ?_, ?_⟩
          · have hwhole := (List.take_append_drop bytesUnit.length header).symm
            rw [List.append_assoc, ← hsplit]
            rwa [htake] at hwhole
          · exact mark_not_mem_takeWhile _
          · exact fun hmem => hvalue (Or.inr (List.takeWhile_subset _ hmem))
          · intro hmem
            apply hvalue
            right
            rw [hsplit]
            exact List.mem_append_right _ (List.mem_cons_of_mem _ hmem)

theorem rangeForm_iff {header start rest : Bytes} (h : Parts header start rest) :
    RangeForm header ↔ (start = [] ∧ Digits rest) ∨ (Digits start ∧ AllDigits rest) := by
  constructor
  · intro hform
    cases hform with
    | span start' last hstart hlast heq =>
      obtain ⟨rfl, rfl⟩ := h.unique (span_parts hstart.2 hlast heq)
      exact Or.inr ⟨hstart, hlast⟩
    | suffix count hcount heq =>
      obtain ⟨rfl, rfl⟩ := h.unique (suffix_parts hcount heq)
      exact Or.inl ⟨rfl, hcount⟩
  · rintro (⟨rfl, hrest⟩ | ⟨hstart, hrest⟩)
    · exact .suffix rest hrest (by rw [h.spelled, List.append_nil])
    · exact .span start rest hstart hrest h.spelled

theorem rangeForm_parts {header : Bytes} (h : RangeForm header) :
    ∃ start rest, Parts header start rest := by
  cases h with
  | span start last hstart hlast heq => exact ⟨start, last, span_parts hstart.2 hlast heq⟩
  | suffix count hcount heq =>
    exact ⟨[], count, suffix_parts hcount heq⟩

/-! ### What is ignored -/

theorem suffixRange_ignore (text : Bytes) (fileSize : Nat) :
    (suffixRange text fileSize).status = .ignore ↔ parseUnsigned text = none := by
  unfold suffixRange
  cases h : parseUnsigned text with
  | none => simp
  | some n =>
    simp only
    split <;> simp

theorem parseUnsigned_eq_none (text : Bytes) :
    parseUnsigned text = none ↔ ¬Digits text ∨ 2 ^ 64 ≤ numeral text := by
  rw [parseUnsigned_eq]
  by_cases hdigits : Digits text
  · by_cases hfits : numeral text < 2 ^ 64
    · simp only [hdigits, hfits, and_self, if_true, reduceCtorEq, not_true_eq_false, false_or,
        false_iff]
      omega
    · simp only [hdigits, hfits, and_false, if_false, not_true_eq_false, false_or, true_iff]
      omega
  · simp only [hdigits, false_and, if_false, not_false_eq_true, true_or]

theorem unreadable_iff (text : Bytes) :
    text ≠ [] ∧ parseUnsigned text = none ↔ ¬AllDigits text ∨ 2 ^ 64 ≤ numeral text := by
  rw [parseUnsigned_eq_none]
  by_cases hnil : text = []
  · subst hnil
    have hall : AllDigits [] := rfl
    have hzero : ¬2 ^ 64 ≤ numeral [] := by decide
    simp only [ne_eq, not_true_eq_false, false_and, hall, hzero, or_self]
  · simp only [Digits, hnil, ne_eq, not_false_eq_true, true_and]

theorem startRange_ignore (start last : Bytes) (fileSize : Nat) :
    (startRange start last fileSize).status = .ignore ↔
      ¬Digits start ∨ 2 ^ 64 ≤ numeral start ∨
        (numeral start < fileSize ∧ (¬AllDigits last ∨ 2 ^ 64 ≤ numeral last)) := by
  rw [← unreadable_iff, ← or_assoc, ← parseUnsigned_eq_none, startRange]
  cases h : parseUnsigned start with
  | none => simp only [true_or]
  | some n =>
    have hn : numeral start = n := by
      rw [parseUnsigned_eq] at h
      split at h
      · exact Option.some.inj h
      · cases h
    rw [hn]
    by_cases hreach : fileSize = 0 ∨ n ≥ fileSize
    · have hlt : ¬n < fileSize := by omega
      simp only [hreach, if_true, reduceCtorEq, hlt, false_and, or_self]
    · have hlt : n < fileSize := by omega
      simp only [hreach, if_false, reduceCtorEq, hlt, true_and, false_or]
      by_cases hlast : last = []
      · simp only [hlast, if_true, ne_eq, not_true_eq_false, false_and, iff_false]
        split
        · exact fun h => nomatch h
        · exact fun h => nomatch h
      · simp only [hlast, if_false, ne_eq, not_false_eq_true, true_and]
        cases hend : parseUnsigned last with
        | none => simp only
        | some m =>
          simp only [reduceCtorEq, iff_false]
          split
          · exact fun h => nomatch h
          · exact fun h => nomatch h

/-- The headers on which the parser and the grammar differ, for a file of a size: a number
that does not fit, where the parser comes to read it, and a first position beyond the
end, after which nothing is read. -/
inductive Misjudged (header : Bytes) (fileSize : Nat) : Prop
  | longSuffix (count : Bytes) (h : header = bytesUnit ++ dash :: count) (hcount : Digits count)
      (hover : 2 ^ 64 ≤ numeral count)
  | longStart (start last : Bytes) (h : header = bytesUnit ++ start ++ dash :: last)
      (hstart : Digits start) (hlast : AllDigits last) (hover : 2 ^ 64 ≤ numeral start)
  | longLast (start last : Bytes) (h : header = bytesUnit ++ start ++ dash :: last)
      (hstart : Digits start) (hlast : AllDigits last) (hreach : numeral start < fileSize)
      (hover : 2 ^ 64 ≤ numeral last)
  | unread (start rest : Bytes) (h : header = bytesUnit ++ start ++ dash :: rest)
      (hstart : Digits start) (hfits : numeral start < 2 ^ 64) (hreach : fileSize ≤ numeral start)
      (hdash : dash ∉ rest) (hcomma : comma ∉ rest) (hrest : ¬AllDigits rest)

theorem misjudged_parts {header : Bytes} {fileSize : Nat} (h : Misjudged header fileSize) :
    ∃ start rest, Parts header start rest := by
  cases h with
  | longSuffix count h hcount => exact ⟨[], count, suffix_parts hcount h⟩
  | longStart start last h hstart hlast => exact ⟨start, last, span_parts hstart.2 hlast h⟩
  | longLast start last h hstart hlast => exact ⟨start, last, span_parts hstart.2 hlast h⟩
  | unread start rest h hstart _ _ hdash hcomma =>
    exact ⟨start, rest, h, dash_not_mem_digits hstart.2, hdash, comma_not_mem_digits hstart.2, hcomma⟩

theorem misjudged_suffix_iff {header rest : Bytes} (fileSize : Nat) (h : Parts header [] rest) :
    Misjudged header fileSize ↔ Digits rest ∧ 2 ^ 64 ≤ numeral rest := by
  have hempty : ∀ start rest', Digits start → Parts header start rest' → False := by
    intro start rest' hstart hparts
    exact hstart.1 (h.unique hparts).1.symm
  constructor
  · intro hm
    cases hm with
    | longSuffix count heq hcount hover =>
      obtain ⟨-, rfl⟩ := h.unique (suffix_parts hcount heq)
      exact ⟨hcount, hover⟩
    | longStart start last heq hstart hlast =>
      exact (hempty _ _ hstart (span_parts hstart.2 hlast heq)).elim
    | longLast start last heq hstart hlast =>
      exact (hempty _ _ hstart (span_parts hstart.2 hlast heq)).elim
    | unread start rest heq hstart _ _ hdash hcomma =>
      exact (hempty _ _ hstart ⟨heq, dash_not_mem_digits hstart.2, hdash,
        comma_not_mem_digits hstart.2, hcomma⟩).elim
  · rintro ⟨hrest, hover⟩
    exact .longSuffix rest (by rw [h.spelled, List.append_nil]) hrest hover

theorem misjudged_span_iff {header start rest : Bytes} (fileSize : Nat) (hne : start ≠ [])
    (h : Parts header start rest) :
    Misjudged header fileSize ↔
      Digits start ∧
        ((AllDigits rest ∧
            (2 ^ 64 ≤ numeral start ∨ (numeral start < fileSize ∧ 2 ^ 64 ≤ numeral rest))) ∨
          (¬AllDigits rest ∧ numeral start < 2 ^ 64 ∧ fileSize ≤ numeral start)) := by
  constructor
  · intro hm
    cases hm with
    | longSuffix count heq hcount =>
      exact (hne (h.unique (suffix_parts hcount heq)).1).elim
    | longStart start last heq hstart hlast hover =>
      obtain ⟨rfl, rfl⟩ := h.unique (span_parts hstart.2 hlast heq)
      exact ⟨hstart, Or.inl ⟨hlast, Or.inl hover⟩⟩
    | longLast start last heq hstart hlast hreach hover =>
      obtain ⟨rfl, rfl⟩ := h.unique (span_parts hstart.2 hlast heq)
      exact ⟨hstart, Or.inl ⟨hlast, Or.inr ⟨hreach, hover⟩⟩⟩
    | unread start rest heq hstart hfits hreach hdash hcomma hrest =>
      obtain ⟨rfl, rfl⟩ := h.unique ⟨heq, dash_not_mem_digits hstart.2, hdash,
        comma_not_mem_digits hstart.2, hcomma⟩
      exact ⟨hstart, Or.inr ⟨hrest, hfits, hreach⟩⟩
  · rintro ⟨hstart, ⟨hrest, hover | ⟨hreach, hover⟩⟩ | ⟨hrest, hfits, hreach⟩⟩
    · exact .longStart start rest h.spelled hstart hrest hover
    · exact .longLast start rest h.spelled hstart hrest hreach hover
    · exact .unread start rest h.spelled hstart hfits hreach h.rest_dash h.rest_comma hrest

theorem parseRangeHeader_judged {header start rest : Bytes} (h : Parts header start rest)
    (fileSize : Nat) :
    ((parseRangeHeader header fileSize).status = .ignore ↔ ¬RangeForm header) ↔
      ¬Misjudged header fileSize := by
  rw [parseRangeHeader_parts h, rangeForm_iff h]
  by_cases hnil : start = []
  · subst hnil
    have hempty : ¬Digits [] := fun h => h.1 rfl
    rw [if_pos rfl, suffixRange_ignore, parseUnsigned_eq_none, misjudged_suffix_iff fileSize h]
    grind
  · have hreach : fileSize ≤ numeral start ↔ ¬numeral start < fileSize := by omega
    have hfits : numeral start < 2 ^ 64 ↔ ¬2 ^ 64 ≤ numeral start := by omega
    rw [if_neg hnil, startRange_ignore, misjudged_span_iff fileSize hnil h, hreach, hfits]
    grind

theorem range_ignored_iff (header : Bytes) (fileSize : Nat) :
    ((parseRangeHeader header fileSize).status = .ignore ↔ ¬RangeForm header) ↔
      ¬Misjudged header fileSize := by
  by_cases hparts : ∃ start rest, Parts header start rest
  · obtain ⟨start, rest, h⟩ := hparts
    exact parseRangeHeader_judged h fileSize
  · have hform : ¬RangeForm header := fun h => hparts (rangeForm_parts h)
    have hmis : ¬Misjudged header fileSize := fun h => hparts (misjudged_parts h)
    rw [parseRangeHeader_cut fun start rest h => hparts ⟨start, rest, h⟩]
    simp only [hform, hmis, not_false_eq_true]

/-- A last position of twenty digits is ignored; behind the end of the file anything is
judged. -/
theorem range_misjudged :
    ¬((parseRangeHeader (lit "bytes=0-99999999999999999999") 10).status = .ignore ↔
        ¬RangeForm (lit "bytes=0-99999999999999999999")) ∧
      ¬((parseRangeHeader (lit "bytes=10-x") 10).status = .ignore ↔
        ¬RangeForm (lit "bytes=10-x")) := by
  constructor
  · intro h
    have hignored : (parseRangeHeader (lit "bytes=0-99999999999999999999") 10).status = .ignore := by
      decide
    exact h.mp hignored (.span (lit "0") (lit "99999999999999999999") (by decide) (by decide) (by decide))
  · intro h
    have hform : ¬RangeForm (lit "bytes=10-x") := by
      have hparts : Parts (lit "bytes=10-x") (lit "10") (lit "x") := by
        constructor <;> decide
      rw [rangeForm_iff hparts]
      decide
    have hignored := h.mpr hform
    revert hignored
    decide

/-! ### What is selected -/

/-- A range as its numbers say it: from `first` on, up to `last` if there is one, or the last
`count` positions. -/
inductive RangeRequest
  | span (first : Nat) (last : Option Nat)
  | suffix (count : Nat)

/-- Positions of a file that the range denotes. -/
def RangeRequest.positions (fileSize : Nat) : RangeRequest → Set Nat
  | .span first last => {p | first ≤ p ∧ (∀ n ∈ last, p ≤ n) ∧ p < fileSize}
  | .suffix count => {p | fileSize ≤ p + count ∧ p < fileSize}

def RangeRequest.Fits : RangeRequest → Prop
  | .span first last => first < 2 ^ 64 ∧ ∀ n ∈ last, n < 2 ^ 64
  | .suffix count => count < 2 ^ 64

/-- The header writes the range. -/
inductive Spells (header : Bytes) : RangeRequest → Prop
  | closed (start last : Bytes) (hstart : Digits start) (hlast : Digits last)
      (h : header = bytesUnit ++ start ++ dash :: last) :
      Spells header (.span (numeral start) (some (numeral last)))
  | open (start : Bytes) (hstart : Digits start) (h : header = bytesUnit ++ start ++ [dash]) :
      Spells header (.span (numeral start) none)
  | suffix (count : Bytes) (hcount : Digits count) (h : header = bytesUnit ++ dash :: count) :
      Spells header (.suffix (numeral count))

/-- The result selects exactly these positions, and none when it is no partial one. -/
def ByteRange.Selects (r : ByteRange) (positions : Set Nat) : Prop :=
  (r.status = .partialContent ↔ positions.Nonempty) ∧
    (r.status = .partialContent → ∀ p, p ∈ positions ↔ r.offset ≤ p ∧ p < r.offset + r.length)

theorem selects_interval {positions : Set Nat} {offset length : Nat} (hpos : 0 < length)
    (h : ∀ p, p ∈ positions ↔ offset ≤ p ∧ p < offset + length) :
    ByteRange.Selects { status := .partialContent, offset, length } positions := by
  constructor
  · simp only [true_iff]
    exact ⟨offset, (h offset).mpr ⟨Nat.le_refl _, by omega⟩⟩
  · intro _
    exact h

theorem selects_nothing {positions : Set Nat} {r : ByteRange} (hr : r.status ≠ .partialContent)
    (h : ∀ p, p ∉ positions) : r.Selects positions := by
  constructor
  · constructor
    · intro hp
      exact (hr hp).elim
    · rintro ⟨p, hp⟩
      exact (h p hp).elim
  · intro hp
    exact (hr hp).elim

theorem suffixRange_selects {text : Bytes} (htext : Digits text) (hfits : numeral text < 2 ^ 64)
    (fileSize : Nat) :
    (suffixRange text fileSize).Selects
      ((RangeRequest.suffix (numeral text)).positions fileSize) := by
  rw [suffixRange, parseUnsigned_some htext hfits]
  simp only
  split
  · rename_i hnone
    apply selects_nothing
    · exact fun h => nomatch h
    · intro p hp
      simp only [RangeRequest.positions, Set.mem_ofPred_eq] at hp
      omega
  · split
    · apply selects_interval
      · omega
      · intro p
        simp only [RangeRequest.positions, Set.mem_ofPred_eq]
        omega
    · apply selects_interval
      · omega
      · intro p
        simp only [RangeRequest.positions, Set.mem_ofPred_eq]
        omega

/-- The second number, or its default, stands for the last position asked for. -/
theorem startRange_selects {start rest : Bytes} {last : Option Nat} (hstart : Digits start)
    (hfits : numeral start < 2 ^ 64) (fileSize : Nat)
    (hlast : (if rest = [] then some (fileSize - 1) else parseUnsigned rest) =
      some (last.getD (fileSize - 1))) :
    (startRange start rest fileSize).Selects
      ((RangeRequest.span (numeral start) last).positions fileSize) := by
  have hmem : ∀ p, p ∈ (RangeRequest.span (numeral start) last).positions fileSize ↔
      numeral start ≤ p ∧ p ≤ last.getD (fileSize - 1) ∧ p < fileSize := by
    intro p
    simp only [RangeRequest.positions, Set.mem_ofPred_eq]
    cases last with
    | none =>
      simp only [Option.not_mem_none, false_implies, implies_true, true_and, Option.getD_none]
      omega
    | some n => simp only [Option.mem_some_iff, forall_eq', Option.getD_some]
  rw [startRange, parseUnsigned_some hstart hfits]
  simp only
  split
  · rename_i hreach
    apply selects_nothing
    · exact fun h => nomatch h
    · intro p hp
      rw [hmem] at hp
      omega
  · rw [hlast]
    simp only
    split
    · rename_i horder
      apply selects_nothing
      · exact fun h => nomatch h
      · intro p hp
        rw [hmem] at hp
        omega
    · apply selects_interval
      · omega
      · intro p
        rw [hmem]
        split
        · omega
        · omega

theorem parseRangeHeader_selects {header : Bytes} {request : RangeRequest}
    (h : Spells header request) (hfits : request.Fits) (fileSize : Nat) :
    (parseRangeHeader header fileSize).Selects (request.positions fileSize) := by
  cases h with
  | closed start last hstart hlast h =>
    rw [parseRangeHeader_parts (span_parts hstart.2 hlast.2 h), if_neg hstart.1]
    apply startRange_selects hstart hfits.1
    rw [if_neg hlast.1, parseUnsigned_some hlast (hfits.2 _ rfl)]
    rfl
  | «open» start hstart h =>
    rw [parseRangeHeader_parts (span_parts hstart.2 (by rfl) h), if_neg hstart.1]
    apply startRange_selects hstart hfits.1
    rfl
  | suffix count hcount h =>
    rw [parseRangeHeader_parts (suffix_parts hcount h), if_pos rfl]
    exact suffixRange_selects hcount hfits fileSize

/-! ### The arithmetic of `uint64_t` -/

def suffixRangeWith (ops : Uint64Ops) (endText : Bytes) (fileSize : Nat) : Option ByteRange :=
  match parseUnsigned endText with
  | none => some {}
  | some suffixLength =>
    if fileSize = 0 ∨ suffixLength = 0 then some { status := .unsatisfiable }
    else do
      let length := if suffixLength ≥ fileSize then fileSize else suffixLength
      let offset ← ops.sub fileSize length
      return { status := .partialContent, offset, length }

def startRangeWith (ops : Uint64Ops) (startText endText : Bytes) (fileSize : Nat) :
    Option ByteRange :=
  match parseUnsigned startText with
  | none => some {}
  | some start =>
    if fileSize = 0 ∨ start ≥ fileSize then some { status := .unsatisfiable }
    else do
      let default ← ops.sub fileSize 1
      match if endText = [] then some default else parseUnsigned endText with
      | none => return {}
      | some last =>
        if start > last then return { status := .unsatisfiable }
        else do
          let last ← if last ≥ fileSize then ops.sub fileSize 1 else some last
          let width ← ops.sub last start
          let length ← ops.add width 1
          return { status := .partialContent, offset := start, length }

/-- `ParseRangeHeader` with every subtraction and addition made by `ops`. -/
def parseRangeHeaderWith (ops : Uint64Ops) (header : Bytes) (fileSize : Nat) : Option ByteRange :=
  if header.take bytesUnit.length ≠ bytesUnit then some {}
  else
    let value := header.drop bytesUnit.length
    if value = [] ∨ comma ∈ value then some {}
    else
      let startText := value.takeWhile fun b => decide (b ≠ dash)
      match value.dropWhile fun b => decide (b ≠ dash) with
      | [] => some {}
      | _ :: endText =>
        if dash ∈ endText then some {}
        else if startText = [] then suffixRangeWith ops endText fileSize
        else startRangeWith ops startText endText fileSize

section
variable {ops : Uint64Ops} {fileSize : Nat}

theorem suffixRangeWith_eq (hops : ops.Sound) (hsize : fileSize < 2 ^ 64) (text : Bytes) :
    suffixRangeWith ops text fileSize = some (suffixRange text fileSize) := by
  unfold suffixRangeWith suffixRange
  cases parseUnsigned text with
  | none => rfl
  | some n =>
    simp only
    split
    · rfl
    · rw [hops.sub _ _ (by split <;> omega) hsize]
      rfl

theorem startRangeWith_eq (hops : ops.Sound) (hsize : fileSize < 2 ^ 64) (start rest : Bytes) :
    startRangeWith ops start rest fileSize = some (startRange start rest fileSize) := by
  unfold startRangeWith startRange
  cases parseUnsigned start with
  | none => rfl
  | some first =>
    simp only
    split
    · rfl
    · rename_i hreach
      have hdefault : ops.sub fileSize 1 = some (fileSize - 1) := hops.sub _ _ (by omega) hsize
      rw [hdefault]
      simp only [Option.bind_eq_bind, Option.bind_some]
      cases hend : (if rest = [] then some (fileSize - 1) else parseUnsigned rest) with
      | none => rfl
      | some last =>
        simp only
        split
        · rfl
        · rename_i horder
          have hwidth : ∀ n, first ≤ n → n < fileSize → ops.sub n first = some (n - first) :=
            fun n hle hlt => hops.sub n first hle (by omega)
          have hlength : ∀ n, n < fileSize → ops.add (n - first) 1 = some (n - first + 1) :=
            fun n hlt => hops.add _ _ (by omega)
          split
          · rw [hwidth _ (by omega) (by omega), Option.bind_some, hlength _ (by omega)]
            rfl
          · rw [hwidth _ (by omega) (by omega), Option.bind_some, hlength _ (by omega)]
            rfl

theorem parseRangeHeaderWith_eq (hops : ops.Sound) (hsize : fileSize < 2 ^ 64) (header : Bytes) :
    parseRangeHeaderWith ops header fileSize = some (parseRangeHeader header fileSize) := by
  unfold parseRangeHeaderWith parseRangeHeader
  split
  · rfl
  · simp only
    split
    · rfl
    · cases (header.drop bytesUnit.length).dropWhile fun b => decide (b ≠ dash) with
      | nil => rfl
      | cons b endText =>
        simp only
        split
        · rfl
        · split
          · exact suffixRangeWith_eq hops hsize _
          · exact startRangeWith_eq hops hsize _ _

end

theorem range_selects (header : Bytes) {fileSize : Nat} (hsize : fileSize < 2 ^ 64) :
    (∀ request, Spells header request → request.Fits →
        (parseRangeHeader header fileSize).Selects (request.positions fileSize)) ∧
      (parseRangeHeader header fileSize).Within fileSize ∧
      parseRangeHeaderWith .checked header fileSize = some (parseRangeHeader header fileSize) ∧
      parseRangeHeaderWith .machine header fileSize = some (parseRangeHeader header fileSize) := by
  refine ⟨?_, ?_, ?_, ?_⟩
  · intro request hspells hfits
    exact parseRangeHeader_selects hspells hfits fileSize
  · exact parseRangeHeader_within header fileSize
  · exact parseRangeHeaderWith_eq Uint64Ops.checked_sound hsize header
  · exact parseRangeHeaderWith_eq Uint64Ops.machine_sound hsize header

theorem range_selects_largest :
    (∀ request, Spells (lit "bytes=0-") request → request.Fits →
        (parseRangeHeader (lit "bytes=0-") (2 ^ 64 - 1)).Selects
          (request.positions (2 ^ 64 - 1))) ∧
      (parseRangeHeader (lit "bytes=0-") (2 ^ 64 - 1)).Within (2 ^ 64 - 1) ∧
      parseRangeHeaderWith .checked (lit "bytes=0-") (2 ^ 64 - 1) =
        some (parseRangeHeader (lit "bytes=0-") (2 ^ 64 - 1)) ∧
      parseRangeHeaderWith .machine (lit "bytes=0-") (2 ^ 64 - 1) =
        some (parseRangeHeader (lit "bytes=0-") (2 ^ 64 - 1)) :=
  range_selects (lit "bytes=0-") (by decide)

end CloudStorage
