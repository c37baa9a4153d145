import CloudStorage.Request
import Mathlib.Data.List.TakeDrop

/-!
# Cookies (`GetCookie`)

The scan of the header by positions, and what it finds in a header that is put
together from pairs.
-/

namespace CloudStorage
open Posix

/-! ### The scan -/

/-- `find(c, position)`. -/
def findFrom (text : Bytes) (c : Byte) (position : Nat) : Option Nat :=
  ((text.drop position).findIdx? fun b => decide (b = c)).map fun i => position + i

/-- `substr(position, count)`; no count is `npos`. -/
def substr (text : Bytes) (position : Nat) (count : Option Nat) : Bytes :=
  match count with
  | none => text.drop position
  | some count => (text.drop position).take count

/-- What one round of the loop finds in its item. -/
def itemValue (name item : Bytes) : Option Bytes :=
  match findFrom item equalSign 0 with
  | none => none
  | some separator =>
    if trim (substr item 0 (some separator)) = name then some (substr item (separator + 1) none)
    else none

/-- The loop over `position`. Its result is `none` when the rounds do not suffice. -/
def cookieLoop (cookies name : Bytes) : Nat → Nat → Option (Option Bytes)
  | 0, _ => none
  | rounds + 1, position =>
    if position ≤ cookies.length then
      let finish := findFrom cookies semicolon position
      let item := trim (substr cookies position (finish.map fun finish => finish - position))
      match itemValue name item with
      | some value => some (some value)
      | none =>
        match finish with
        | none => some none
        | some finish => cookieLoop cookies name rounds (finish + 1)
    else some none

theorem findIdx?_byte (text : Bytes) (c : Byte) :
    (text.findIdx? fun b => decide (b = c)) =
      if c ∈ text then some (text.takeWhile fun b => decide (b ≠ c)).length else none := by
  induction text with
  | nil => rfl
  | cons b text ih =>
    rw [List.findIdx?_cons, ih]
    by_cases hb : b = c
    · simp only [hb, decide_true, if_true, List.mem_cons, true_or, ne_eq, not_true_eq_false,
        decide_false, Bool.false_eq_true, not_false_eq_true, List.takeWhile_cons_of_neg,
        List.length_nil]
    · have hmem : c ∈ b :: text ↔ c ∈ text := by
        simp only [List.mem_cons, Ne.symm hb, false_or]
      simp only [hb, decide_false, Bool.false_eq_true, if_false, hmem, ne_eq, not_false_eq_true,
        decide_true, List.takeWhile_cons_of_pos, List.length_cons]
      split
      · rfl
      · rfl

theorem findFrom_none {text : Bytes} {c : Byte} {position : Nat} (h : c ∉ text.drop position) :
    findFrom text c position = none := by
  rw [findFrom, findIdx?_byte, if_neg h]
  rfl

theorem findFrom_some {text before after : Bytes} {c : Byte} {position : Nat}
    (hsplit : text.drop position = before ++ c :: after) (hbefore : c ∉ before) :
    findFrom text c position = some (position + before.length) := by
  have hmem : c ∈ before ++ c :: after := List.mem_append_right _ (List.mem_cons_self ..)
  rw [findFrom, findIdx?_byte, hsplit, if_pos hmem, takeWhile_mark hbefore]
  rfl

theorem first_mark (text : Bytes) (c : Byte) :
    c ∉ text ∨ ∃ before after, text = before ++ c :: after ∧ c ∉ before := by
  cases hdrop : text.dropWhile fun b => decide (b ≠ c) with
  | nil =>
    left
    intro hmem
    have hall := List.dropWhile_eq_nil_iff.mp hdrop c hmem
    simp at hall
  | cons b after =>
    right
    exact ⟨_, after, eq_of_dropWhile_mark hdrop, mark_not_mem_takeWhile text⟩

theorem itemValue_eq (name item : Bytes) : itemValue name item = cookieValue name item := by
  unfold itemValue cookieValue
  rcases first_mark item equalSign with hnone | ⟨before, after, rfl, hbefore⟩
  · have hdrop : (item.dropWhile fun b => decide (b ≠ equalSign)) = [] := by
      refine List.dropWhile_eq_nil_iff.mpr fun b hb => decide_eq_true ?_
      rintro rfl
      exact hnone hb
    rw [findFrom_none hnone, hdrop]
  · rw [findFrom_some rfl hbefore, dropWhile_mark hbefore, takeWhile_mark hbefore]
    simp only [substr, List.drop_zero, Nat.zero_add, List.take_left]
    rw [← List.drop_drop, List.drop_left]
    rfl

/-- What is left of the header is scanned item by item. -/
theorem cookieLoop_eq (cookies name : Bytes) (rounds position : Nat)
    (hle : position ≤ cookies.length) (hrounds : cookies.length - position < rounds) :
    cookieLoop cookies name rounds position =
      some (((cookies.drop position).splitOn semicolon).findSome? fun item =>
        cookieValue name (trim item)) := by
  induction rounds generalizing position with
  | zero => omega
  | succ rounds ih =>
    rw [cookieLoop, if_pos hle]
    rcases first_mark (cookies.drop position) semicolon with hlast | ⟨item, after, hsplit, hitem⟩
    · simp only [findFrom_none hlast, Option.map_none, substr, itemValue_eq,
        List.splitOn_eq_singleton hlast, List.findSome?_cons, List.findSome?_nil]
      cases cookieValue name (trim (cookies.drop position)) with
      | none => rfl
      | some value => rfl
    · have hlength := congrArg List.length hsplit
      simp only [List.length_drop, List.length_append, List.length_cons] at hlength
      have hnext : cookies.drop (position + item.length + 1) = after := by
        rw [Nat.add_assoc, ← List.drop_drop, hsplit, ← List.drop_drop, List.drop_left]
        rfl
      have hrest := ih (position + item.length + 1) (by omega) (by omega)
      rw [hnext] at hrest
      simp only [findFrom_some hsplit hitem, Option.map_some, Nat.add_sub_cancel_left, substr,
        itemValue_eq, hsplit, List.take_left, hrest,
        List.splitOn_append_cons_self_of_not_mem hitem, List.findSome?_cons]
      cases cookieValue name (trim item) with
      | none => rfl
      | some value => rfl

/-- `GetCookie` as it scans; a round for every byte of the header and one more. -/
def Request.scanCookie (request : Request) (name : Bytes) : Option (Option Bytes) :=
  match request.findHeader (lit "Cookie") with
  | none => some none
  | some cookies => cookieLoop cookies name (cookies.length + 1) 0

/-- The scan comes to an end on every header. -/
theorem scanCookie_eq (request : Request) (name : Bytes) :
    request.scanCookie name = some (request.getCookie name) := by
  unfold Request.scanCookie Request.getCookie
  cases request.findHeader (lit "Cookie") with
  | none => rfl
  | some cookies =>
    exact cookieLoop_eq cookies name (cookies.length + 1) 0 (Nat.zero_le _) (by omega)

/-! ### Headers put together from pairs -/

/-- What stands between two semicolons. -/
inductive CookieItem
  /-- `name=value`, with blanks and tabs around it -/
  | pair (before name value after : Bytes)
  | other (text : Bytes)
  deriving DecidableEq, Repr

namespace CookieItem

def text : CookieItem → Bytes
  | .pair before name value after => before ++ (name ++ equalSign :: value) ++ after
  | .other text => text

def pair? : CookieItem → Option (Bytes × Bytes)
  | .pair _ name value _ => some (name, value)
  | .other _ => none

end CookieItem

def pairsOf (items : List CookieItem) : List (Bytes × Bytes) := items.filterMap CookieItem.pair?

def headerOf (items : List CookieItem) : Bytes := [semicolon].intercalate (items.map CookieItem.text)

structure CookieName (name : Bytes) : Prop where
  ne_nil : name ≠ []
  equal : equalSign ∉ name
  semicolon : semicolon ∉ name
  blank : ∀ b ∈ name, isBlank b = false

structure CookieValue (value : Bytes) : Prop where
  semicolon : semicolon ∉ value
  first : ∀ b ∈ value.head?, isBlank b = false
  last : ∀ b ∈ value.getLast?, isBlank b = false

def CookieItem.Proper : CookieItem → Prop
  | .pair before name value after =>
    (∀ b ∈ before, isBlank b = true) ∧ CookieName name ∧ CookieValue value ∧
      ∀ b ∈ after, isBlank b = true
  | .other text => semicolon ∉ text ∧ equalSign ∉ text

theorem trim_padded {before text after : Bytes} (hbefore : ∀ b ∈ before, isBlank b = true)
    (hafter : ∀ b ∈ after, isBlank b = true) (hfirst : ∀ b ∈ text.head?, isBlank b = false)
    (hlast : ∀ b ∈ text.getLast?, isBlank b = false) :
    trim (before ++ text ++ after) = text := by
  have hreverse : ∀ b ∈ after.reverse, isBlank b = true :=
    fun b hb => hafter b (List.mem_reverse.mp hb)
  rw [trim, List.append_assoc, List.dropWhile_append_of_pos hbefore]
  cases text with
  | nil =>
    rw [List.nil_append, List.dropWhile_eq_nil_iff.mpr hafter]
    rfl
  | cons b text =>
    rw [List.cons_append, List.dropWhile_cons_of_neg (by simp [hfirst b rfl]), ← List.cons_append,
      List.rdropWhile, List.reverse_append, List.dropWhile_append_of_pos hreverse]
    cases hrev : (b :: text).reverse with
    | nil => simp at hrev
    | cons c rest =>
      have hc : isBlank c = false := by
        refine hlast c ?_
        rw [List.getLast?_eq_head?_reverse, hrev]
        rfl
      rw [List.dropWhile_cons_of_neg (by simp [hc]), ← hrev, List.reverse_reverse]

theorem CookieName.trim {name : Bytes} (h : CookieName name) : trim name = name := by
  have htrim := @trim_padded [] name [] (fun _ h => (nomatch h)) (fun _ h => (nomatch h))
    (fun b hb => h.blank b (List.mem_of_head? hb)) fun b hb => h.blank b (List.mem_of_getLast? hb)
  rwa [List.nil_append, List.append_nil] at htrim

theorem mem_of_mem_trim {b : Byte} {text : Bytes} (h : b ∈ CloudStorage.trim text) : b ∈ text :=
  (List.dropWhile_sublist _).subset ((List.rdropWhile_prefix _ _).subset h)

/-- A round finds the value of a pair with the name, and nothing in any other item. -/
theorem cookieValue_item {item : CookieItem} (h : item.Proper) (wanted : Bytes) :
    cookieValue wanted (trim item.text) =
      item.pair?.bind fun pair => if pair.1 = wanted then some pair.2 else none := by
  cases item with
  | pair before name value after =>
    obtain ⟨hbefore, hname, hvalue, hafter⟩ := h
    have hequal : isBlank equalSign = false := by decide
    have hfirst : ∀ b ∈ (name ++ equalSign :: value).head?, isBlank b = false := by
      intro b hb
      cases name with
      | nil => exact absurd rfl hname.ne_nil
      | cons c name =>
        cases hb
        exact hname.blank _ (List.mem_cons_self ..)
    have hlast : ∀ b ∈ (name ++ equalSign :: value).getLast?, isBlank b = false := by
      intro b hb
      rw [List.getLast?_append] at hb
      cases value with
      | nil =>
        cases hb
        exact hequal
      | cons c value =>
        rw [List.getLast?_cons_cons, List.getLast?_cons] at hb
        refine hvalue.last b ?_
        rw [List.getLast?_cons]
        exact hb
    rw [CookieItem.text, trim_padded hbefore hafter hfirst hlast, cookieValue,
      dropWhile_mark hname.equal, takeWhile_mark hname.equal, hname.trim]
    rfl
  | other text =>
    have hnone : equalSign ∉ trim text := fun hmem => h.2 (mem_of_mem_trim hmem)
    have hdrop : ((trim text).dropWhile fun b => decide (b ≠ equalSign)) = [] := by
      refine List.dropWhile_eq_nil_iff.mpr fun b hb => decide_eq_true ?_
      rintro rfl
      exact hnone hb
    rw [CookieItem.text, cookieValue, hdrop]
    rfl

theorem CookieItem.Proper.no_semicolon {item : CookieItem} (h : item.Proper) :
    semicolon ∉ item.text := by
  cases item with
  | pair before name value after =>
    obtain ⟨hbefore, hname, hvalue, hafter⟩ := h
    have hblank : ¬isBlank semicolon = true := by decide
    have hne : semicolon ≠ equalSign := by decide
    intro hmem
    simp only [CookieItem.text, List.mem_append, List.mem_cons] at hmem
    rcases hmem with (hmem | hmem | heq | hmem) | hmem
    · exact hblank (hbefore _ hmem)
    · exact hname.semicolon hmem
    · exact hne heq
    · exact hvalue.semicolon hmem
    · exact hblank (hafter _ hmem)
  | other text => exact h.1

theorem findSome?_items {items : List CookieItem} (h : ∀ item ∈ items, item.Proper)
    (wanted : Bytes) :
    ((items.map CookieItem.text).findSome? fun text => cookieValue wanted (trim text)) =
      (pairsOf items).lookup wanted := by
  induction items with
  | nil => rfl
  | cons item items ih =>
    have htail := ih fun item hmem => h item (List.mem_cons_of_mem _ hmem)
    have hitem := cookieValue_item (h item (List.mem_cons_self ..)) wanted
    rw [List.map_cons, List.findSome?_cons, hitem, htail]
    cases item with
    | other text => rfl
    | pair before name value after =>
      have hpairs : pairsOf (.pair before name value after :: items) =
          (name, value) :: pairsOf items := rfl
      rw [hpairs, List.lookup_cons]
      by_cases hname : name = wanted
      · simp only [CookieItem.pair?, Option.bind_some, hname, if_true, beq_self_eq_true]
      · have hne : (wanted == name) = false := beq_eq_false_iff_ne.mpr (Ne.symm hname)
        simp only [CookieItem.pair?, Option.bind_some, hname, if_false, hne]

/-- The scan ends on every header, and in a header of pairs it finds the first one with
the name. -/
theorem cookie_found (wanted : Bytes) :
    (∀ request : Request, (request.scanCookie wanted).isSome = true) ∧
      ∀ (request : Request) (items : List CookieItem), (∀ item ∈ items, item.Proper) →
        request.findHeader (lit "Cookie") = some (headerOf items) →
        request.scanCookie wanted = some ((pairsOf items).lookup wanted) := by
  refine ⟨fun request => ?_, fun request items hitems hheader => ?_⟩
  · rw [scanCookie_eq]
    rfl
  · have hcookie : request.getCookie wanted =
        ((headerOf items).splitOn semicolon).findSome? fun item =>
          cookieValue wanted (trim item) := by
      unfold Request.getCookie
      rw [hheader]
      rfl
    rw [scanCookie_eq, hcookie]
    by_cases hempty : items = []
    · subst hempty
      rfl
    · have hsplit : (headerOf items).splitOn semicolon = items.map CookieItem.text := by
        refine List.splitOn_intercalate semicolon (fun text htext => ?_) fun h =>
          hempty (List.map_eq_nil_iff.mp h)
        obtain ⟨item, hitem, rfl⟩ := List.mem_map.mp htext
        exact (hitems item hitem).no_semicolon
      rw [hsplit, findSome?_items hitems]

/-- Blanks around the items, an item without a value, and a second pair of the name. -/
def sampleItems : List CookieItem := [.other (lit " flag"), .pair (lit " ") (lit "csrf") (lit "a=b") [],
  .other [], .pair (lit "\t") (lit "session") [] (lit " "), .pair [] (lit "session") (lit "late") []]

theorem cookie_found_sample :
    headerOf sampleItems = lit " flag; csrf=a=b;;\tsession= ;session=late" ∧
    ∀ request : Request, request.findHeader (lit "Cookie") = some (headerOf sampleItems) →
      request.scanCookie (lit "session") = some (some []) := by
  refine ⟨by decide, fun request hheader => ?_⟩
  have hblank : ∀ text ∈ [lit " ", lit "\t", []], ∀ b ∈ text, isBlank b = true := by
    have hall : [lit " ", lit "\t", []].all (fun text => text.all isBlank) = true := by decide
    exact fun text htext => List.all_eq_true.mp (List.all_eq_true.mp hall text htext)
  have hname : ∀ name ∈ [lit "csrf", lit "session"], CookieName name := by
    have hall : [lit "csrf", lit "session"].all (fun name => !name.isEmpty &&
        name.all fun b => !isBlank b && b != equalSign && b != semicolon) = true := by decide
    intro name hmem
    obtain ⟨hne, hbytes⟩ := Bool.and_eq_true_iff.mp (List.all_eq_true.mp hall name hmem)
    have hbyte : ∀ b ∈ name, isBlank b = false ∧ b ≠ equalSign ∧ b ≠ semicolon := fun b hb => by
      simpa [and_assoc] using List.all_eq_true.mp hbytes b hb
    exact ⟨fun he => by simp [he] at hne, fun h => (hbyte _ h).2.1 rfl, fun h => (hbyte _ h).2.2 rfl,
      fun b hb => (hbyte b hb).1⟩
  have hvalue : ∀ value ∈ [lit "a=b", [], lit "late"], CookieValue value := by
    intro value hmem
    simp only [List.mem_cons, List.not_mem_nil, or_false] at hmem
    rcases hmem with rfl | rfl | rfl
    · exact ⟨by decide, fun b hb => by cases hb; rfl, fun b hb => by cases hb; rfl⟩
    · exact ⟨by decide, fun b hb => absurd hb (by simp), fun b hb => absurd hb (by simp)⟩
    · exact ⟨by decide, fun b hb => by cases hb; rfl, fun b hb => by cases hb; rfl⟩
  have hitems : ∀ item ∈ sampleItems, item.Proper := by
    intro item hitem
    simp only [sampleItems, List.mem_cons, List.not_mem_nil, or_false] at hitem
    rcases hitem with rfl | rfl | rfl | rfl | rfl
    · exact ⟨by decide, by decide⟩
    · exact ⟨hblank _ (by simp), hname _ (by simp), hvalue _ (by simp), hblank _ (by simp)⟩
    · exact ⟨by decide, by decide⟩
    · exact ⟨hblank _ (by simp), hname _ (by simp), hvalue _ (by simp), hblank _ (by simp)⟩
    · exact ⟨hblank _ (by simp), hname _ (by simp), hvalue _ (by simp), hblank _ (by simp)⟩
  exact (cookie_found (lit "session")).2 request sampleItems hitems hheader

end CloudStorage
