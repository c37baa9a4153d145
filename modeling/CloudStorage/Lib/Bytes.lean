import Mathlib.Data.List.Basic

/-!
# Byte strings

`std::string` is a byte string of any length. ASCII and UTF-8 literals are
written as Lean strings and taken to their bytes; `decimal` is
`std::to_string` on an unsigned number.
-/

namespace Posix

abbrev Byte := UInt8
abbrev Bytes := List Byte

/-- Bytes of a literal. -/
def lit (s : String) : Bytes := s.toUTF8.data.toList

/-- Decimal digits, most significant first, no leading zero. -/
def decimal (n : Nat) : Bytes := (Nat.toDigits 10 n).map fun c => UInt8.ofNat c.toNat

theorem digit_byte (c : Char) (h : c.isDigit) : (UInt8.ofNat c.toNat).toNat = c.toNat := by
  have hc : c.toNat ≤ 57 := by
    have := (Char.isDigit_iff_toNat.mp h).2
    exact this
  simp only [UInt8.toNat_ofNat']
  omega

theorem map_byte_inj (xs ys : List Char) (hx : ∀ c ∈ xs, c.isDigit) (hy : ∀ c ∈ ys, c.isDigit)
    (h : xs.map (fun c => UInt8.ofNat c.toNat) = ys.map fun c => UInt8.ofNat c.toNat) : xs = ys := by
  induction xs generalizing ys with
  | nil => exact (List.map_eq_nil_iff.mp h.symm).symm
  | cons x xs ih =>
    cases ys with
    | nil => simp at h
    | cons y ys =>
      simp only [List.map_cons, List.cons.injEq] at h
      have hxy : x.toNat = y.toNat := by
        rw [← digit_byte x (hx x (List.mem_cons_self ..)),
          ← digit_byte y (hy y (List.mem_cons_self ..)), h.1]
      have hhead : x = y := Char.ext (UInt32.toNat_inj.mp hxy)
      have htail := ih ys (fun c hc => hx c (List.mem_cons_of_mem _ hc))
        (fun c hc => hy c (List.mem_cons_of_mem _ hc)) h.2
      rw [hhead, htail]

theorem decimal_inj {m n : Nat} (h : decimal m = decimal n) : m = n := by
  have hd : ∀ k, ∀ c ∈ Nat.toDigits 10 k, c.isDigit :=
    fun k c hc => Nat.isDigit_of_mem_toDigits (by omega) (by omega) hc
  have heq := map_byte_inj _ _ (hd m) (hd n) h
  rw [← Nat.ofDigitChars_ten_toDigits (n := m), heq, Nat.ofDigitChars_ten_toDigits]

theorem decimal_digit {n : Nat} {b : Byte} (h : b ∈ decimal n) : 48 ≤ b.toNat ∧ b.toNat ≤ 57 := by
  simp only [decimal, List.mem_map] at h
  obtain ⟨c, hc, rfl⟩ := h
  have hd : c.isDigit := Nat.isDigit_of_mem_toDigits (by omega) (by omega) hc
  rw [digit_byte c hd]
  exact Char.isDigit_iff_toNat.mp hd

/-! ### Cutting at a byte -/

section
variable {mark : Byte}

theorem takeWhile_mark {text : Bytes} (h : mark ∉ text) (rest : Bytes) :
    (text ++ mark :: rest).takeWhile (fun b => decide (b ≠ mark)) = text := by
  induction text with
  | nil => simp
  | cons b text ih =>
    have hb : b ≠ mark := fun he => h (he ▸ List.mem_cons_self ..)
    simp only [List.cons_append, List.takeWhile_cons, hb, ne_eq, not_false_eq_true, decide_true,
      if_true]
    rw [ih fun hmem => h (List.mem_cons_of_mem _ hmem)]

theorem dropWhile_mark {text : Bytes} (h : mark ∉ text) (rest : Bytes) :
    (text ++ mark :: rest).dropWhile (fun b => decide (b ≠ mark)) = mark :: rest := by
  induction text with
  | nil => simp
  | cons b text ih =>
    have hb : b ≠ mark := fun he => h (he ▸ List.mem_cons_self ..)
    simp only [List.cons_append, List.dropWhile_cons, hb, ne_eq, not_false_eq_true, decide_true,
      if_true]
    exact ih fun hmem => h (List.mem_cons_of_mem _ hmem)

theorem eq_of_dropWhile_mark {text rest : Bytes} {b : Byte}
    (h : text.dropWhile (fun b => decide (b ≠ mark)) = b :: rest) :
    text = text.takeWhile (fun b => decide (b ≠ mark)) ++ mark :: rest := by
  have hb : b = mark := by
    have hhead := List.head?_dropWhile_not (fun b => decide (b ≠ mark)) text
    rw [h] at hhead
    simpa using hhead
  subst hb
  rw [← h]
  exact (List.takeWhile_append_dropWhile ..).symm

theorem mark_not_mem_takeWhile (text : Bytes) :
    mark ∉ text.takeWhile fun b => decide (b ≠ mark) := by
  intro hmem
  have hne := List.all_eq_true.mp List.all_takeWhile mark hmem
  simp at hne

/-- A text is cut in one way at its last mark. -/
theorem last_mark_inj {text text' rest rest' : Bytes} (hrest : mark ∉ rest) (hrest' : mark ∉ rest')
    (h : text ++ mark :: rest = text' ++ mark :: rest') : text = text' ∧ rest = rest' := by
  have hrev : rest.reverse ++ mark :: text.reverse = rest'.reverse ++ mark :: text'.reverse := by
    simpa using congrArg List.reverse h
  have hr : mark ∉ rest.reverse := fun hm => hrest (List.mem_reverse.mp hm)
  have hr' : mark ∉ rest'.reverse := fun hm => hrest' (List.mem_reverse.mp hm)
  have htail : rest.reverse = rest'.reverse := by
    rw [← takeWhile_mark hr text.reverse, hrev, takeWhile_mark hr']
  rw [htail, List.append_cancel_left_eq, List.cons.injEq] at hrev
  exact ⟨List.reverse_injective hrev.2, List.reverse_injective htail⟩

end

end Posix
