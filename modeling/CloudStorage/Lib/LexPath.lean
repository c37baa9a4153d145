import CloudStorage.Lib.Bytes
import Mathlib.Data.List.DropRight

/-!
# Lexical paths (`std::filesystem::path`, POSIX)

A pathname is a byte string. Its generic grammar is an optional root directory,
filenames between separators (one or more slashes are one separator) and an
optional trailing separator; two paths are equal when these agree.
`normal` is `lexically_normal`, computed by one walk over the filenames with a
stack; `key` forgets the trailing separator and the spelling of the current
directory, so that paths with equal keys lexically denote one file. What a normal form
keeps of the spelling, and how the elements of a path lead into a directory, is said on
the elements themselves.
-/

namespace Posix

def sep : Byte := 47
def dot : Bytes := [46]
def dotdot : Bytes := [46, 46]

/-! ### Grammar -/

/-- The pieces between separators, empty ones included. -/
def pieces : Bytes → List Bytes
  | [] => [[]]
  | c :: cs =>
    if c = sep then [] :: pieces cs
    else match pieces cs with
      | [] => [[c]]
      | p :: ps => (c :: p) :: ps

/-- The filenames of a pathname. -/
def names (s : Bytes) : List Bytes := (pieces s).filter fun p => decide (p ≠ [])

/-- A parsed path. -/
structure Path where
  rooted : Bool
  names : List Bytes
  slash : Bool
  deriving DecidableEq, Repr

def rooted (s : Bytes) : Bool := decide (s.head? = some sep)

def endsInSep (s : Bytes) : Bool := decide (s.getLast? = some sep)

/-- `fs::path(s)`. -/
def parse (s : Bytes) : Path :=
  ⟨rooted s, names s, endsInSep s && decide (names s ≠ [])⟩

theorem pieces_ne_nil (s : Bytes) : pieces s ≠ [] := by
  cases s with
  | nil => simp [pieces]
  | cons c cs =>
    unfold pieces
    split
    · simp
    · split <;> simp

theorem pieces_sep (a b : Bytes) : pieces (a ++ sep :: b) = pieces a ++ pieces b := by
  induction a with
  | nil => simp [pieces]
  | cons c cs ih =>
    rw [List.cons_append, pieces, pieces]
    by_cases hc : c = sep
    · simp only [hc, ite_true, ih, List.cons_append]
    · simp only [hc, ite_false, ih]
      cases hp : pieces cs with
      | nil => exact absurd hp (pieces_ne_nil cs)
      | cons p ps => simp

theorem pieces_of_no_sep {s : Bytes} (h : sep ∉ s) : pieces s = [s] := by
  induction s with
  | nil => rfl
  | cons c cs ih =>
    have hc : c ≠ sep := fun he => h (he ▸ List.mem_cons_self ..)
    have hcs : sep ∉ cs := fun hm => h (List.mem_cons_of_mem _ hm)
    simp only [pieces, hc, ite_false, ih hcs]

theorem names_sep (a b : Bytes) : names (a ++ sep :: b) = names a ++ names b := by
  simp only [names, pieces_sep, List.filter_append]

theorem names_of_no_sep {s : Bytes} (h : sep ∉ s) (hne : s ≠ []) : names s = [s] := by
  simp [names, pieces_of_no_sep h, hne]

theorem names_nil : names [] = [] := by decide

theorem names_trailing (a : Bytes) : names (a ++ [sep]) = names a := by
  rw [names_sep, names_nil, List.append_nil]

theorem mem_pieces_no_sep {s p : Bytes} (h : p ∈ pieces s) : sep ∉ p := by
  induction s generalizing p with
  | nil =>
    simp only [pieces, List.mem_singleton] at h
    simp [h]
  | cons c cs ih =>
    rw [pieces] at h
    by_cases hc : c = sep
    · simp only [hc, ite_true, List.mem_cons] at h
      rcases h with rfl | h
      · simp
      · exact ih h
    · simp only [hc, ite_false] at h
      cases hp : pieces cs with
      | nil => exact absurd hp (pieces_ne_nil cs)
      | cons q qs =>
        simp only [hp, List.mem_cons] at h
        rcases h with rfl | h
        · have hq := ih (p := q) (by rw [hp]; exact List.mem_cons_self ..)
          simp only [List.mem_cons, not_or]
          exact ⟨fun he => hc he.symm, hq⟩
        · exact ih (by rw [hp]; exact List.mem_cons_of_mem _ h)

theorem mem_names {s n : Bytes} (h : n ∈ names s) : n ≠ [] ∧ sep ∉ n := by
  simp only [names, List.mem_filter, decide_eq_true_eq] at h
  exact ⟨h.2, mem_pieces_no_sep h.1⟩

/-! ### Normal form -/

/-- One filename of the walk. The stack has its top first; the flag tells whether
a separator would be left at the end of the text. -/
def visit (root : Bool) : List Bytes × Bool → Bytes → List Bytes × Bool
  | (st, _), n =>
    if n = dot then (st, true)
    else if n = dotdot then
      match st with
      | [] => if root then ([], true) else ([dotdot], false)
      | top :: rest => if top = dotdot then (dotdot :: top :: rest, false) else (rest, true)
    else (n :: st, false)

def walk (root : Bool) (ns : List Bytes) : List Bytes × Bool := ns.foldl (visit root) ([], false)

/-- `lexically_normal`: dots and `name/..` pairs removed, no `..` under the root,
no separator after a last `..`, a dot for what would be empty. -/
def normal (p : Path) : Path :=
  if p.rooted = false ∧ p.names = [] then p
  else match walk p.rooted p.names with
    | ([], _) => if p.rooted then ⟨true, [], false⟩ else ⟨false, [dot], false⟩
    | (top :: rest, left) =>
      ⟨p.rooted, (top :: rest).reverse, (left || p.slash) && decide (top ≠ dotdot)⟩

/-- `filename()`: empty after a trailing separator. -/
def filename (p : Path) : Bytes := if p.slash then [] else p.names.getLast?.getD []

/-- `parent_path()`. -/
def parent (p : Path) : Path :=
  if p.slash then { p with slash := false } else { p with names := p.names.dropLast }

/-- The file a path lexically denotes: its normal form without the trailing
separator, the current directory being the empty list of names. -/
structure Key where
  rooted : Bool
  names : List Bytes
  deriving DecidableEq, Repr

def resolve (p : Path) : Key := ⟨p.rooted, (walk p.rooted p.names).1.reverse⟩

def key (s : Bytes) : Key := resolve (parse s)

/-- The entry `n` of a directory. -/
def Key.child (k : Key) (n : Bytes) : Key := ⟨k.rooted, k.names ++ [n]⟩

@[simp] theorem Key.child_inj {k l : Key} {m n : Bytes} :
    k.child m = l.child n ↔ k = l ∧ m = n := by
  cases k; cases l
  simp only [Key.child, Key.mk.injEq]
  constructor
  · rintro ⟨hr, hn⟩
    have h := List.append_inj' hn rfl
    exact ⟨⟨hr, h.1⟩, by simpa using h.2⟩
  · rintro ⟨⟨hr, hk⟩, hm⟩
    exact ⟨hr, by rw [hk, hm]⟩

/-- A name of a directory entry. -/
structure Plain (n : Bytes) : Prop where
  ne_nil : n ≠ []
  ne_dot : n ≠ dot
  ne_dotdot : n ≠ dotdot
  no_sep : sep ∉ n

theorem visit_plain (root : Bool) (s : List Bytes × Bool) {n : Bytes} (h : n ≠ dot)
    (h' : n ≠ dotdot) : visit root s n = (n :: s.1, false) := by
  obtain ⟨st, left⟩ := s
  simp only [visit, h, h', ite_false]

theorem walk_snoc (root : Bool) (ns : List Bytes) (n : Bytes) :
    walk root (ns ++ [n]) = visit root (walk root ns) n := by
  simp only [walk, List.foldl_append, List.foldl_cons, List.foldl_nil]

theorem walk_snoc_plain (root : Bool) (ns : List Bytes) {n : Bytes} (h : n ≠ dot)
    (h' : n ≠ dotdot) : walk root (ns ++ [n]) = (n :: (walk root ns).1, false) := by
  rw [walk_snoc, visit_plain root _ h h']

theorem mem_visit (root : Bool) (st : List Bytes) (left : Bool) {m n : Bytes}
    (h : n ∈ (visit root (st, left) m).1) :
    n ∈ st ∨ (n = m ∧ n ≠ dot ∧ (root = true → n = dotdot → dotdot ∈ st)) := by
  by_cases hd : m = dot
  · left
    simpa [visit, hd] using h
  by_cases hdd : m = dotdot
  · have hne : dotdot ≠ dot := by decide
    subst hdd
    cases st with
    | nil =>
      cases root with
      | true => simp [visit, hne] at h
      | false =>
        right
        simp only [visit, hne, ite_true, ite_false, Bool.false_eq_true, List.mem_singleton] at h
        exact ⟨h, by rw [h]; exact hne, by simp⟩
    | cons top rest =>
      left
      by_cases ht : top = dotdot
      · simpa [visit, hne, ht] using h
      · simp only [visit, hne, ht, ite_true, ite_false] at h
        exact List.mem_cons_of_mem _ h
  · rw [visit_plain root _ hd hdd] at h
    rcases List.mem_cons.mp h with rfl | h
    · exact Or.inr ⟨rfl, hd, fun _ he => absurd he hdd⟩
    · exact Or.inl h

/-- Names on the stack come from the path and are not dots; under a root there is
no `..` among them. -/
theorem walk_stack (root : Bool) (ns : List Bytes) :
    ∀ n ∈ (walk root ns).1, n ≠ dot ∧ n ∈ ns ∧ (root = true → n ≠ dotdot) := by
  induction ns using List.reverseRecOn with
  | nil => simp [walk]
  | append_singleton ns m ih =>
    intro n hn
    rw [walk_snoc] at hn
    rcases mem_visit root _ _ hn with hn | ⟨rfl, hd, hroot⟩
    · obtain ⟨h1, h2, h3⟩ := ih n hn
      exact ⟨h1, List.mem_append_left _ h2, h3⟩
    · refine ⟨hd, by simp, fun hr he => ?_⟩
      exact (ih dotdot (hroot hr he)).2.2 hr rfl

theorem names_ne_nil {s : Bytes} (hs : s ≠ []) (hr : rooted s = false) : names s ≠ [] := by
  cases s with
  | nil => exact absurd rfl hs
  | cons c cs =>
    have hc : c ≠ sep := by simpa [rooted] using hr
    intro hn
    simp only [names, pieces, hc, ite_false] at hn
    cases hp : pieces cs with
    | nil => exact absurd hp (pieces_ne_nil cs)
    | cons p ps => simp [hp] at hn

/-! ### Join and parent on pathnames -/

/-- `(fs::path(d) / f).string()`. -/
def join (d f : Bytes) : Bytes :=
  if rooted f then f
  else if d = [] ∨ endsInSep d = true then d ++ f
  else d ++ sep :: f

/-- `fs::path(s).parent_path().string()`. -/
def parentString (s : Bytes) : Bytes :=
  if names s = [] then s
  else
    let head := s.rdropWhile fun c => decide (c ≠ sep)
    let dir := head.rdropWhile fun c => decide (c = sep)
    if dir = [] then (if rooted s then [sep] else []) else dir

theorem rooted_append {d : Bytes} (hd : d ≠ []) (f : Bytes) : rooted (d ++ f) = rooted d := by
  cases d with
  | nil => exact absurd rfl hd
  | cons c cs => rfl

theorem endsInSep_append_name (d : Bytes) {f : Bytes} (hf : f ≠ []) (hs : sep ∉ f) :
    endsInSep (d ++ f) = false := by
  rcases List.eq_nil_or_concat f with rfl | ⟨g, c, rfl⟩
  · exact absurd rfl hf
  · have hc : c ≠ sep := fun he => hs (by simp [he])
    simp [endsInSep, ← List.append_assoc, hc]

theorem parse_join {d f : Bytes} (hd : d ≠ []) (hf : f ≠ []) (hs : sep ∉ f) :
    parse (join d f) = ⟨rooted d, names d ++ [f], false⟩ := by
  have hr : rooted f = false := by
    cases f with
    | nil => exact absurd rfl hf
    | cons c cs =>
      have hc : c ≠ sep := fun he => hs (he ▸ List.mem_cons_self ..)
      simp [rooted, hc]
  have hname := names_of_no_sep hs hf
  by_cases he : endsInSep d = true
  · obtain ⟨d', rfl⟩ : ∃ d', d = d' ++ [sep] := by
      rcases List.eq_nil_or_concat d with rfl | ⟨d', c, rfl⟩
      · exact absurd rfl hd
      · exact ⟨d', by simpa [endsInSep] using he⟩
    have hj : join (d' ++ [sep]) f = d' ++ sep :: f := by simp [join, hr, he]
    have hlast : endsInSep (d' ++ sep :: f) = false := by
      have := endsInSep_append_name (d' ++ [sep]) hf hs
      simpa using this
    have hroot : rooted (d' ++ sep :: f) = rooted (d' ++ [sep]) := by
      have := rooted_append hd f
      simpa using this
    simp only [parse, hj, names_sep, hname, hlast, hroot, names_nil, List.append_nil,
      Bool.false_and]
  · have hj : join d f = d ++ sep :: f := by simp [join, hr, he, hd]
    have hlast : endsInSep (d ++ sep :: f) = false := by
      have := endsInSep_append_name (d ++ [sep]) hf hs
      simpa using this
    simp only [parse, hj, names_sep, hname, hlast, rooted_append hd, Bool.false_and]

theorem key_join {d f : Bytes} (hd : d ≠ []) (hf : Plain f) : key (join d f) = (key d).child f := by
  simp only [key, resolve, parse_join hd hf.ne_nil hf.no_sep, Key.child,
    walk_snoc_plain _ _ hf.ne_dot hf.ne_dotdot, List.reverse_cons]
  rfl

theorem normal_join {d f : Bytes} (hd : d ≠ []) (hf : Plain f) :
    normal (parse (join d f)) = ⟨rooted d, (key d).names ++ [f], false⟩ := by
  rw [parse_join hd hf.ne_nil hf.no_sep, normal]
  simp only [walk_snoc_plain _ _ hf.ne_dot hf.ne_dotdot, List.append_eq_nil_iff,
    List.cons_ne_nil, and_false, ite_false, Bool.or_false, Bool.false_and, List.reverse_cons]
  rfl

theorem filename_join {d f : Bytes} (hd : d ≠ []) (hf : Plain f) :
    filename (parse (join d f)) = f := by
  rw [parse_join hd hf.ne_nil hf.no_sep]
  simp [filename]

theorem filename_normal_join {d f : Bytes} (hd : d ≠ []) (hf : Plain f) :
    filename (normal (parse (join d f))) = f := by
  rw [normal_join hd hf]
  simp [filename]

theorem parent_normal_join {d f : Bytes} (hd : d ≠ []) (hf : Plain f) :
    parent (normal (parse (join d f))) = ⟨rooted d, (key d).names, false⟩ := by
  rw [normal_join hd hf]
  simp [parent]

theorem names_rdrop_sep (s : Bytes) :
    names (s.rdropWhile fun c => decide (c = sep)) = names s := by
  induction s using List.reverseRecOn with
  | nil => rfl
  | append_singleton s c ih =>
    by_cases hc : c = sep
    · rw [List.rdropWhile_concat_pos _ _ _ (by simp [hc]), ih, hc, names_trailing]
    · rw [List.rdropWhile_concat_neg _ _ _ (by simp [hc])]

theorem parse_rdrop_sep {s : Bytes} (h : (s.rdropWhile fun c => decide (c = sep)) ≠ []) :
    parse (s.rdropWhile fun c => decide (c = sep)) = ⟨rooted s, names s, false⟩ := by
  have hend : endsInSep (s.rdropWhile fun c => decide (c = sep)) = false := by
    have hstop : ¬decide ((s.rdropWhile fun c => decide (c = sep)).getLast h = sep) = true :=
      List.rdropWhile_last_not _ s h
    rw [endsInSep, List.getLast?_eq_some_getLast h, decide_eq_false_iff_not]
    exact fun he => hstop (decide_eq_true (Option.some.inj he))
  obtain ⟨t, ht⟩ := List.rdropWhile_prefix (fun c => decide (c = sep)) s
  have hroot : rooted (s.rdropWhile fun c => decide (c = sep)) = rooted s := by
    conv_rhs => rw [← ht]
    exact (rooted_append h t).symm
  simp only [parse, hend, hroot, names_rdrop_sep, Bool.false_and]

theorem parse_parentString {s f : Bytes} {xs : List Bytes}
    (h : parse s = ⟨rooted s, xs ++ [f], false⟩) :
    parse (parentString s) = ⟨rooted s, xs, false⟩ := by
  simp only [parse, Path.mk.injEq, true_and, Bool.and_eq_false_iff, decide_eq_false_iff_not,
    not_not] at h
  obtain ⟨hn, hslash⟩ := h
  have hne : names s ≠ [] := by simp [hn]
  have hlast : endsInSep s = false := hslash.resolve_right hne
  have hs : s ≠ [] := fun he => hne (by rw [he]; exact names_nil)
  -- `s` is a prefix that is empty or ends in a separator, then its last filename
  let head := s.rdropWhile fun c => decide (c ≠ sep)
  let tail := s.rtakeWhile fun c => decide (c ≠ sep)
  let dir := head.rdropWhile fun c => decide (c = sep)
  have hsplit : head ++ tail = s := List.rdropWhile_append_rtakeWhile
  have htail : sep ∉ tail := by
    intro hm
    have := List.mem_rtakeWhile_imp hm
    simp at this
  have htne : tail ≠ [] := by
    intro he
    have hall := (List.rtakeWhile_eq_nil_iff (p := fun c => decide (c ≠ sep)) (l := s)).mp he hs
    have hl : s.getLast? = some sep := by
      rw [List.getLast?_eq_some_getLast hs]
      simpa using hall
    simp [endsInSep, hl] at hlast
  have hhead : names s = names head ++ [tail] := by
    rcases List.eq_nil_or_concat head with he | ⟨h', c, he⟩
    · rw [← hsplit, he, List.nil_append, names_nil, names_of_no_sep htail htne]
      rfl
    · have hc : c = sep := by
        have hnl : head ≠ [] := by simp [he]
        have hstop : ¬decide (head.getLast hnl ≠ sep) = true := List.rdropWhile_last_not _ s hnl
        have hg : head.getLast hnl = c := by simp [he]
        simpa [hg] using hstop
      rw [← hsplit, he, hc, List.concat_eq_append, List.append_assoc, List.singleton_append,
        names_sep, names_of_no_sep htail htne, names_trailing]
  have hxs : names dir = xs := by
    have := List.append_inj' (hhead.symm.trans hn) rfl
    rw [← this.1]
    exact names_rdrop_sep head
  have hp : parentString s = if dir = [] then (if rooted s then [sep] else []) else dir := by
    simp only [parentString, hne, ite_false]
    rfl
  rw [hp]
  by_cases hd : dir = []
  · have hx : xs = [] := by rw [← hxs, hd]; exact names_nil
    simp only [hd, ite_true, hx]
    cases rooted s with
    | true => rfl
    | false => rfl
  · have hne : head ≠ [] := fun he => hd (by simp only [dir, he, List.rdropWhile_nil])
    have hr : rooted head = rooted s := by
      rw [← hsplit, rooted_append hne]
    have hx : names head = xs := by
      rw [← hxs]
      exact (names_rdrop_sep head).symm
    rw [if_neg hd, show parse dir = _ from parse_rdrop_sep hd, hr, hx]

/-- `parent_path()` on pathnames is the one on paths. -/
theorem parse_parentString_eq {s : Bytes} (hne : names s ≠ []) :
    parse (parentString s) = parent (parse s) := by
  by_cases hslash : (parse s).slash = true
  · have hend : endsInSep s = true := ((Bool.and_eq_true ..).mp hslash).1
    have hs : s ≠ [] := fun he => hne (he ▸ names_nil)
    have hhead : (s.rdropWhile fun c => decide (c ≠ sep)) = s := by
      rw [List.rdropWhile_eq_self_iff]
      intro hs'
      rw [endsInSep, List.getLast?_eq_some_getLast hs', decide_eq_true_eq] at hend
      simpa using Option.some.inj hend
    have hdir : (s.rdropWhile fun c => decide (c = sep)) ≠ [] := by
      intro he
      rw [← names_rdrop_sep, he] at hne
      exact hne names_nil
    rw [parentString, if_neg hne]
    simp only [hhead, hdir, if_false]
    rw [parse_rdrop_sep hdir, parent, if_pos hslash]
    rfl
  · rw [Bool.not_eq_true] at hslash
    obtain ⟨xs, f, hxs⟩ : ∃ xs f, names s = xs ++ [f] := by
      rcases List.eq_nil_or_concat (names s) with he | ⟨xs, f, he⟩
      · exact absurd he hne
      · exact ⟨xs, f, by rw [he, List.concat_eq_append]⟩
    have hp : parse s = ⟨rooted s, xs ++ [f], false⟩ := by
      rw [← hxs, ← hslash]
      rfl
    rw [parse_parentString hp, hp, parent, if_neg Bool.false_ne_true, List.dropLast_concat]

/-! ### What a normal form keeps of the spelling -/

/-- The path ends in a separator, a dot or an ascent. -/
def Path.Open (p : Path) : Prop :=
  p.slash = true ∨ p.names.getLast? = some dot ∨ p.names.getLast? = some dotdot

instance (p : Path) : Decidable p.Open := inferInstanceAs (Decidable (_ ∨ _ ∨ _))

/-- The file is not the root, the current directory or an ascent. -/
def Key.Named (k : Key) : Prop := k.names ≠ [] ∧ k.names.getLast? ≠ some dotdot

instance (k : Key) : Decidable k.Named := inferInstanceAs (Decidable (_ ∧ _))

/-- Both lead to one file, and if that has a name both are open or neither is. -/
def Path.Agrees (p q : Path) : Prop :=
  resolve p = resolve q ∧ ((resolve p).Named → (p.Open ↔ q.Open))

instance (p q : Path) : Decidable (p.Agrees q) := inferInstanceAs (Decidable (_ ∧ _))

def Path.Empty (p : Path) : Prop := p.rooted = false ∧ p.names = []

/-- A separator is left over after a dot, and after an ascent that took a name back. -/
theorem walk_left {root left : Bool} {ns rest : List Bytes} {top : Bytes} (htop : top ≠ dotdot)
    (h : walk root ns = (top :: rest, left)) :
    left = true ↔ ns.getLast? = some dot ∨ ns.getLast? = some dotdot := by
  induction ns using List.reverseRecOn with
  | nil => simp [walk] at h
  | append_singleton xs m _ =>
    rw [walk_snoc] at h
    simp only [List.getLast?_append, List.getLast?_singleton, Option.some_or, Option.some.injEq]
    by_cases hd : m = dot
    · simp only [visit, hd, ite_true, Prod.mk.injEq] at h
      exact iff_of_true h.2.symm (Or.inl hd)
    by_cases hdd : m = dotdot
    · subst hdd
      refine iff_of_true ?_ (Or.inr rfl)
      rcases hw : walk root xs with ⟨_ | ⟨t, ts⟩, l⟩
      · cases root with
        | true => simp [visit, hw, hd] at h
        | false =>
          simp only [visit, hw, hd, ite_true, ite_false, Bool.false_eq_true, Prod.mk.injEq,
            List.cons.injEq] at h
          exact absurd h.1.1.symm htop
      · by_cases ht : t = dotdot
        · simp only [visit, hw, hd, ht, ite_true, ite_false, Prod.mk.injEq, List.cons.injEq] at h
          exact absurd h.1.1.symm htop
        · simp only [visit, hw, hd, ht, ite_true, ite_false, Prod.mk.injEq] at h
          exact h.2.symm
    · rw [visit_plain root _ hd hdd, Prod.mk.injEq] at h
      rw [← h.2]
      exact iff_of_false Bool.false_ne_true fun hm => hm.elim hd hdd

/-- The normal form of a path that is not empty, from its file and its end. -/
theorem normal_eq {p : Path} (hp : ¬p.Empty) : normal p =
    if (resolve p).names = [] then (if p.rooted then ⟨true, [], false⟩ else ⟨false, [dot], false⟩)
    else ⟨p.rooted, (resolve p).names, decide ((resolve p).Named ∧ p.Open)⟩ := by
  have hne : ¬(p.rooted = false ∧ p.names = []) := hp
  rw [normal, if_neg hne]
  rcases hw : walk p.rooted p.names with ⟨_ | ⟨top, rest⟩, left⟩
  · have hnames : (resolve p).names = [] := by simp [resolve, hw]
    rw [if_pos hnames]
  · have hnames : (resolve p).names = rest.reverse ++ [top] := by simp [resolve, hw]
    have hne : (resolve p).names ≠ [] := by simp [hnames]
    rw [if_neg hne]
    simp only [Path.mk.injEq, true_and]
    refine ⟨by rw [hnames, List.reverse_cons], ?_⟩
    rw [Bool.eq_iff_iff, decide_eq_true_eq, Bool.and_eq_true, Bool.or_eq_true, decide_eq_true_eq]
    have hlast : (resolve p).names.getLast? = some top := by simp [hnames]
    by_cases htop : top = dotdot
    · exact iff_of_false (fun h => h.2 htop) fun h => h.1.2 (htop ▸ hlast)
    · have hnamed : (resolve p).Named := ⟨hne, by rw [hlast]; exact fun h => htop (Option.some.inj h)⟩
      rw [walk_left htop hw, Path.Open]
      exact ⟨fun h => ⟨hnamed, h.1.symm⟩, fun h => ⟨h.2.symm, htop⟩⟩

theorem dot_not_mem_resolve (p : Path) : dot ∉ (resolve p).names := by
  intro h
  exact (walk_stack _ _ dot (List.mem_reverse.mp h)).1 rfl

theorem normal_eq_iff {p q : Path} (hp : ¬p.Empty) (hq : ¬q.Empty) :
    normal p = normal q ↔ p.Agrees q := by
  -- the dot of the current directory is no file's name
  have hdot : ∀ r : Path, (resolve r).names ≠ [dot] := fun r he =>
    dot_not_mem_resolve r (by rw [he]; exact List.mem_singleton.mpr rfl)
  have hnone : ∀ r r' : Path, (resolve r).names ≠ [] →
      (if r'.rooted then ⟨true, [], false⟩ else ⟨false, [dot], false⟩ : Path) ≠
        ⟨r.rooted, (resolve r).names, decide ((resolve r).Named ∧ r.Open)⟩ := by
    intro r r' hne he
    split at he
    · exact hne (congrArg Path.names he).symm
    · exact hdot r (congrArg Path.names he).symm
  rw [normal_eq hp, normal_eq hq]
  by_cases hkp : (resolve p).names = []
  · by_cases hkq : (resolve q).names = []
    · have hunnamed : ¬(resolve p).Named := fun h => h.1 hkp
      have hkeys : resolve p = resolve q ↔ p.rooted = q.rooted :=
        ⟨congrArg Key.rooted, fun h => Key.mk.injEq .. ▸ ⟨h, hkp.trans hkq.symm⟩⟩
      rw [if_pos hkp, if_pos hkq, Path.Agrees, hkeys]
      cases p.rooted <;> cases q.rooted <;> simp [hunnamed]
    · rw [if_pos hkp, if_neg hkq]
      exact iff_of_false (hnone q p hkq) fun h => hkq (h.1 ▸ hkp)
  · by_cases hkq : (resolve q).names = []
    · rw [if_neg hkp, if_pos hkq]
      exact iff_of_false (hnone p q hkp).symm fun h => hkp (h.1 ▸ hkq)
    · rw [if_neg hkp, if_neg hkq, Path.mk.injEq, decide_eq_decide]
      constructor
      · rintro ⟨hrooted, hnames, hopen⟩
        have hsame : resolve p = resolve q := Key.mk.injEq .. ▸ ⟨hrooted, hnames⟩
        rw [← hsame, and_congr_right_iff] at hopen
        exact ⟨hsame, hopen⟩
      · rintro ⟨hsame, hopen⟩
        refine ⟨congrArg Key.rooted hsame, congrArg Key.names hsame, ?_⟩
        rw [← hsame]
        exact and_congr_right hopen

theorem parse_not_empty {s : Bytes} (hs : s ≠ []) : ¬(parse s).Empty :=
  fun h => names_ne_nil hs h.1 h.2

theorem normal_of_key_nil {s : Bytes} (hs : s ≠ []) (h : (key s).names = []) :
    normal (parse s) = if rooted s then ⟨true, [], false⟩ else ⟨false, [dot], false⟩ := by
  rw [normal_eq (parse_not_empty hs), if_pos (show (resolve (parse s)).names = [] from h)]
  rfl

theorem normal_of_key_ne_nil {s : Bytes} (h : (key s).names ≠ []) : normal (parse s) =
    ⟨rooted s, (key s).names, decide ((key s).Named ∧ (parse s).Open)⟩ := by
  have hs : s ≠ [] := by
    rintro rfl
    exact h (by decide)
  rw [normal_eq (parse_not_empty hs), if_neg (show (resolve (parse s)).names ≠ [] from h)]
  rfl

/-! ### Directory and entry -/

/-- A name a key goes through, other than `..`, is a name of an entry. -/
theorem plain_of_mem_key {s n : Bytes} (h : n ∈ (key s).names) (hdd : n ≠ dotdot) : Plain n := by
  have hm : n ∈ (walk (rooted s) (names s)).1 := List.mem_reverse.mp h
  obtain ⟨hdot, hname, -⟩ := walk_stack _ _ n hm
  obtain ⟨hne, hsep⟩ := mem_names hname
  exact ⟨hne, hdot, hdd, hsep⟩

/-- A path that as it is spelled ends in a name of an entry keeps that name. -/
theorem filename_normal_of_plain {s : Bytes} (h : Plain (filename (parse s))) :
    filename (normal (parse s)) = filename (parse s) := by
  have hslash : (parse s).slash = false := by
    by_contra hs
    rw [Bool.not_eq_false] at hs
    exact h.ne_nil (by rw [filename, if_pos hs])
  have hlast : filename (parse s) = (names s).getLast?.getD [] := by
    rw [filename, hslash]
    rfl
  generalize filename (parse s) = f at h hlast
  rcases List.eq_nil_or_concat (names s) with hn | ⟨xs, g, hn⟩
  · rw [hn] at hlast
    exact absurd hlast h.ne_nil
  · have hg : g = f := by
      rw [hlast, hn]
      simp only [List.concat_eq_append, List.getLast?_append, List.getLast?_singleton,
        Option.some_or, Option.getD_some]
    subst hg
    rw [List.concat_eq_append] at hn
    have hp : parse s = ⟨rooted s, xs ++ [g], false⟩ := by
      rw [← hslash, ← hn]
      rfl
    rw [hp, normal]
    simp only [walk_snoc_plain _ _ h.ne_dot h.ne_dotdot, List.append_eq_nil_iff,
      List.cons_ne_nil, and_false, ite_false, Bool.or_false, Bool.false_and, filename,
      Bool.false_eq_true, List.reverse_cons, List.getLast?_append, List.getLast?_singleton,
      Option.some_or, Option.getD_some]

/-- And it is spelled so when the normal form ends in a name of an entry. -/
theorem spelled_of_plain_normal {s : Bytes} (h : Plain (filename (normal (parse s)))) :
    ∃ xs, parse s = ⟨rooted s, xs ++ [filename (normal (parse s))], false⟩ ∧
      resolve ⟨rooted s, xs, false⟩ = ⟨rooted s, (key s).names.dropLast⟩ := by
  have hs : s ≠ [] := by
    rintro rfl
    exact h.ne_nil (by decide)
  have hk : (key s).names ≠ [] := by
    intro hk
    rw [normal_of_key_nil hs hk] at h
    split at h
    · exact h.ne_nil rfl
    · exact h.ne_dot rfl
  have hn := normal_of_key_ne_nil hk
  have hflag : decide ((key s).Named ∧ (parse s).Open) = false := by
    by_contra hb
    rw [Bool.not_eq_false] at hb
    refine h.ne_nil ?_
    rw [hn, filename, if_pos hb]
  have hlast : (key s).names.getLast?.getD [] = filename (normal (parse s)) := by
    rw [hn, filename, hflag]
    rfl
  generalize filename (normal (parse s)) = f at h hlast ⊢
  rcases List.eq_nil_or_concat (names s) with hnil | ⟨xs, g, hxs⟩
  · exact absurd (by simp [key, resolve, parse, hnil, walk]) hk
  rw [List.concat_eq_append] at hxs
  have hg : (names s).getLast? = some g := by simp [hxs]
  have hnamed : (key s).Named := by
    refine ⟨hk, fun hdd => h.ne_dotdot ?_⟩
    rw [← hlast, hdd, Option.getD_some]
  have hclosed : ¬(parse s).Open := fun ho => of_decide_eq_false hflag ⟨hnamed, ho⟩
  have hdot : g ≠ dot := fun he => hclosed (Or.inr (Or.inl (he ▸ hg)))
  have hdd : g ≠ dotdot := fun he => hclosed (Or.inr (Or.inr (he ▸ hg)))
  have hslash : (parse s).slash = false := Bool.not_eq_true _ ▸ fun ho => hclosed (Or.inl ho)
  have hnames : (key s).names = (walk (rooted s) xs).1.reverse ++ [g] := by
    simp only [key, resolve, parse, hxs, walk_snoc_plain _ _ hdot hdd, List.reverse_cons]
  have hgf : g = f := by
    rw [← hlast, hnames, List.getLast?_concat, Option.getD_some]
  subst hgf
  refine ⟨xs, ?_, ?_⟩
  · rw [← hxs, ← hslash]
    rfl
  · rw [resolve, hnames, List.dropLast_concat]

theorem filename_of_plain_normal {s : Bytes} (h : Plain (filename (normal (parse s)))) :
    filename (parse s) = filename (normal (parse s)) := by
  obtain ⟨xs, hp, -⟩ := spelled_of_plain_normal h
  generalize filename (normal (parse s)) = f at hp
  rw [hp]
  simp only [filename, Bool.false_eq_true, if_false, List.getLast?_append,
    List.getLast?_singleton, Option.some_or, Option.getD_some]

/-- A directory whose normal form is the parent of its entries: the normal form
has no trailing separator and is not the dot of the current directory. -/
def Settled (d : Bytes) : Prop := normal (parse d) = ⟨rooted d, (key d).names, false⟩

instance (d : Bytes) : Decidable (Settled d) := inferInstanceAs (Decidable (_ = _))

theorem parent_normal_join_eq_iff {d f : Bytes} (hd : d ≠ []) (hf : Plain f) :
    parent (normal (parse (join d f))) = normal (parse d) ↔ Settled d := by
  rw [parent_normal_join hd hf]
  exact eq_comm

/-- What the comparison of a path's normal parent with a normal directory tells. -/
theorem key_of_parent_eq {s d : Bytes} (hs : s ≠ []) (hd : d ≠ [])
    (hf : filename (normal (parse s)) ≠ [])
    (hp : parent (normal (parse s)) = normal (parse d)) :
    Settled d ∧ key s = (key d).child (filename (normal (parse s))) := by
  by_cases hk : (key s).names = []
  · -- the root has no filename and the parent of the dot is the empty path
    rw [normal_of_key_nil hs hk] at hf hp
    cases hr : rooted s with
    | true => simp [hr, filename] at hf
    | false =>
      replace hp : (⟨false, [], false⟩ : Path) = normal (parse d) := by simpa [hr, parent] using hp
      by_cases hkd : (key d).names = []
      · rw [normal_of_key_nil hd hkd] at hp
        cases hrd : rooted d <;> simp [hrd] at hp
      · rw [normal_of_key_ne_nil hkd] at hp
        exact absurd (congrArg Path.names hp).symm hkd
  · have hn := normal_of_key_ne_nil hk
    have hflag : decide ((key s).Named ∧ (parse s).Open) = false := by
      by_contra hb
      rw [Bool.not_eq_false] at hb
      exact hf (by rw [hn, filename, if_pos hb])
    obtain ⟨rest, top, hnames⟩ : ∃ rest top, (key s).names = rest ++ [top] :=
      ⟨_, _, (List.dropLast_append_getLast hk).symm⟩
    rw [hn, hflag, hnames, parent, if_neg Bool.false_ne_true, List.dropLast_concat] at hp
    have hfile : filename (normal (parse s)) = top := by
      rw [hn, hflag, hnames]
      simp [filename]
    have hdirs : rooted s = rooted d ∧ (key d).names = rest ∧ Settled d := by
      by_cases hkd : (key d).names = []
      · rw [normal_of_key_nil hd hkd] at hp
        cases hrd : rooted d with
        | true =>
          simp only [hrd, ite_true, Path.mk.injEq, and_true] at hp
          refine ⟨hp.1, hkd.trans hp.2.symm, ?_⟩
          rw [Settled, normal_of_key_nil hd hkd, hkd, hrd]
          rfl
        | false =>
          simp only [hrd, Bool.false_eq_true, ite_false, Path.mk.injEq, and_true] at hp
          have hdot : dot ∈ (key s).names := by rw [hnames, hp.2]; simp
          exact absurd hdot (dot_not_mem_resolve (parse s))
      · have hnd := normal_of_key_ne_nil hkd
        rw [hnd, Path.mk.injEq] at hp
        rw [← hp.2.2] at hnd
        exact ⟨hp.1, hp.2.1.symm, hnd⟩
    refine ⟨hdirs.2.2, ?_⟩
    rw [hfile, Key.child, hdirs.2.1, ← hnames]
    exact Key.mk.injEq .. ▸ ⟨hdirs.1, rfl⟩

theorem Settled.not_open {d : Bytes} (hd : d ≠ []) (h : Settled d) (hnamed : (key d).Named) :
    ¬(parse d).Open := by
  intro hopen
  have hnamed' : (resolve (parse d)).Named := hnamed
  rw [Settled, normal_eq (parse_not_empty hd), if_neg hnamed'.1] at h
  have hslash := congrArg Path.slash h
  exact of_decide_eq_false hslash ⟨hnamed', hopen⟩

/-- Of a settled directory a trailing separator may be left out. -/
theorem normal_of_settled {d : Bytes} (hd : d ≠ []) (h : Settled d) :
    normal ⟨rooted d, names d, false⟩ = normal (parse d) := by
  have hne : ¬(⟨rooted d, names d, false⟩ : Path).Empty := parse_not_empty hd
  refine (normal_eq_iff hne (parse_not_empty hd)).mpr ⟨rfl, fun hnamed => ?_⟩
  have hclosed := h.not_open hd hnamed
  exact iff_of_false (fun ho => hclosed (Or.inr (ho.resolve_left Bool.false_ne_true))) hclosed

/-! ### Ascents -/

/-- Under an ascent on the stack there are only ascents. -/
theorem walk_ascents (root : Bool) (ns : List Bytes) :
    (walk root ns).1.Pairwise fun above below => above = dotdot → below = dotdot := by
  induction ns using List.reverseRecOn with
  | nil => exact .nil
  | append_singleton ns m ih =>
    rw [walk_snoc]
    by_cases hd : m = dot
    · simpa only [visit, hd, ite_true] using ih
    by_cases hdd : m = dotdot
    · subst hdd
      rcases hw : walk root ns with ⟨_ | ⟨top, rest⟩, left⟩
      · cases root <;> simp [visit, hd]
      · rw [hw] at ih
        obtain ⟨htop, hrest⟩ := List.pairwise_cons.mp ih
        by_cases ht : top = dotdot
        · simp only [visit, hd, ht, ite_true, ite_false]
          refine .cons (fun n hn _ => ?_) (ht ▸ ih)
          exact (List.mem_cons.mp hn).elim id fun hn => htop n hn ht
        · simpa only [visit, hd, ht, ite_true, ite_false] using hrest
    · rw [visit_plain root _ hd hdd]
      exact .cons (fun _ _ he => absurd he hdd) ih

/-- What is above another place is no entry, and it has no root. -/
theorem resolve_ascent {p : Path} {k : Key} (h : resolve p = k.child dotdot) :
    p.rooted = false ∧ ¬k.Named := by
  have hstack : (walk p.rooted p.names).1 = dotdot :: k.names.reverse := by
    have hnames := congrArg (List.reverse ∘ Key.names) h
    simpa [resolve, Key.child] using hnames
  constructor
  · rw [← Bool.not_eq_true]
    intro hroot
    exact (walk_stack _ _ dotdot (hstack ▸ List.mem_cons_self ..)).2.2 hroot rfl
  · rintro ⟨hne, hlast⟩
    have hall := walk_ascents p.rooted p.names
    rw [hstack, List.pairwise_cons] at hall
    refine hlast ?_
    rw [List.getLast?_eq_some_getLast hne, Option.some.injEq]
    exact hall.1 _ (List.mem_reverse.mpr (List.getLast_mem hne)) rfl

/-- An ascent from a place that has no name to take back. -/
theorem resolve_snoc_ascent {xs : List Bytes} (h : ¬(resolve ⟨false, xs, false⟩).Named) :
    resolve ⟨false, xs ++ [dotdot], false⟩ = (resolve ⟨false, xs, false⟩).child dotdot := by
  have hdd : dotdot ≠ dot := by decide
  simp only [resolve, Key.child, walk_snoc, Key.mk.injEq, true_and]
  rcases hw : walk false xs with ⟨_ | ⟨top, rest⟩, left⟩
  · simp [visit, hdd]
  · have ht : top = dotdot := by
      by_contra hne
      exact h ⟨by simp [resolve, hw], by simpa [resolve, hw] using hne⟩
    simp [visit, hdd, ht]

/-- The path ends in an ascent that takes no name back. -/
def Path.Ascends (p : Path) : Prop :=
  p.slash = false ∧ p.names.getLast? = some dotdot ∧ ¬(resolve (parent p)).Named

instance (p : Path) : Decidable p.Ascends := inferInstanceAs (Decidable (_ ∧ _ ∧ _))

theorem ascends_iff {p : Path} {k : Key} (h : resolve p = k.child dotdot) :
    p.Ascends ↔ resolve (parent p) = k := by
  obtain ⟨hroot, hunnamed⟩ := resolve_ascent h
  -- an element that leads nowhere, or a separator, leaves the parent where the path is
  have hmoves : resolve p ≠ k := fun he => by
    have hlength := congrArg (fun k => k.names.length) (he.symm.trans h)
    simp [Key.child] at hlength
  obtain ⟨rooted, names, slash⟩ := p
  cases hroot
  cases slash with
  | true =>
    have hparent : resolve (parent ⟨false, names, true⟩) = resolve ⟨false, names, true⟩ := rfl
    exact iff_of_false (fun ha => Bool.false_ne_true ha.1.symm) fun he => hmoves (hparent ▸ he)
  | false =>
    rcases List.eq_nil_or_concat names with rfl | ⟨xs, e, rfl⟩
    · exact iff_of_false (by simp [Path.Ascends]) fun he => hmoves he
    rw [List.concat_eq_append] at h hmoves ⊢
    have hparent : resolve (parent ⟨false, xs ++ [e], false⟩) = resolve ⟨false, xs, false⟩ := by
      rw [parent, if_neg Bool.false_ne_true, List.dropLast_concat]
    rw [Path.Ascends, hparent]
    simp only [List.getLast?_concat, Option.some.injEq, true_and]
    constructor
    · rintro ⟨rfl, hnone⟩
      exact (Key.child_inj.mp ((resolve_snoc_ascent hnone).symm.trans h)).1
    · intro he
      refine ⟨?_, he ▸ hunnamed⟩
      by_contra hdd
      by_cases hd : e = dot
      · refine hmoves (he ▸ ?_)
        simp only [resolve, walk_snoc, visit, hd, ite_true]
      · have hchild : resolve ⟨false, xs ++ [e], false⟩ = k.child e := by
          rw [← he]
          simp only [resolve, walk_snoc_plain _ _ hd hdd, List.reverse_cons, Key.child]
        exact hdd (Key.child_inj.mp (hchild.symm.trans h)).2

/-! ### Entering a directory -/

/-- Elements that come to nothing: dots, and names that are taken back. -/
def Idle (ns : List Bytes) : Prop := (walk false ns).1 = []

instance (ns : List Bytes) : Decidable (Idle ns) := inferInstanceAs (Decidable (_ = _))

/-- As long as a walk from an empty stack does not ascend, it does from any stack what it
does from the empty one. -/
theorem foldl_visit {ns : List Bytes} (h : dotdot ∉ (walk false ns).1) (root : Bool)
    (s : List Bytes × Bool) :
    (ns.foldl (visit root) s).1 = (walk false ns).1 ++ s.1 := by
  induction ns using List.reverseRecOn with
  | nil => rfl
  | append_singleton ns m ih =>
    rw [walk_snoc] at h
    rw [walk_snoc, List.foldl_append, List.foldl_cons, List.foldl_nil]
    by_cases hd : m = dot
    · simp only [visit, hd, ite_true] at h ⊢
      exact ih h
    by_cases hdd : m = dotdot
    · subst hdd
      rcases hw : walk false ns with ⟨_ | ⟨top, rest⟩, left⟩
      · simp [visit, hw, hd] at h
      · by_cases ht : top = dotdot
        · simp [visit, hw, hd, ht] at h
        · simp only [visit, hw, hd, ht, ite_true, ite_false] at h
          have hns : dotdot ∉ (walk false ns).1 := by
            rw [hw, List.mem_cons, not_or]
            exact ⟨fun he => ht he.symm, h⟩
          have hstack := ih hns
          rw [hw] at hstack
          simp only [visit, hd, ht, hstack, ite_true, ite_false, List.cons_append]
    · rw [visit_plain false _ hd hdd] at h ⊢
      rw [visit_plain root _ hd hdd, ih fun hmem => h (List.mem_cons_of_mem _ hmem)]
      rfl

theorem Idle.walk_append {after : List Bytes} (h : Idle after) (root : Bool)
    (before : List Bytes) : (walk root (before ++ after)).1 = (walk root before).1 := by
  have hnone : dotdot ∉ (walk false after).1 := by
    rw [h]
    exact List.not_mem_nil
  rw [walk, List.foldl_append, foldl_visit hnone, h, List.nil_append]
  rfl

/-- A name on top of the stack was visited at some point, and all that came after it came
to nothing. -/
theorem walk_top_iff {root : Bool} {ns st : List Bytes} {n : Bytes} (hdot : n ≠ dot)
    (hdd : n ≠ dotdot) : (walk root ns).1 = n :: st ↔
      ∃ before after, ns = before ++ n :: after ∧ (walk root before).1 = st ∧ Idle after := by
  constructor
  · induction hlen : ns.length using Nat.strongRecOn generalizing ns st n with
    | ind len ih =>
      subst hlen
      intro h
      rcases List.eq_nil_or_concat ns with rfl | ⟨xs, m, rfl⟩
      · simp [walk] at h
      rw [List.concat_eq_append] at h ih ⊢
      have hlt : xs.length < (xs ++ [m]).length := by simp
      rw [walk_snoc] at h
      by_cases hd : m = dot
      · simp only [visit, hd, ite_true] at h
        obtain ⟨before, after, rfl, hst, hidle⟩ := ih _ hlt hdot hdd rfl h
        refine ⟨before, after ++ [m], by simp, hst, ?_⟩
        rw [Idle, walk_snoc, hd]
        simp only [visit, ite_true]
        exact hidle
      by_cases hmm : m = dotdot
      · subst hmm
        rcases hw : walk root xs with ⟨_ | ⟨top, rest⟩, left⟩
        · cases root <;> simp [visit, hw, hd] at h
          exact absurd h.1.symm hdd
        · by_cases ht : top = dotdot
          · simp only [visit, hw, hd, ht, ite_true, ite_false, List.cons.injEq] at h
            exact absurd h.1.symm hdd
          · -- `..` has taken `top` back; both were visited, `n` first
            simp only [visit, hw, hd, ht, ite_true, ite_false] at h
            have htop : top ≠ dot := (walk_stack root xs top (by rw [hw]; exact List.mem_cons_self ..)).1
            obtain ⟨b₁, a₁, rfl, hst₁, hidle₁⟩ := ih _ hlt htop ht rfl (congrArg Prod.fst hw)
            have hlt₂ : b₁.length < (b₁ ++ top :: a₁ ++ [dotdot]).length := by simp
            obtain ⟨b₂, a₂, rfl, hst₂, hidle₂⟩ := ih _ hlt₂ hdot hdd rfl (hst₁.trans h)
            refine ⟨b₂, a₂ ++ top :: a₁ ++ [dotdot], by simp, hst₂, ?_⟩
            have hpushed : (walk false (a₂ ++ [top] ++ a₁)).1 = [top] := by
              rw [hidle₁.walk_append, walk_snoc_plain _ _ htop ht, hidle₂]
            rw [List.append_assoc, List.singleton_append] at hpushed
            rw [Idle, walk_snoc]
            rcases hw₂ : walk false (a₂ ++ top :: a₁) with ⟨stack, flag⟩
            rw [hw₂] at hpushed
            simp only [visit, show stack = [top] from hpushed, hd, ht, ite_true, ite_false]
      · rw [visit_plain root _ hd hmm] at h
        obtain ⟨rfl, rfl⟩ := List.cons.inj h
        exact ⟨xs, [], rfl, rfl, rfl⟩
  · rintro ⟨before, after, rfl, rfl, hidle⟩
    have hsplit : before ++ n :: after = before ++ [n] ++ after := by simp
    rw [hsplit, hidle.walk_append, walk_snoc_plain _ _ hdot hdd]

/-- The elements of `p` are some that lead to `d`, then one that is no dot and no ascent,
then only some that come to nothing. -/
def Enters (d p : Bytes) : Prop :=
  ∃ before n after, names p = before ++ n :: after ∧ n ≠ dot ∧ n ≠ dotdot ∧
    resolve ⟨rooted p, before, false⟩ = key d ∧ Idle after

theorem enters_iff {d p : Bytes} : Enters d p ↔ ∃ n, Plain n ∧ key p = (key d).child n := by
  constructor
  · rintro ⟨before, n, after, hnames, hdot, hdd, hkey, hidle⟩
    have hmem : n ∈ names p := by
      rw [hnames]
      exact List.mem_append_right _ (List.mem_cons_self ..)
    refine ⟨n, ⟨(mem_names hmem).1, hdot, hdd, (mem_names hmem).2⟩, ?_⟩
    have htop : (walk (rooted p) (names p)).1 = n :: (walk (rooted p) before).1 :=
      (walk_top_iff hdot hdd).mpr ⟨before, after, hnames, rfl, hidle⟩
    rw [← hkey]
    simp only [key, resolve, parse, htop, Key.child, List.reverse_cons]
  · rintro ⟨n, hn, hkey⟩
    have hstack : (walk (rooted p) (names p)).1 = n :: (key d).names.reverse := by
      have hnames : (walk (rooted p) (names p)).1.reverse = (key d).names ++ [n] :=
        congrArg Key.names hkey
      rw [← List.reverse_reverse (walk (rooted p) (names p)).1, hnames, List.reverse_append]
      rfl
    obtain ⟨before, after, hnames, hst, hidle⟩ :=
      (walk_top_iff hn.ne_dot hn.ne_dotdot).mp hstack
    refine ⟨before, n, after, hnames, hn.ne_dot, hn.ne_dotdot, ?_, hidle⟩
    have hrooted : rooted p = (key d).rooted := congrArg Key.rooted hkey
    rw [resolve, hst, List.reverse_reverse, hrooted]

example : normal (parse (lit "./low_storage/")) = ⟨false, [lit "low_storage"], true⟩ := by decide
example : key (lit "a//./b/../c/") = ⟨false, [lit "a", lit "c"]⟩ := by decide

end Posix
