import CloudStorage.Cookie
import CloudStorage.RangeGrammar
import CloudStorage.Lib.JsText

/-!
# Cookies in a browser

What a browser makes of `Set-Cookie`, what it sends back to the host, and what the
script of a page sees and looks up. The browser is no part of the repository, and its
store of cookies is kept as small as the server's own cookies need it: one host, the path
`/`, and of the attributes `HttpOnly`, `Secure` and `Max-Age`. Times are seconds of the
browser's clock.
-/

namespace CloudStorage.Browser
open Posix JsText

structure Cookie where
  name : Bytes
  value : Bytes
  httpOnly : Bool
  /-- `none` until the browser is closed -/
  expires : Option Int
  deriving DecidableEq, Repr

namespace Cookie

def text (c : Cookie) : Bytes := c.name ++ equalSign :: c.value

def pair (c : Cookie) : Bytes × Bytes := (c.name, c.value)

def live (c : Cookie) (now : Int) : Bool := c.expires.all fun expires => decide (now < expires)

end Cookie

abbrev Jar := List Cookie

/-! ### `Set-Cookie` -/

/-- A name and a value around the first equal sign. -/
def splitPair (item : Bytes) : Option (Bytes × Bytes) :=
  match item.dropWhile fun b => decide (b ≠ equalSign) with
  | [] => none
  | _ :: value => some (trim (item.takeWhile fun b => decide (b ≠ equalSign)), trim value)

/-- An attribute; its name is told without case. -/
def cookieAttribute (item : Bytes) : Bytes × Bytes :=
  match splitPair item with
  | some (name, value) => (name.map lowercase, value)
  | none => ((trim item).map lowercase, [])

/-- The number of a `Max-Age`. -/
def delta (value : Bytes) : Option Int :=
  match value with
  | [] => none
  | b :: digits =>
    if b = dash then
      if digits ≠ [] ∧ digits.all isDigit = true then some (-(numeral digits : Int)) else none
    else if value.all isDigit then some (numeral value) else none

/-- The last one counts. -/
def maxAge (attributes : List (Bytes × Bytes)) : Option Int :=
  (attributes.filterMap fun a => if a.1 = lit "max-age" then delta a.2 else none).getLast?

/-- A cookie with the name is replaced in its place. -/
def Jar.put (jar : Jar) (cookie : Cookie) : Jar :=
  if jar.any fun c => decide (c.name = cookie.name) then
    jar.map fun c => if c.name = cookie.name then cookie else c
  else jar ++ [cookie]

def Jar.set (https : Bool) (now : Int) (jar : Jar) (header : Bytes) : Jar :=
  match header.splitOn semicolon with
  | [] => jar
  | first :: rest =>
    match splitPair first with
    | none => jar
    | some (name, value) =>
      let attributes := rest.map cookieAttribute
      let has := fun name => attributes.any fun a => decide (a.1 = name)
      if name = [] then jar
      else if has (lit "secure") && !https then jar
      else
        match maxAge attributes with
        | none => jar.put ⟨name, value, has (lit "httponly"), none⟩
        | some age =>
          if age ≤ 0 then jar.filter fun c => decide (c.name ≠ name)
          else jar.put ⟨name, value, has (lit "httponly"), some (now + age)⟩

/-- The cookies of a reply. -/
def Jar.receive (https : Bool) (now : Int) (jar : Jar) (headers : Headers) : Jar :=
  (headers.filter fun h => decide (h.1.map lowercase = lit "set-cookie")).foldl
    (fun jar h => Jar.set https now jar h.2) jar

/-! ### What is sent and what is seen -/

def Jar.live (jar : Jar) (now : Int) : Jar := jar.filter fun c => c.live now

/-- The `Cookie` header. -/
def Jar.header (jar : Jar) (now : Int) : Bytes :=
  [semicolon, 32].intercalate ((Jar.live jar now).map Cookie.text)

/-- `document.cookie`, of cookies in ASCII. -/
def Jar.document (jar : Jar) (now : Int) : CodeUnits :=
  [59, 32].intercalate (((Jar.live jar now).filter fun c => !c.httpOnly).map fun c =>
    byteUnits c.text)

/-- White space and line terminators. -/
def isSpace (u : UInt16) : Bool :=
  let n := u.toNat
  (9 ≤ n && n ≤ 13) || n == 32 || n == 0xa0 || n == 0x1680 || (0x2000 ≤ n && n ≤ 0x200a) ||
    n == 0x2028 || n == 0x2029 || n == 0x202f || n == 0x205f || n == 0x3000 || n == 0xfeff

def trimUnits (s : CodeUnits) : CodeUnits := (s.dropWhile isSpace).rdropWhile isSpace

/-- `getCookie` of the page. -/
def getCookie (document name : CodeUnits) : CodeUnits :=
  let begins := name ++ [61]
  ((document.splitOn 59).findSome? fun item =>
    if begins.isPrefixOf (trimUnits item) then some ((trimUnits item).drop begins.length)
    else none).getD []

/-! ### Cookies that a browser can tell apart -/

structure Cookie.Plain (c : Cookie) : Prop where
  name : CookieName c.name
  value : CookieValue c.value
  printable : ∀ b ∈ c.text, 32 ≤ b.toNat ∧ b.toNat < 127

theorem intercalate_spaced {α : Type} (x y : α) (first : List α) (rest : List (List α)) :
    [x, y].intercalate (first :: rest) =
      [x].intercalate (first :: rest.map fun text => y :: text) := by
  induction rest generalizing first with
  | nil => rfl
  | cons second rest ih =>
    rw [List.intercalate_cons_cons, ih, List.map_cons, List.intercalate_cons_cons,
      List.append_assoc, List.append_assoc]
    congr 1
    cases rest with
    | nil => simp
    | cons third rest => simp [List.intercalate_cons_cons]

/-- The items of the header. -/
def Jar.items : Jar → List CookieItem
  | [] => []
  | first :: rest => .pair [] first.name first.value [] ::
    rest.map fun c => .pair [32] c.name c.value []

theorem header_items {jar : Jar} (now : Int) :
    Jar.header jar now = headerOf (Jar.items (Jar.live jar now)) := by
  unfold Jar.header headerOf
  cases Jar.live jar now with
  | nil => rfl
  | cons first rest =>
    rw [List.map_cons, intercalate_spaced]
    simp only [Jar.items, List.map_cons, List.map_map, CookieItem.text, List.nil_append,
      List.append_nil, Cookie.text, Function.comp_def, List.singleton_append]

theorem items_pairs (jar : Jar) : pairsOf (Jar.items jar) = jar.map Cookie.pair := by
  cases jar with
  | nil => rfl
  | cons first rest =>
    simp only [Jar.items, pairsOf, List.filterMap_cons, CookieItem.pair?, List.filterMap_map,
      List.map_cons, Function.comp_def, List.filterMap_eq_map']
    rfl

theorem items_proper {jar : Jar} (h : ∀ c ∈ jar, c.Plain) : ∀ item ∈ Jar.items jar, item.Proper := by
  intro item hitem
  cases jar with
  | nil => cases hitem
  | cons first rest =>
    rcases List.mem_cons.mp hitem with rfl | hrest
    · have hfirst := h first (List.mem_cons_self ..)
      exact ⟨fun _ hb => (nomatch hb), hfirst.name, hfirst.value, fun _ hb => nomatch hb⟩
    · obtain ⟨c, hc, rfl⟩ := List.mem_map.mp hrest
      have hplain := h c (List.mem_cons_of_mem _ hc)
      refine ⟨fun b hb => ?_, hplain.name, hplain.value, fun _ hb => nomatch hb⟩
      rw [List.mem_singleton.mp hb]
      decide

/-- The server finds in the header what is in the jar. -/
theorem getCookie_header {request : Request} {jar : Jar} {now : Int} {name value : Bytes}
    (hplain : ∀ c ∈ jar, c.Plain)
    (hheader : request.findHeader (lit "Cookie") = some (Jar.header jar now))
    (hvalue : ((Jar.live jar now).map Cookie.pair).lookup name = some value) :
    request.getCookie name = some value := by
  have hproper : ∀ item ∈ Jar.items (Jar.live jar now), item.Proper :=
    items_proper fun c hc => hplain c (List.mem_filter.mp hc).1
  have hne : Jar.items (Jar.live jar now) ≠ [] := by
    intro hnil
    rw [← items_pairs, hnil] at hvalue
    cases hvalue
  have hsplit : (headerOf (Jar.items (Jar.live jar now))).splitOn semicolon =
      (Jar.items (Jar.live jar now)).map CookieItem.text := by
    apply List.splitOn_intercalate semicolon
    · intro text htext
      obtain ⟨item, hitem, rfl⟩ := List.mem_map.mp htext
      exact (hproper item hitem).no_semicolon
    · exact fun h => hne (List.map_eq_nil_iff.mp h)
  unfold Request.getCookie
  rw [hheader, header_items]
  show ((headerOf (Jar.items (Jar.live jar now))).splitOn semicolon).findSome? _ = _
  rw [hsplit, findSome?_items hproper, items_pairs, hvalue]

/-! ### The script -/

theorem byteUnits_toNat (b : Byte) : (UInt16.ofNat b.toNat).toNat = b.toNat := by
  have hlt := b.toNat_lt
  rw [UInt16.toNat_ofNat', Nat.mod_eq_of_lt (by omega)]

theorem byteUnits_append (s t : Bytes) : byteUnits (s ++ t) = byteUnits s ++ byteUnits t :=
  List.map_append

theorem byteUnits_inj {s t : Bytes} (h : byteUnits s = byteUnits t) : s = t := by
  have hlatin := congrArg latin1 h
  rw [latin1_byteUnits, latin1_byteUnits] at hlatin
  exact Option.some.inj hlatin

theorem unit_mem {b : Byte} {s : Bytes} {u : UInt16} (hu : u = UInt16.ofNat b.toNat) :
    u ∈ byteUnits s ↔ b ∈ s := by
  constructor
  · intro h
    obtain ⟨c, hc, hcu⟩ := List.mem_map.mp h
    have hnat := congrArg UInt16.toNat (hcu.trans hu)
    rw [byteUnits_toNat, byteUnits_toNat] at hnat
    rwa [← UInt8.toNat_inj.mp hnat]
  · rintro h
    rw [hu]
    exact List.mem_map_of_mem h

theorem isSpace_printable {b : Byte} (h : 32 < b.toNat ∧ b.toNat < 127) :
    isSpace (UInt16.ofNat b.toNat) = false := by
  unfold isSpace
  rw [byteUnits_toNat]
  simp only [Bool.or_eq_false_iff, Bool.and_eq_false_iff, decide_eq_false_iff_not, beq_eq_false_iff_ne]
  omega

theorem not_blank {b : Byte} (h : isBlank b = false) (hle : 32 ≤ b.toNat) : 32 < b.toNat := by
  simp only [isBlank, Bool.or_eq_false_iff, beq_eq_false_iff_ne] at h
  omega

theorem Cookie.Plain.first {c : Cookie} (h : c.Plain) : ∀ b ∈ c.text.head?, isBlank b = false := by
  intro b hb
  cases hname : c.name with
  | nil => exact absurd hname h.name.ne_nil
  | cons first rest =>
    rw [Cookie.text, hname] at hb
    cases hb
    exact h.name.blank _ (hname ▸ List.mem_cons_self ..)

theorem Cookie.Plain.last {c : Cookie} (h : c.Plain) :
    ∀ b ∈ c.text.getLast?, isBlank b = false := by
  intro b hb
  rw [Cookie.text, List.getLast?_append] at hb
  cases hvalue : c.value with
  | nil =>
    rw [hvalue] at hb
    cases hb
    decide
  | cons first rest =>
    rw [hvalue, List.getLast?_cons_cons, List.getLast?_cons] at hb
    apply h.value.last b
    rw [hvalue, List.getLast?_cons]
    exact hb

theorem Cookie.Plain.semicolon {c : Cookie} (h : c.Plain) : semicolon ∉ c.text := by
  intro hmem
  rcases List.mem_append.mp hmem with hname | hvalue
  · exact h.name.semicolon hname
  · rcases List.mem_cons.mp hvalue with hequal | hvalue
    · exact absurd hequal (by decide)
    · exact h.value.semicolon hvalue

theorem trimUnits_text {c : Cookie} (h : c.Plain) : trimUnits (byteUnits c.text) = byteUnits c.text := by
  have hedge : ∀ b ∈ c.text, isBlank b = false → isSpace (UInt16.ofNat b.toNat) = false :=
    fun b hb hblank =>
      isSpace_printable ⟨not_blank hblank (h.printable b hb).1, (h.printable b hb).2⟩
  have hfirst : (byteUnits c.text).dropWhile isSpace = byteUnits c.text := by
    cases htext : c.text with
    | nil => rfl
    | cons b rest =>
      have hspace := hedge b (htext ▸ List.mem_cons_self ..) (h.first b (by rw [htext]; rfl))
      exact List.dropWhile_cons_of_neg (by rw [hspace]; exact Bool.false_ne_true)
  have hlast : ∀ hne : byteUnits c.text ≠ [], isSpace ((byteUnits c.text).getLast hne) = false := by
    intro hne
    have hmem : (byteUnits c.text).getLast? = some ((byteUnits c.text).getLast hne) :=
      List.getLast?_eq_getLast_of_ne_nil hne
    simp only [byteUnits, List.getLast?_map] at hmem
    obtain ⟨b, hb, hunit⟩ := Option.map_eq_some_iff.mp hmem
    have hspace := hedge b (List.mem_of_getLast? hb) (h.last b hb)
    exact (congrArg isSpace hunit).symm.trans hspace
  rw [trimUnits, hfirst, List.rdropWhile_eq_self_iff]
  intro hne
  rw [hlast hne]
  exact Bool.false_ne_true

/-- Two texts before the first mark are told apart. -/
theorem mark_isPrefixOf {mark : UInt16} {s t rest : CodeUnits} (hs : mark ∉ s) (ht : mark ∉ t) :
    (s ++ [mark]).isPrefixOf (t ++ mark :: rest) = decide (s = t) := by
  induction s generalizing t with
  | nil =>
    cases t with
    | nil => simp
    | cons u t =>
      have hne : (mark == u) = false :=
        beq_eq_false_iff_ne.mpr fun h => ht (h ▸ List.mem_cons_self ..)
      simp [List.isPrefixOf, hne]
  | cons v s ih =>
    cases t with
    | nil =>
      have hne : (v == mark) = false :=
        beq_eq_false_iff_ne.mpr fun h => hs (h ▸ List.mem_cons_self ..)
      simp [List.isPrefixOf, hne]
    | cons u t =>
      have htail := @ih t (fun h => hs (List.mem_cons_of_mem _ h))
        fun h => ht (List.mem_cons_of_mem _ h)
      simp only [List.cons_append, List.isPrefixOf, htail, List.cons.injEq]
      by_cases huv : v = u
      · simp [huv]
      · simp [huv]

/-- What the script looks for in one item. -/
def itemUnits (name item : CodeUnits) : Option CodeUnits :=
  if (name ++ [61]).isPrefixOf (trimUnits item) then some ((trimUnits item).drop (name ++ [61]).length)
  else none

theorem itemUnits_text {c : Cookie} (h : c.Plain) {name : Bytes} (hname : equalSign ∉ name) :
    itemUnits (byteUnits name) (byteUnits c.text) =
      if c.name = name then some (byteUnits c.value) else none := by
  have hwanted : (61 : UInt16) ∉ byteUnits name := fun h => hname ((unit_mem rfl).mp h)
  have hfound : (61 : UInt16) ∉ byteUnits c.name := fun hmem => h.name.equal ((unit_mem rfl).mp hmem)
  have htext : byteUnits c.text = byteUnits c.name ++ 61 :: byteUnits c.value := by
    rw [Cookie.text, byteUnits_append]
    rfl
  rw [itemUnits, trimUnits_text h, htext, mark_isPrefixOf hwanted hfound]
  by_cases heq : c.name = name
  · have hunits : byteUnits name = byteUnits c.name := by rw [heq]
    have hdrop : (byteUnits c.name ++ 61 :: byteUnits c.value).drop (byteUnits c.name ++ [61]).length =
        byteUnits c.value := by
      rw [List.append_cons (byteUnits c.name) 61 (byteUnits c.value), List.drop_left]
    rw [if_pos heq, hunits, decide_eq_true rfl, if_pos rfl, hdrop]
  · have hne : ¬byteUnits name = byteUnits c.name := fun h => heq (byteUnits_inj h).symm
    rw [if_neg heq, decide_eq_false hne, if_neg Bool.false_ne_true]

theorem trimUnits_space (item : CodeUnits) : trimUnits (32 :: item) = trimUnits item := by
  have hspace : isSpace 32 = true := by decide
  rw [trimUnits, trimUnits, List.dropWhile_cons_of_pos hspace]

theorem itemUnits_space (name item : CodeUnits) : itemUnits name (32 :: item) = itemUnits name item := by
  rw [itemUnits, itemUnits, trimUnits_space]

theorem itemUnits_nil (name : CodeUnits) : itemUnits name [] = none := by
  cases name with
  | nil => rfl
  | cons u name => rfl

theorem findSome?_texts {jar : Jar} (h : ∀ c ∈ jar, c.Plain) {name : Bytes}
    (hname : equalSign ∉ name) :
    (jar.map fun c => byteUnits c.text).findSome? (itemUnits (byteUnits name)) =
      ((jar.map Cookie.pair).lookup name).map byteUnits := by
  induction jar with
  | nil => rfl
  | cons c jar ih =>
    have htail := ih fun c hc => h c (List.mem_cons_of_mem _ hc)
    rw [List.map_cons, List.findSome?_cons, htail, itemUnits_text (h c (List.mem_cons_self ..)) hname,
      List.map_cons, Cookie.pair, List.lookup_cons]
    by_cases heq : c.name = name
    · simp only [heq, if_true, beq_self_eq_true, Option.map_some]
    · have hne : (name == c.name) = false := beq_eq_false_iff_ne.mpr (Ne.symm heq)
      simp only [heq, if_false, hne]

/-- The script finds what is in the jar, if it may see it. -/
theorem getCookie_document {jar : Jar} {now : Int} {name : Bytes} (hplain : ∀ c ∈ jar, c.Plain)
    (hname : equalSign ∉ name) :
    getCookie (Jar.document jar now) (byteUnits name) =
      byteUnits ((((Jar.live jar now).filter fun c => !c.httpOnly).map Cookie.pair).lookup name
        |>.getD []) := by
  have hseen : ∀ c ∈ (Jar.live jar now).filter fun c => !c.httpOnly, c.Plain :=
    fun c hc => hplain c (List.mem_filter.mp (List.mem_filter.mp hc).1).1
  have hfound := findSome?_texts hseen hname
  have hsplit : ((Jar.document jar now).splitOn 59).findSome? (itemUnits (byteUnits name)) =
      (((Jar.live jar now).filter fun c => !c.httpOnly).map fun c => byteUnits c.text).findSome?
        (itemUnits (byteUnits name)) := by
    unfold Jar.document
    cases hjar : (Jar.live jar now).filter fun c => !c.httpOnly with
    | nil =>
      show [itemUnits (byteUnits name) []].findSome? id = _
      rw [itemUnits_nil]
      rfl
    | cons first rest =>
      have hmarks : ∀ text ∈ byteUnits first.text :: (rest.map fun c => byteUnits c.text).map
          fun text => 32 :: text, (59 : UInt16) ∉ text := by
        intro text htext
        rcases List.mem_cons.mp htext with rfl | hrest
        · have hfirst := hseen first (hjar ▸ List.mem_cons_self ..)
          exact fun h => hfirst.semicolon ((unit_mem rfl).mp h)
        · rw [List.map_map] at hrest
          obtain ⟨c, hc, rfl⟩ := List.mem_map.mp hrest
          have hplain := hseen c (hjar ▸ List.mem_cons_of_mem _ hc)
          intro h
          rcases List.mem_cons.mp h with hspace | h
          · exact absurd hspace (by decide)
          · exact hplain.semicolon ((unit_mem rfl).mp h)
      rw [List.map_cons, intercalate_spaced, List.splitOn_intercalate 59 hmarks (List.cons_ne_nil _ _),
        List.findSome?_cons, List.findSome?_cons, List.findSome?_map, Function.comp_def]
      simp only [itemUnits_space]
  show (((Jar.document jar now).splitOn 59).findSome? (itemUnits (byteUnits name))).getD [] = _
  rw [hsplit, hfound]
  cases (((Jar.live jar now).filter fun c => !c.httpOnly).map Cookie.pair).lookup name with
  | none => rfl
  | some value => rfl

/-! ### A cookie that is set -/

theorem any_name {jar : Jar} {name : Bytes} :
    (jar.any fun c => decide (c.name = name)) = false ↔ ∀ c ∈ jar, c.name ≠ name := by
  simp only [List.any_eq_false, decide_eq_true_eq, ne_eq]

theorem lookup_pairs_none {jar : Jar} {name : Bytes} (h : ∀ c ∈ jar, c.name ≠ name) :
    (jar.map Cookie.pair).lookup name = none := by
  induction jar with
  | nil => rfl
  | cons c jar ih =>
    have hne : (name == c.name) = false :=
      beq_eq_false_iff_ne.mpr (Ne.symm (h c (List.mem_cons_self ..)))
    rw [List.map_cons, Cookie.pair, List.lookup_cons, hne]
    exact ih fun c hc => h c (List.mem_cons_of_mem _ hc)

theorem lookup_pairs_cons (c : Cookie) (jar : Jar) (kind : Cookie → Bool) (name : Bytes) :
    (((c :: jar).filter kind).map Cookie.pair).lookup name =
      if kind c = true ∧ c.name = name then some c.value
      else ((jar.filter kind).map Cookie.pair).lookup name := by
  by_cases hkind : kind c = true
  · rw [List.filter_cons_of_pos hkind, List.map_cons, Cookie.pair, List.lookup_cons]
    by_cases hname : c.name = name
    · rw [if_pos ⟨hkind, hname⟩, hname, beq_self_eq_true]
    · have hne : (name == c.name) = false := beq_eq_false_iff_ne.mpr (Ne.symm hname)
      rw [if_neg fun h => hname h.2, hne]
  · rw [List.filter_cons_of_neg hkind, if_neg fun h => hkind h.1]

/-- Among the cookies of a kind that the new one is of, it is found under its name. -/
theorem put_lookup {jar : Jar} {cookie : Cookie} {kind : Cookie → Bool} (hkind : kind cookie = true) :
    (((Jar.put jar cookie).filter kind).map Cookie.pair).lookup cookie.name = some cookie.value := by
  unfold Jar.put
  split
  · rename_i hany
    induction jar with
    | nil => cases hany
    | cons c jar ih =>
      rw [List.map_cons, lookup_pairs_cons]
      by_cases hname : c.name = cookie.name
      · rw [if_pos hname, if_pos ⟨hkind, rfl⟩]
      · rw [List.any_cons, decide_eq_false hname, Bool.false_or] at hany
        rw [if_neg hname, if_neg fun h => hname h.2, ih hany]
  · rename_i hany
    have hnone := any_name.mp (Bool.eq_false_iff.mpr hany)
    have hbefore : ((jar.filter kind).map Cookie.pair).lookup cookie.name = none :=
      lookup_pairs_none fun c hc => hnone c (List.mem_filter.mp hc).1
    rw [List.filter_append, List.map_append, List.lookup_append, hbefore, lookup_pairs_cons,
      if_pos ⟨hkind, rfl⟩]
    rfl

/-- A cookie of another name is found as before. -/
theorem put_lookup_ne {jar : Jar} {cookie : Cookie} {kind : Cookie → Bool} {name : Bytes}
    (hne : cookie.name ≠ name) :
    (((Jar.put jar cookie).filter kind).map Cookie.pair).lookup name =
      ((jar.filter kind).map Cookie.pair).lookup name := by
  unfold Jar.put
  split
  · rename_i hany
    clear hany
    induction jar with
    | nil => rfl
    | cons c jar ih =>
      rw [List.map_cons, lookup_pairs_cons, lookup_pairs_cons, ih]
      by_cases hname : c.name = cookie.name
      · rw [if_pos hname, if_neg fun h => hne h.2, if_neg fun h => hne (hname ▸ h.2)]
      · rw [if_neg hname]
  · rw [List.filter_append, List.map_append, List.lookup_append, lookup_pairs_cons,
      if_neg fun h => hne h.2]
    exact Option.or_none

theorem put_plain {jar : Jar} {cookie : Cookie} (hjar : ∀ c ∈ jar, c.Plain) (hcookie : cookie.Plain) :
    ∀ c ∈ Jar.put jar cookie, c.Plain := by
  intro c hc
  unfold Jar.put at hc
  split at hc
  · obtain ⟨old, hold, rfl⟩ := List.mem_map.mp hc
    split
    · exact hcookie
    · exact hjar old hold
  · rcases List.mem_append.mp hc with hold | hnew
    · exact hjar c hold
    · rwa [List.mem_singleton.mp hnew]

/-! ### The number of a `Max-Age` -/

theorem numeral_decimal (n : Nat) : numeral (decimal n) = n := by
  have hdigits : ∀ c ∈ Nat.toDigits 10 n, (UInt8.ofNat c.toNat).toNat = c.toNat :=
    fun c hc => digit_byte c (Nat.isDigit_of_mem_toDigits (by omega) (by omega) hc)
  have hfold : ∀ (digits : List Char) (start : Nat),
      (∀ c ∈ digits, (UInt8.ofNat c.toNat).toNat = c.toNat) →
      (digits.map fun c => UInt8.ofNat c.toNat).foldl (fun n b => n * 10 + (b.toNat - 48)) start =
        Nat.ofDigitChars 10 digits start := by
    intro digits
    induction digits with
    | nil =>
      intro start _
      rw [Nat.ofDigitChars_nil]
      rfl
    | cons c digits ih =>
      intro start h
      rw [List.map_cons, List.foldl_cons, ih _ fun c hc => h c (List.mem_cons_of_mem _ hc),
        Nat.ofDigitChars_cons, h c (List.mem_cons_self ..), Nat.mul_comm]
      rfl
  rw [numeral, decimal, hfold _ 0 hdigits, Nat.ofDigitChars_ten_toDigits]

theorem decimal_ne_nil (n : Nat) : decimal n ≠ [] := by
  intro h
  have hzero := numeral_decimal n
  rw [h] at hzero
  have h0 : decimal n = decimal 0 := by rw [← hzero]; rfl
  rw [h] at h0
  exact absurd h0 (by decide)

theorem delta_decimal (n : Nat) : delta (decimal n) = some (n : Int) := by
  have hdigit : ∀ b ∈ decimal n, isDigit b = true := by
    intro b hb
    obtain ⟨hlow, hhigh⟩ := decimal_digit hb
    simp only [isDigit, hlow, hhigh, decide_true, Bool.and_true]
  cases htext : decimal n with
  | nil => exact absurd htext (decimal_ne_nil n)
  | cons b digits =>
    have hdash : b ≠ dash := by
      rintro rfl
      have hb := hdigit dash (htext ▸ List.mem_cons_self ..)
      exact absurd hb (by decide)
    have hall : (b :: digits).all isDigit = true := by
      rw [← htext]
      exact List.all_eq_true.mpr hdigit
    simp only [delta, hdash, if_false, hall, if_true]
    rw [← htext, numeral_decimal]

end CloudStorage.Browser
