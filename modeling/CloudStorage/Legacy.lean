import CloudStorage.Containment

/-!
# Records without a storage type (`ParseStorageInfo`)

For a record without `storage_type_` the loader infers the type from the parent
of the path as it is spelled; its checks take the parent of the normalised path.
The two parents are not always the same: of `deep/./f` the first is `deep/` with a
separator at its end, the second is `deep`.
-/

namespace CloudStorage
open Posix Interact

/-! ### Adding and removing a member -/

/-- `removeMember`. -/
def Json.without (v : Json) (name : Bytes) : Json :=
  match v with
  | .obj members => .obj (members.filter fun m => decide (m.1 ≠ name))
  | _ => v

/-- `value[name] = u` on an object. -/
def Json.with (v : Json) (name : Bytes) (u : Json) : Json :=
  match v with
  | .obj members => .obj ((name, u) :: members.filter fun m => decide (m.1 ≠ name))
  | _ => v

theorem lookup_filter_ne (members : List (Bytes × Json)) {name other : Bytes} (h : other ≠ name) :
    (members.filter fun m => decide (m.1 ≠ name)).lookup other = members.lookup other := by
  induction members with
  | nil => rfl
  | cons m members ih =>
    obtain ⟨key, value⟩ := m
    by_cases hkey : key = name
    · have hother : (other == key) = false := beq_eq_false_iff_ne.mpr fun he => h (he.trans hkey)
      rw [List.filter_cons_of_neg (by simp [hkey]), ih, List.lookup_cons, hother]
    · rw [List.filter_cons_of_pos (by simp [hkey]), List.lookup_cons, List.lookup_cons, ih]

theorem lookup_filter_self (members : List (Bytes × Json)) (name : Bytes) :
    (members.filter fun m => decide (m.1 ≠ name)).lookup name = none := by
  rw [List.lookup_eq_none_iff]
  intro m hm
  have hne := of_decide_eq_true (List.mem_filter.mp hm).2
  exact bne_iff_ne.mpr (Ne.symm hne)

section
variable {v u : Json} {name other : Bytes}

theorem Json.without_isObject : (v.without name).isObject = v.isObject := by
  cases v <;> rfl

theorem Json.with_isObject : (v.with name u).isObject = v.isObject := by
  cases v <;> rfl

theorem Json.without_member (h : other ≠ name) :
    (v.without name).member other = v.member other := by
  cases v with
  | obj members => simp only [Json.member, Json.without, Json.members, lookup_filter_ne members h]
  | _ => rfl

theorem Json.without_isMember : (v.without name).isMember name = false := by
  cases v with
  | obj members =>
    simp only [Json.isMember, Json.without, Json.members, lookup_filter_self, Option.isSome_none]
  | _ => rfl

theorem Json.with_member (h : other ≠ name) : (v.with name u).member other = v.member other := by
  cases v with
  | obj members =>
    have hne : (other == name) = false := beq_eq_false_iff_ne.mpr h
    simp only [Json.member, Json.with, Json.members, List.lookup_cons, hne,
      lookup_filter_ne members h]
  | _ => rfl

theorem Json.with_self (hv : v.isObject = true) :
    (v.with name u).member name = u ∧ (v.with name u).isMember name = true := by
  cases v with
  | obj members =>
    simp only [Json.member, Json.isMember, Json.with, Json.members, List.lookup_cons,
      beq_self_eq_true, Option.getD_some, Option.isSome_some, and_self]
  | _ => cases hv

end

/-! ### The type that is read -/

variable {cfg : Config}

/-- The type the loader goes on with. -/
def readType (cfg : Config) (path type : Json) (hasType : Bool) : Bytes :=
  if hasType && type.isString then type.asString else inferredType cfg path.asString

theorem parseMembers_congr {path url size mtime atime type type' : Json} {hasType hasType' : Bool}
    (h : readType cfg path type hasType = readType cfg path type' hasType') :
    parseMembers cfg path url size mtime atime type hasType =
      parseMembers cfg path url size mtime atime type' hasType' := by
  unfold readType at h
  simp only [parseMembers, h]

theorem parseMembers_some {path url size mtime atime type : Json} {hasType : Bool}
    {info : StorageInfo}
    (h : parseMembers cfg path url size mtime atime type hasType = some info) :
    info.storage_path_ = path.asString ∧ info.storage_type_ = readType cfg path type hasType ∧
      info.storage_path_ ≠ [] ∧ lastComponent info.storage_path_ ≠ [] ∧
      parent (normal (parse info.storage_path_)) =
        normal (parse (cfg.directory info.storage_type_)) := by
  obtain ⟨htexts, h⟩ := Option.ite_none_left_eq_some.mp h
  obtain ⟨-, h⟩ := Option.ite_none_left_eq_some.mp h
  obtain ⟨-, h⟩ := Option.ite_none_left_eq_some.mp h
  obtain ⟨hparent, h⟩ := Option.ite_none_left_eq_some.mp h
  obtain ⟨-, h⟩ := Option.ite_none_right_eq_some.mp h
  cases h
  simp only [not_or, not_not] at hparent
  simp only [Bool.or_eq_true, not_or, Bool.not_eq_true] at htexts
  exact ⟨rfl, rfl, Json.asString_ne htexts.1.1.1.1.2, hparent⟩

def typeMember : Bytes := lit "storage_type_"

/-- The loader on a value that differs from another only in the type. -/
theorem parseStorageInfo_agreeing {value value' : Json} (hvalue : value'.isObject = true)
    (hother : ∀ other, other ≠ typeMember → value'.member other = value.member other) :
    parseStorageInfo cfg value' =
      parseMembers cfg (value.member (lit "storage_path_")) (value.member (lit "url_"))
        (value.member (lit "fsize_")) (value.member (lit "mtime_")) (value.member (lit "atime_"))
        (value'.member typeMember) (value'.isMember typeMember) := by
  have hne : ∀ other ∈ [lit "storage_path_", lit "url_", lit "fsize_", lit "mtime_",
      lit "atime_"], other ≠ typeMember := by decide
  have hmembers : ∀ other ∈ [lit "storage_path_", lit "url_", lit "fsize_", lit "mtime_",
      lit "atime_"], value'.member other = value.member other :=
    fun other hmem => hother other (hne other hmem)
  simp only [List.forall_mem_cons] at hmembers
  obtain ⟨hpath, hurl, hsize, hmtime, hatime, -⟩ := hmembers
  rw [parseStorageInfo, hvalue, hpath, hurl, hsize, hmtime, hatime]
  rfl

theorem parseStorageInfo_without (value : Json) (hvalue : value.isObject = true) :
    parseStorageInfo cfg (value.without typeMember) =
      parseMembers cfg (value.member (lit "storage_path_")) (value.member (lit "url_"))
        (value.member (lit "fsize_")) (value.member (lit "mtime_")) (value.member (lit "atime_"))
        .null false := by
  have hobject : (value.without typeMember).isObject = true := by
    rw [Json.without_isObject, hvalue]
  rw [parseStorageInfo_agreeing hobject fun other => Json.without_member]
  exact parseMembers_congr (by rw [Json.without_isMember]; rfl)

theorem parseStorageInfo_with (value : Json) (hvalue : value.isObject = true) (type : Bytes) :
    parseStorageInfo cfg (value.with typeMember (.str type)) =
      parseMembers cfg (value.member (lit "storage_path_")) (value.member (lit "url_"))
        (value.member (lit "fsize_")) (value.member (lit "mtime_")) (value.member (lit "atime_"))
        (.str type) true := by
  have hobject : (value.with typeMember (.str type)).isObject = true := by
    rw [Json.with_isObject, hvalue]
  obtain ⟨htype, hmember⟩ := @Json.with_self value (.str type) typeMember hvalue
  rw [parseStorageInfo_agreeing hobject fun other => Json.with_member, htype, hmember]

/-! ### Inferring the type -/

/-- What stands before the last element of a path as it is spelled. -/
def spelledParent (path : Bytes) : Path := parent (parse path)

/-- The element before the name is no dot and no ascent, unless the directory is a root or
ends in an ascent, or for a low record is not the deep one spelled otherwise. Where the name
itself is `..`, the path ends in one that takes no name back, unless for a low record what
is before the last element is not the deep directory anyway. -/
def TypeEvident (cfg : Config) (path type : Bytes) : Prop :=
  if lastComponent path = dotdot then
    (parse path).Ascends ∨ type = low ∧ ¬(spelledParent path).Agrees (parse cfg.deepStorageDir)
  else if type = deep then (key cfg.deepStorageDir).Named → ¬(spelledParent path).Open
  else key cfg.lowStorageDir = key cfg.deepStorageDir → ¬(spelledParent path).Open

instance (cfg : Config) (path type : Bytes) : Decidable (TypeEvident cfg path type) :=
  inferInstanceAs (Decidable (ite _ _ _))

/-- What the loader has checked of a path and its type. -/
structure PathChecked (cfg : Config) (path type : Bytes) : Prop where
  known : type = low ∨ type = deep
  settled : Settled (cfg.directory type)
  child : key path = (key (cfg.directory type)).child (lastComponent path)

section
variable {path type : Bytes}

theorem PathChecked.names_ne (h : PathChecked cfg path type) : names path ≠ [] := by
  intro hn
  have hnames := congrArg Key.names h.child
  rw [key, resolve, parse, hn, Key.child] at hnames
  simp [walk] at hnames

theorem PathChecked.parent_not_empty (hcfg : cfg.Checked) (h : PathChecked cfg path type) :
    ¬(spelledParent path).Empty := by
  rintro ⟨hrooted, hnames⟩
  have hd := hcfg.directory_ne type
  have hroot : rooted path = false := by
    unfold spelledParent parent at hrooted
    split at hrooted <;> exact hrooted
  -- the path is one element, so that its directory would be the current one
  obtain ⟨e, he⟩ : ∃ e, names path = [e] := by
    unfold spelledParent parent at hnames
    split at hnames
    · exact absurd hnames h.names_ne
    · rcases List.eq_nil_or_concat (names path) with hnil | ⟨xs, e, hxs⟩
      · exact absurd hnil h.names_ne
      · have hxs' : names path = xs ++ [e] := by rw [hxs, List.concat_eq_append]
        have hdrop : (names path).dropLast = [] := hnames
        rw [hxs', List.dropLast_concat] at hdrop
        exact ⟨e, by rw [hxs', hdrop]; rfl⟩
  have hlen : (key path).names.length ≤ 1 := by
    rw [key, resolve, parse, hroot, he]
    simp only [walk, visit, List.foldl_cons, List.foldl_nil, Bool.false_eq_true, if_false]
    split
    · simp
    · split <;> simp
  rw [h.child, Key.child, List.length_append, List.length_singleton] at hlen
  have hnone : (key (cfg.directory type)).names = [] :=
    List.eq_nil_of_length_eq_zero (by omega)
  have hdroot : rooted (cfg.directory type) = false :=
    (congrArg Key.rooted h.child).symm.trans hroot
  have hsettled := h.settled
  rw [Settled, normal_of_key_nil hd hnone, hdroot, hnone] at hsettled
  cases hsettled

/-- The inference compares ends as well as files. -/
theorem PathChecked.inferred_deep_iff (hcfg : cfg.Checked) (h : PathChecked cfg path type) :
    normal (parse (parentString path)) = normal (parse cfg.deepStorageDir) ↔
      (spelledParent path).Agrees (parse cfg.deepStorageDir) := by
  have hdeep : cfg.deepStorageDir ≠ [] := hcfg.directory_ne deep
  rw [parse_parentString_eq h.names_ne]
  exact normal_eq_iff (h.parent_not_empty hcfg) (parse_not_empty hdeep)

/-- Before the name of an entry stands a spelling of its directory. -/
theorem PathChecked.spelled (h : PathChecked cfg path type)
    (hname : lastComponent path ≠ dotdot) :
    resolve (spelledParent path) = key (cfg.directory type) := by
  have hmem : lastComponent path ∈ (key path).names := by
    rw [h.child]
    exact List.mem_append_right _ (List.mem_singleton.mpr rfl)
  obtain ⟨xs, hparse, hresolve⟩ := spelled_of_plain_normal (plain_of_mem_key hmem hname)
  rw [spelledParent, hparse, parent, if_neg Bool.false_ne_true, List.dropLast_concat, hresolve,
    h.child, Key.child, List.dropLast_concat]
  exact Key.mk.injEq .. ▸ ⟨congrArg Key.rooted h.child, rfl⟩

/-- Two spellings of one directory differ in their ends. -/
theorem Config.Checked.not_agrees (hcfg : cfg.Checked) :
    ¬(parse cfg.lowStorageDir).Agrees (parse cfg.deepStorageDir) := fun hagrees =>
  hcfg.low_deep ((normal_eq_iff (parse_not_empty (hcfg.directory_ne low))
    (parse_not_empty (hcfg.directory_ne deep))).mpr hagrees)

/-- Where the name is `..`, the directory has no name, and the path leads to it by an ascent
or not at all. -/
theorem PathChecked.evident_ascent (hcfg : cfg.Checked) (h : PathChecked cfg path type)
    (hname : lastComponent path = dotdot) :
    (parse path).Ascends ∨ type = low ∧ ¬(spelledParent path).Agrees (parse cfg.deepStorageDir) ↔
      (type = deep ↔ (spelledParent path).Agrees (parse cfg.deepStorageDir)) := by
  have hne : low ≠ deep := by decide
  have hchild : resolve (parse path) = (key (cfg.directory type)).child dotdot :=
    hname ▸ h.child
  have hunnamed := (resolve_ascent hchild).2
  have hascends : (parse path).Ascends ↔ resolve (spelledParent path) = _ := ascends_iff hchild
  rw [hascends]
  rcases h.known with rfl | rfl
  · rw [iff_false_left hne]
    refine ⟨fun hevident hagrees => ?_, fun hnot => Or.inr ⟨rfl, hnot⟩⟩
    rcases hevident with hlow | ⟨-, hnot⟩
    · have hsame : key cfg.lowStorageDir = key cfg.deepStorageDir := hlow.symm.trans hagrees.1
      exact hcfg.not_agrees ⟨hsame, fun hn => absurd hn hunnamed⟩
    · exact hnot hagrees
  · constructor
    · rintro (hdeep | ⟨hlow, -⟩)
      · exact iff_of_true rfl ⟨hdeep, fun hn => absurd (hdeep ▸ hn) hunnamed⟩
      · exact absurd hlow.symm hne
    · exact fun hagrees => Or.inl (hagrees.mp rfl).1

theorem typeEvident_iff (hcfg : cfg.Checked) (h : PathChecked cfg path type) :
    TypeEvident cfg path type ↔ inferredType cfg path = type := by
  have hne : low ≠ deep := by decide
  have hinferred : inferredType cfg path = type ↔
      (type = deep ↔ (spelledParent path).Agrees (parse cfg.deepStorageDir)) := by
    rw [← h.inferred_deep_iff hcfg, inferredType]
    split
    · rename_i hdeep
      exact ⟨fun he => iff_of_true he.symm hdeep, fun he => (he.mpr hdeep).symm⟩
    · rename_i hlow
      refine ⟨fun he => iff_of_false (fun hd => hne (he.trans hd)) hlow, fun he => ?_⟩
      exact (h.known.resolve_right fun hd => hlow (he.mp hd)).symm
  rw [hinferred, TypeEvident]
  by_cases hname : lastComponent path = dotdot
  · rw [if_pos hname]
    exact h.evident_ascent hcfg hname
  rw [if_neg hname]
  have hspelled := h.spelled hname
  rcases h.known with rfl | rfl
  · have hdir : cfg.directory low = cfg.lowStorageDir := if_neg hne
    have hlow : cfg.lowStorageDir ≠ [] := hdir ▸ hcfg.directory_ne low
    have hsettled := h.settled
    rw [hdir] at hspelled hsettled
    -- the two directories are different spellings of one only if a separator ends the deep one
    have hopen : key cfg.lowStorageDir = key cfg.deepStorageDir →
        (key cfg.lowStorageDir).Named ∧ (parse cfg.deepStorageDir).Open := by
      intro hsame
      obtain ⟨hnamed, hends⟩ := Classical.not_imp.mp fun himp => hcfg.not_agrees ⟨hsame, himp⟩
      refine ⟨hnamed, ?_⟩
      by_contra hclosed
      exact hends (iff_of_false (Settled.not_open hlow hsettled hnamed) hclosed)
    rw [if_neg hne, iff_false_left hne, Path.Agrees, hspelled, not_and]
    refine forall_congr' fun hsame => not_congr ?_
    obtain ⟨hnamed, hdeepOpen⟩ := hopen hsame
    exact ⟨fun hends _ => iff_of_true hends hdeepOpen, fun himp => (himp hnamed).mpr hdeepOpen⟩
  · have hdir : cfg.directory deep = cfg.deepStorageDir := if_pos rfl
    have hdeep : cfg.deepStorageDir ≠ [] := hcfg.directory_ne deep
    have hsettled := h.settled
    rw [hdir] at hspelled hsettled
    rw [if_pos rfl, Path.Agrees, hspelled]
    have hclosed := Settled.not_open hdeep hsettled
    constructor
    · intro hevident
      exact iff_of_true rfl ⟨rfl, fun hn => iff_of_false (hevident hn) (hclosed hn)⟩
    · exact fun hagrees hn hopen => hclosed hn (((hagrees.mp rfl).2 hn).mp hopen)

end

/-- A record with its type loads without it exactly when the type is evident; and the type
that was inferred may always be written down. -/
theorem legacy_loads_iff (hcfg : cfg.Accepted) (value : Json) :
    (∀ type info, (type = low ∨ type = deep) → value.isMember typeMember = true →
      (value.member typeMember).isString = true → (value.member typeMember).asString = type →
      parseStorageInfo cfg value = some info →
      (parseStorageInfo cfg (value.without typeMember) = some info ↔
        TypeEvident cfg (value.member (lit "storage_path_")).asString type)) ∧
      ∀ info, parseStorageInfo cfg (value.without typeMember) = some info →
        parseStorageInfo cfg (value.with typeMember (.str info.storage_type_)) = some info := by
  have hc := hcfg.checked
  constructor
  · intro type info htype hmember hstring htext h
    obtain ⟨hobject, hmembers⟩ := Option.ite_none_left_eq_some.mp h
    rw [Bool.not_eq_true, Bool.not_eq_false'] at hobject
    obtain ⟨hpath, hread, hne, hname, hparent⟩ := parseMembers_some hmembers
    have hread : info.storage_type_ = type := by
      rw [hread, ← htext]
      unfold readType
      rw [show lit "storage_type_" = typeMember from rfl, hmember, hstring]
      rfl
    rw [hread] at hparent
    rw [hpath] at hne hname hparent
    obtain ⟨hsettled, hkey⟩ := key_of_parent_eq hne (hc.directory_ne type) hname hparent
    rw [parseStorageInfo_without value hobject, typeEvident_iff hc ⟨htype, hsettled, hkey⟩]
    constructor
    · intro hwithout
      have hinferred := (parseMembers_some hwithout).2.1
      exact hinferred.symm.trans hread
    · intro hinferred
      rw [← hmembers]
      refine parseMembers_congr ?_
      rw [readType, readType, show lit "storage_type_" = typeMember from rfl, hmember, hstring,
        htext]
      exact hinferred
  · intro info h
    have hobject : value.isObject = true := by
      obtain ⟨hobject, -⟩ := Option.ite_none_left_eq_some.mp h
      rw [Bool.not_eq_true, Bool.not_eq_false', Json.without_isObject] at hobject
      exact hobject
    rw [parseStorageInfo_without value hobject] at h
    rw [parseStorageInfo_with value hobject, ← h]
    exact parseMembers_congr (parseMembers_some h).2.1

/-- The paths the server itself writes down leave no doubt. -/
theorem typeEvident_join {type f : Bytes} (hcfg : cfg.Checked) (htype : type = low ∨ type = deep)
    (hsettled : Settled (cfg.directory type)) (hf : Plain f) :
    TypeEvident cfg (join (cfg.directory type) f) type := by
  have hd := hcfg.directory_ne type
  have hchecked : PathChecked cfg (join (cfg.directory type) f) type := by
    refine ⟨htype, hsettled, ?_⟩
    rw [lastComponent, filename_normal_join hd hf, key_join hd hf]
  have hparse := parse_join hd hf.ne_nil hf.no_sep
  have hrooted : rooted (join (cfg.directory type) f) = rooted (cfg.directory type) :=
    congrArg Path.rooted hparse
  have hspelled : normal (parse (parentString (join (cfg.directory type) f))) =
      normal (parse (cfg.directory type)) := by
    rw [← hrooted] at hparse
    rw [parse_parentString hparse, hrooted]
    exact normal_of_settled hd hsettled
  rw [typeEvident_iff hcfg hchecked, inferredType, hspelled]
  rcases htype with rfl | rfl
  · exact if_neg hcfg.low_deep
  · exact if_pos rfl

/-- A deep record with a dot before its name. -/
def dottedRecord : StorageInfo where
  mtime_ := 5
  atime_ := 7
  fsize_ := 3
  storage_path_ := lit "deep_storage/./f"
  url_ := lit "/download/f"
  storage_type_ := deep

theorem dotted_path_misread : ¬∀ (cfg : Config) (value : Json) (info : StorageInfo),
    cfg.Accepted → value.isMember typeMember = true →
    (value.member typeMember = .str low ∨ value.member typeMember = .str deep) →
    parseStorageInfo cfg value = some info →
    parseStorageInfo cfg (value.without typeMember) = some info := by
  intro h
  have hread := h settledConfig (recordJson dottedRecord) dottedRecord
    (Config.shipped_accepted (by decide) (by decide)) (by decide) (.inr rfl) (by decide +kernel)
  have hrefused : parseStorageInfo settledConfig ((recordJson dottedRecord).without typeMember) =
      none := by decide +kernel
  rw [hrefused] at hread
  cases hread

/-- A low record with a dot before its name, in a directory of its own. -/
def dottedLow : Json :=
  recordJson { dottedRecord with storage_path_ := lit "low_storage/./f", storage_type_ := low }

theorem legacy_loads_dotted : ∃ info, parseStorageInfo settledConfig dottedLow = some info ∧
    parseStorageInfo settledConfig (dottedLow.without typeMember) = some info := by
  obtain ⟨info, hinfo⟩ := Option.isSome_iff_exists.mp
    (show (parseStorageInfo settledConfig dottedLow).isSome = true by decide +kernel)
  refine ⟨info, hinfo, ?_⟩
  have hloads := (legacy_loads_iff (Config.shipped_accepted (by decide) (by decide)) dottedLow).1
    low info (Or.inl rfl) (by decide +kernel) (by decide +kernel) (by decide +kernel) hinfo
  exact hloads.mpr (by decide +kernel)

end CloudStorage
