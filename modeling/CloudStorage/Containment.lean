import CloudStorage.Collision
import CloudStorage.Restart

/-!
# The table and the storage directories (`InitLoad`, `ParseStorageInfo`)

The loader takes a record whose normalised path is an entry of the directory of
its type. Two things get past it: a last component `..`, when the directory is
itself an ascent, and a NUL byte, at which the path ends for every call.
-/

namespace CloudStorage
open Posix Interact

variable {w : World} {cfg : Config} {text : JsonText}

/-- The last component of a path, normalised. -/
def lastComponent (path : Bytes) : Bytes := filename (normal (parse path))

/-- The directory of a record. -/
def StorageInfo.directory (info : StorageInfo) (cfg : Config) : Bytes :=
  cfg.directory info.storage_type_

/-- What the loader checks of a record and an upload establishes. -/
structure Listed (cfg : Config) (info : StorageInfo) : Prop where
  url : info.url_ = cfg.downloadPrefix ++ lastComponent info.storage_path_
  type : info.storage_type_ = low ∨ info.storage_type_ = deep
  child : key info.storage_path_ =
    (key (info.directory cfg)).child (lastComponent info.storage_path_)

/-- The file that calls on the path open or rename is an entry of the directory. -/
def Contained (cfg : Config) (info : StorageInfo) : Prop :=
  ∃ n, Plain n ∧ place info.storage_path_ = (place (info.directory cfg)).child n

/-- The invariant of the table. -/
structure WellFormed (cfg : Config) (table : Table) : Prop where
  key : ∀ url info, table.lookup url = some info → info.url_ = url
  listed : ∀ url info, table.lookup url = some info → Listed cfg info
  distinct : ∀ url info url' info', table.lookup url = some info →
    table.lookup url' = some info' → url ≠ url' →
      lastComponent info.storage_path_ ≠ lastComponent info'.storage_path_ ∧
      Posix.key info.storage_path_ ≠ Posix.key info'.storage_path_
  contained : ∀ url info, table.lookup url = some info → Contained cfg info

/-- A path that means to the calls what it means to the loader: it is not a `..`, and
where a NUL byte cuts it or its directory short, its elements up to there are some that
lead to the directory and one name, but for some that come to nothing. -/
structure Honest (cfg : Config) (info : StorageInfo) : Prop where
  name : (0 : Byte) ∉ info.storage_path_ → (0 : Byte) ∉ info.directory cfg →
    info.url_ ≠ cfg.downloadPrefix ++ dotdot
  cut : (0 : Byte) ∈ info.storage_path_ ∨ (0 : Byte) ∈ info.directory cfg →
    Enters (cString (info.directory cfg)) (cString info.storage_path_)

/-! ### The loader -/

theorem Json.asString_ne {v : Json} (h : v.asString.isEmpty = false) : v.asString ≠ [] := by
  intro he
  rw [he] at h
  cases h

theorem parseStorageInfo_listed {value : Json} {info : StorageInfo} (hcfg : cfg.Checked)
    (h : parseStorageInfo cfg value = some info) : Listed cfg info := by
  obtain ⟨-, h⟩ := Option.ite_none_left_eq_some.mp h
  obtain ⟨htexts, h⟩ := Option.ite_none_left_eq_some.mp h
  obtain ⟨-, h⟩ := Option.ite_none_left_eq_some.mp h
  obtain ⟨htype, h⟩ := Option.ite_none_left_eq_some.mp h
  obtain ⟨hparent, h⟩ := Option.ite_none_left_eq_some.mp h
  obtain ⟨hurl, h⟩ := Option.ite_none_right_eq_some.mp h
  cases h
  simp only [not_and_or, not_not] at htype
  simp only [not_or, not_not] at hparent
  simp only [Bool.or_eq_true, not_or, Bool.not_eq_true] at htexts
  obtain ⟨-, hkey⟩ := key_of_parent_eq (Json.asString_ne htexts.1.1.1.1.2)
    (hcfg.directory_ne _) hparent.1 hparent.2
  exact ⟨hurl, htype, hkey⟩

theorem loadItems_listed {values : List Json} {acc loaded : Table} (hcfg : cfg.Checked)
    (hacc : ∀ url info, acc.lookup url = some info → info.url_ = url ∧ Listed cfg info)
    (h : loadItems cfg values acc = some loaded) :
    ∀ url info, loaded.lookup url = some info → info.url_ = url ∧ Listed cfg info := by
  induction values generalizing acc with
  | nil =>
    cases h
    exact hacc
  | cons value values ih =>
    rw [loadItems] at h
    cases hparse : parseStorageInfo cfg value with
    | none => simp [hparse] at h
    | some new =>
      simp only [hparse] at h
      split at h
      · cases h
      · refine ih (fun url info hinfo => ?_) h
        by_cases hurl : url = new.url_
        · subst hurl
          rw [AList.lookup_insert] at hinfo
          cases hinfo
          exact ⟨rfl, parseStorageInfo_listed hcfg hparse⟩
        · rw [AList.lookup_insert_ne hurl] at hinfo
          exact hacc url info hinfo

theorem loadBody_listed {body : Bytes} {loaded : Table} (hcfg : cfg.Checked)
    (h : loadBody cfg text body = some loaded) :
    ∀ url info, loaded.lookup url = some info → info.url_ = url ∧ Listed cfg info := by
  have hempty : ∀ url info, (∅ : Table).lookup url = some info →
      info.url_ = url ∧ Listed cfg info := by
    intro url info hinfo
    rw [AList.lookup_empty] at hinfo
    cases hinfo
  unfold loadBody at h
  split at h
  · cases h
  · split at h
    · cases h
      exact hempty
    · split at h
      · cases h
      · exact loadItems_listed hcfg hempty h

/-- After loading, `table_` is what the metadata file stands for, or as it was when
there is none. -/
theorem wp_initLoad {A : Assumption} :
    wp (System A) (initLoad cfg text)
      (fun r w' => r = true → w'.table = w.table ∨
        ∃ body, loadBody cfg text body = some w'.table) (fun _ => True) w := by
  unfold initLoad
  rw [wp_bind]
  apply wp_fileExists trivial
  · intro w₁ _ hD _
    exact fun _ => Or.inl hD.table
  · intro w₁ _ hD _
    cases (w.fs.get (place cfg.storageInfo)).isSome with
    | false => exact fun _ => Or.inl hD.table
    | true =>
      refine wp_seq wp_getContent (fun _ _ => trivial) ?_
      rintro r w₂ -
      cases r with
      | none => exact fun h => absurd h Bool.false_ne_true
      | some body =>
        simp only
        cases hbody : loadBody cfg text body with
        | none => exact fun h => absurd h Bool.false_ne_true
        | some loaded =>
          simp only
          rw [wp_bind]
          refine wp_swapTable trivial fun w₃ _ htable _ _ _ _ _ => fun _ => ?_
          exact Or.inr ⟨body, htable ▸ hbody⟩

theorem loaded_listed {w₀ w₁ : World} (hcfg : cfg.Checked)
    (hload : Runs (System Anything) (initLoad cfg text) w₀.restart true w₁) :
    ∀ url info, w₁.table.lookup url = some info → info.url_ = url ∧ Listed cfg info := by
  rcases wp_runs wp_initLoad hload rfl with htable | ⟨body, hbody⟩
  · intro url info hinfo
    rw [htable, show w₀.restart.table = ∅ from rfl, AList.lookup_empty] at hinfo
    cases hinfo
  · exact loadBody_listed hcfg hbody

/-! ### The invariant -/

/-- Of a listed record the file is contained when its path is honest. -/
theorem Listed.contained_iff {info : StorageInfo} (h : Listed cfg info) :
    Contained cfg info ↔ Honest cfg info := by
  constructor
  · intro hc
    refine ⟨fun h0 hd0 hurl => ?_, fun _ => enters_iff.mpr hc⟩
    obtain ⟨n, hn, hplace⟩ := hc
    rw [place_eq h0, place_eq hd0, h.child, Key.child_inj] at hplace
    rw [h.url, hplace.2] at hurl
    exact hn.ne_dotdot (List.append_cancel_left hurl)
  · intro hh
    by_cases hcut : (0 : Byte) ∈ info.storage_path_ ∨ (0 : Byte) ∈ info.directory cfg
    · exact enters_iff.mp (hh.cut hcut)
    · rw [not_or] at hcut
      have hmem : lastComponent info.storage_path_ ∈ (key info.storage_path_).names := by
        rw [h.child]
        exact List.mem_append_right _ (List.mem_singleton.mpr rfl)
      refine ⟨lastComponent info.storage_path_, plain_of_mem_key hmem ?_, ?_⟩
      · intro hdd
        exact hh.name hcut.1 hcut.2 (hdd ▸ h.url)
      · rw [place_eq hcut.1, place_eq hcut.2, h.child]

theorem RecordOf.listed {a : UploadArgs} {file : Inode} {info : StorageInfo} (hcfg : cfg.Checked)
    (ha : a.Checked cfg) (hr : RecordOf cfg a file info) : Listed cfg info := by
  have hd := hcfg.directory_ne a.storageType
  have hplain := isSafeFileName_plain ha.safe
  have hdir : info.directory cfg = a.directory cfg := by
    rw [StorageInfo.directory, hr.type]
    rfl
  have hlast : lastComponent info.storage_path_ = a.filename := by
    rw [hr.path]
    exact filename_normal_join hd hplain
  have hname : fileName (a.finalPath cfg) = a.filename := filename_join hd hplain
  constructor
  · rw [hlast, hr.url, hname]
  · rw [hr.type]
    exact ha.type
  · rw [hlast, hdir, hr.path]
    exact key_join hd hplain

/-- An uploaded record is listed and its file is contained. -/
theorem RecordOf.sound {a : UploadArgs} {file : Inode} {info : StorageInfo} (hcfg : cfg.Checked)
    (ha : a.Checked cfg) (hr : RecordOf cfg a file info) (hl : Linked DirectoriesStay cfg a) :
    Listed cfg info ∧ Contained cfg info := by
  have hdir : info.directory cfg = a.directory cfg := by
    rw [StorageInfo.directory, hr.type]
    rfl
  refine ⟨hr.listed hcfg ha, a.filename, isSafeFileName_plain ha.safe, ?_⟩
  rw [hdir, hr.path, place_eq (hl.no_nul ha)]
  exact place_join (hcfg.directory_ne a.storageType) (hl.no_nul ha) ha.safe

theorem WellFormed.of_records {table : Table} (h : ∀ url info, table.lookup url = some info →
    info.url_ = url ∧ Listed cfg info ∧ Contained cfg info) : WellFormed cfg table where
  key url info hinfo := (h url info hinfo).1
  listed url info hinfo := (h url info hinfo).2.1
  distinct url info url' info' hinfo hinfo' hne := by
    obtain ⟨hurl, hl, -⟩ := h url info hinfo
    obtain ⟨hurl', hl', -⟩ := h url' info' hinfo'
    have hlast : lastComponent info.storage_path_ ≠ lastComponent info'.storage_path_ := by
      intro he
      exact hne (by rw [← hurl, ← hurl', hl.url, hl'.url, he])
    refine ⟨hlast, fun hk => hlast ?_⟩
    rw [hl.child, hl'.child, Key.child_inj] at hk
    exact hk.2
  contained url info hinfo := (h url info hinfo).2.2

/-- Whatever metadata was loaded, every table of every later run is well formed exactly
when the loaded records have honest paths. -/
theorem well_formed_iff {libs : Libs} {w₀ w₁ : World} (hcfg : cfg.Accepted)
    (hload : Runs (System Anything) (initLoad cfg libs.json) w₀.restart true w₁) :
    (∀ (log : Log) (w₂ : World), ServerRun DirectoriesStay cfg libs w₁ log w₂ →
      WellFormed cfg w₂.table) ↔
    ∀ url info, w₁.table.lookup url = some info → Honest cfg info := by
  have hc := hcfg.checked
  have hlisted := loaded_listed hc hload
  constructor
  · intro h url info hinfo
    exact (hlisted url info hinfo).2.contained_iff.mp ((h [] w₁ (.nil w₁)).contained url info hinfo)
  · intro h log w₂ hrun
    refine WellFormed.of_records ?_
    refine serverRun_records (fun a file info ha hr hl => ⟨rfl, hr.sound hc ha hl⟩) ?_ hrun
    intro url info hinfo
    obtain ⟨hurl, hl⟩ := hlisted url info hinfo
    exact ⟨hurl, hl, hl.contained_iff.mpr (h url info hinfo)⟩

/-- One file and nothing else. -/
def World.holding (path content : Bytes) : World :=
  { World.empty with fs := (FileSystem.empty.create (place path) 0).setInode 0 ⟨content, 0⟩ }

/-- A record whose name has a NUL byte in it. -/
def cutName : StorageInfo where
  mtime_ := 5
  atime_ := 7
  fsize_ := 3
  storage_path_ := lit "low_storage/./f\x00g"
  url_ := lit "/download/f\x00g"
  storage_type_ := low

def cutNameTable : Table := (∅ : Table).insert cutName.url_ cutName

def cutNameBody : Bytes :=
  lit "[\n\t\x7b\n\t\t\"atime_\" : 7,\n\t\t\"fsize_\" : 3,\n\t\t\"mtime_\" : 5,\n" ++
  lit "\t\t\"storage_path_\" : \"low_storage/./f\\u0000g\",\n" ++
  lit "\t\t\"storage_type_\" : \"low\",\n\t\t\"url_\" : \"/download/f\\u0000g\"\n\t\x7d\n]"

def cutNameLibs : Libs := .plain (.ofPairs [(tableJson cutNameTable, cutNameBody)])

theorem well_formed_cut_name : ∃ w₁,
    Runs (System Anything) (initLoad settledConfig cutNameLibs.json)
      (World.holding settledConfig.storageInfo cutNameBody).restart true w₁ ∧
    w₁.table.lookup cutName.url_ = some cutName ∧
    ∀ log w₂, ServerRun DirectoriesStay settledConfig cutNameLibs w₁ log w₂ →
      WellFormed settledConfig w₂.table := by
  have hplay : decide ((playUnder Anything (initLoad settledConfig cutNameLibs.json) loadChoices
      (World.holding settledConfig.storageInfo cutNameBody).restart).2.table.entries =
        cutNameTable.entries) = true := by decide +kernel
  have hload := @playUnder_runs Anything _ _ (initLoad settledConfig cutNameLibs.json) loadChoices
    (World.holding settledConfig.storageInfo cutNameBody).restart true (by decide +kernel)
  have htable := AList.ext (of_decide_eq_true hplay)
  refine ⟨_, hload, by rw [htable]; exact AList.lookup_insert _,
    (well_formed_iff (Config.shipped_accepted (by decide) (by decide)) hload).mpr ?_⟩
  intro url info hinfo
  rw [htable] at hinfo
  have hurl : url = cutName.url_ := by
    by_contra hne
    rw [cutNameTable, AList.lookup_insert_ne hne, AList.lookup_empty] at hinfo
    cases hinfo
  rw [hurl, cutNameTable, AList.lookup_insert] at hinfo
  cases hinfo
  refine ⟨fun h0 => absurd h0 (by decide), fun _ => ?_⟩
  exact ⟨[lit "low_storage", dot], lit "f", [], by decide, by decide, by decide, by decide, rfl⟩

/-- A metadata file whose one record has a path with a NUL byte in it. -/
def cutRecord : StorageInfo where
  mtime_ := 5
  atime_ := 7
  fsize_ := 3
  storage_path_ := lit "storage.data\x00/../low_storage/f"
  url_ := lit "/download/f"
  storage_type_ := low

def cutTable : Table := (∅ : Table).insert cutRecord.url_ cutRecord

def cutBody : Bytes :=
  lit "[\n\t\x7b\n\t\t\"atime_\" : 7,\n\t\t\"fsize_\" : 3,\n\t\t\"mtime_\" : 5,\n" ++
  lit "\t\t\"storage_path_\" : \"storage.data\\u0000/../low_storage/f\",\n" ++
  lit "\t\t\"storage_type_\" : \"low\",\n\t\t\"url_\" : \"/download/f\"\n\t\x7d\n]"

/-- The record of a path with a NUL byte is accepted, and a download of it opens the
metadata file. -/
theorem cut_path_escapes : ¬∀ (cfg : Config) (libs : Libs) (w₀ w₁ w₂ : World) (log : Log),
    cfg.Accepted →
    Runs (System Anything) (initLoad cfg libs.json) w₀.restart true w₁ →
    ServerRun DirectoriesStay cfg libs w₁ log w₂ → WellFormed cfg w₂.table := by
  intro h
  let libs := Libs.plain (.ofPairs [(tableJson cutTable, cutBody)])
  have hload := @playUnder_runs Anything _ _ (initLoad settledConfig libs.json) loadChoices
    (World.holding settledConfig.storageInfo cutBody).restart true (by decide +kernel)
  have hw := h settledConfig libs _ _ _ [] (Config.shipped_accepted (by decide) (by decide)) hload
    (.nil _)
  obtain ⟨n, -, hplace⟩ := hw.contained cutRecord.url_ cutRecord (by decide +kernel)
  have hstore : place cutRecord.storage_path_ = ⟨false, [lit "storage.data"]⟩ := by decide
  have hdir : place (cutRecord.directory settledConfig) = ⟨false, [lit "low_storage"]⟩ := by decide
  rw [hstore, hdir] at hplace
  simp [Key.child] at hplace

end CloudStorage
