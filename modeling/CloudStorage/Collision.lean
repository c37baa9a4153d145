import CloudStorage.Run

/-!
# The metadata file and the uploaded files (`Config::ReadConfig`, `IsSafeFileName`)

The configuration check compares normal forms, to which a trailing separator
matters, and does not look at the metadata path. What it should have required is
`Config.Separated`: two storage directories, and a metadata file that is not
directly inside either under a name an upload can ask for.
-/

namespace CloudStorage
open Posix Interact

/-- The directories created so far. -/
def madeDirs (trace : List Event) : List Bytes :=
  trace.filterMap fun e =>
    match e with
    | ⟨.fs (.mkdirs dir), made⟩ => if made = true then some dir else none
    | _ => none

/-- The name a hard link made. -/
def linkedName : (c : Call) → c.Resp → Option Bytes
  | .fs (.link _ new), .ok => some new
  | _, _ => none

/-- A created directory stays: no hard link takes its name. -/
def DirectoriesStay : Assumption := fun w c r =>
  ∀ new ∈ linkedName c r, ∀ dir ∈ madeDirs w.trace, place dir ≠ place new

instance (w : World) (c : Call) (r : c.Resp) : Decidable (DirectoriesStay w c r) :=
  inferInstanceAs (Decidable (∀ new ∈ linkedName c r, ∀ dir ∈ madeDirs w.trace,
    place dir ≠ place new))

theorem mem_madeDirs {trace : List Event} {dir : Bytes}
    (h : ⟨.fs (.mkdirs dir), true⟩ ∈ trace) : dir ∈ madeDirs trace :=
  List.mem_filterMap.mpr ⟨_, h, rfl⟩

variable {w : World} {cfg : Config} {libs : Libs}

/-- The records' files were uploaded, into directories whose path is a C string. -/
def UploadedPaths (cfg : Config) (table : Table) : Prop :=
  ∀ url info, table.lookup url = some info →
    ∃ a : UploadArgs, a.Checked cfg ∧ (0 : Byte) ∉ a.directory cfg ∧
      info.storage_path_ = a.finalPath cfg

/-- Uploaded files and the metadata file never collide. -/
structure NeverCollide (cfg : Config) : Prop where
  /-- the paths denote different files -/
  store : ∀ a : UploadArgs, a.Checked cfg → key (a.finalPath cfg) ≠ key cfg.storageInfo
  tiers : ∀ f g, isSafeFileName f = true → isSafeFileName g = true →
    key (joinPath cfg.lowStorageDir f) ≠ key (joinPath cfg.deepStorageDir g)
  /-- and so do the paths as calls see them -/
  entry : ∀ a : UploadArgs, a.Checked cfg → (0 : Byte) ∉ a.directory cfg →
    place (a.finalPath cfg) ≠ place cfg.storageInfo
  /-- in every run no record's file is the metadata file, and every request leaves
  the snapshot or replaces it by the text of the next table -/
  runs : ∀ (libs : Libs) (w w' : World) (log : Log), UploadedPaths cfg w.table →
    ServerRun DirectoriesStay cfg libs w log w' → Outside cfg w'.table ∧
      ∀ op r w'', Runs (System DirectoriesStay) (serve cfg libs op) w' r w'' →
        SnapshotStep cfg libs w' w''

/-- No upload can get the name of the metadata file in the directory `d`. -/
def Config.Elsewhere (cfg : Config) (d : Bytes) : Prop :=
  ∀ f, isSafeFileName f = true → key cfg.storageInfo ≠ (key d).child f ∧
    ((0 : Byte) ∉ d → place cfg.storageInfo ≠ (key d).child f)

/-- The metadata file is directly inside neither storage directory. -/
structure Config.InfoOutside (cfg : Config) : Prop where
  from_low : cfg.Elsewhere cfg.lowStorageDir
  from_deep : cfg.Elsewhere cfg.deepStorageDir

/-- Nor are these the same. -/
structure Config.Separated (cfg : Config) : Prop extends Config.InfoOutside cfg where
  directories : key cfg.lowStorageDir ≠ key cfg.deepStorageDir

/-! ### Paths that end at a NUL byte -/

theorem mem_join {b : Byte} {d f : Bytes} (h : b ∈ join d f) :
    b ∈ d ∨ b = sep ∨ b ∈ f := by
  unfold join at h
  split at h
  · exact Or.inr (Or.inr h)
  · split at h
    · exact (List.mem_append.mp h).imp id Or.inr
    · rcases List.mem_append.mp h with h | h
      · exact Or.inl h
      · exact Or.inr (List.mem_cons.mp h)

/-- A joined path without NUL bytes is what the calls see. -/
theorem place_join {d f : Bytes} (hd : d ≠ []) (hd0 : (0 : Byte) ∉ d)
    (hf : isSafeFileName f = true) : place (join d f) = (key d).child f := by
  have hplain := isSafeFileName_plain hf
  have h0 : (0 : Byte) ∉ join d f := by
    intro h
    rcases mem_join h with h | h | h
    · exact hd0 h
    · exact absurd h (by decide)
    · exact isSafeFileName_no_nul hf h
  rw [place_eq h0, key_join hd hplain]

theorem cString_append {s : Bytes} (h : (0 : Byte) ∈ s) (t : Bytes) :
    cString (s ++ t) = cString s := by
  have hlen : (cString s).length ≠ s.length := by
    intro he
    have hs : cString s = s := (List.takeWhile_prefix _).eq_of_length he
    have hz := List.takeWhile_eq_self_iff.mp hs 0 h
    exact absurd hz (by decide)
  unfold cString at hlen ⊢
  rw [List.takeWhile_append, if_neg hlen]

/-- The files of a directory whose path has a NUL byte all have its name. -/
theorem place_join_nul {d f : Bytes} (hd0 : (0 : Byte) ∈ d) (hf : Plain f) :
    place (join d f) = place d := by
  have hr : rooted f = false := by
    cases hp : rooted f with
    | false => rfl
    | true =>
      have hmem : sep ∈ f := List.mem_of_mem_head? (by simpa [rooted] using hp)
      exact absurd hmem hf.no_sep
  have hc : ∀ t, cString (d ++ t) = cString d := cString_append hd0
  unfold place join
  simp only [hr, Bool.false_eq_true, ite_false]
  split <;> rw [hc]

/-- A file that was linked is in a directory whose path is a C string. -/
theorem Linked.no_nul {a : UploadArgs} (ha : a.Checked cfg) (h : Linked DirectoriesStay cfg a) :
    (0 : Byte) ∉ a.directory cfg := by
  obtain ⟨w, temporary, hstay, hmade⟩ := h
  intro h0
  have hplace : place (a.finalPath cfg) = place (a.directory cfg) :=
    place_join_nul h0 (isSafeFileName_plain ha.safe)
  exact hstay _ rfl _ (mem_madeDirs hmade) hplace.symm

/-! ### Runs -/

theorem UploadedPaths.outside {table : Table} (hentry : ∀ a : UploadArgs, a.Checked cfg →
      (0 : Byte) ∉ a.directory cfg → place (a.finalPath cfg) ≠ place cfg.storageInfo)
    (h : UploadedPaths cfg table) : Outside cfg table := by
  intro url info hinfo
  obtain ⟨a, ha, h0, hpath⟩ := h url info hinfo
  rw [hpath]
  exact hentry a ha h0

/-! ### When they never collide -/

theorem Config.InfoOutside.elsewhere (h : cfg.InfoOutside) {a : UploadArgs}
    (ha : a.Checked cfg) : cfg.Elsewhere (a.directory cfg) := by
  unfold UploadArgs.directory Config.directory
  rcases ha.type with hlow | hdeep
  · have hne : a.storageType ≠ deep := by
      rw [hlow]
      decide
    rw [if_neg hne]
    exact h.from_low
  · rw [if_pos hdeep]
    exact h.from_deep

theorem UploadArgs.Checked.place_final (hcfg : cfg.Checked) {a : UploadArgs} (ha : a.Checked cfg)
    (h0 : (0 : Byte) ∉ a.directory cfg) :
    place (a.finalPath cfg) = (key (a.directory cfg)).child a.filename :=
  place_join (hcfg.directory_ne a.storageType) h0 ha.safe

theorem Config.InfoOutside.entry (hcfg : cfg.Checked) (h : cfg.InfoOutside) {a : UploadArgs}
    (ha : a.Checked cfg) (h0 : (0 : Byte) ∉ a.directory cfg) :
    place (a.finalPath cfg) ≠ place cfg.storageInfo := by
  intro he
  rw [ha.place_final hcfg h0] at he
  exact ((h.elsewhere ha) a.filename ha.safe).2 h0 he.symm

/-- With an accepted configuration uploaded files and the metadata file never collide
exactly when the configuration separates them. -/
theorem never_collide_iff (hcfg : cfg.Accepted) : NeverCollide cfg ↔ cfg.Separated := by
  have hc := hcfg.checked
  have hkey : ∀ a : UploadArgs, a.Checked cfg →
      key (a.finalPath cfg) = (key (a.directory cfg)).child a.filename := fun a ha =>
    key_join (hc.directory_ne a.storageType) (isSafeFileName_plain ha.safe)
  constructor
  · intro h
    have helsewhere : ∀ storageType, storageType = low ∨ storageType = deep →
        cfg.Elsewhere (cfg.directory storageType) := by
      intro storageType htype f hf
      have ha : UploadArgs.Checked cfg ⟨f, storageType, [0]⟩ := ⟨hf, htype, List.cons_ne_nil 0 []⟩
      refine ⟨fun he => h.store _ ha ?_, fun h0 he => h.entry _ ha h0 ?_⟩
      · rw [hkey _ ha, he]
        rfl
      · rw [ha.place_final hc h0, he]
        rfl
    refine ⟨⟨helsewhere low (Or.inl rfl), helsewhere deep (Or.inr rfl)⟩, fun he => ?_⟩
    have hx : isSafeFileName (lit "x") = true := by decide
    refine h.tiers _ _ hx hx ?_
    rw [joinPath, joinPath, key_join hc.low_ne (isSafeFileName_plain hx),
      key_join hc.deep_ne (isSafeFileName_plain hx), he]
  · intro h
    have hentry : ∀ a : UploadArgs, a.Checked cfg → (0 : Byte) ∉ a.directory cfg →
        place (a.finalPath cfg) ≠ place cfg.storageInfo :=
      fun _ ha h0 => h.toInfoOutside.entry hc ha h0
    constructor
    · intro a ha he
      rw [hkey a ha] at he
      exact ((h.elsewhere ha) a.filename ha.safe).1 he.symm
    · intro f g hf hg he
      rw [joinPath, joinPath, key_join hc.low_ne (isSafeFileName_plain hf),
        key_join hc.deep_ne (isSafeFileName_plain hg), Key.child_inj] at he
      exact h.directories he.1
    · exact hentry
    · intro libs w w' log htable hrun
      have hpaths : UploadedPaths cfg w'.table := serverRun_records
        (fun a _ _ ha hr hl => ⟨a, ha, hl.no_nul ha, hr.path⟩) htable hrun
      have hout := hpaths.outside hentry
      exact ⟨hout, fun op r w'' hstep => (wp_runs (wp_serve_meta op) hstep).snapshot hout⟩

/-- The shipped configuration. -/
def shippedConfig : Config :=
  .shipped (lit "./deep_storage/") (lit "./low_storage/") (lit "./tmp/") (lit "./storage.data")

theorem never_collide_shipped : NeverCollide shippedConfig := by
  have hinfo : key shippedConfig.storageInfo = ⟨false, [lit "storage.data"]⟩ := by decide
  have helsewhere : ∀ d name, key d = ⟨false, [name]⟩ → shippedConfig.Elsewhere d := by
    intro d name hd f _
    have hne : key shippedConfig.storageInfo ≠ (key d).child f := by
      rw [hinfo, hd]
      simp [Key.child]
    exact ⟨hne, fun _ => hne⟩
  exact (never_collide_iff (Config.shipped_accepted (by decide) (by decide))).mpr
    ⟨⟨helsewhere _ (lit "low_storage") (by decide),
      helsewhere _ (lit "deep_storage") (by decide)⟩, by decide⟩

/-- A metadata file inside the low directory is accepted, and an upload can ask for
its name. -/
theorem collide_in_low : ¬∀ cfg : Config, cfg.Accepted → NeverCollide cfg := by
  intro h
  let cfg := Config.shipped (lit "./deep_storage/") (lit "./low_storage/") (lit "./tmp/")
    (lit "./low_storage/storage.data")
  have hn := h cfg (Config.shipped_accepted (by decide) (by decide))
  exact hn.store ⟨lit "storage.data", low, lit "abc"⟩ ⟨by decide, Or.inl rfl, by decide⟩ (by decide)

end CloudStorage
