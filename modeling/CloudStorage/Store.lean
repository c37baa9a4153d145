import CloudStorage.Collision

/-!
# The store

What the component is for: a store maps each URL to its record and the file its
upload stored; an acknowledged upload adds an entry, an acknowledged delete
removes one, and nothing else happens. The server refines it as long as `mkstemp`
makes no name that is the storage path of a record.
-/

namespace CloudStorage
open Posix Interact

/-- A record and the file its upload stored. -/
structure Stored where
  info : StorageInfo
  file : Inode

abbrev Store := Bytes → Option Stored

/-- The answer of a request that changed the store. -/
def Acknowledged : Op → Response → Prop
  | .upload _, r => r.status = 201
  | .delete _, r => r.status = 200
  | .download .., _ => False

/-- What a handled request does to the store. -/
inductive StoreStep (A : Assumption) (cfg : Config) (libs : Libs) :
    Store → Op × Response → Store → Prop
  | uploaded {σ : Store} {request : Request} {r : Response} {a : UploadArgs} {s : Stored} :
      checkUpload cfg request = .ok a → σ (a.url cfg) = none → RecordOf cfg a s.file s.info →
      StoredAs A cfg libs a s.file.bytes → r.status = 201 →
      StoreStep A cfg libs σ (.upload request, r) (Function.update σ (a.url cfg) (some s))
  | deleted {σ : Store} {request : Request} {r : Response} {url : Bytes} :
      checkDelete cfg request = .ok url → σ url ≠ none → r.status = 200 →
      StoreStep A cfg libs σ (.delete request, r) (Function.update σ url none)
  | kept {σ : Store} {op : Op} {r : Response} : ¬Acknowledged op r →
      StoreStep A cfg libs σ (op, r) σ

abbrev StoreRun (A : Assumption) (cfg : Config) (libs : Libs) : Store → Log → Store → Prop :=
  Transition.Run (StoreStep A cfg libs)

/-! ### Names that are not taken -/

/-- The name is neither that of the metadata file nor the storage path of a record. -/
def FreshPath (cfg : Config) (table : Table) (p : Bytes) : Prop :=
  place p ≠ place cfg.storageInfo ∧
    ∀ url info, table.lookup url = some info → place info.storage_path_ ≠ place p

instance (cfg : Config) (table : Table) (p : Bytes) : Decidable (FreshPath cfg table p) :=
  decidable_of_iff (place p ≠ place cfg.storageInfo ∧
    ∀ e ∈ table.entries, place e.2.storage_path_ ≠ place p)
    (and_congr_right fun _ => ⟨fun h url info hl => h ⟨url, info⟩ (mem_entries_iff.mpr hl),
      fun h e he => h e.1 e.2 (mem_entries_iff.mp he)⟩)

/-- The name `mkstemp` made. -/
def tempName : (c : Call) → c.Resp → Option Bytes
  | .fs (.mkstemp _), some (p, _) => some p
  | _, _ => none

/-- Names made by `mkstemp` are fresh. -/
def Fresh (cfg : Config) : Assumption := fun w c r =>
  ∀ p ∈ tempName c r, FreshPath cfg w.table p

instance (cfg : Config) (w : World) (c : Call) (r : c.Resp) : Decidable (Fresh cfg w c r) :=
  inferInstanceAs (Decidable (∀ p ∈ tempName c r, FreshPath cfg w.table p))

/-- Temporary names are fresh and directories stay. -/
def Faithful (cfg : Config) : Assumption := fun w c r => Fresh cfg w c r ∧ DirectoriesStay w c r

instance (cfg : Config) (w : World) (c : Call) (r : c.Resp) : Decidable (Faithful cfg w c r) :=
  inferInstanceAs (Decidable (_ ∧ _))

variable {A : Assumption} {w : World} {cfg : Config} {libs : Libs}

/-- `A` assumes at least that temporary names are fresh and directories stay. -/
def Assumption.Sound (A : Assumption) (cfg : Config) : Prop := ∀ w c r, A w c r → Faithful cfg w c r

theorem TempPath.fresh {table : Table} {directory pre p : Bytes} (hA : A.Sound cfg)
    (h : TempPath A table directory pre p) : FreshPath cfg table p := by
  obtain ⟨w, t, i, rfl, hadmitted⟩ := h.admitted
  exact (hA _ _ _ hadmitted).1 p rfl

theorem Linked.mono {A' : Assumption} (hA : ∀ w c r, A w c r → A' w c r) {a : UploadArgs}
    (h : Linked A cfg a) : Linked A' cfg a := by
  obtain ⟨w, temporary, hok, hmade⟩ := h
  exact ⟨w, temporary, hA _ _ _ hok, hmade⟩

theorem Linked.directory_no_nul (hA : A.Sound cfg) {a : UploadArgs} (ha : a.Checked cfg)
    (h : Linked A cfg a) : (0 : Byte) ∉ a.directory cfg :=
  (h.mono fun _ _ _ h => (hA _ _ _ h).2).no_nul ha

/-- A record's file is an entry whose name is the last part of the URL, and not the
metadata file. -/
structure Situated (cfg : Config) (url : Bytes) (info : StorageInfo) : Prop where
  named : ∃ d f, url = cfg.downloadPrefix ++ f ∧ place info.storage_path_ = Key.child d f
  outside : place info.storage_path_ ≠ place cfg.storageInfo

theorem Situated.url_eq {url url' : Bytes} {info info' : StorageInfo} (h : Situated cfg url info)
    (h' : Situated cfg url' info') (he : place info.storage_path_ = place info'.storage_path_) :
    url = url' := by
  obtain ⟨d, f, hurl, hplace⟩ := h.named
  obtain ⟨d', f', hurl', hplace'⟩ := h'.named
  rw [hplace, hplace', Key.child_inj] at he
  rw [hurl, hurl', he.2]

theorem RecordOf.url_eq (hcfg : cfg.Checked) {a : UploadArgs} (ha : a.Checked cfg) {file : Inode}
    {info : StorageInfo} (h : RecordOf cfg a file info) : info.url_ = a.url cfg := by
  have hname : fileName (a.finalPath cfg) = a.filename :=
    filename_join (hcfg.directory_ne a.storageType) (isSafeFileName_plain ha.safe)
  rw [h.url, hname]
  rfl

theorem RecordOf.situated (hcfg : cfg.Checked) (hinfo : cfg.InfoOutside) {a : UploadArgs}
    (ha : a.Checked cfg) (h0 : (0 : Byte) ∉ a.directory cfg) {file : Inode} {info : StorageInfo}
    (h : RecordOf cfg a file info) : Situated cfg (a.url cfg) info := by
  constructor
  · exact ⟨_, _, rfl, by rw [h.path, ha.place_final hcfg h0]⟩
  · rw [h.path]
    exact hinfo.entry hcfg ha h0

/-- Whatever an upload makes has a fresh name, in a store of situated records. -/
theorem UploadPath.fresh (hA : A.Sound cfg) (hcfg : cfg.Checked) (hinfo : cfg.InfoOutside)
    {table : Table} {a : UploadArgs} {p : Bytes} (ha : a.Checked cfg)
    (htable : ∀ url info, table.lookup url = some info → Situated cfg url info)
    (h : UploadPath A cfg table a p) : FreshPath cfg table p := by
  rcases h with h | ⟨rfl, hunknown, hlinked⟩ | h
  · exact h.fresh hA
  · have h0 := hlinked.directory_no_nul hA ha
    refine ⟨hinfo.entry hcfg ha h0, fun url info hlookup he => ?_⟩
    obtain ⟨d, f, hurl, hplace⟩ := (htable url info hlookup).named
    rw [hplace, ha.place_final hcfg h0, Key.child_inj] at he
    refine hunknown (AList.lookup_isSome.mp ?_)
    rw [UploadArgs.url, ← he.2, ← hurl, hlookup]
    rfl
  · exact h.fresh hA

theorem DeletePath.fresh (hA : A.Sound cfg) {table : Table} {path p : Bytes}
    (h : DeletePath A cfg table path p) : FreshPath cfg table p :=
  h.elim (TempPath.fresh hA) (TempPath.fresh hA)

theorem apart_of_fresh (hA : A.Sound cfg) {table : Table} {url : Bytes} {info : StorageInfo}
    (hlookup : table.lookup url = some info)
    (hout : place info.storage_path_ ≠ place cfg.storageInfo) :
    Apart A cfg table info.storage_path_ where
  store := hout
  temp _ hp := ⟨Ne.symm ((hp.fresh hA).2 url info hlookup), (hp.fresh hA).1⟩

/-! ### How the world represents a store -/

/-- The file of a record was moved to `trash` and could not be moved back. -/
structure Stranded (info : StorageInfo) (trash : Bytes) (w : World) : Prop where
  name : TempName (parentPath info.storage_path_) deletePrefix trash
  failed : RestoreFailed trash info.storage_path_ w
  gone : w.fs.get (place info.storage_path_) = none

/-- Every stored file is at `home`: its storage path, or its preserved trash name. -/
structure Housed (cfg : Config) (σ : Store) (home : Bytes → Bytes) (w : World) : Prop where
  table : ∀ url, w.table.lookup url = (σ url).map Stored.info
  situated : ∀ url s, σ url = some s → Situated cfg url s.info
  stored : ∀ url s, σ url = some s → w.fs.get (place (home url)) = some s.file
  at_home : ∀ url s, σ url = some s → home url = s.info.storage_path_ ∨ Stranded s.info (home url) w
  outside : ∀ url s, σ url = some s → place (home url) ≠ place cfg.storageInfo
  apart : ∀ url url' s s', σ url = some s → σ url' = some s' →
    place (home url) = place (home url') → url = url'

/-- The metadata file holds the text of a table with the records of `table_`, in whatever
order, or there is neither. -/
def Snapshot (cfg : Config) (libs : Libs) (w : World) : Prop :=
  w.fs.get (place cfg.storageInfo) = none ∧ w.table = ∅ ∨
    ∃ table body t, (∀ url, table.lookup url = w.table.lookup url) ∧
      libs.json.write (tableJson table) = some body ∧
      w.fs.get (place cfg.storageInfo) = some ⟨body, t⟩

/-- The order is that of `table_`. -/
def ExactSnapshot (cfg : Config) (libs : Libs) (w : World) : Prop :=
  w.fs.get (place cfg.storageInfo) = none ∧ w.table = ∅ ∨
    ∃ body t, libs.json.write (tableJson w.table) = some body ∧
      w.fs.get (place cfg.storageInfo) = some ⟨body, t⟩

/-- `p` is a trash name, and moving its file back was tried and failed. -/
def NotRestored (p : Bytes) (w : World) : Prop :=
  ∃ path, TempName (parentPath path) deletePrefix p ∧ RestoreFailed p path w

/-- A file that is there for none of these reasons was left behind: removing it, or
moving it back, failed. -/
def Accounted (cfg : Config) (old : Key → Prop) (σ : Store) (home : Bytes → Bytes) (w : World) :
    Prop :=
  ∀ k, w.fs.get k ≠ none → old k ∨ k = place cfg.storageInfo ∨
    (∃ url, σ url ≠ none ∧ k = place (home url)) ∨
    ∃ p, place p = k ∧ (RemovalFailed p w ∨ NotRestored p w)

/-- The world represents the store; `old` are the files from before. -/
structure Represents (cfg : Config) (libs : Libs) (old : Key → Prop) (σ : Store)
    (home : Bytes → Bytes) (w : World) : Prop where
  housed : Housed cfg σ home w
  snapshot : Snapshot cfg libs w
  accounted : Accounted cfg old σ home w

variable {σ : Store} {home : Bytes → Bytes} {old : Key → Prop}

theorem RestoreFailed.mono {trash path : Bytes} {w' : World} (h : RestoreFailed trash path w)
    (ht : w.trace <+: w'.trace) : RestoreFailed trash path w' :=
  ht.subset h

theorem NotRestored.mono {p : Bytes} {w' : World} (h : NotRestored p w)
    (ht : w.trace <+: w'.trace) : NotRestored p w' := by
  obtain ⟨path, hname, hfailed⟩ := h
  exact ⟨path, hname, hfailed.mono ht⟩

theorem Stranded.notRestored {info : StorageInfo} {trash : Bytes} (h : Stranded info trash w) :
    NotRestored trash w :=
  ⟨info.storage_path_, h.name, h.failed⟩

theorem ExactSnapshot.snapshot (h : ExactSnapshot cfg libs w) : Snapshot cfg libs w :=
  h.imp_right fun ⟨body, t, hwritten⟩ => ⟨w.table, body, t, fun _ => rfl, hwritten⟩

theorem Housed.lookup (h : Housed cfg σ home w) {url : Bytes} {s : Stored} (hs : σ url = some s) :
    w.table.lookup url = some s.info := by
  rw [h.table, hs]
  rfl

theorem Housed.of_lookup (h : Housed cfg σ home w) {url : Bytes} {info : StorageInfo}
    (hl : w.table.lookup url = some info) : ∃ s, σ url = some s ∧ s.info = info := by
  rw [h.table] at hl
  exact Option.map_eq_some_iff.mp hl

theorem Housed.situated_table (h : Housed cfg σ home w) (url : Bytes) (info : StorageInfo)
    (hl : w.table.lookup url = some info) : Situated cfg url info := by
  obtain ⟨s, hs, rfl⟩ := h.of_lookup hl
  exact h.situated url s hs

theorem Housed.eq_none (h : Housed cfg σ home w) {url : Bytes} (hunknown : url ∉ w.table) :
    σ url = none := by
  rw [← Option.map_eq_none_iff (f := Stored.info), ← h.table]
  exact AList.lookup_eq_none.mpr hunknown

theorem Housed.inserted (h : Housed cfg σ home w) (url : Bytes) (s : Stored) (url' : Bytes) :
    (w.table.insert url s.info).lookup url' =
      (Function.update σ url (some s) url').map Stored.info := by
  by_cases he : url' = url
  · rw [he, AList.lookup_insert, Function.update_self, Option.map_some]
  · rw [AList.lookup_insert_ne he, Function.update_of_ne he, h.table]

theorem Housed.removed (h : Housed cfg σ home w) (url url' : Bytes) :
    (w.table.erase url).lookup url' = (Function.update σ url none url').map Stored.info := by
  by_cases he : url' = url
  · rw [he, AList.lookup_erase, Function.update_self, Option.map_none]
  · rw [AList.lookup_erase_ne he, Function.update_of_ne he, h.table]

/-! ### Requests that change nothing -/

theorem Stranded.touches {P : Bytes → Prop} {info : StorageInfo} {trash : Bytes} {w' : World}
    (h : Stranded info trash w) (ht : Touches P w w')
    (hP : ∀ p, P p → place info.storage_path_ ≠ place p) : Stranded info trash w' where
  name := h.name
  failed := h.failed.mono ht.frame.trace
  gone := by
    by_contra hne
    obtain ⟨p, hp, hplace, -⟩ := ht.changed (by rw [h.gone]; exact hne)
    exact hP p hp hplace.symm

theorem Housed.touches {P : Bytes → Prop} {w' : World} (h : Housed cfg σ home w)
    (ht : Touches P w w') (hP : ∀ p, P p → FreshPath cfg w.table p) : Housed cfg σ home w' where
  table url := by rw [ht.frame.table, h.table]
  situated := h.situated
  stored url s hs := by
    have hget := h.stored url s hs
    rw [ht.old (by simp [hget]), hget]
  at_home url s hs := (h.at_home url s hs).imp id fun hst =>
    hst.touches ht fun _ hp => (hP _ hp).2 url s.info (h.lookup hs)
  outside := h.outside
  apart := h.apart

theorem Touches.snapshot_same {P : Bytes → Prop} {w' : World} (ht : Touches P w w')
    (hP : ∀ p, P p → FreshPath cfg w.table p) :
    w'.fs.get (place cfg.storageInfo) = w.fs.get (place cfg.storageInfo) := by
  by_contra hne
  obtain ⟨p, hp, hplace, -⟩ := ht.changed hne
  exact (hP p hp).1 hplace

theorem Accounted.leaves {P : Bytes → Prop} {w' : World} (h : Accounted cfg old σ home w)
    (hl : Leaves P w w') : Accounted cfg old σ home w' := by
  intro k hk
  have htrace : w.trace <+: w'.trace := hl.frame.trace
  by_cases hsame : w'.fs.get k = w.fs.get k
  · rcases h k (hsame ▸ hk) with h | h | h | ⟨p, hp, h⟩
    · exact Or.inl h
    · exact Or.inr (Or.inl h)
    · exact Or.inr (Or.inr (Or.inl h))
    · exact Or.inr (Or.inr (Or.inr
        ⟨p, hp, h.imp (fun h => h.mono htrace) fun h => h.mono htrace⟩))
  · obtain ⟨p, hp, hplace, -⟩ := hl.changed hsame
    exact Or.inr (Or.inr (Or.inr ⟨p, hplace, Or.inl hp.2⟩))

/-- A request that leaves nothing but fresh names whose removal failed. -/
theorem Represents.leaves {P : Bytes → Prop} {w' : World} (h : Represents cfg libs old σ home w)
    (hl : Leaves P w w') (hP : ∀ p, P p → FreshPath cfg w.table p) :
    Represents cfg libs old σ home w' where
  housed := h.housed.touches hl fun p hp => hP p hp.1
  snapshot := by
    have hsame := hl.snapshot_same fun p hp => hP p hp.1
    rw [Snapshot, hsame, hl.frame.table]
    exact h.snapshot
  accounted := h.accounted.leaves hl

/-! ### Requests that change the store -/

/-- Why a file was there is why it is there, but for homes that are no more. -/
theorem Accounted.carry {σ' : Store} {home' : Bytes → Bytes} {w' : World}
    (h : Accounted cfg old σ home w) (ht : w.trace <+: w'.trace) {k : Key}
    (hk : w.fs.get k ≠ none)
    (hhome : ∀ url, σ url ≠ none → k = place (home url) →
      (∃ url', σ' url' ≠ none ∧ k = place (home' url')) ∨ NotRestored (home url) w') :
    old k ∨ k = place cfg.storageInfo ∨ (∃ url, σ' url ≠ none ∧ k = place (home' url)) ∨
      ∃ p, place p = k ∧ (RemovalFailed p w' ∨ NotRestored p w') := by
  rcases h k hk with h | h | ⟨url, hurl, h⟩ | ⟨p, hp, h⟩
  · exact Or.inl h
  · exact Or.inr (Or.inl h)
  · rcases hhome url hurl h with h' | h'
    · exact Or.inr (Or.inr (Or.inl h'))
    · exact Or.inr (Or.inr (Or.inr ⟨home url, h.symm, Or.inr h'⟩))
  · exact Or.inr (Or.inr (Or.inr ⟨p, hp, h.imp (fun h => h.mono ht) fun h => h.mono ht⟩))

theorem Stranded.same {info : StorageInfo} {trash : Bytes} {w' : World} (h : Stranded info trash w)
    (ht : w.trace <+: w'.trace)
    (hsame : w'.fs.get (place info.storage_path_) = w.fs.get (place info.storage_path_)) :
    Stranded info trash w' :=
  ⟨h.name, h.failed.mono ht, hsame.trans h.gone⟩

theorem Housed.home_eq (h : Housed cfg σ home w) {url : Bytes} {s : Stored} (hs : σ url = some s)
    (hpresent : w.fs.get (place s.info.storage_path_) ≠ none) : home url = s.info.storage_path_ :=
  (h.at_home url s hs).resolve_right fun hst => hpresent hst.gone

theorem Housed.home_ne (h : Housed cfg σ home w) {url url' : Bytes} {s s' : Stored}
    (hs : σ url = some s) (hs' : σ url' = some s') (hne : url ≠ url') :
    place (home url') ≠ place s.info.storage_path_ := by
  intro he
  have hpresent : w.fs.get (place s.info.storage_path_) ≠ none := by
    rw [← he, h.stored url' s' hs']
    exact Option.some_ne_none _
  rw [← h.home_eq hs hpresent] at he
  exact hne (h.apart url url' s s' hs hs' he.symm)

theorem exactSnapshot_of_recorded {a : UploadArgs} {file : Inode} {info : StorageInfo} {w' : World}
    (hr : Recorded A cfg libs a file info w w')
    (htable : w'.table = w.table.insert info.url_ info) : ExactSnapshot cfg libs w' := by
  right
  rw [htable]
  exact hr.written

theorem exactSnapshot_of_erased {P : Bytes → Prop} {url path : Bytes} {w' : World}
    (he : Erased cfg libs P url path w w') (htable : w'.table = w.table.erase url) :
    ExactSnapshot cfg libs w' := by
  right
  rw [htable]
  exact he.written

/-- One record has a file under a name that was free; the other files stay. -/
theorem Housed.put {url new : Bytes} {s : Stored} {w' : World} (h : Housed cfg σ home w)
    (htable : ∀ url', w'.table.lookup url' = (Function.update σ url (some s) url').map Stored.info)
    (hsituated : Situated cfg url s.info) (hfree : w.fs.get (place new) = none)
    (hstored : w'.fs.get (place new) = some s.file)
    (hhome : new = s.info.storage_path_ ∨ Stranded s.info new w')
    (houtside : place new ≠ place cfg.storageInfo) (htrace : w.trace <+: w'.trace)
    (hothers : ∀ url' s', σ url' = some s' → url' ≠ url →
      w'.fs.get (place (home url')) = w.fs.get (place (home url')) ∧
      w'.fs.get (place s'.info.storage_path_) = w.fs.get (place s'.info.storage_path_)) :
    Housed cfg (Function.update σ url (some s)) (Function.update home url new) w' := by
  have hapart : ∀ url' s', σ url' = some s' → place (home url') ≠ place new := by
    intro url' s' hs' he
    have hget := h.stored url' s' hs'
    rw [he, hfree] at hget
    cases hget
  have hput : ∀ url' s', Function.update σ url (some s) url' = some s' →
      url' = url ∧ s' = s ∨ url' ≠ url ∧ σ url' = some s' := by
    intro url' s' hs'
    by_cases he : url' = url
    · rw [he, Function.update_self, Option.some.injEq] at hs'
      exact Or.inl ⟨he, hs'.symm⟩
    · rw [Function.update_of_ne he] at hs'
      exact Or.inr ⟨he, hs'⟩
  refine ⟨htable, ?_, ?_, ?_, ?_, ?_⟩
  · intro url' s' hs'
    rcases hput url' s' hs' with ⟨rfl, rfl⟩ | ⟨-, hs'⟩
    · exact hsituated
    · exact h.situated url' s' hs'
  · intro url' s' hs'
    rcases hput url' s' hs' with ⟨rfl, rfl⟩ | ⟨he, hs'⟩
    · rw [Function.update_self, hstored]
    · rw [Function.update_of_ne he, (hothers url' s' hs' he).1, h.stored url' s' hs']
  · intro url' s' hs'
    rcases hput url' s' hs' with ⟨rfl, rfl⟩ | ⟨he, hs'⟩
    · rw [Function.update_self]
      exact hhome
    · rw [Function.update_of_ne he]
      exact (h.at_home url' s' hs').imp id fun hst => hst.same htrace (hothers url' s' hs' he).2
  · intro url' s' hs'
    rcases hput url' s' hs' with ⟨rfl, rfl⟩ | ⟨he, hs'⟩
    · rw [Function.update_self]
      exact houtside
    · rw [Function.update_of_ne he]
      exact h.outside url' s' hs'
  · intro url₁ url₂ s₁ s₂ hs₁ hs₂ hp
    rcases hput url₁ s₁ hs₁ with ⟨rfl, rfl⟩ | ⟨he₁, hold₁⟩
    · rcases hput url₂ s₂ hs₂ with ⟨rfl, rfl⟩ | ⟨he₂, hold₂⟩
      · rfl
      · rw [Function.update_self, Function.update_of_ne he₂] at hp
        exact absurd hp.symm (hapart url₂ s₂ hold₂)
    · rcases hput url₂ s₂ hs₂ with ⟨rfl, rfl⟩ | ⟨he₂, hold₂⟩
      · rw [Function.update_self, Function.update_of_ne he₁] at hp
        exact absurd hp (hapart url₁ s₁ hold₁)
      · rw [Function.update_of_ne he₁, Function.update_of_ne he₂] at hp
        exact h.apart url₁ url₂ s₁ s₂ hold₁ hold₂ hp

theorem Represents.uploaded (hA : A.Sound cfg) (hcfg : cfg.Checked) (hinfo : cfg.InfoOutside)
    {a : UploadArgs} (ha : a.Checked cfg) {file : Inode} {info : StorageInfo} {w' : World}
    (h : Represents cfg libs old σ home w) (hr : Recorded A cfg libs a file info w w')
    (htable : w'.table = w.table.insert info.url_ info) :
    Represents cfg libs old (Function.update σ (a.url cfg) (some ⟨info, file⟩))
      (Function.update home (a.url cfg) (a.finalPath cfg)) w' := by
  have h0 := hr.linked.directory_no_nul hA ha
  have hurl := hr.record.url_eq hcfg ha
  have hsit := hr.record.situated hcfg hinfo ha h0
  have hentry := hinfo.entry hcfg ha h0
  have hfinal := hr.final hentry
  have hnone := h.housed.eq_none hr.unknown
  have hkeep : ∀ k, k ≠ place (a.finalPath cfg) → k ≠ place cfg.storageInfo →
      w'.fs.get k = w.fs.get k := hr.files
  have hpath : a.finalPath cfg = info.storage_path_ := hr.record.path.symm
  refine ⟨h.housed.put ?_ hsit hr.free hfinal (Or.inl hpath) hentry hr.trace ?_, ?_, ?_⟩
  · intro url
    rw [htable, hurl]
    exact h.housed.inserted (a.url cfg) ⟨info, file⟩ url
  · intro url s hs he
    have hsit' := h.housed.situated url s hs
    constructor
    · refine hkeep _ (fun hp => ?_) (h.housed.outside url s hs)
      have hget := h.housed.stored url s hs
      rw [hp, hr.free] at hget
      cases hget
    · exact hkeep _ (fun hp => he (hsit'.url_eq hsit (hpath ▸ hp))) hsit'.outside
  · exact (exactSnapshot_of_recorded hr htable).snapshot
  · intro k hk
    by_cases hkf : k = place (a.finalPath cfg)
    · exact Or.inr (Or.inr (Or.inl ⟨a.url cfg, by simp, by rw [Function.update_self, hkf]⟩))
    · by_cases hks : k = place cfg.storageInfo
      · exact Or.inr (Or.inl hks)
      · refine h.accounted.carry hr.trace (hkeep k hkf hks ▸ hk) fun url hs hp => Or.inl ?_
        have he : url ≠ a.url cfg := fun he => hs (he ▸ hnone)
        exact ⟨url, by rwa [Function.update_of_ne he], by rw [Function.update_of_ne he, hp]⟩

theorem Represents.stranded {P : Bytes → Prop} {url trash : Bytes} {s : Stored} {w' : World}
    (h : Represents cfg libs old σ home w) (hs : σ url = some s)
    (hname : TempName (parentPath s.info.storage_path_) deletePrefix trash)
    (hm : MovedAway P s.info.storage_path_ trash w w')
    (hfailed : RestoreFailed trash s.info.storage_path_ w')
    (hP : ∀ p, P p → FreshPath cfg w.table p) :
    Represents cfg libs old σ (Function.update home url trash) w' := by
  have hhome := h.housed.home_eq hs hm.present
  have hfresh := hP trash hm.trash_path
  have hpath : w.fs.get (place s.info.storage_path_) = some s.file := by
    rw [← hhome]
    exact h.housed.stored url s hs
  obtain ⟨T, hf, hT⟩ := hm.rest
  have hTfresh : ∀ k ∈ T, w.fs.get k = none ∧ k ≠ place cfg.storageInfo ∧
      ∀ url s, σ url = some s → place s.info.storage_path_ ≠ k := by
    intro k hk
    obtain ⟨q, hq, rfl, hnew⟩ := hT k hk
    exact ⟨hnew, (hP q hq.1).1, fun url s hs => (hP q hq.1).2 url s.info (h.housed.lookup hs)⟩
  have hkeep : ∀ k, k ≠ place s.info.storage_path_ → k ≠ place trash → k ∉ T →
      w'.fs.get k = w.fs.get k := fun k hk hkt hkT =>
    hf.files k fun h => h.elim (fun h => h.elim hk hkt) hkT
  have hsit := h.housed.situated url s hs
  have hself : Function.update σ url (some s) = σ := hs ▸ Function.update_eq_self url σ
  have hhoused : Housed cfg (Function.update σ url (some s)) (Function.update home url trash)
      w' := by
    refine h.housed.put ?_ hsit hm.free ?_ (Or.inr ⟨hname, hfailed, hm.gone⟩) hfresh.1 hf.trace ?_
    · intro url'
      rw [hf.table, h.housed.table, hself]
    · rw [hm.kept, hpath]
    · intro url' s' hs' hne
      have hget := h.housed.stored url' s' hs'
      constructor
      · refine hkeep _ (h.housed.home_ne hs hs' (Ne.symm hne)) (fun he => ?_) fun hkT => ?_
        · rw [he, hm.free] at hget
          cases hget
        · rw [(hTfresh _ hkT).1] at hget
          cases hget
      · refine hkeep _ (fun hp => ?_) (hfresh.2 url' s'.info (h.housed.lookup hs')) fun hkT => ?_
        · exact hne ((h.housed.situated url' s' hs').url_eq hsit hp)
        · exact (hTfresh _ hkT).2.2 url' s' hs' rfl
  refine ⟨hself ▸ hhoused, ?_, ?_⟩
  · have hsame := hkeep (place cfg.storageInfo) (Ne.symm hsit.outside)
      (Ne.symm hfresh.1) fun hkT => (hTfresh _ hkT).2.1 rfl
    rw [Snapshot, hsame, hf.table]
    exact h.snapshot
  · intro k hk
    by_cases hkt : k = place trash
    · refine Or.inr (Or.inr (Or.inl ⟨url, ?_, by rw [Function.update_self, hkt]⟩))
      rw [hs]
      exact Option.some_ne_none s
    · by_cases hkT : k ∈ T
      · obtain ⟨q, hq, hplace, -⟩ := hT k hkT
        exact Or.inr (Or.inr (Or.inr ⟨q, hplace, Or.inl hq.2⟩))
      · have hkp : k ≠ place s.info.storage_path_ := fun he => hk (he ▸ hm.gone)
        refine h.accounted.carry hf.trace (hkeep k hkp hkt hkT ▸ hk) fun url' hs' hp => Or.inl ?_
        have he : url' ≠ url := by
          rintro rfl
          exact hkp (hhome ▸ hp)
        exact ⟨url', hs', by rw [Function.update_of_ne he, hp]⟩

theorem Represents.erased {P : Bytes → Prop} {url : Bytes} {s : Stored} {w' : World}
    (h : Represents cfg libs old σ home w) (hs : σ url = some s)
    (htable : w'.table = w.table.erase url)
    (he : Erased cfg libs (fun p => P p ∧ RemovalFailed p w') url s.info.storage_path_ w w')
    (hP : ∀ p, P p → FreshPath cfg w.table p) :
    Represents cfg libs old (Function.update σ url none) home w' := by
  obtain ⟨T, hkeep, hT⟩ := he.files
  have hTfresh : ∀ k ∈ T, w.fs.get k = none ∧
      ∀ url s, σ url = some s → place s.info.storage_path_ ≠ k := by
    intro k hk
    obtain ⟨q, hq, rfl, hnew⟩ := hT k hk
    exact ⟨hnew, fun url s hs => (hP q hq.1).2 url s.info (h.housed.lookup hs)⟩
  have hσ : ∀ url' s', Function.update σ url none url' = some s' →
      url' ≠ url ∧ σ url' = some s' := by
    intro url' s' hs'
    by_cases hne : url' = url
    · rw [hne, Function.update_self] at hs'
      cases hs'
    · rw [Function.update_of_ne hne] at hs'
      exact ⟨hne, hs'⟩
  refine ⟨⟨?_, ?_, ?_, ?_, ?_, ?_⟩, ?_, ?_⟩
  · intro url'
    rw [htable]
    exact h.housed.removed url url'
  · intro url' s' hs'
    exact h.housed.situated url' s' (hσ url' s' hs').2
  · intro url' s' hs'
    obtain ⟨hne, hs'⟩ := hσ url' s' hs'
    have hget := h.housed.stored url' s' hs'
    rw [hkeep _ (h.housed.home_ne hs hs' (Ne.symm hne)) (h.housed.outside url' s' hs'), hget]
    intro hkT
    rw [(hTfresh _ hkT).1] at hget
    cases hget
  · intro url' s' hs'
    obtain ⟨hne, hs'⟩ := hσ url' s' hs'
    refine (h.housed.at_home url' s' hs').imp id fun hst => hst.same he.trace (hkeep _ ?_ ?_ ?_)
    · exact fun hp => hne ((h.housed.situated url' s' hs').url_eq (h.housed.situated url s hs) hp)
    · exact (h.housed.situated url' s' hs').outside
    · exact fun hkT => (hTfresh _ hkT).2 url' s' hs' rfl
  · intro url' s' hs'
    exact h.housed.outside url' s' (hσ url' s' hs').2
  · intro url₁ url₂ s₁ s₂ hs₁ hs₂ hp
    exact h.housed.apart url₁ url₂ s₁ s₂ (hσ url₁ s₁ hs₁).2 (hσ url₂ s₂ hs₂).2 hp
  · exact (exactSnapshot_of_erased he htable).snapshot
  · intro k hk
    by_cases hks : k = place cfg.storageInfo
    · exact Or.inr (Or.inl hks)
    · by_cases hkT : k ∈ T
      · obtain ⟨q, hq, hplace, -⟩ := hT k hkT
        exact Or.inr (Or.inr (Or.inr ⟨q, hplace, Or.inl hq.2⟩))
      · have hkp : k ≠ place s.info.storage_path_ := fun heq => hk (heq ▸ he.gone)
        refine h.accounted.carry he.trace (hkeep k hkp hks hkT ▸ hk) fun url' hs' hp => ?_
        by_cases hne : url' = url
        · -- the trash of the erased record, which was stranded
          subst hne
          rcases h.housed.at_home url' s hs with hhome | hst
          · exact absurd (hhome ▸ hp) hkp
          · exact Or.inr (hst.notRestored.mono he.trace)
        · exact Or.inl ⟨url', by rwa [Function.update_of_ne hne], hp⟩

end CloudStorage
