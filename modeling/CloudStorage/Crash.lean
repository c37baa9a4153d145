import CloudStorage.Refine

/-!
# Crashes (`Service::Upload`, `Service::Delete`, `InitLoad`)

The process is killed between two calls of a request and started again. What calls
did stays done; no cleanup of the request runs, and the start does none either. So
the names and directories the request has made, and the file it has moved away, stay
as they are at the kill.
-/

namespace CloudStorage
open Posix Interact

/-! ### Names made and taken -/

/-- The names a call made. -/
def madeNames (w : World) : (c : Call) → c.Resp → List Key
  | .fs (.mkstemp _), some (p, _) => [place p]
  | .fs (.openTrunc p), some _ => [place p]
  | .fs (.link _ new), .ok => [place new]
  | .fs (.rename old new), true =>
    -- two names of one file are left as they are
    if w.fs.entry (place old) = w.fs.entry (place new) then [] else [place new]
  | _, _ => []

/-- The names a call took away. -/
def takenNames (w : World) : (c : Call) → c.Resp → List Key
  | .fs (.unlink p), true => [place p]
  | .fs (.rename old new), true =>
    if w.fs.entry (place old) = w.fs.entry (place new) then [] else [place old]
  | _, _ => []

abbrev Calls := List (Answered Call.Resp World)

/-- The names made and not taken away since. -/
def standing (calls : Calls) : List Key :=
  calls.foldl (fun names x => names.filter (fun k => k ∉ takenNames x.world x.call x.answer) ++
    madeNames x.world x.call x.answer) []

/-- The names taken away and not made again since. -/
def missing (calls : Calls) : List Key :=
  calls.foldl (fun names x => names.filter (fun k => k ∉ madeNames x.world x.call x.answer) ++
    takenNames x.world x.call x.answer) []

variable {A : Assumption} {w : World} {cfg : Config} {libs : Libs}

/-- What a call does to the names. -/
structure Renames (w : World) (c : Call) (r : c.Resp) (w' : World) : Prop where
  present : ∀ k, w'.fs.get k ≠ none →
    k ∈ madeNames w c r ∨ w.fs.get k ≠ none ∧ k ∉ takenNames w c r
  absent : ∀ k, w'.fs.get k = none →
    k ∈ takenNames w c r ∨ w.fs.get k = none ∧ k ∉ madeNames w c r

theorem Renames.unchanged {c : Call} {r : c.Resp} {w' : World}
    (hsame : ∀ k, w'.fs.get k = none ↔ w.fs.get k = none) (hmade : madeNames w c r = [])
    (htaken : takenNames w c r = []) : Renames w c r w' where
  present k hk := Or.inr ⟨fun h => hk ((hsame k).mpr h), by simp [htaken]⟩
  absent k hk := Or.inr ⟨(hsame k).mp hk, by simp [hmade]⟩

theorem Renames.made {c : Call} {r : c.Resp} {w' : World} {name : Key} {file : Inode}
    (hget : ∀ k, w'.fs.get k = if k = name then some file else w.fs.get k)
    (hmade : madeNames w c r = [name]) (htaken : takenNames w c r = []) : Renames w c r w' where
  present k hk := by
    by_cases hname : k = name
    · exact Or.inl (by simp [hmade, hname])
    · rw [hget, if_neg hname] at hk
      exact Or.inr ⟨hk, by simp [htaken]⟩
  absent k hk := by
    by_cases hname : k = name
    · simp [hget, hname] at hk
    · rw [hget, if_neg hname] at hk
      exact Or.inr ⟨hk, by simp [hmade, hname]⟩

theorem Renames.taken {c : Call} {r : c.Resp} {w' : World} {name : Key}
    (hget : ∀ k, w'.fs.get k = if k = name then none else w.fs.get k)
    (hmade : madeNames w c r = []) (htaken : takenNames w c r = [name]) : Renames w c r w' where
  present k hk := by
    rw [hget] at hk
    by_cases hname : k = name
    · exact absurd (if_pos hname) hk
    · rw [if_neg hname] at hk
      exact Or.inr ⟨hk, by simp [htaken, hname]⟩
  absent k hk := by
    rw [hget] at hk
    by_cases hname : k = name
    · exact Or.inl (by simp [htaken, hname])
    · rw [if_neg hname] at hk
      exact Or.inr ⟨hk, by simp [hmade]⟩

theorem Renames.moved {c : Call} {r : c.Resp} {w' : World} {old new : Key}
    (hold : w.fs.get old ≠ none)
    (hget : ∀ k, w'.fs.get k = if k = old then none
      else if k = new then w.fs.get old else w.fs.get k)
    (hmade : madeNames w c r = [new]) (htaken : takenNames w c r = [old]) : Renames w c r w' where
  present k hk := by
    rw [hmade, htaken, List.mem_singleton, List.mem_singleton]
    rw [hget] at hk
    by_cases ho : k = old
    · exact absurd (if_pos ho) hk
    · by_cases hn : k = new
      · exact Or.inl hn
      · rw [if_neg ho, if_neg hn] at hk
        exact Or.inr ⟨hk, ho⟩
  absent k hk := by
    rw [hmade, htaken, List.mem_singleton, List.mem_singleton]
    rw [hget] at hk
    by_cases ho : k = old
    · exact Or.inl ho
    · by_cases hn : k = new
      · rw [if_neg ho, if_pos hn] at hk
        exact absurd hk hold
      · rw [if_neg ho, if_neg hn] at hk
        exact Or.inr ⟨hk, hn⟩

theorem get_setInode_eq_none {fs : FileSystem} {i : Nat} {node : Inode} {k : Key} :
    (fs.setInode i node).get k = none ↔ fs.get k = none := by
  rw [FileSystem.get_eq_none, FileSystem.get_eq_none]
  rfl

/-- Opening a file that is there empties it and keeps its name. -/
theorem Renames.emptied {path : Bytes} {i : Nat} {node : Inode} {w' : World}
    (hi : w.fs.entry (place path) = some i) (hfs : w.fs.setInode i node = w'.fs) :
    Renames w (.fs (.openTrunc path)) (some i) w' where
  present k hk := by
    rw [← hfs, ne_eq, get_setInode_eq_none] at hk
    exact Or.inr ⟨hk, by simp [takenNames]⟩
  absent k hk := by
    rw [← hfs, get_setInode_eq_none] at hk
    refine Or.inr ⟨hk, ?_⟩
    simp only [madeNames, List.mem_singleton]
    rintro rfl
    rw [FileSystem.get_eq_none, hi] at hk
    cases hk

theorem Renames.linked {old new : Bytes} {w' : World}
    (hold : (w.fs.entry (place old)).isSome = true)
    (hfs : w.fs.addLink (place old) (place new) = w'.fs) :
    Renames w (.fs (.link old new)) LinkResult.ok w' := by
  obtain ⟨i, hi⟩ := Option.isSome_iff_exists.mp hold
  have hfile : w.fs.get (place old) = some (w.fs.inode i) := by
    rw [FileSystem.get, hi, Option.map_some]
  exact .made (fun k => by rw [← hfs, FileSystem.get_addLink, hfile]) rfl rfl

theorem Renames.renamed {old new : Bytes} {w' : World}
    (hold : (w.fs.entry (place old)).isSome = true)
    (hfs : w.fs.move (place old) (place new) = w'.fs) :
    Renames w (.fs (.rename old new)) true w' := by
  by_cases hsame : w.fs.entry (place old) = w.fs.entry (place new)
  · refine .unchanged (fun k => ?_) (if_pos hsame) (if_pos hsame)
    rw [← hfs, FileSystem.move, if_pos hsame]
  · have hthere : w.fs.get (place old) ≠ none := by
      rw [ne_eq, FileSystem.get_eq_none]
      exact Option.isSome_iff_ne_none.mp hold
    refine .moved hthere (fun k => ?_) (if_neg hsame) (if_neg hsame)
    rw [← hfs, FileSystem.get_move hsame]

theorem fsCall_renames {c : FsCall} {r : c.Resp} {w' : World} {now : Int} {ch : Choice}
    (h : fsAnswer w.fs w.dirs now ch c = (r, w'.fs)) : Renames w (.fs c) r w' := by
  by_cases hquiet : FsCall.Quiet c
  · have hfs := fsAnswer_quiet hquiet h
    cases c <;> first | exact hquiet.elim | exact .unchanged (fun k => by rw [hfs]) rfl rfl
  · cases c with
    | mkstemp template =>
      simp only [fsAnswer] at h
      split at h
      · obtain ⟨rfl, hfs⟩ := Prod.mk.injEq .. ▸ h
        exact .made (fun k => by rw [← hfs, FileSystem.get_create]) rfl rfl
      · obtain ⟨rfl, hfs⟩ := Prod.mk.injEq .. ▸ h
        exact .unchanged (fun k => by rw [hfs]) rfl rfl
    | openTrunc path =>
      simp only [fsAnswer] at h
      split at h
      · split at h
        · rename_i i hi
          obtain ⟨rfl, hfs⟩ := Prod.mk.injEq .. ▸ h
          exact .emptied hi hfs
        · obtain ⟨rfl, hfs⟩ := Prod.mk.injEq .. ▸ h
          exact .made (fun k => by rw [← hfs, FileSystem.get_create]) rfl rfl
      · obtain ⟨rfl, hfs⟩ := Prod.mk.injEq .. ▸ h
        exact .unchanged (fun k => by rw [hfs]) rfl rfl
    | write fd data =>
      simp only [fsAnswer] at h
      split at h
      · obtain ⟨rfl, hfs⟩ := Prod.mk.injEq .. ▸ h
        exact .unchanged (fun k => by rw [← hfs, get_setInode_eq_none]) rfl rfl
      · obtain ⟨rfl, hfs⟩ := Prod.mk.injEq .. ▸ h
        exact .unchanged (fun k => by rw [hfs]) rfl rfl
    | link old new =>
      simp only [fsAnswer] at h
      split at h
      · rename_i hold
        split at h
        · obtain ⟨rfl, hfs⟩ := Prod.mk.injEq .. ▸ h
          exact .unchanged (fun k => by rw [hfs]) rfl rfl
        · obtain ⟨rfl, hfs⟩ := Prod.mk.injEq .. ▸ h
          exact .linked hold.2 hfs
      · obtain ⟨rfl, hfs⟩ := Prod.mk.injEq .. ▸ h
        exact .unchanged (fun k => by rw [hfs]) rfl rfl
    | unlink path =>
      simp only [fsAnswer] at h
      split at h
      · obtain ⟨rfl, hfs⟩ := Prod.mk.injEq .. ▸ h
        exact .taken (fun k => by rw [← hfs, FileSystem.get_dropEntry]) rfl rfl
      · obtain ⟨rfl, hfs⟩ := Prod.mk.injEq .. ▸ h
        exact .unchanged (fun k => by rw [hfs]) rfl rfl
    | rename old new =>
      simp only [fsAnswer] at h
      split at h
      · rename_i hold
        obtain ⟨rfl, hfs⟩ := Prod.mk.injEq .. ▸ h
        exact .renamed hold.2.1 hfs
      · obtain ⟨rfl, hfs⟩ := Prod.mk.injEq .. ▸ h
        exact .unchanged (fun k => by rw [hfs]) rfl rfl
    | _ => exact absurd trivial hquiet

theorem call_renames {c : Call} {r : c.Resp} {w' : World} (h : System A c w r w') :
    Renames w c r w' := by
  obtain ⟨-, ch, hr⟩ := h
  obtain ⟨rfl, rfl⟩ := Prod.mk.injEq .. ▸ hr
  cases c with
  | fs c => exact fsCall_renames rfl
  | _ => exact .unchanged (fun _ => Iff.rfl) rfl rfl

theorem mem_standing_snoc {calls : Calls} {x : Answered Call.Resp World} {k : Key} :
    k ∈ standing (calls ++ [x]) ↔ k ∈ standing calls ∧ k ∉ takenNames x.world x.call x.answer ∨
      k ∈ madeNames x.world x.call x.answer := by
  simp [standing, List.foldl_append]

theorem mem_missing_snoc {calls : Calls} {x : Answered Call.Resp World} {k : Key} :
    k ∈ missing (calls ++ [x]) ↔ k ∈ missing calls ∧ k ∉ madeNames x.world x.call x.answer ∨
      k ∈ takenNames x.world x.call x.answer := by
  simp [missing, List.foldl_append]

/-- A file that is new has a standing name; the name of a file that is gone is missing. -/
theorem callRun_names {α : Type} {s s' : Program α × World} {calls : Calls}
    (h : CallRun (System A) s calls s') (k : Key) :
    (s'.2.fs.get k ≠ none → s.2.fs.get k ≠ none ∨ k ∈ standing calls) ∧
    (s'.2.fs.get k = none → s.2.fs.get k = none ∨ k ∈ missing calls) := by
  induction h with
  | nil => exact ⟨Or.inl, Or.inl⟩
  | snoc _ hstep ih =>
    cases hstep with
    | call hanswer =>
      have hr := call_renames hanswer
      constructor
      · intro hk
        rw [mem_standing_snoc]
        rcases hr.present k hk with hmade | ⟨hbefore, hkept⟩
        · exact Or.inr (Or.inr hmade)
        · exact (ih.1 hbefore).imp_right fun hin => Or.inl ⟨hin, hkept⟩
      · intro hk
        rw [mem_missing_snoc]
        rcases hr.absent k hk with htaken | ⟨hbefore, hkept⟩
        · exact Or.inr (Or.inr htaken)
        · exact (ih.2 hbefore).imp_right fun hin => Or.inl ⟨hin, hkept⟩

/-! ### The kill -/

/-- The snapshot is no longer the one from before the request. -/
def SnapshotReplaced (cfg : Config) (w w' : World) : Prop :=
  w'.fs.get (place cfg.storageInfo) ≠ w.fs.get (place cfg.storageInfo)

/-- The file is that of a record. -/
def RecordedAt (table : Table) (k : Key) : Prop :=
  ∃ url info, table.lookup url = some info ∧ place info.storage_path_ = k

/-- The file an upload request is about. -/
def UploadsTo (cfg : Config) (op : Op) (k : Key) : Prop :=
  ∃ request a, op = .upload request ∧ checkUpload cfg request = .ok a ∧ place (a.finalPath cfg) = k

/-- The kill comes at a point where the request has no name of its own in the storage
directories, but for an upload's whose record is in the snapshot, has made no directory
under a name that could be uploaded, and has no record's file moved away, but for a
delete's whose record is no longer in the snapshot. -/
structure BetweenCommits (cfg : Config) (op : Op) (calls : Calls) (w w' : World) : Prop where
  made : ∀ a : UploadArgs, a.Checked cfg → place (a.finalPath cfg) ∈ standing calls →
    RecordedAt w.table (place (a.finalPath cfg)) ∨
      UploadsTo cfg op (place (a.finalPath cfg)) ∧ SnapshotReplaced cfg w w'
  directories : ∀ a : UploadArgs, a.Checked cfg → IsDir w'.dirs (place (a.finalPath cfg)) →
    IsDir w.dirs (place (a.finalPath cfg))
  moved : ∀ url info, w.table.lookup url = some info →
    place info.storage_path_ ∈ missing calls → SnapshotReplaced cfg w w'

/-- No rename of a record's file back from the trash has failed. -/
def AllRestored (w : World) : Prop :=
  ∀ url info trash, w.table.lookup url = some info → ¬RestoreFailed trash info.storage_path_ w

/-- The metadata file holds a table with the records of the store. -/
def SnapshotOf (cfg : Config) (libs : Libs) (σ : Store) (w : World) : Prop :=
  w.fs.get (place cfg.storageInfo) = none ∧ (∀ url, σ url = none) ∨
    ∃ table body t, (∀ url, table.lookup url = (σ url).map Stored.info) ∧
      libs.json.write (tableJson table) = some body ∧
      w.fs.get (place cfg.storageInfo) = some ⟨body, t⟩

/-- A final name is free, or that of a stored file, or it was taken before the request
by a file that was no record's. -/
def FreeNames (cfg : Config) (σ : Store) (w w' : World) : Prop :=
  ∀ a : UploadArgs, a.Checked cfg → w'.fs.get (place (a.finalPath cfg)) ≠ none →
    (∃ url s, σ url = some s ∧ place s.info.storage_path_ = place (a.finalPath cfg)) ∨
      w.fs.get (place (a.finalPath cfg)) ≠ none ∧ ¬RecordedAt w.table (place (a.finalPath cfg))

/-- What is on disk at a kill. -/
structure Survived (cfg : Config) (libs : Libs) (σ : Store) (w w' : World) : Prop where
  snapshot : SnapshotOf cfg libs σ w'
  stored : ∀ url s, σ url = some s → w'.fs.get (place s.info.storage_path_) = some s.file
  free : FreeNames cfg σ w w'

variable {σ : Store} {home : Bytes → Bytes} {old : Key → Prop}

theorem Represents.at_path (h : Represents cfg libs old σ home w) (hrestored : AllRestored w)
    {url : Bytes} {s : Stored} (hs : σ url = some s) :
    w.fs.get (place s.info.storage_path_) = some s.file := by
  rcases h.housed.at_home url s hs with hhome | hst
  · rw [← hhome]
    exact h.housed.stored url s hs
  · exact absurd hst.failed (hrestored url s.info _ (h.housed.lookup hs))

theorem Represents.snapshotOf (h : Represents cfg libs old σ home w) {w' : World}
    (hsame : w'.fs.get (place cfg.storageInfo) = w.fs.get (place cfg.storageInfo)) :
    SnapshotOf cfg libs σ w' := by
  rcases h.snapshot with ⟨hnone, hempty⟩ | ⟨table, body, t, htable, hbody, hget⟩
  · refine Or.inl ⟨hsame.trans hnone, fun url => ?_⟩
    have hlookup := h.housed.table url
    rw [hempty, AList.lookup_empty] at hlookup
    exact Option.map_eq_none_iff.mp hlookup.symm
  · exact Or.inr ⟨table, body, t, fun url => (htable url).trans (h.housed.table url), hbody,
      hsame.trans hget⟩

/-- A recorded file is stored, under its own record. -/
theorem Represents.recordedAt (h : Represents cfg libs old σ home w) {k : Key}
    (hk : RecordedAt w.table k) : ∃ url s, σ url = some s ∧ place s.info.storage_path_ = k := by
  obtain ⟨url, info, hlookup, hplace⟩ := hk
  obtain ⟨s, hs, rfl⟩ := h.housed.of_lookup hlookup
  exact ⟨url, s, hs, hplace⟩

/-- The request has made fresh names only. -/
theorem Represents.survived_touches {P : Bytes → Prop} {op : Op} {calls : Calls} {w' : World}
    (h : Represents cfg libs old σ home w) (hrestored : AllRestored w) (ht : Touches P w w')
    (hP : ∀ p, P p → FreshPath cfg w.table p)
    (hnames : ∀ k, w'.fs.get k ≠ none → w.fs.get k ≠ none ∨ k ∈ standing calls)
    (hkill : BetweenCommits cfg op calls w w') : Survived cfg libs σ w w' where
  snapshot := h.snapshotOf (ht.snapshot_same hP)
  stored url s hs := by
    have hget := h.at_path hrestored hs
    rw [ht.old (by simp [hget]), hget]
  free a ha hk := by
    by_cases hrecorded : RecordedAt w.table (place (a.finalPath cfg))
    · exact Or.inl (h.recordedAt hrecorded)
    · rcases hnames _ hk with hbefore | hstanding
      · exact Or.inr ⟨hbefore, hrecorded⟩
      · rcases hkill.made a ha hstanding with hin | ⟨-, hreplaced⟩
        · exact absurd hin hrecorded
        · exact absurd (ht.snapshot_same hP) hreplaced

/-- The snapshot has the new record. -/
theorem Represents.survived_recorded (hA : A.Sound cfg) (hcfg : cfg.Checked)
    (hinfo : cfg.InfoOutside) {a : UploadArgs} (ha : a.Checked cfg) {file : Inode}
    {info : StorageInfo} {request : Request} {calls : Calls} {w' : World}
    (h : Represents cfg libs old σ home w) (hrestored : AllRestored w)
    (hcheck : checkUpload cfg request = .ok a) (hr : Recorded A cfg libs a file info w w')
    (hnames : ∀ k, w'.fs.get k ≠ none → w.fs.get k ≠ none ∨ k ∈ standing calls)
    (hkill : BetweenCommits cfg (.upload request) calls w w') :
    Survived cfg libs (Function.update σ (a.url cfg) (some ⟨info, file⟩)) w w' := by
  have hurl := hr.record.url_eq hcfg ha
  have hunknown : ∀ url s, σ url = some s → url ≠ a.url cfg := by
    rintro url s hs rfl
    rw [h.housed.eq_none hr.unknown] at hs
    cases hs
  have hnew : ∀ k, RecordedAt w.table k ∨ UploadsTo cfg (.upload request) k →
      ∃ url s, Function.update σ (a.url cfg) (some ⟨info, file⟩) url = some s ∧
        place s.info.storage_path_ = k := by
    rintro k (hk | ⟨request', a', hop, hcheck', hplace⟩)
    · obtain ⟨url, s, hs, hplace⟩ := h.recordedAt hk
      exact ⟨url, s, by rw [Function.update_of_ne (hunknown url s hs), hs], hplace⟩
    · cases hop
      rw [hcheck] at hcheck'
      cases hcheck'
      refine ⟨a.url cfg, ⟨info, file⟩, Function.update_self .., ?_⟩
      rw [← hplace]
      exact congrArg place hr.record.path
  refine ⟨Or.inr ?_, ?_, ?_⟩
  · obtain ⟨body, t, hbody, hget⟩ := hr.written
    refine ⟨_, body, t, fun url => ?_, hbody, hget⟩
    rw [hurl]
    exact h.housed.inserted (a.url cfg) ⟨info, file⟩ url
  · intro url s hs
    by_cases he : url = a.url cfg
    · subst he
      simp only [Function.update_self, Option.some.injEq] at hs
      subst hs
      show w'.fs.get (place info.storage_path_) = some file
      rw [hr.record.path]
      exact hr.final (hinfo.entry hcfg ha (hr.linked.directory_no_nul hA ha))
    · rw [Function.update_of_ne he] at hs
      have hget := h.at_path hrestored hs
      have hne : place s.info.storage_path_ ≠ place (a.finalPath cfg) := by
        intro hplace
        rw [hplace, hr.free] at hget
        cases hget
      rw [hr.files _ hne (h.housed.situated url s hs).outside, hget]
  · intro a' ha' hk
    by_cases hrecorded : RecordedAt w.table (place (a'.finalPath cfg))
    · exact Or.inl (hnew _ (Or.inl hrecorded))
    · rcases hnames _ hk with hbefore | hstanding
      · exact Or.inr ⟨hbefore, hrecorded⟩
      · rcases hkill.made a' ha' hstanding with hin | ⟨hto, -⟩
        · exact Or.inl (hnew _ (Or.inl hin))
        · exact Or.inl (hnew _ (Or.inr hto))

/-- The snapshot no longer has the record. -/
theorem Represents.survived_erased {P : Bytes → Prop} {request : Request} {calls : Calls}
    {url : Bytes} {s : Stored} {w' : World} (h : Represents cfg libs old σ home w)
    (hrestored : AllRestored w) (hs : σ url = some s)
    (he : Erased cfg libs P url s.info.storage_path_ w w')
    (hnames : ∀ k, w'.fs.get k ≠ none → w.fs.get k ≠ none ∨ k ∈ standing calls)
    (hkill : BetweenCommits cfg (.delete request) calls w w') :
    Survived cfg libs (Function.update σ url none) w w' := by
  obtain ⟨T, hfiles, hT⟩ := he.files
  refine ⟨Or.inr ?_, ?_, ?_⟩
  · obtain ⟨body, t, hbody, hget⟩ := he.written
    exact ⟨_, body, t, h.housed.removed url, hbody, hget⟩
  · intro url' s' hs'
    by_cases hurl : url' = url
    · subst hurl
      simp at hs'
    · rw [Function.update_of_ne hurl] at hs'
      have hget := h.at_path hrestored hs'
      have hsit := h.housed.situated url' s' hs'
      rw [hfiles _ ?_ hsit.outside ?_, hget]
      · exact fun hplace => hurl (hsit.url_eq (h.housed.situated url s hs) hplace)
      · intro hin
        obtain ⟨_, _, _, hnew⟩ := hT _ hin
        rw [hget] at hnew
        cases hnew
  · intro a ha hk
    by_cases hrecorded : RecordedAt w.table (place (a.finalPath cfg))
    · obtain ⟨url', s', hs', hplace⟩ := h.recordedAt hrecorded
      by_cases hurl : url' = url
      · subst hurl
        rw [hs] at hs'
        cases hs'
        rw [← hplace] at hk
        exact absurd he.gone hk
      · exact Or.inl ⟨url', s', by rw [Function.update_of_ne hurl, hs'], hplace⟩
    · rcases hnames _ hk with hbefore | hstanding
      · exact Or.inr ⟨hbefore, hrecorded⟩
      · rcases hkill.made a ha hstanding with hin | ⟨⟨_, _, hop, -, -⟩, -⟩
        · exact absurd hin hrecorded
        · cases hop

/-- A kill with a record's file moved away is not between commits. -/
theorem Represents.not_moved {url trash : Bytes} {s : Stored} {op : Op} {calls : Calls}
    {w₁ w' : World} (hA : A.Sound cfg) (h : Represents cfg libs old σ home w)
    (hs : σ url = some s)
    (hm : MovedAway (DeletePath A cfg w.table s.info.storage_path_) s.info.storage_path_ trash w w₁)
    (ht : Touches (SnapshotTemp A cfg w.table) w₁ w')
    (hnames : ∀ k, w'.fs.get k = none → w.fs.get k = none ∨ k ∈ missing calls)
    (hkill : BetweenCommits cfg op calls w w') : False := by
  have hlookup := h.housed.lookup hs
  have hout := (h.housed.situated url s hs).outside
  have hfresh : ∀ p, DeletePath A cfg w.table s.info.storage_path_ p → FreshPath cfg w.table p :=
    fun _ hp => hp.fresh hA
  have hgone : w'.fs.get (place s.info.storage_path_) = none := by
    by_contra hk
    obtain ⟨p, hp, hplace, -⟩ := ht.changed (by rw [hm.gone]; exact hk)
    exact (hfresh p (Or.inr hp)).2 url s.info hlookup hplace.symm
  have hfirst : w₁.fs.get (place cfg.storageInfo) = w.fs.get (place cfg.storageInfo) := by
    obtain ⟨T, hf, hT⟩ := hm.rest
    refine hf.files _ ?_
    rintro ((hk | hk) | hk)
    · exact hout hk.symm
    · exact (hfresh trash hm.trash_path).1 hk.symm
    · obtain ⟨q, hq, hplace, -⟩ := hT _ hk
      exact (hfresh q hq.1).1 hplace
  have hsecond : w'.fs.get (place cfg.storageInfo) = w₁.fs.get (place cfg.storageInfo) := by
    by_contra hne
    obtain ⟨p, hp, hplace, -⟩ := ht.changed hne
    exact (hfresh p (Or.inr hp)).1 hplace
  rcases hnames _ hgone with hnone | hmissing
  · exact hm.present hnone
  · exact hkill.moved url s.info hlookup hmissing (hsecond.trans hfirst)

/-! ### Where a request is killed -/

/-- The store the snapshot may hold while `op` is handled. -/
def MayHold (A : Assumption) (cfg : Config) (libs : Libs) (σ : Store) (op : Op) (σ' : Store) :
    Prop :=
  σ' = σ ∨ ∃ r, Acknowledged op r ∧ StoreStep A cfg libs σ (op, r) σ'

theorem killed_upload (hA : A.Sound cfg) (hcfg : cfg.Checked) (hinfo : cfg.InfoOutside)
    {request : Request} {calls : Calls} {c : Call} {next : c.Resp → Program Response} {w' : World}
    (h : Represents cfg libs old σ home w) (hrestored : AllRestored w)
    (hrun : CallRun (System A) (upload cfg libs request, w) calls (.call c next, w'))
    (hkill : BetweenCommits cfg (.upload request) calls w w') :
    ∃ σ', MayHold A cfg libs σ (.upload request) σ' ∧ Survived cfg libs σ' w w' := by
  have hnames := fun k => (callRun_names hrun k).1
  have hstop : ∃ a, checkUpload cfg request = .ok a ∧ Uploading A cfg libs a w w' := by
    have hwp : wp (System A) (upload cfg libs request) (fun _ _ => True)
        (fun w' => ∃ a, checkUpload cfg request = .ok a ∧ Uploading A cfg libs a w w') w := by
      unfold upload
      cases hc : checkUpload cfg request with
      | error response => trivial
      | ok a => exact wp_mono wp_storeUpload (fun _ _ _ => trivial) fun _ hu => ⟨a, rfl, hu⟩
    have hend := wp_stops hwp ⟨c, next, hrun.steps⟩
    exact hend
  obtain ⟨a, hcheck, hu⟩ := hstop
  have ha := (checkUpload_ok hcheck).1
  cases hu with
  | before ht =>
    exact ⟨σ, Or.inl rfl, h.survived_touches hrestored ht
      (fun p hp => hp.fresh hA hcfg hinfo ha h.housed.situated_table) hnames hkill⟩
  | @after file info hr htable =>
    have hnone := h.housed.eq_none hr.unknown
    exact ⟨_, Or.inr ⟨uploaded, rfl, .uploaded hcheck hnone hr.record hr.stored rfl⟩,
      h.survived_recorded hA hcfg hinfo ha hrestored hcheck hr hnames hkill⟩

theorem killed_delete (hA : A.Sound cfg) {request : Request} {calls : Calls} {c : Call}
    {next : c.Resp → Program Response} {w' : World} (h : Represents cfg libs old σ home w)
    (hrestored : AllRestored w)
    (hrun : CallRun (System A) (delete cfg libs request, w) calls (.call c next, w'))
    (hkill : BetweenCommits cfg (.delete request) calls w w') :
    ∃ σ', MayHold A cfg libs σ (.delete request) σ' ∧ Survived cfg libs σ' w w' := by
  have hnames := callRun_names hrun
  have hstop : ∃ url, checkDelete cfg request = .ok url ∧
      (Same w w' ∨ ∃ s, σ url = some s ∧ Deleting A cfg libs url s.info w w') := by
    have hwp : wp (System A) (delete cfg libs request) (fun _ _ => True)
        (fun w' => ∃ url, checkDelete cfg request = .ok url ∧
          (Same w w' ∨ ∃ s, σ url = some s ∧ Deleting A cfg libs url s.info w w')) w := by
      unfold delete
      cases hc : checkDelete cfg request with
      | error response => trivial
      | ok url =>
        simp only
        cases hlookup : w.table.lookup url with
        | none =>
          exact wp_mono (wp_deleteUrl_unknown hlookup) (fun _ _ _ => trivial)
            fun _ hs => ⟨url, rfl, Or.inl hs⟩
        | some info =>
          obtain ⟨s, hs, rfl⟩ := h.housed.of_lookup hlookup
          have hout := (h.housed.situated url s hs).outside
          exact wp_mono (wp_deleteUrl hlookup (apart_of_fresh hA hlookup hout))
            (fun _ _ _ => trivial) fun _ hd => ⟨url, rfl, Or.inr ⟨s, hs, hd⟩⟩
    have hend := wp_stops hwp ⟨c, next, hrun.steps⟩
    exact hend
  obtain ⟨url, hcheck, hsame | ⟨s, hs, hd⟩⟩ := hstop
  · have ht : Touches (fun _ => False) w w' := Touches.of_frame hsame.frame
    exact ⟨σ, Or.inl rfl, h.survived_touches hrestored ht (fun _ hp => hp.elim)
      (fun k => (hnames k).1) hkill⟩
  · cases hd with
    | before ht =>
      exact ⟨σ, Or.inl rfl, h.survived_touches hrestored ht (fun _ hp => hp.fresh hA)
        (fun k => (hnames k).1) hkill⟩
    | moved hm ht => exact (h.not_moved hA hs hm ht (fun k => (hnames k).2) hkill).elim
    | after htable he =>
      refine ⟨_, Or.inr ⟨deleted, rfl, .deleted hcheck ?_ rfl⟩,
        h.survived_erased hrestored hs he (fun k => (hnames k).1) hkill⟩
      rw [hs]
      exact Option.some_ne_none s

theorem killed_download (hA : A.Sound cfg) {request : Request} {url : Bytes} {calls : Calls}
    {c : Call} {next : c.Resp → Program Response} {w' : World}
    (h : Represents cfg libs old σ home w) (hrestored : AllRestored w)
    (hrun : CallRun (System A) (download cfg libs request url, w) calls (.call c next, w'))
    (hkill : BetweenCommits cfg (.download request url) calls w w') :
    ∃ σ', MayHold A cfg libs σ (.download request url) σ' ∧ Survived cfg libs σ' w w' := by
  have ht : Touches (DownloadTemp A cfg w.table) w w' := by
    cases hlookup : w.table.lookup url with
    | none =>
      exact Touches.of_frame (wp_stops (wp_download_unknown hlookup) ⟨c, next, hrun.steps⟩).frame
    | some info => exact wp_stops (wp_download hlookup) ⟨c, next, hrun.steps⟩
  exact ⟨σ, Or.inl rfl, h.survived_touches hrestored ht (fun _ hp => hp.fresh hA)
    (fun k => (callRun_names hrun k).1) hkill⟩

theorem killed_serve (hA : A.Sound cfg) (hcfg : cfg.Checked) (hinfo : cfg.InfoOutside) {op : Op}
    {calls : Calls} {c : Call} {next : c.Resp → Program Response} {w' : World}
    (h : Represents cfg libs old σ home w) (hrestored : AllRestored w)
    (hrun : CallRun (System A) (serve cfg libs op, w) calls (.call c next, w'))
    (hkill : BetweenCommits cfg op calls w w') :
    ∃ σ', MayHold A cfg libs σ op σ' ∧ Survived cfg libs σ' w w' := by
  cases op with
  | upload request => exact killed_upload hA hcfg hinfo h hrestored hrun hkill
  | delete request => exact killed_delete hA h hrestored hrun hkill
  | download request url => exact killed_download hA h hrestored hrun hkill

/-! ### After the restart -/

/-- Records are kept under their own URL. -/
def Store.Keyed (σ : Store) : Prop := ∀ url s, σ url = some s → s.info.url_ = url

theorem StoreStep.keyed (hcfg : cfg.Checked) {σ' : Store} {l : Op × Response}
    (h : StoreStep A cfg libs σ l σ') (hkeyed : σ.Keyed) : σ'.Keyed := by
  intro url s hs
  cases h with
  | @uploaded _ _ a new hcheck _ hrecord _ _ =>
    by_cases hurl : url = a.url cfg
    · subst hurl
      simp only [Function.update_self, Option.some.injEq] at hs
      subst hs
      exact hrecord.url_eq hcfg (checkUpload_ok hcheck).1
    · rw [Function.update_of_ne hurl] at hs
      exact hkeyed url s hs
  | @deleted _ _ gone =>
    by_cases hurl : url = gone
    · subst hurl
      simp at hs
    · rw [Function.update_of_ne hurl] at hs
      exact hkeyed url s hs
  | kept => exact hkeyed url s hs

theorem StoreRun.keyed (hcfg : cfg.Checked) {σ' : Store} {log : Log}
    (h : StoreRun A cfg libs σ log σ') (hkeyed : σ.Keyed) : σ'.Keyed := by
  induction h with
  | nil => exact hkeyed
  | snoc _ hstep ih => exact hstep.keyed hcfg ih

theorem SnapshotOf.loaded {w'' : World} (htext : libs.json.RoundTrips) (hkeyed : σ.Keyed)
    (h : SnapshotOf cfg libs σ w) (hfs : w''.fs = w.fs)
    (hload : Loaded cfg libs.json (w''.saved cfg)) (url : Bytes) :
    w''.table.lookup url = (σ url).map Stored.info := by
  rcases h with ⟨hnone, hempty⟩ | ⟨table, body, t, htable, hbody, hget⟩
  · rcases hload with ⟨-, ht⟩ | ⟨body, hfile, -⟩
    · have ht : w''.table = ∅ := ht
      rw [ht, hempty, AList.lookup_empty]
      rfl
    · simp [World.saved, hfs, hnone] at hfile
  · rcases hload with ⟨hfile, -⟩ | ⟨body', hfile, hbody'⟩
    · simp [World.saved, hfs, hget] at hfile
    · simp only [World.saved, hfs, hget, Option.map_some, Option.some.injEq] at hfile
      subst hfile
      rw [← htable]
      refine loadBody_written htext ?_ hbody hbody' url
      intro url' info hinfo
      rw [htable] at hinfo
      obtain ⟨s, hs, rfl⟩ := Option.map_eq_some_iff.mp hinfo
      exact hkeyed url' s hs

theorem SnapshotOf.snapshot (h : SnapshotOf cfg libs σ w) {w'' : World} (hfs : w''.fs = w.fs)
    (htable : ∀ url, w''.table.lookup url = (σ url).map Stored.info) :
    Snapshot cfg libs w'' := by
  rcases h with ⟨hnone, hempty⟩ | ⟨table, body, t, hrecords, hbody, hget⟩
  · refine Or.inl ⟨hfs ▸ hnone, AList.ext (List.eq_nil_iff_forall_not_mem.mpr fun x hx => ?_)⟩
    have hlookup := AList.mem_lookup_iff.mpr hx
    rw [htable, hempty] at hlookup
    cases hlookup
  · exact Or.inr ⟨table, body, t, fun url => (hrecords url).trans (htable url).symm, hbody,
      hfs ▸ hget⟩

/-- What `InitLoad` loads, after a run in which every file is back at its path, is a store
that has just been opened. -/
theorem restart_opened (hcfg : cfg.Accepted) (hinfo : cfg.InfoOutside)
    (htext : libs.json.RoundTrips) {w₀ w'' : World} {log : Log} (hopen : Opened cfg libs σ w₀)
    (hkeyed : σ.Keyed) (hrun : ServerRun (Faithful cfg) cfg libs w₀ log w)
    (hrestored : AllRestored w)
    (hload : Runs (System Probed) (initLoad cfg libs.json) w.restart true w'') :
    ∃ σ', StoreRun (Faithful cfg) cfg libs σ log σ' ∧ σ'.Keyed ∧ Opened cfg libs σ' w'' := by
  have hA : Assumption.Sound (Faithful cfg) cfg := fun _ _ _ h => h
  obtain ⟨σ', hstore, home, hrep⟩ :=
    serverRun_refines hA hcfg.checked hinfo hopen.represents hrun
  have hkeyed' := hstore.keyed hcfg.checked hkeyed
  have hempty : w.restart.table = ∅ := rfl
  obtain ⟨hfs, haccepted⟩ := wp_runs (wp_initLoad_probed hempty) hload
  have hfs : w''.fs = w.fs := hfs
  have hsnapshot : SnapshotOf cfg libs σ' w := hrep.snapshotOf rfl
  have hlookup := hsnapshot.loaded htext hkeyed' hfs (haccepted rfl)
  refine ⟨σ', hstore, hkeyed', hlookup, hrep.housed.situated, fun url s hs => ?_,
    hsnapshot.snapshot hfs hlookup⟩
  rw [hfs]
  exact hrep.at_path hrestored hs

/-- Making a link of that name is answered with `EEXIST`. -/
def World.Taken (w : World) (k : Key) : Prop := w.fs.get k ≠ none ∨ IsDir w.dirs k

theorem link_exists {old new : Bytes} {w' : World}
    (h : System A (.fs (.link old new)) w LinkResult.exists w') : w.Taken (place new) := by
  have hrun : Runs (System A) (link old new) w .exists w' := .head h (.refl ..)
  refine wp_runs (Q := fun r _ => r = .exists → w.Taken (place new)) (C := fun _ => True) ?_ hrun rfl
  apply wp_link trivial
  · intro _ _ _ _ hr
    cases hr
  · intro _ _ _ htaken _ _
    exact htaken.imp_left fun he => mt FileSystem.get_eq_none.mp he
  · intro _ _ _ _ _ _ _ hr
    cases hr

theorem initLoad_keepsDirs (text : JsonText) : Prog.Only Call.KeepsDirs (initLoad cfg text) := by
  refine only_bind (only_perform trivial) fun (found : Option Bool) => ?_
  cases found with
  | none => exact only_pure _
  | some found =>
    cases found with
    | false => exact only_pure _
    | true =>
      refine only_bind (keepsDirs_of_files (onFiles_getContent _)) fun content => ?_
      cases content with
      | none => exact only_pure _
      | some body =>
        simp only
        split
        · exact only_pure _
        · exact only_bind (only_perform trivial) fun _ => only_pure _

/-- A restart after a kill inside `op`, which the server began at `w` after `log`. -/
structure Recovered (A : Assumption) (cfg : Config) (libs : Libs) (σ₀ : Store) (log : Log)
    (op : Op) (w w'' : World) : Prop where
  /-- every loaded record's file is there with the bytes its upload stored -/
  records : ∃ σ σ', StoreRun A cfg libs σ₀ log σ ∧ MayHold A cfg libs σ op σ' ∧
    (∀ url, w''.table.lookup url = (σ' url).map Stored.info) ∧
    ∀ url s, σ' url = some s → w''.fs.get (place s.info.storage_path_) = some s.file
  /-- nothing left behind by `op` keeps a name without a record from being linked -/
  free : ∀ a : UploadArgs, a.Checked cfg → a.url cfg ∉ w''.table →
    w''.Taken (place (a.finalPath cfg)) →
    RecordedAt w''.table (place (a.finalPath cfg)) ∨
      w.fs.get (place (a.finalPath cfg)) ≠ none ∧ ¬RecordedAt w.table (place (a.finalPath cfg)) ∨
      IsDir w.dirs (place (a.finalPath cfg))

theorem crash_consistent (hcfg : cfg.Accepted) (hinfo : cfg.InfoOutside)
    (htext : libs.json.RoundTrips) {w₀ w' w'' : World} {log : Log} {op : Op} {calls : Calls}
    {c : Call} {next : c.Resp → Program Response} (hopen : Opened cfg libs σ w₀)
    (hkeyed : σ.Keyed) (hrun : ServerRun (Faithful cfg) cfg libs w₀ log w)
    (hrestored : AllRestored w)
    (hcalls : CallRun (System (Faithful cfg)) (serve cfg libs op, w) calls (.call c next, w'))
    (hkill : BetweenCommits cfg op calls w w')
    (hload : Runs (System Probed) (initLoad cfg libs.json) w'.restart true w'') :
    Recovered (Faithful cfg) cfg libs σ log op w w'' := by
  have hA : Assumption.Sound (Faithful cfg) cfg := fun _ _ _ h => h
  obtain ⟨σ₁, hstore, home, hrep⟩ :=
    serverRun_refines hA hcfg.checked hinfo hopen.represents hrun
  obtain ⟨σ₂, hmay, hsurvived⟩ := killed_serve hA hcfg.checked hinfo hrep hrestored hcalls hkill
  have hkeyed₁ := hstore.keyed hcfg.checked hkeyed
  have hkeyed₂ : σ₂.Keyed := by
    rcases hmay with rfl | ⟨r, -, hstep⟩
    · exact hkeyed₁
    · exact hstep.keyed hcfg.checked hkeyed₁
  have hempty : w'.restart.table = ∅ := rfl
  obtain ⟨hfs, haccepted⟩ := wp_runs (wp_initLoad_probed hempty) hload
  have hfs : w''.fs = w'.fs := hfs
  have hdirs := wp_runs (wp_keepsDirs (initLoad_keepsDirs libs.json)) hload
  have hdirs : w''.dirs = w'.dirs := hdirs
  have hlookup := hsurvived.snapshot.loaded htext hkeyed₂ hfs (haccepted rfl)
  refine ⟨⟨σ₁, σ₂, hstore, hmay, hlookup, fun url s hs => ?_⟩, fun a ha _ hk => ?_⟩
  · rw [hfs]
    exact hsurvived.stored url s hs
  · rw [World.Taken, hfs, hdirs] at hk
    rcases hk with hfile | hdir
    · rcases hsurvived.free a ha hfile with ⟨url, s, hs, hplace⟩ | hbefore
      · exact Or.inl ⟨url, s.info, by rw [hlookup, hs]; rfl, hplace⟩
      · exact Or.inr (Or.inl hbefore)
    · exact Or.inr (Or.inr (hkill.directories a ha hdir))

/-! ### Recorded kills -/

/-- A request whose first calls are answered by the choices. -/
def serveCalls (A : Assumption) [∀ w c r, Decidable (A w c r)] (cfg : Config) (libs : Libs)
    (op : Op) (choices : List Choice) (w : World) : Option (Calls × Program Response × World) :=
  Transition.Run.play (nextCall answer A.test) (serve cfg libs op, w) choices

theorem serveCalls_run {A : Assumption} [∀ w c r, Decidable (A w c r)] {op : Op}
    {choices : List Choice} {calls : Calls} {s : Program Response × World}
    (h : serveCalls A cfg libs op choices w = some (calls, s)) :
    CallRun (System A) (serve cfg libs op, w) calls s :=
  callRun_of_play A.test_answer h

theorem result_isNone {p : Program Response} (h : p.result.isNone = true) :
    ∃ c next, p = .call c next := by
  cases p with
  | ret r => simp [Prog.result] at h
  | call c next => exact ⟨c, next, rfl⟩

/-- What `InitLoad` does to the files of a killed process. -/
def loadUnder (cfg : Config) (libs : Libs) (w : World) : Program Bool × World :=
  playUnder Probed (initLoad cfg libs.json) loadChoices w.restart

def keptUpload : Op := .upload (uploadOf (lit "eA==") low (lit "abc"))

def keptArgs : UploadArgs := ⟨lit "x", low, lit "abc"⟩

/-- The calls of an upload up to the swap of `table_`. -/
def uploadToSwap : List Choice := (uploadFine (lit "AAAAAA") (lit "BBBBBB")).take 27

theorem settled_directory_no_nul (a : UploadArgs) : (0 : Byte) ∉ a.directory settledConfig := by
  unfold UploadArgs.directory Config.directory
  split <;> decide

theorem settled_directory_names (a : UploadArgs) :
    0 < (key (a.directory settledConfig)).names.length := by
  unfold UploadArgs.directory Config.directory
  split <;> decide

/-- Killed between the rename of the snapshot and the swap. -/
theorem crash_consistent_upload : ∃ w'', Recovered (Faithful settledConfig) settledConfig keptLibs
    (fun _ => none) [] keptUpload World.empty w'' ∧
      w''.table.lookup (lit "/download/x") = some (recordAt settledConfig (lit "x")) := by
  have hplay : (serveCalls (Faithful settledConfig) settledConfig keptLibs keptUpload uploadToSwap
      World.empty).any (fun out => decide (out.2.1.result.isNone = true ∧
        (standing out.1).all (fun k => decide (k = place settledConfig.storageInfo ∨
          k = place (keptArgs.finalPath settledConfig))) = true ∧
        out.2.2.dirs.all (fun k => decide (k.names.length ≤ 1)) = true ∧
        (out.2.2.fs.get (place settledConfig.storageInfo)).isSome = true ∧
        (loadUnder settledConfig keptLibs out.2.2).1.result = some true ∧
        (loadUnder settledConfig keptLibs out.2.2).2.table.lookup (lit "/download/x") =
          some (recordAt settledConfig (lit "x")))) = true := by decide +kernel
  obtain ⟨⟨calls, p, w'⟩, hcalls, hend⟩ := (Option.any_eq_true _ _).mp hplay
  obtain ⟨hresult, hstanding, hdirs, hsnapshot, hloaded, hlookup⟩ := of_decide_eq_true hend
  obtain ⟨c, next, rfl⟩ := result_isNone hresult
  have haccepted : settledConfig.Accepted := Config.shipped_accepted (by decide) (by decide)
  have hreplaced : SnapshotReplaced settledConfig World.empty w' := by
    intro he
    rw [he] at hsnapshot
    cases hsnapshot
  have hkill : BetweenCommits settledConfig keptUpload calls World.empty w' := by
    constructor
    · intro a ha hin
      rcases of_decide_eq_true (List.all_eq_true.mp hstanding _ hin) with hinfo | hfinal
      · have h0 := settled_directory_no_nul a
        exact absurd hinfo (settled_outside.entry haccepted.checked ha h0)
      · exact Or.inr ⟨⟨_, keptArgs, rfl, by decide, hfinal.symm⟩, hreplaced⟩
    · intro a ha hdir
      refine hdir.imp_right fun hin => ?_
      have hshort := of_decide_eq_true (List.all_eq_true.mp hdirs _ hin)
      rw [ha.place_final haccepted.checked (settled_directory_no_nul a)] at hshort
      have hlong := settled_directory_names a
      rw [Key.child, List.length_append, List.length_singleton] at hshort
      omega
    · intro url info hinfo
      cases hinfo
  have hrestored : AllRestored World.empty := by
    intro url info trash hinfo
    cases hinfo
  have hload := playUnder_runs Probed hloaded
  refine ⟨_, ?_, hlookup⟩
  exact crash_consistent haccepted settled_outside (JsonText.ofPairs_roundTrips (by simp))
    opened_empty (fun _ _ hs => by cases hs) (.nil _) hrestored (serveCalls_run hcalls) hkill hload

/-- Killed between the move to the trash and the rename of the snapshot: the record is
loaded and its file is not there. -/
theorem killed_delete_loses : ¬∀ (cfg : Config) (libs : Libs) (σ : Store) (w₀ w w' w'' : World)
    (log : Log) (op : Op) (calls : Calls) (c : Call) (next : c.Resp → Program Response),
    cfg.Accepted → cfg.InfoOutside → libs.json.RoundTrips → Opened cfg libs σ w₀ → σ.Keyed →
    ServerRun (Faithful cfg) cfg libs w₀ log w →
    CallRun (System (Faithful cfg)) (serve cfg libs op, w) calls (.call c next, w') →
    Runs (System Probed) (initLoad cfg libs.json) w'.restart true w'' →
    Recovered (Faithful cfg) cfg libs σ log op w w'' := by
  intro h
  let killed (w : World) := serveCalls (Faithful settledConfig) settledConfig keptLibs
    (.delete (deleteOf (lit "/download/x"))) ((deleteFine (lit "CCCCCC") []).take 7) w
  have hplay : (serveUnder (Faithful settledConfig) settledConfig keptLibs keptRequests
      World.empty).any (fun run => (killed run.2).any fun out =>
        decide (out.2.1.result.isNone = true ∧
          (loadUnder settledConfig keptLibs out.2.2).1.result = some true ∧
          (loadUnder settledConfig keptLibs out.2.2).2.table.lookup (lit "/download/x") =
            some (recordAt settledConfig (lit "x")) ∧
          (loadUnder settledConfig keptLibs out.2.2).2.fs.get (place (lit "low_storage/x")) =
            none)) = true := by decide +kernel
  obtain ⟨⟨log, w⟩, hrun, hkilled⟩ := (Option.any_eq_true _ _).mp hplay
  obtain ⟨⟨calls, p, w'⟩, hcalls, hend⟩ := (Option.any_eq_true _ _).mp hkilled
  obtain ⟨hresult, hloaded, hlookup, hgone⟩ := of_decide_eq_true hend
  obtain ⟨c, next, rfl⟩ := result_isNone hresult
  have hrecovered := h settledConfig keptLibs _ _ _ _ _ _ _ _ c next
    (Config.shipped_accepted (by decide) (by decide)) settled_outside
    (JsonText.ofPairs_roundTrips (by simp)) opened_empty (fun _ _ hs => by cases hs)
    (serveUnder_run hrun) (serveCalls_run hcalls) (playUnder_runs Probed hloaded)
  obtain ⟨σ, σ', -, -, htable, hstored⟩ := hrecovered.records
  have hlookup : (σ' (lit "/download/x")).map Stored.info =
      some (recordAt settledConfig (lit "x")) := (htable _).symm.trans hlookup
  obtain ⟨s, hs, hinfo⟩ := Option.map_eq_some_iff.mp hlookup
  have hget := hstored _ s hs
  have hpath : s.info.storage_path_ = lit "low_storage/x" := by
    rw [hinfo]
    decide
  rw [hpath] at hget
  exact absurd (hgone.symm.trans hget) (by simp)

end CloudStorage
