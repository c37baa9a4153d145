import CloudStorage.Request

/-!
# Delete (`Service::Delete`)

The stored file is renamed to a trash name, the record is erased, and the trash
is removed; when the record cannot be erased the file is renamed back. The
specification has three outcomes: the delete is refused and the file is in its
place, the file is stranded under its trash name because renaming it back
failed, or the record is gone from the table and the snapshot.
-/

namespace CloudStorage
open Posix Interact

def deletePrefix : Bytes := lit ".delete-"

/-- The checks of the request; an error is the reply. -/
def checkDelete (cfg : Config) (request : Request) : Except Response Bytes :=
  match request.findHeader (lit "DeleteUrl") with
  | none => .error (badRequest (lit "invalid DeleteUrl header"))
  | some header =>
    if header = [] ∨ header.length > 4096 then
      .error (badRequest (lit "invalid DeleteUrl header"))
    else
      match urlDecode header with
      | none => .error (badRequest (lit "invalid download URL"))
      | some url =>
        if isDownloadPath cfg url then .ok url
        else .error (badRequest (lit "invalid download URL"))

def deleted : Response := sendText [] 200 (lit "OK") (lit "delete successful")

/-- The trash goes; its guard tries once more when that failed. -/
def emptyTrash (trash : Option Bytes) : Program Unit := do
  match trash with
  | none => return ()
  | some path =>
    if ← unlink path then return ()
    else removeGuarded path

/-- The file goes back to its place, if it was moved. -/
def restoreTrash (trash : Option Bytes) (storagePath : Bytes) : Program Unit := do
  match trash with
  | none => return ()
  | some path =>
    -- on failure the trash is kept: it is the only remaining copy
    let _ ← rename path storagePath

/-- The end of a delete, once the file is out of the way. -/
def eraseRecord (cfg : Config) (libs : Libs) (url storagePath : Bytes) (trash : Option Bytes) :
    Program Response := do
  let result ← DataManager.delete cfg libs.json url
  if result = .ok then
    emptyTrash trash
    return deleted
  else
    restoreTrash trash storagePath
    if result = .notFound then return fileNotFound []
    else return internalError [] (lit "cannot persist delete metadata")

def deleteUrl (cfg : Config) (libs : Libs) (url : Bytes) : Program Response := do
  match ← getOneByUrl url with
  | none => return fileNotFound []
  | some info =>
    match ← fileExists info.storage_path_ with
    | none => return internalError [] (lit "cannot inspect stored file")
    | some false => eraseRecord cfg libs url info.storage_path_ none
    | some true =>
      match ← createTempFile (parentPath info.storage_path_) deletePrefix with
      | none => return internalError [] (lit "cannot prepare delete transaction")
      | some trash =>
        let _ ← unlink trash
        if ← rename info.storage_path_ trash then
          eraseRecord cfg libs url info.storage_path_ (some trash)
        else return internalError [] (lit "cannot move file to delete transaction")

/-- `Service::Delete`. -/
def delete (cfg : Config) (libs : Libs) (request : Request) : Program Response :=
  match checkDelete cfg request with
  | .error response => return response
  | .ok url => deleteUrl cfg libs url

theorem checkDelete_error {cfg : Config} {request : Request} {r : Response}
    (h : checkDelete cfg request = .error r) : r.status ≠ 200 := by
  unfold checkDelete at h
  repeat' split at h
  all_goals cases h
  all_goals exact (by decide : (400 : Nat) ≠ 200)

/-! ### Specification -/

variable {A : Assumption} {w : World} {cfg : Config} {libs : Libs} {url : Bytes}

/-- The names a delete of the file at `path` may make. -/
def DeletePath (A : Assumption) (cfg : Config) (table : Table) (path p : Bytes) : Prop :=
  TempPath A table (parentPath path) deletePrefix p ∨ SnapshotTemp A cfg table p

/-- No name the delete makes is the file's own or that of the metadata. -/
structure Apart (A : Assumption) (cfg : Config) (table : Table) (path : Bytes) : Prop where
  store : place path ≠ place cfg.storageInfo
  temp : ∀ p, DeletePath A cfg table path p →
    place p ≠ place path ∧ place p ≠ place cfg.storageInfo

/-- Renaming the trash back was tried and failed. -/
def RestoreFailed (trash path : Bytes) (w : World) : Prop :=
  ⟨.fs (.rename trash path), false⟩ ∈ w.trace

/-- The file of `path` is at `trash`; else only files whose removal failed differ. -/
structure MovedAway (P : Bytes → Prop) (path trash : Bytes) (w w' : World) : Prop where
  trash_path : P trash
  free : w.fs.get (place trash) = none
  present : w.fs.get (place path) ≠ none
  gone : w'.fs.get (place path) = none
  kept : w'.fs.get (place trash) = w.fs.get (place path)
  rest : ∃ T, Frame ({place path, place trash} ∪ T) w w' ∧
    ∀ k ∈ T, ∃ q, (P q ∧ RemovalFailed q w') ∧ place q = k ∧ w.fs.get k = none

/-- The files once the snapshot without the record is written. -/
structure Erased (cfg : Config) (libs : Libs) (P : Bytes → Prop) (url path : Bytes)
    (w w' : World) : Prop where
  files : ∃ T : Set Key, (∀ k, k ≠ place path → k ≠ place cfg.storageInfo → k ∉ T →
      w'.fs.get k = w.fs.get k) ∧
    ∀ k ∈ T, ∃ q, P q ∧ place q = k ∧ w.fs.get k = none
  gone : w'.fs.get (place path) = none
  written : ∃ body t, libs.json.write (tableJson (w.table.erase url)) = some body ∧
    w'.fs.get (place cfg.storageInfo) = some ⟨body, t⟩
  sessions : w'.sessions = w.sessions
  attempts : w'.attempts = w.attempts
  templates : w'.templates = w.templates
  trace : w.trace <+: w'.trace
  clock : w.clock ≤ w'.clock

/-- How a delete of the record `info` ends. -/
inductive DeleteEffect (A : Assumption) (cfg : Config) (libs : Libs) (url : Bytes)
    (info : StorageInfo) (w : World) : Response → World → Prop
  | refused {r : Response} {w' : World} : r.status ≠ 200 →
      Leaves (DeletePath A cfg w.table info.storage_path_) w w' →
      DeleteEffect A cfg libs url info w r w'
  | stranded {r : Response} {w' : World} {trash : Bytes} : r.status ≠ 200 →
      TempPath A w.table (parentPath info.storage_path_) deletePrefix trash →
      MovedAway (DeletePath A cfg w.table info.storage_path_) info.storage_path_ trash w w' →
      RestoreFailed trash info.storage_path_ w' → DeleteEffect A cfg libs url info w r w'
  | erased {w' : World} : w'.table = w.table.erase url →
      Erased cfg libs
        (fun p => DeletePath A cfg w.table info.storage_path_ p ∧ RemovalFailed p w')
        url info.storage_path_ w w' → DeleteEffect A cfg libs url info w deleted w'

/-- Where a delete of the record `info` may be interrupted. -/
inductive Deleting (A : Assumption) (cfg : Config) (libs : Libs) (url : Bytes)
    (info : StorageInfo) (w w' : World) : Prop
  | before : Touches (DeletePath A cfg w.table info.storage_path_) w w' →
      Deleting A cfg libs url info w w'
  | moved {trash : Bytes} {w₁ : World} :
      MovedAway (DeletePath A cfg w.table info.storage_path_) info.storage_path_ trash w w₁ →
      Touches (SnapshotTemp A cfg w.table) w₁ w' → Deleting A cfg libs url info w w'
  | after : (w'.table = w.table ∨ w'.table = w.table.erase url) →
      Erased cfg libs (DeletePath A cfg w.table info.storage_path_) url info.storage_path_ w w' →
      Deleting A cfg libs url info w w'

theorem MovedAway.same {P : Bytes → Prop} {path trash : Bytes} {a b c : World}
    (h : MovedAway P path trash a b) (h' : Same b c) : MovedAway P path trash a c := by
  obtain ⟨T, hf, hT⟩ := h.rest
  refine ⟨h.trash_path, h.free, h.present, h'.fs ▸ h.gone, h'.fs ▸ h.kept, T, hf.same h', ?_⟩
  intro k hk
  obtain ⟨q, hq, hkey, hnew⟩ := hT k hk
  exact ⟨q, ⟨hq.1, hq.2.mono h'.frame.trace⟩, hkey, hnew⟩

theorem MovedAway.leaves {P P' : Bytes → Prop} {path trash : Bytes} {a b c : World}
    (h : MovedAway P path trash a b) (h' : Leaves P' b c) (hP : ∀ p, P' p → P p)
    (hpath : ∀ p, P' p → place p ≠ place path) : MovedAway P path trash a c := by
  have hkept : b.fs.get (place trash) ≠ none := by
    rw [h.kept]
    exact h.present
  obtain ⟨T, hf, hT⟩ := h.rest
  obtain ⟨U, hf', hT'⟩ := h'
  have hpathT : place path ∉ U := fun hk => by
    obtain ⟨q, hq, hkey, -⟩ := hT' _ hk
    exact hpath q hq.1 hkey
  have htrashT : place trash ∉ U := fun hk => by
    obtain ⟨_, _, _, hnew⟩ := hT' _ hk
    exact hkept hnew
  refine ⟨h.trash_path, h.free, h.present, ?_, ?_, T ∪ (U \ T), ?_, ?_⟩
  · rw [hf'.files _ hpathT, h.gone]
  · rw [hf'.files _ htrashT, h.kept]
  · refine (hf.mono (Set.union_subset_union_right _ Set.subset_union_left)).trans
      (hf'.mono fun k hk => ?_)
    by_cases hold : k ∈ T
    · exact Or.inr (Or.inl hold)
    · exact Or.inr (Or.inr ⟨hk, hold⟩)
  · rintro k (hk | ⟨hk, hold⟩)
    · obtain ⟨q, hq, hkey, hnew⟩ := hT k hk
      exact ⟨q, ⟨hq.1, hq.2.mono hf'.trace⟩, hkey, hnew⟩
    · obtain ⟨q, hq, hkey, hnew⟩ := hT' k hk
      refine ⟨q, ⟨hP q hq.1, hq.2⟩, hkey, ?_⟩
      have hk' : k ∉ {place path, place trash} ∪ T := by
        rintro ((rfl | rfl) | hkT)
        · exact hpathT hk
        · exact htrashT hk
        · exact hold hkT
      rw [← hf.files k hk', hnew]

theorem MovedAway.restored {P : Bytes → Prop} {path trash : Bytes} {a b c : World}
    (h : MovedAway P path trash a b) (hD : Did b (.fs (.rename trash path)) true c)
    (hfs : c.fs = b.fs.move (place trash) (place path)) : Leaves P a c := by
  have hne : b.fs.entry (place trash) ≠ b.fs.entry (place path) := by
    rw [FileSystem.get_eq_none.mp h.gone]
    intro he
    exact h.present (h.kept ▸ FileSystem.get_eq_none.mpr he)
  obtain ⟨T, hf, hT⟩ := h.rest
  have hmove : ∀ k, c.fs.get k = if k = place trash then none
      else if k = place path then b.fs.get (place trash) else b.fs.get k := fun k => by
    rw [hfs, FileSystem.get_move hne]
  have hd : Frame ({place path, place trash} ∪ T) b c := hD.frame fun k hk => by
    have hkt : k ≠ place trash := fun h => hk (Or.inl (Or.inr h))
    have hkp : k ≠ place path := fun h => hk (Or.inl (Or.inl h))
    rw [hmove, if_neg hkt, if_neg hkp]
  have hf' := hf.trans hd
  refine ⟨T, { hf' with files := fun k hk => ?_ }, ?_⟩
  · by_cases hkt : k = place trash
    · rw [hmove, if_pos hkt, hkt, h.free]
    · by_cases hkp : k = place path
      · rw [hmove, if_neg hkt, if_pos hkp, hkp, h.kept]
      · exact hf'.files k fun hs => hs.elim (fun h => h.elim hkp hkt) hk
  · intro k hk
    obtain ⟨q, hq, hkey, hnew⟩ := hT k hk
    exact ⟨q, ⟨hq.1, hq.2.mono hd.trace⟩, hkey, hnew⟩

theorem MovedAway.erased {P : Bytes → Prop} {path trash : Bytes} {w₁ w' : World}
    (h : MovedAway P path trash w w₁) (hrest : Frame {place path, place trash} w w₁)
    (hstore : place path ≠ place cfg.storageInfo)
    (hw : Written cfg libs.json (w₁.table.erase url) w₁ w') :
    Erased cfg libs P url path w w' where
  files := ⟨{place trash}, fun k hk hk' hkt => (hw.files k hk').trans
    (hrest.files k fun h => h.elim hk hkt), fun k hk => ⟨trash, h.trash_path, hk.symm, hk ▸ h.free⟩⟩
  gone := (hw.files _ hstore).trans h.gone
  written := by
    rw [← hrest.table]
    exact hw.written
  sessions := hw.sessions.trans hrest.sessions
  attempts := hw.attempts.trans hrest.attempts
  templates := hw.templates.trans hrest.templates
  trace := hrest.trace.trans hw.trace
  clock := Int.le_trans hrest.clock hw.clock

theorem Erased.frame {P P' : Bytes → Prop} {path trash : Bytes} {w₁ w' : World}
    (h : Erased cfg libs P url path w w₁)
    (htrash : P' trash ∨ w'.fs.get (place trash) = none) (hfree : w.fs.get (place trash) = none)
    (hpath : place trash ≠ place path) (hstore : place trash ≠ place cfg.storageInfo)
    (hother : ∀ k, k ≠ place path → k ≠ place cfg.storageInfo → k ≠ place trash →
      w₁.fs.get k = w.fs.get k) (hf : Frame {place trash} w₁ w') :
    Erased cfg libs P' url path w w' where
  files := by
    have hkeep : ∀ k, k ≠ place path → k ≠ place cfg.storageInfo → k ≠ place trash →
        w'.fs.get k = w.fs.get k :=
      fun k hk hk' hkt => (hf.files k hkt).trans (hother k hk hk' hkt)
    rcases htrash with htrash | hgone
    · exact ⟨{place trash}, hkeep, fun k hk => ⟨trash, htrash, hk.symm, hk ▸ hfree⟩⟩
    · refine ⟨∅, fun k hk hk' _ => ?_, fun _ hk => hk.elim⟩
      by_cases hkt : k = place trash
      · rw [hkt, hgone, hfree]
      · exact hkeep k hk hk' hkt
  gone := (hf.files _ (Ne.symm hpath)).trans h.gone
  written := by
    obtain ⟨body, t, hw, hget⟩ := h.written
    exact ⟨body, t, hw, (hf.files _ (Ne.symm hstore)).trans hget⟩
  sessions := hf.sessions.trans h.sessions
  attempts := hf.attempts.trans h.attempts
  templates := hf.templates.trans h.templates
  trace := h.trace.trans hf.trace
  clock := Int.le_trans h.clock hf.clock

theorem wp_emptyTrash {trash : Bytes} :
    wp (System A) (emptyTrash (some trash))
      (fun _ w' => Frame {place trash} w w' ∧
        (RemovalFailed trash w' ∨ w'.fs.get (place trash) = none))
      (fun w' => Frame {place trash} w w') w := by
  have hdrop : ∀ {a b : World}, Did a (.fs (.unlink trash)) true b →
      b.fs = a.fs.dropEntry (place trash) →
      Frame {place trash} a b ∧ b.fs.get (place trash) = none := by
    intro a b hD hfs
    refine ⟨hD.frame fun k hk => ?_, ?_⟩
    · rw [hfs, FileSystem.get_dropEntry]
      exact if_neg hk
    · rw [hfs, FileSystem.get_dropEntry, if_pos rfl]
  unfold emptyTrash
  rw [wp_bind]
  apply wp_unlink (Frame.refl _ w)
  · intro w₁ _ hD₁ hfs₁
    have hf₁ : Frame {place trash} w w₁ := hD₁.quiet hfs₁ _
    simp only [Bool.false_eq_true, ite_false]
    unfold removeGuarded
    rw [wp_bind]
    apply wp_unlink hf₁
    · intro w₂ _ hD₂ hfs₂
      exact ⟨hf₁.trans (hD₂.quiet hfs₂ _), Or.inl hD₂.mem⟩
    · intro w₂ _ hD₂ _ hfs₂
      exact ⟨hf₁.trans (hdrop hD₂ hfs₂).1, Or.inr (hdrop hD₂ hfs₂).2⟩
  · intro w₁ _ hD₁ _ hfs₁
    exact ⟨(hdrop hD₁ hfs₁).1, Or.inr (hdrop hD₁ hfs₁).2⟩

theorem wp_restoreTrash {P : Bytes → Prop} {path trash : Bytes} {w₀ : World}
    (h : MovedAway P path trash w₀ w) :
    wp (System A) (restoreTrash (some trash) path)
      (fun _ w' => Leaves P w₀ w' ∨
        MovedAway P path trash w₀ w' ∧ RestoreFailed trash path w')
      (fun w' => w' = w) w := by
  unfold restoreTrash
  rw [wp_bind]
  apply wp_rename rfl
  · intro w' _ hD hfs
    exact Or.inr ⟨h.same (hD.same hfs), hD.mem⟩
  · intro w' _ hD _ hfs
    exact Or.inl (h.restored hD hfs)

variable {info : StorageInfo}

theorem wp_eraseRecord_moved {trash : Bytes} {w₁ : World}
    (hapart : Apart A cfg w.table info.storage_path_)
    (htemp : TempPath A w.table (parentPath info.storage_path_) deletePrefix trash)
    (h : MovedAway (DeletePath A cfg w.table info.storage_path_) info.storage_path_ trash w w₁)
    (hrest : Frame {place info.storage_path_, place trash} w w₁) :
    wp (System A) (eraseRecord cfg libs url info.storage_path_ (some trash))
      (DeleteEffect A cfg libs url info w) (Deleting A cfg libs url info w) w₁ := by
  obtain ⟨hpath, hstore⟩ := hapart.temp trash (Or.inl htemp)
  unfold eraseRecord
  refine wp_seq wp_dataDelete ?_ ?_
  · rintro w' (hs | ⟨-, ht | hp⟩)
    · exact .moved h (Touches.of_frame hs.frame)
    · rw [hrest.table] at ht
      exact .moved h ht
    · exact .after (Or.inl (hp.frame.table.trans hrest.table))
        (h.erased hrest hapart.store hp.toWritten)
  · intro r w₂ hr
    obtain ⟨rfl, -, hs⟩ | ⟨rfl, -, hc⟩ | ⟨rfl, -, hl⟩ := hr
    · refine wp_seq (wp_restoreTrash (h.same hs))
        (fun w' hw => .moved h (hw ▸ Touches.of_frame hs.frame)) ?_
      rintro _ w' (hl | ⟨hm, hf⟩)
      · exact .refused (by decide) hl
      · exact .stranded (by decide) htemp hm hf
    · have he := h.erased hrest hapart.store hc.toWritten
      have hother : ∀ k, k ≠ place info.storage_path_ → k ≠ place cfg.storageInfo →
          k ≠ place trash → w₂.fs.get k = w.fs.get k := fun k hk hk' hkt =>
        (hc.files k hk').trans (hrest.files k fun h => h.elim hk hkt)
      have htable : w₂.table = w.table.erase url := by rw [hc.table, hrest.table]
      refine wp_seq wp_emptyTrash (fun w' hf => ?_) ?_
      · exact .after (Or.inr (hf.table.trans htable))
          (he.frame (Or.inl (Or.inl htemp)) h.free hpath hstore hother hf)
      · rintro _ w' ⟨hf, hgone⟩
        exact .erased (hf.table.trans htable)
          (he.frame (hgone.imp (fun hr => ⟨Or.inl htemp, hr⟩) id) h.free hpath hstore hother hf)
    · rw [hrest.table] at hl
      have hm := h.leaves hl (fun p => Or.inr) fun p hp => (hapart.temp p (Or.inr hp)).1
      refine wp_seq (wp_restoreTrash hm)
        (fun w' hw => .moved h (hw ▸ hl.mono fun _ hq => hq.1)) ?_
      rintro _ w' (hl | ⟨hm, hf⟩)
      · exact .refused (by decide) hl
      · exact .stranded (by decide) htemp hm hf

theorem wp_eraseRecord_absent {w₁ : World} (hapart : Apart A cfg w.table info.storage_path_)
    (hs : Same w w₁) (habsent : w.fs.get (place info.storage_path_) = none) :
    wp (System A) (eraseRecord cfg libs url info.storage_path_ none)
      (DeleteEffect A cfg libs url info w) (Deleting A cfg libs url info w) w₁ := by
  have hgone : w₁.fs.get (place info.storage_path_) = none := hs.fs ▸ habsent
  have herased : ∀ {P : Bytes → Prop} {w' : World},
      Written cfg libs.json (w₁.table.erase url) w₁ w' →
      Erased cfg libs P url info.storage_path_ w w' := by
    intro P w' hw
    have hw' := hw.after hs
    refine ⟨⟨∅, fun k _ hk _ => hw'.files k hk, fun _ hk => hk.elim⟩, ?_, ?_, hw'.sessions,
      hw'.attempts, hw'.templates, hw'.trace, hw'.clock⟩
    · rw [hw.files _ hapart.store, hgone]
    · rw [← hs.frame.table]
      exact hw.written
  unfold eraseRecord
  refine wp_seq wp_dataDelete ?_ ?_
  · rintro w' (hs' | ⟨-, ht | hp⟩)
    · exact .before (Touches.of_frame (hs.trans hs').frame)
    · rw [hs.frame.table] at ht
      exact .before (Touches.after hs (ht.mono fun p => Or.inr))
    · exact .after (Or.inl (hp.frame.table.trans hs.frame.table))
        (herased hp.toWritten)
  · intro r w₂ hr
    obtain ⟨rfl, -, hs'⟩ | ⟨rfl, -, hc⟩ | ⟨rfl, -, hl⟩ := hr
    · exact .refused (by decide) (Touches.of_frame (hs.trans hs').frame)
    · exact .erased (hc.table.trans (by rw [hs.frame.table]))
        (herased hc.toWritten)
    · rw [hs.frame.table] at hl
      exact .refused (by decide) (Touches.after hs (hl.mono fun p hq => ⟨Or.inr hq.1, hq.2⟩))

/-- The file gets the trash name, whose own file was removed or not. -/
theorem movedAway_of_rename {P : Bytes → Prop} {path trash : Bytes} {w₁ w₂ : World}
    (hP : P trash) (hfree : w.fs.get (place trash) = none)
    (hpresent : w.fs.get (place path) ≠ none) (hf : Frame {place trash} w w₁)
    (htrash : (∃ i, w₁.fs.Owns (place trash) i) ∨ w₁.fs.entry (place trash) = none)
    (hD : Did w₁ (.fs (.rename path trash)) true w₂)
    (hfs : w₂.fs = w₁.fs.move (place path) (place trash)) :
    MovedAway P path trash w w₂ ∧ Frame {place path, place trash} w w₂ := by
  have hne : place path ≠ place trash := fun he => hpresent (he ▸ hfree)
  have hpath : w₁.fs.get (place path) = w.fs.get (place path) := hf.files _ hne
  have hentry : w₁.fs.entry (place path) ≠ w₁.fs.entry (place trash) := by
    intro he
    rcases htrash with ⟨i, ho⟩ | hn
    · exact hne (ho.only _ (he ▸ ho.named))
    · rw [hn] at he
      exact hpresent (hpath ▸ FileSystem.get_eq_none.mpr he)
  have hmove : ∀ k, w₂.fs.get k = if k = place path then none
      else if k = place trash then w₁.fs.get (place path) else w₁.fs.get k := fun k => by
    rw [hfs, FileSystem.get_move hentry]
  have hframe : Frame {place path, place trash} w w₂ :=
    (hf.mono fun _ h => Or.inr h).trans (hD.frame fun k hk => by
      have hkp : k ≠ place path := fun h => hk (Or.inl h)
      have hkt : k ≠ place trash := fun h => hk (Or.inr h)
      rw [hmove, if_neg hkp, if_neg hkt])
  refine ⟨⟨hP, hfree, hpresent, ?_, ?_, ∅, hframe.mono Set.subset_union_left,
    fun _ hk => hk.elim⟩, hframe⟩
  · rw [hmove, if_pos rfl]
  · rw [hmove, if_neg (Ne.symm hne), if_pos rfl, hpath]

theorem wp_moveToTrash {trash : Bytes} {w₁ : World}
    (hapart : Apart A cfg w.table info.storage_path_)
    (htemp : TempPath A w.table (parentPath info.storage_path_) deletePrefix trash)
    (hfree : w.fs.get (place trash) = none) (hf₁ : Frame {place trash} w w₁)
    (hpresent : w.fs.get (place info.storage_path_) ≠ none)
    (htrash : (∃ i, w₁.fs.Owns (place trash) i) ∧ RemovalFailed trash w₁ ∨
      w₁.fs.get (place trash) = none) :
    wp (System A) (do
        if ← rename info.storage_path_ trash then
          eraseRecord cfg libs url info.storage_path_ (some trash)
        else return internalError [] (lit "cannot move file to delete transaction"))
      (DeleteEffect A cfg libs url info w) (Deleting A cfg libs url info w) w₁ := by
  have hP : DeletePath A cfg w.table info.storage_path_ trash := Or.inl htemp
  have htouch : Touches (DeletePath A cfg w.table info.storage_path_) w w₁ :=
    Touches.single hf₁ hP hfree
  rw [wp_bind]
  apply wp_rename (.before htouch)
  · intro w₂ _ hD₂ hfs₂
    have hs := hD₂.same hfs₂
    refine .refused (by decide) ?_
    rcases htrash with ⟨-, hr⟩ | hgone
    · exact Touches.single (hf₁.same hs) ⟨hP, hr.mono hs.frame.trace⟩ hfree
    · have hf₂ := hf₁.same hs
      refine Touches.of_frame { hf₂ with files := fun k _ => ?_ }
      by_cases hk : k = place trash
      · rw [hk, hs.fs, hgone, hfree]
      · exact hf₂.files k hk
  · intro w₂ _ hD₂ _ hfs₂
    obtain ⟨hm, hrest⟩ := movedAway_of_rename hP hfree hpresent hf₁
      (htrash.imp And.left FileSystem.get_eq_none.mp) hD₂ hfs₂
    exact wp_eraseRecord_moved hapart htemp hm hrest

theorem wp_deleteUrl (hinfo : w.table.lookup url = some info)
    (hapart : Apart A cfg w.table info.storage_path_) :
    wp (System A) (deleteUrl cfg libs url) (DeleteEffect A cfg libs url info w)
      (Deleting A cfg libs url info w) w := by
  unfold deleteUrl
  refine wp_seq wp_getOneByUrl (fun w' hs => .before (Touches.of_frame hs.frame)) ?_
  rintro r w₁ ⟨rfl, h₁⟩
  rw [hinfo]
  refine (wp_bind ..).mpr ?_
  apply wp_fileExists (.before (Touches.of_frame h₁.frame))
  · intro w₂ _ hD₂ hfs₂
    exact .refused (by decide) (Touches.of_frame (h₁.trans (hD₂.same hfs₂)).frame)
  · intro w₂ _ hD₂ hfs₂
    have h₂ := h₁.trans (hD₂.same hfs₂)
    rw [h₁.fs]
    cases hget : w.fs.get (place info.storage_path_) with
    | none => exact wp_eraseRecord_absent hapart h₂ hget
    | some file =>
      have htemps : ∀ p, TempPath A w₂.table (parentPath info.storage_path_) deletePrefix p →
          TempPath A w.table (parentPath info.storage_path_) deletePrefix p :=
        fun p hp => h₂.frame.table ▸ hp
      have hpaths : ∀ p, TempPath A w₂.table (parentPath info.storage_path_) deletePrefix p →
          DeletePath A cfg w.table info.storage_path_ p := fun p hp => Or.inl (htemps p hp)
      refine wp_seq wp_createTempFile
        (fun w' h' => .before (Touches.after h₂ (h'.mono hpaths))) ?_
      intro r w₃ hr
      cases r with
      | none =>
        exact .refused (by decide) (Touches.after h₂ (hr.mono fun p hp => ⟨hpaths p hp.1, hp.2⟩))
      | some trash =>
        obtain ⟨htemp, hfree, hf₃, i, hown⟩ := hr
        rw [h₂.fs] at hfree
        have hf₃ := (h₂.frame.mono (Set.empty_subset _)).trans hf₃
        have hpresent : w.fs.get (place info.storage_path_) ≠ none := by simp [hget]
        simp only
        rw [wp_bind]
        apply wp_unlink (.before (Touches.single hf₃ (hpaths _ htemp) hfree))
        · intro w₄ _ hD₄ hfs₄
          exact wp_moveToTrash hapart (htemps _ htemp) hfree (hf₃.trans (hD₄.quiet hfs₄ _))
            hpresent (Or.inl ⟨⟨i, hfs₄ ▸ hown⟩, hD₄.mem⟩)
        · intro w₄ _ hD₄ _ hfs₄
          have hdrop : ∀ k, w₄.fs.get k = if k = place trash then none else w₃.fs.get k :=
            fun k => by rw [hfs₄, FileSystem.get_dropEntry]
          refine wp_moveToTrash hapart (htemps _ htemp) hfree (hf₃.trans (hD₄.frame fun k hk => ?_))
            hpresent (Or.inr ?_)
          · rw [hdrop]
            exact if_neg hk
          · rw [hdrop, if_pos rfl]

theorem wp_deleteUrl_unknown (hinfo : w.table.lookup url = none) :
    wp (System A) (deleteUrl cfg libs url) (fun r w' => r.status ≠ 200 ∧ Same w w')
      (Same w) w := by
  unfold deleteUrl
  refine wp_seq wp_getOneByUrl (fun w' hs => hs) ?_
  rintro r w₁ ⟨rfl, h₁⟩
  rw [hinfo]
  exact ⟨by decide, h₁⟩

/-! ### Whatever names are made

Without `Apart` less is known of the record's own file, but the table and the
files that were there before fare the same.
-/

/-- Of the files that were there only the one at `path` may differ. -/
structure Kept (path : Bytes) (w w' : World) : Prop where
  files : ∀ k, w.fs.get k ≠ none → k ≠ place path → w'.fs.get k = w.fs.get k
  table : w'.table = w.table

theorem Kept.of_same {path : Bytes} {w' : World} (h : Same w w') : Kept path w w' :=
  ⟨fun _ _ _ => by rw [h.fs], h.frame.table⟩

theorem Kept.same {path : Bytes} {a b c : World} (h : Kept path a b) (h' : Same b c) :
    Kept path a c :=
  ⟨fun k hk hkp => by rw [h'.fs, h.files k hk hkp], h'.frame.table.trans h.table⟩

theorem Kept.touches {P : Bytes → Prop} {path : Bytes} {a b c : World} (h : Kept path a b)
    (h' : Touches P b c) : Kept path a c where
  files k hk hkp := by
    have hb := h.files k hk hkp
    rw [h'.old (hb ▸ hk), hb]
  table := h'.frame.table.trans h.table

theorem Kept.frame {path trash : Bytes} {a b c : World} (h : Kept path a b)
    (hfree : a.fs.get (place trash) = none) (hf : Frame {place path, place trash} b c) :
    Kept path a c where
  files k hk hkp := by
    have hkt : k ≠ place trash := fun he => hk (he ▸ hfree)
    rw [hf.files k fun hs => hs.elim hkp hkt, h.files k hk hkp]
  table := hf.table.trans h.table

theorem frame_of_rename {old new : Bytes} {w' : World} (hD : Did w (.fs (.rename old new)) true w')
    (hfs : w'.fs = w.fs.move (place old) (place new)) : Frame {place old, place new} w w' := by
  refine hD.frame fun k hk => ?_
  by_cases he : w.fs.entry (place old) = w.fs.entry (place new)
  · rw [hfs, FileSystem.move, if_pos he]
  · have hko : k ≠ place old := fun h => hk (Or.inl h)
    have hkn : k ≠ place new := fun h => hk (Or.inr h)
    rw [hfs, FileSystem.get_move he, if_neg hko, if_neg hkn]

/-- The same, once the snapshot without the record is written over an earlier one. -/
structure KeptErased (cfg : Config) (libs : Libs) (url path : Bytes) (w w' : World) : Prop where
  files : ∀ k, w.fs.get k ≠ none → k ≠ place path → k ≠ place cfg.storageInfo →
    w'.fs.get k = w.fs.get k
  written : w.fs.get (place cfg.storageInfo) ≠ none →
    ∃ body t, libs.json.write (tableJson (w.table.erase url)) = some body ∧
      w'.fs.get (place cfg.storageInfo) = some ⟨body, t⟩

theorem Kept.erased {path : Bytes} {b c : World} (h : Kept path w b)
    (hw : Written cfg libs.json (b.table.erase url) b c) : KeptErased cfg libs url path w c where
  files k hk hkp hks := (hw.files k hks).trans (h.files k hk hkp)
  written _ := by
    rw [← h.table]
    exact hw.written

theorem KeptErased.frame {path trash : Bytes} {b c : World} (h : KeptErased cfg libs url path w b)
    (hfree : w.fs.get (place trash) = none) (hf : Frame {place trash} b c) :
    KeptErased cfg libs url path w c where
  files k hk hkp hks := by
    have hkt : k ≠ place trash := fun he => hk (he ▸ hfree)
    rw [hf.files k hkt, h.files k hk hkp hks]
  written hs := by
    obtain ⟨body, t, hw, hget⟩ := h.written hs
    have hst : place cfg.storageInfo ≠ place trash := fun he => hs (he ▸ hfree)
    exact ⟨body, t, hw, (hf.files _ hst).trans hget⟩

/-- How a delete ends, whatever names are made. -/
def DeleteKeeps (cfg : Config) (libs : Libs) (url path : Bytes) (w w' : World) : Prop :=
  Kept path w w' ∨ w'.table = w.table.erase url ∧ KeptErased cfg libs url path w w'

/-- Where it may be interrupted. -/
def DeletingKeeps (cfg : Config) (libs : Libs) (url path : Bytes) (w w' : World) : Prop :=
  Kept path w w' ∨ (w'.table = w.table ∨ w'.table = w.table.erase url) ∧
    KeptErased cfg libs url path w w'

theorem wp_eraseRecord_keeps {path : Bytes} {trash : Option Bytes} {w₁ : World}
    (h : Kept path w w₁) (hfree : ∀ p, trash = some p → w.fs.get (place p) = none) :
    wp (System A) (eraseRecord cfg libs url path trash)
      (fun _ w' => DeleteKeeps cfg libs url path w w') (DeletingKeeps cfg libs url path w) w₁ := by
  have hrestore : ∀ {w₂ : World} {r : Response}, Kept path w w₂ →
      wp (System A) (do
          restoreTrash trash path
          return r) (fun _ w' => DeleteKeeps cfg libs url path w w')
        (DeletingKeeps cfg libs url path w) w₂ := by
    intro w₂ r h₂
    cases trash with
    | none => exact Or.inl h₂
    | some p =>
      unfold restoreTrash
      rw [wp_bind, wp_bind]
      apply wp_rename (Or.inl h₂)
      · intro w₃ _ hD hfs
        exact Or.inl (h₂.same (hD.same hfs))
      · intro w₃ _ hD _ hfs
        have hf := frame_of_rename hD hfs
        exact Or.inl (h₂.frame (hfree p rfl) (hf.mono fun _ hk => hk.symm))
  unfold eraseRecord
  refine wp_seq wp_dataDelete ?_ ?_
  · rintro w' (hs | ⟨-, ht | hp⟩)
    · exact Or.inl (h.same hs)
    · exact Or.inl (h.touches ht)
    · exact Or.inr ⟨Or.inl (hp.frame.table.trans h.table), h.erased hp.toWritten⟩
  · intro r w₂ hr
    obtain ⟨rfl, -, hs⟩ | ⟨rfl, -, hc⟩ | ⟨rfl, -, hl⟩ := hr
    · exact hrestore (h.same hs)
    · have he := h.erased hc.toWritten
      have htable : w₂.table = w.table.erase url := by rw [hc.table, h.table]
      simp only [ite_true]
      cases trash with
      | none => exact Or.inr ⟨htable, he⟩
      | some p =>
        refine wp_seq wp_emptyTrash (fun w' hf => Or.inr ?_) ?_
        · exact ⟨Or.inr (hf.table.trans htable), he.frame (hfree p rfl) hf⟩
        · rintro _ w' ⟨hf, -⟩
          exact Or.inr ⟨hf.table.trans htable, he.frame (hfree p rfl) hf⟩
    · exact hrestore (h.touches hl)

theorem wp_deleteUrl_keeps (hinfo : w.table.lookup url = some info) :
    wp (System A) (deleteUrl cfg libs url)
      (fun _ w' => DeleteKeeps cfg libs url info.storage_path_ w w')
      (DeletingKeeps cfg libs url info.storage_path_ w) w := by
  unfold deleteUrl
  refine wp_seq wp_getOneByUrl (fun w' hs => Or.inl (Kept.of_same hs)) ?_
  rintro r w₁ ⟨rfl, h₁⟩
  rw [hinfo]
  refine (wp_bind ..).mpr ?_
  apply wp_fileExists (Or.inl (Kept.of_same h₁))
  · intro w₂ _ hD₂ hfs₂
    exact Or.inl (Kept.of_same (h₁.trans (hD₂.same hfs₂)))
  · intro w₂ _ hD₂ hfs₂
    have h₂ := h₁.trans (hD₂.same hfs₂)
    have hk₂ : Kept info.storage_path_ w w₂ := Kept.of_same h₂
    cases (w₁.fs.get (place info.storage_path_)).isSome with
    | false => exact wp_eraseRecord_keeps hk₂ fun _ hp => by cases hp
    | true =>
      refine wp_seq wp_createTempFile (fun w' h' => Or.inl (hk₂.touches h')) ?_
      intro r w₃ hr
      cases r with
      | none => exact Or.inl (hk₂.touches hr)
      | some trash =>
        obtain ⟨-, hfree, hf₃, -⟩ := hr
        rw [h₂.fs] at hfree
        have hmono : ({place trash} : Set Key) ⊆ {place info.storage_path_, place trash} :=
          fun _ hk => Or.inr hk
        have hk₃ := hk₂.frame hfree (hf₃.mono hmono)
        have hmove : ∀ w₄, Kept info.storage_path_ w w₄ →
            wp (System A) (do
                if ← rename info.storage_path_ trash then
                  eraseRecord cfg libs url info.storage_path_ (some trash)
                else return internalError [] (lit "cannot move file to delete transaction"))
              (fun _ w' => DeleteKeeps cfg libs url info.storage_path_ w w')
              (DeletingKeeps cfg libs url info.storage_path_ w) w₄ := by
          intro w₄ hk₄
          rw [wp_bind]
          apply wp_rename (Or.inl hk₄)
          · intro w₅ _ hD₅ hfs₅
            exact Or.inl (hk₄.same (hD₅.same hfs₅))
          · intro w₅ _ hD₅ _ hfs₅
            refine wp_eraseRecord_keeps (hk₄.frame hfree (frame_of_rename hD₅ hfs₅)) ?_
            rintro p hp
            cases hp
            exact hfree
        simp only
        rw [wp_bind]
        apply wp_unlink (Or.inl hk₃)
        · intro w₄ _ hD₄ hfs₄
          exact hmove w₄ (hk₃.same (hD₄.same hfs₄))
        · intro w₄ _ hD₄ _ hfs₄
          refine hmove w₄ (hk₃.frame hfree ((hD₄.frame fun k hk => ?_).mono hmono))
          rw [hfs₄, FileSystem.get_dropEntry]
          exact if_neg hk

end CloudStorage
