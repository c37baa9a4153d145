import CloudStorage.Config
import CloudStorage.FileSpecs

/-!
# The metadata (`DataManager.cpp`)

The table of records, its text in the metadata file, and the operations on both.
A mutation copies the table, writes the next table to a temporary beside the
metadata file, renames it over that file and then swaps the table in memory.
-/

namespace CloudStorage
open Posix Interact

def low : Bytes := lit "low"
def deep : Bytes := lit "deep"

/-- The directory configured for a storage type. -/
def Config.directory (cfg : Config) (storageType : Bytes) : Bytes :=
  if storageType = deep then cfg.deepStorageDir else cfg.lowStorageDir

theorem Config.Checked.directory_ne {cfg : Config} (hcfg : cfg.Checked)
    (storageType : Bytes) : cfg.directory storageType ≠ [] := by
  unfold Config.directory
  split
  · exact hcfg.deep_ne
  · exact hcfg.low_ne

inductive DataResult
  | ok
  | notFound
  | alreadyExists
  | persistFailed
  deriving DecidableEq, Repr

/-- `StorageInfo::NewStorageInfo`. -/
def newStorageInfo (cfg : Config) (actualPath finalPath storageType : Bytes) :
    Program (Option StorageInfo) := do
  if storageType ≠ low ∧ storageType ≠ deep then return none
  else
    let size ← fileSize actualPath
    let modified ← lastModifyTime actualPath
    let accessed ← lastAccessTime actualPath
    if size < 0 ∨ modified < 0 ∨ accessed < 0 then return none
    else return some {
      mtime_ := modified
      atime_ := accessed
      fsize_ := size.toNat
      storage_path_ := finalPath
      url_ := cfg.downloadPrefix ++ fileName finalPath
      storage_type_ := storageType }

/-! ### Loading -/

/-- The storage type of a record without a `storage_type_` text. -/
def inferredType (cfg : Config) (storagePath : Bytes) : Bytes :=
  if normal (parse (parentString storagePath)) = normal (parse cfg.deepStorageDir) then deep
  else low

/-- The checks of `ParseStorageInfo` on the members of an object. -/
def parseMembers (cfg : Config) (path url size mtime atime type : Json) (hasType : Bool) :
    Option StorageInfo :=
  if !path.isString || !url.isString || path.asString.isEmpty || url.asString.isEmpty ||
      !(size.isUInt64 || size.isInt64) || !mtime.isInt64 || !atime.isInt64 then none
  else
    let signedSize := if size.isInt64 then size.asWhole else 0
    if (size.isInt64 = true ∧ signedSize < 0) ∨ mtime.asWhole < 0 ∨ atime.asWhole < 0 then none
    else
      let info : StorageInfo := {
        fsize_ := if size.isUInt64 then size.asWhole.toNat else signedSize.toNat
        mtime_ := mtime.asWhole
        atime_ := atime.asWhole
        storage_path_ := path.asString
        url_ := url.asString
        storage_type_ :=
          if hasType && type.isString then type.asString else inferredType cfg path.asString }
      if info.storage_type_ ≠ low ∧ info.storage_type_ ≠ deep then none
      else
        let storagePath := normal (parse info.storage_path_)
        let expectedParent := normal (parse (cfg.directory info.storage_type_))
        if filename storagePath = [] ∨ parent storagePath ≠ expectedParent then none
        else if info.url_ = cfg.downloadPrefix ++ filename storagePath then some info
        else none

def parseStorageInfo (cfg : Config) (value : Json) : Option StorageInfo :=
  if !value.isObject then none
  else parseMembers cfg (value.member (lit "storage_path_")) (value.member (lit "url_"))
    (value.member (lit "fsize_")) (value.member (lit "mtime_")) (value.member (lit "atime_"))
    (value.member (lit "storage_type_")) (value.isMember (lit "storage_type_"))

/-- The loop of `InitLoad`. -/
def loadItems (cfg : Config) : List Json → Table → Option Table
  | [], loaded => some loaded
  | value :: values, loaded =>
    match parseStorageInfo cfg value with
    | none => none
    | some info =>
      if info.url_ ∈ loaded then none
      else loadItems cfg values (loaded.insert info.url_ info)

/-- The table a metadata text stands for. -/
def loadBody (cfg : Config) (text : JsonText) (body : Bytes) : Option Table :=
  match text.parse body with
  | .error _ => none
  | .ok root =>
    if root.isNull then some ∅
    else if !root.isArray then none
    else loadItems cfg root.items ∅

/-- `InitLoad`, on a process whose `table_` is empty. -/
def initLoad (cfg : Config) (text : JsonText) : Program Bool := do
  match ← fileExists cfg.storageInfo with
  | some true =>
    match ← getContent cfg.storageInfo with
    | none => return false
    | some body =>
      match loadBody cfg text body with
      | none => return false
      | some loaded =>
        swapTable loaded
        return true
  -- an error of the existence check counts as absence
  | _ => return true

/-! ### Mutation -/

def recordJson (info : StorageInfo) : Json := .obj [
  (lit "mtime_", .int info.mtime_),
  (lit "atime_", .int info.atime_),
  (lit "fsize_", .int info.fsize_),
  (lit "url_", .str info.url_),
  (lit "storage_path_", .str info.storage_path_),
  (lit "storage_type_", .str info.storage_type_)]

def tableJson (table : Table) : Json := .arr (table.entries.map fun entry => recordJson entry.2)

def storagePrefix : Bytes := lit ".storage-"

def persist (cfg : Config) (text : JsonText) (table : Table) : Program Bool := do
  match text.write (tableJson table) with
  | none => return false
  | some body =>
    let directory := parentPath cfg.storageInfo
    if ← createDirectory directory then
      match ← createTempFile directory storagePrefix with
      | none => return false
      | some temporary =>
        if ← setContent temporary body then
          if ← rename temporary cfg.storageInfo then
            let _ ← syncDirectory directory
            return true
          else
            let _ ← unlink temporary
            return false
        else
          let _ ← unlink temporary
          return false
    else return false

/-- `DataManager::Insert`; it runs under `mutation_mutex_`. -/
def DataManager.insert (cfg : Config) (text : JsonText) (info : StorageInfo) : Program DataResult := do
  let table ← loadTable
  if info.url_ ∈ table then return .alreadyExists
  else
    let next := table.insert info.url_ info
    if ← persist cfg text next then
      swapTable next
      return .ok
    else return .persistFailed

/-- `DataManager::Delete`; it runs under `mutation_mutex_`. -/
def DataManager.delete (cfg : Config) (text : JsonText) (url : Bytes) : Program DataResult := do
  let table ← loadTable
  if url ∉ table then return .notFound
  else
    let next := table.erase url
    if ← persist cfg text next then
      swapTable next
      return .ok
    else return .persistFailed

def getOneByUrl (url : Bytes) : Program (Option StorageInfo) := do
  let table ← loadTable
  return table.lookup url

def getAll : Program (List StorageInfo) := do
  let table ← loadTable
  return table.entries.map fun entry => entry.2

/-! ### Specifications -/

variable {A : Assumption} {w : World} {cfg : Config} {text : JsonText}

/-- The names `Persist` may give its temporary. -/
abbrev SnapshotTemp (A : Assumption) (cfg : Config) (table : Table) : Bytes → Prop :=
  TempPath A table (parentPath cfg.storageInfo) storagePrefix

/-- The metadata file holds the complete text of `table`; nothing else differs. -/
structure Persisted (cfg : Config) (text : JsonText) (table : Table) (w w' : World) : Prop where
  frame : Frame {place cfg.storageInfo} w w'
  written : ∃ body t, text.write (tableJson table) = some body ∧
    w'.fs.get (place cfg.storageInfo) = some ⟨body, t⟩

theorem Persisted.same {table : Table} {a b c : World} (h : Persisted cfg text table a b)
    (h' : Same b c) : Persisted cfg text table a c :=
  ⟨h.frame.same h', by rw [h'.fs]; exact h.written⟩

theorem persisted_of_move {table : Table} {p body : Bytes} {i : Nat} {t : Int} {w₁ w₂ : World}
    (hf : Frame {place p} w w₁) (hnew : w.fs.get (place p) = none)
    (hown : w₁.fs.Owns (place p) i) (hbody : w₁.fs.get (place p) = some ⟨body, t⟩)
    (hw : text.write (tableJson table) = some body)
    (hD : Did w₁ (.fs (.rename p cfg.storageInfo)) true w₂)
    (hfs : w₂.fs = w₁.fs.move (place p) (place cfg.storageInfo)) :
    Persisted cfg text table w w₂ := by
  by_cases he : w₁.fs.entry (place p) = w₁.fs.entry (place cfg.storageInfo)
  · -- the temporary got the name of the metadata file itself
    have hsame : w₂.fs = w₁.fs := by rw [hfs, FileSystem.move, if_pos he]
    have hplace : place cfg.storageInfo = place p := hown.only _ (he ▸ hown.named)
    refine ⟨?_, body, t, hw, ?_⟩
    · rw [hplace]
      exact hf.trans (hD.quiet hsame _)
    · rw [hsame, hplace, hbody]
  · have hne : place cfg.storageInfo ≠ place p := fun h => he (by rw [h])
    refine ⟨?_, body, t, hw, ?_⟩
    · have hf' : Frame {place p, place cfg.storageInfo} w w₂ :=
        (hf.mono fun _ h => Or.inl h).trans
          (hD.frame fun k hk => by
            have hkp : k ≠ place p := fun h => hk (Or.inl h)
            have hks : k ≠ place cfg.storageInfo := fun h => hk (Or.inr h)
            rw [hfs, FileSystem.get_move he, if_neg hkp, if_neg hks])
      refine { hf' with files := fun k hk => ?_ }
      by_cases hkp : k = place p
      · rw [hfs, FileSystem.get_move he, if_pos hkp, hkp, hnew]
      · exact hf'.files k fun h => h.elim hkp hk
    · rw [hfs, FileSystem.get_move he, if_neg hne, if_pos rfl, hbody]

/-- `Persist` leaves at most its temporary until the rename commits the whole text. -/
theorem committing_persist {table : Table} :
    committing (System A)
      (fun p w₁ => wp (System A) p (fun ok w' => ok = true ∧ Persisted cfg text table w w')
        (Persisted cfg text table w) w₁)
      (persist cfg text table)
      (fun ok w' => ok = false ∧ Leaves (SnapshotTemp A cfg w.table) w w')
      (Touches (SnapshotTemp A cfg w.table) w) w := by
  unfold persist
  split
  · exact ⟨rfl, Touches.refl _ w⟩
  · rename_i body hbody
    refine committing_seq (wp_mkdirs (Touches.refl _ w) fun made w₁ _ hD₁ hfs₁ => hD₁.same hfs₁)
      (fun _ h' => h') ?_
    intro made w₁ h₁
    cases made with
    | false => exact ⟨rfl, Touches.of_frame h₁.frame⟩
    | true =>
      simp only [ite_true]
      refine committing_seq wp_createTempFile (fun w' h' => ?_) ?_
      · rw [← h₁.frame.table]
        exact (Touches.of_frame h₁.frame).trans h'
      · rintro r w₂ hr
        rw [h₁.frame.table] at hr
        cases r with
        | none => exact ⟨rfl, (Touches.of_frame h₁.frame).trans hr⟩
        | some p =>
          obtain ⟨htemp, hnew, hf₂, i, hown⟩ := hr
          rw [h₁.fs] at hnew
          have hf₂ : Frame {place p} w w₂ := (h₁.frame.mono (Set.empty_subset _)).trans hf₂
          refine committing_seq (wp_setContent hown)
            (fun w' h' => Touches.single (hf₂.trans h') htemp hnew) ?_
          rintro ok w₃ ⟨hf₃, hown₃, hok⟩
          have hf₃ := hf₂.trans hf₃
          have htouch : Touches (SnapshotTemp A cfg w.table) w w₃ :=
            Touches.single hf₃ htemp hnew
          cases ok with
          | false =>
            simp only [Bool.false_eq_true, ite_false]
            refine committing_seq (wp_unlink_new hf₃ hnew) (fun w' h' => h' ▸ htouch) ?_
            exact fun _ w' h' => ⟨rfl, h'.mono fun q hq => ⟨hq.1 ▸ htemp, hq.2⟩⟩
          | true =>
            obtain ⟨t, hget, -⟩ := hok rfl
            simp only [ite_true]
            apply committing_call
            apply wp_rename htouch
            · intro w₄ _ hD₄ hfs₄
              left
              have hf₄ := hf₃.trans (hD₄.quiet hfs₄ _)
              simp only [Bool.false_eq_true, ite_false]
              refine committing_seq (wp_unlink_new hf₄ hnew)
                (fun w' h' => h' ▸ Touches.single hf₄ htemp hnew) ?_
              exact fun _ w' h' => ⟨rfl, h'.mono fun q hq => ⟨hq.1 ▸ htemp, hq.2⟩⟩
            · intro w₄ _ hD₄ _ hfs₄
              right
              have hp := persisted_of_move hf₃ hnew hown₃ hget hbody hD₄ hfs₄
              simp only [ite_true]
              rw [wp_bind]
              refine wp_syncDir hp fun _ w₅ _ hD₅ hfs₅ => ?_
              exact ⟨rfl, hp.same (hD₅.same hfs₅)⟩

theorem wp_persist {table : Table} :
    wp (System A) (persist cfg text table)
      (fun ok w' => if ok then Persisted cfg text table w w'
        else Leaves (SnapshotTemp A cfg w.table) w w')
      (fun w' => Touches (SnapshotTemp A cfg w.table) w w' ∨ Persisted cfg text table w w') w := by
  refine wp_mono (wp_of_committing committing_persist) ?_ fun _ h => h
  rintro ok w' (⟨rfl, hl⟩ | ⟨rfl, hp⟩)
  · exact hl
  · exact hp

/-- The metadata file has gone over to `next`; of the files and the memory but for
`table_` nothing else differs. -/
structure Written (cfg : Config) (text : JsonText) (next : Table) (w w' : World) : Prop where
  files : ∀ k, k ≠ place cfg.storageInfo → w'.fs.get k = w.fs.get k
  written : ∃ body t, text.write (tableJson next) = some body ∧
    w'.fs.get (place cfg.storageInfo) = some ⟨body, t⟩
  sessions : w'.sessions = w.sessions
  attempts : w'.attempts = w.attempts
  templates : w'.templates = w.templates
  trace : w.trace <+: w'.trace
  clock : w.clock ≤ w'.clock

/-- So has `table_`. -/
structure Committed (cfg : Config) (text : JsonText) (next : Table) (w w' : World) : Prop
    extends Written cfg text next w w' where
  table : w'.table = next

theorem Persisted.toWritten {next : Table} {w w' : World} (h : Persisted cfg text next w w') :
    Written cfg text next w w' :=
  ⟨h.frame.files, h.written, h.frame.sessions, h.frame.attempts, h.frame.templates,
    h.frame.trace, h.frame.clock⟩

theorem Written.after {next : Table} {a b c : World} (h : Same a b)
    (h' : Written cfg text next b c) : Written cfg text next a c where
  files k hk := by rw [h'.files k hk, h.fs]
  written := h'.written
  sessions := h'.sessions.trans h.frame.sessions
  attempts := h'.attempts.trans h.frame.attempts
  templates := h'.templates.trans h.frame.templates
  trace := h.frame.trace.trans h'.trace
  clock := Int.le_trans h.frame.clock h'.clock

theorem Committed.after {next : Table} {a b c : World} (h : Same a b)
    (h' : Committed cfg text next b c) : Committed cfg text next a c :=
  ⟨h'.toWritten.after h, h'.table⟩

/-- Where a mutation towards `next` may be interrupted. -/
def Mutating (A : Assumption) (cfg : Config) (text : JsonText) (next : Table) (w w' : World) :
    Prop :=
  Touches (SnapshotTemp A cfg w.table) w w' ∨ Persisted cfg text next w w'

theorem Touches.after {P : Bytes → Prop} {a b c : World} (h : Same a b) (h' : Touches P b c) :
    Touches P a c :=
  (Touches.of_frame h.frame).trans h'

theorem Persisted.after {next : Table} {a b c : World} (h : Same a b)
    (h' : Persisted cfg text next b c) : Persisted cfg text next a c :=
  ⟨(h.frame.mono (Set.empty_subset _)).trans h'.frame, h'.written⟩

theorem Mutating.after {next : Table} {a b c : World} (h : Same a b)
    (h' : Mutating A cfg text next b c) : Mutating A cfg text next a c := by
  rw [Mutating, ← h.frame.table]
  exact h'.imp (Touches.after h) (Persisted.after h)

/-- What both mutations end with. -/
def commit (cfg : Config) (text : JsonText) (next : Table) : Program DataResult := do
  if ← persist cfg text next then
    swapTable next
    return .ok
  else return .persistFailed

/-- Past the rename: the swap is still to come, and nothing else can be returned. -/
def Swapping (A : Assumption) (cfg : Config) (text : JsonText) (next : Table) (w : World)
    (p : Program DataResult) : World → Prop :=
  wp (System A) p (fun r w' => r = .ok ∧ Committed cfg text next w w') (Persisted cfg text next w)

theorem committing_commit {next : Table} :
    committing (System A) (Swapping A cfg text next w) (commit cfg text next)
      (fun r w' => r = .persistFailed ∧ Leaves (SnapshotTemp A cfg w.table) w w')
      (Touches (SnapshotTemp A cfg w.table) w) w := by
  have hswap : ∀ w₁, Persisted cfg text next w w₁ →
      wp (System A) (swapTable next >>= fun _ => pure DataResult.ok)
        (fun r w' => r = .ok ∧ Committed cfg text next w w') (Persisted cfg text next w) w₁ := by
    intro w₁ hp
    rw [wp_bind]
    refine wp_swapTable hp fun w₂ hfs htable hs ha ht htr hc => ?_
    have hf := hp.frame
    refine ⟨rfl, ⟨?_, ?_, hs.trans hf.sessions, ha.trans hf.attempts,
      ht.trans hf.templates, hf.trace.trans htr, Int.le_trans hf.clock hc⟩, htable⟩
    · intro k hk
      rw [hfs]
      exact hf.files k hk
    · rw [hfs]
      exact hp.written
  refine committing_bind committing_persist (fun _ h => h) ?_ ?_
  · intro p w₁ hp
    refine wp_seq hp (fun _ h => h) ?_
    rintro ok w₂ ⟨rfl, hp⟩
    exact hswap w₂ hp
  · rintro ok w₁ ⟨rfl, hl⟩
    exact ⟨rfl, hl⟩

theorem wp_commit {next : Table} :
    wp (System A) (commit cfg text next)
      (fun r w' => r = .ok ∧ Committed cfg text next w w' ∨
        r = .persistFailed ∧ Leaves (SnapshotTemp A cfg w.table) w w')
      (Mutating A cfg text next w) w :=
  wp_mono (wp_of_committing committing_commit) (fun _ _ => Or.symm) fun _ h => h

theorem wp_dataInsert {info : StorageInfo} :
    wp (System A) (DataManager.insert cfg text info)
      (fun r w' =>
        r = .alreadyExists ∧ info.url_ ∈ w.table ∧ Same w w' ∨
        r = .ok ∧ info.url_ ∉ w.table ∧
          Committed cfg text (w.table.insert info.url_ info) w w' ∨
        r = .persistFailed ∧ info.url_ ∉ w.table ∧ Leaves (SnapshotTemp A cfg w.table) w w')
      (fun w' => Same w w' ∨
        info.url_ ∉ w.table ∧ Mutating A cfg text (w.table.insert info.url_ info) w w') w := by
  unfold DataManager.insert
  rw [wp_bind]
  refine wp_loadTable (Or.inl (Same.refl w)) fun w₁ hD hfs => ?_
  have h₁ := hD.same hfs
  split
  · rename_i hmem
    exact Or.inl ⟨rfl, hmem, h₁⟩
  · rename_i hmem
    refine wp_mono wp_commit ?_ fun w' h' => Or.inr ⟨hmem, Mutating.after h₁ h'⟩
    rintro r w' (⟨rfl, hc⟩ | ⟨rfl, hl⟩)
    · exact Or.inr (Or.inl ⟨rfl, hmem, Committed.after h₁ hc⟩)
    · rw [h₁.frame.table] at hl
      exact Or.inr (Or.inr ⟨rfl, hmem, Touches.after h₁ hl⟩)

theorem wp_dataDelete {url : Bytes} :
    wp (System A) (DataManager.delete cfg text url)
      (fun r w' =>
        r = .notFound ∧ url ∉ w.table ∧ Same w w' ∨
        r = .ok ∧ url ∈ w.table ∧ Committed cfg text (w.table.erase url) w w' ∨
        r = .persistFailed ∧ url ∈ w.table ∧ Leaves (SnapshotTemp A cfg w.table) w w')
      (fun w' => Same w w' ∨
        url ∈ w.table ∧ Mutating A cfg text (w.table.erase url) w w') w := by
  unfold DataManager.delete
  rw [wp_bind]
  refine wp_loadTable (Or.inl (Same.refl w)) fun w₁ hD hfs => ?_
  have h₁ := hD.same hfs
  split
  · rename_i hmem
    exact Or.inl ⟨rfl, hmem, h₁⟩
  · rename_i hmem
    have hmem : url ∈ w.table := not_not.mp hmem
    refine wp_mono wp_commit ?_ fun w' h' => Or.inr ⟨hmem, Mutating.after h₁ h'⟩
    rintro r w' (⟨rfl, hc⟩ | ⟨rfl, hl⟩)
    · exact Or.inr (Or.inl ⟨rfl, hmem, Committed.after h₁ hc⟩)
    · rw [h₁.frame.table] at hl
      exact Or.inr (Or.inr ⟨rfl, hmem, Touches.after h₁ hl⟩)

theorem wp_getOneByUrl {url : Bytes} :
    wp (System A) (getOneByUrl url) (fun r w' => r = w.table.lookup url ∧ Same w w')
      (Same w) w := by
  unfold getOneByUrl
  rw [wp_bind]
  exact wp_loadTable (Same.refl w) fun w' hD hfs => ⟨rfl, hD.same hfs⟩

theorem wp_getAll :
    wp (System A) getAll
      (fun files w' => files = w.table.entries.map (fun entry => entry.2) ∧ Same w w')
      (fun _ => True) w := by
  unfold getAll
  rw [wp_bind]
  exact wp_loadTable trivial fun w' hD hfs => ⟨rfl, hD.same hfs⟩

end CloudStorage
