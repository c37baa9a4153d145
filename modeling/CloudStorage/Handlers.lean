import CloudStorage.Access

/-!
# What the handlers of files leave alone

Upload, delete, download and the file list read and write table and files, but
neither the session store nor the login limiter.
-/

namespace CloudStorage
open Posix Interact

/-- Calls that write neither the session store nor the limiter. -/
def Call.Storage : Call → Prop
  | .storeSessions _ | .storeAttempts _ => False
  | _ => True

abbrev OnlyStorage {α : Type} (p : Program α) : Prop := Prog.Only Call.Storage p

variable {cfg : Config} {libs : Libs} {request : Request}

/-! ### Files -/

theorem storage_of_files {α : Type} {p : Program α} (hp : Prog.Only Call.OnFiles p) :
    OnlyStorage p := by
  refine only_mono hp fun c hc => ?_
  cases c <;> first | exact hc.elim | trivial

theorem storage_createTempFile (directory pre : Bytes) :
    OnlyStorage (createTempFile directory pre) := by
  unfold createTempFile
  split
  · exact only_pure _
  · refine only_bind (only_perform trivial) fun made => ?_
    split
    · refine only_bind (only_perform trivial) fun (temporary : Option (Bytes × Nat)) => ?_
      cases temporary with
      | none => exact only_pure _
      | some temporary =>
        refine only_bind (only_perform trivial) fun closed => ?_
        split
        · exact only_pure _
        · exact only_bind (only_perform trivial) fun _ => only_pure _
    · exact only_pure _

theorem storage_removeGuarded (path : Bytes) : OnlyStorage (removeGuarded path) :=
  only_bind (only_perform trivial) fun _ => only_pure _

theorem storage_commitNoReplace (temporary final : Bytes) :
    OnlyStorage (commitNoReplace temporary final) := by
  refine only_bind (only_perform trivial) fun (linked : LinkResult) => ?_
  cases linked with
  | ok =>
    refine only_bind (only_perform trivial) fun removed => ?_
    split
    · exact only_bind (only_perform trivial) fun _ => only_pure _
    · exact only_bind (only_perform trivial) fun _ => only_pure _
  | «exists» => exact only_pure _
  | failed => exact only_pure _

theorem storage_compress (path content : Bytes) (format : Nat) :
    OnlyStorage (compress libs.bundle path content format) := by
  unfold compress
  refine only_bind (p := pack libs.bundle format content) ?_ fun packed => ?_
  · unfold pack
    split
    · exact only_pure _
    · refine only_bind (only_perform trivial) fun (outcome : Outcome) => ?_
      cases outcome with
      | ok => exact only_pure _
      | failed => exact only_pure _
      | threw => exact only_pure _
  · cases packed with
    | none => exact only_pure _
    | some packed => exact storage_of_files (onFiles_setContent path packed)

theorem storage_unCompress (path outputPath : Bytes) :
    OnlyStorage (unCompress libs.bundle path outputPath) := by
  refine only_bind (storage_of_files (onFiles_getContent path)) fun packed => ?_
  cases packed with
  | none => exact only_pure _
  | some packed =>
    refine only_bind (p := unpack libs.bundle packed) ?_ fun unpacked => ?_
    · unfold unpack
      split
      · refine only_bind (only_perform trivial) fun (outcome : Outcome) => ?_
        cases outcome with
        | ok => exact only_pure _
        | failed => exact only_pure _
        | threw => exact only_pure _
      · exact only_pure _
    · cases unpacked with
      | none => exact only_pure _
      | some unpacked => exact storage_of_files (onFiles_setContent outputPath unpacked)

/-! ### The table -/

theorem storage_getOneByUrl (url : Bytes) : OnlyStorage (getOneByUrl url) :=
  only_bind (only_perform trivial) fun _ => only_pure _

theorem storage_getAll : OnlyStorage getAll :=
  only_bind (only_perform trivial) fun _ => only_pure _

theorem storage_persist (text : JsonText) (table : Table) : OnlyStorage (persist cfg text table) := by
  unfold persist
  split
  · exact only_pure _
  · refine only_bind (only_perform trivial) fun made => ?_
    split
    · refine only_bind (storage_createTempFile _ _) fun temporary => ?_
      cases temporary with
      | none => exact only_pure _
      | some temporary =>
        refine only_bind (storage_of_files (onFiles_setContent temporary _)) fun written => ?_
        split
        · refine only_bind (only_perform trivial) fun renamed => ?_
          split
          · exact only_bind (only_perform trivial) fun _ => only_pure _
          · exact only_bind (only_perform trivial) fun _ => only_pure _
        · exact only_bind (only_perform trivial) fun _ => only_pure _
    · exact only_pure _

theorem storage_dataInsert (text : JsonText) (info : StorageInfo) : OnlyStorage (DataManager.insert cfg text info) := by
  refine only_bind (only_perform trivial) fun (table : Table) => ?_
  split
  · exact only_pure _
  · refine only_bind (storage_persist text _) fun persisted => ?_
    split
    · exact only_bind (only_perform trivial) fun _ => only_pure _
    · exact only_pure _

theorem storage_dataDelete (text : JsonText) (url : Bytes) : OnlyStorage (DataManager.delete cfg text url) := by
  refine only_bind (only_perform trivial) fun (table : Table) => ?_
  split
  · exact only_pure _
  · refine only_bind (storage_persist text _) fun persisted => ?_
    split
    · exact only_bind (only_perform trivial) fun _ => only_pure _
    · exact only_pure _

/-! ### Handlers -/

theorem storage_newStorageInfo (actual final type : Bytes) :
    OnlyStorage (newStorageInfo cfg actual final type) := by
  unfold newStorageInfo
  split
  · exact only_pure _
  · refine only_bind (storage_of_files (onFiles_fileSize actual)) fun size => ?_
    refine only_bind (storage_of_files (onFiles_lastModifyTime actual)) fun modified => ?_
    refine only_bind (storage_of_files (onFiles_lastAccessTime actual)) fun accessed => ?_
    split
    · exact only_pure _
    · exact only_pure _

theorem storage_recordUpload (a : UploadArgs) : OnlyStorage (recordUpload cfg libs a) := by
  refine only_bind (storage_newStorageInfo _ _ _) fun info => ?_
  cases info with
  | none => exact only_bind (only_perform trivial) fun _ => only_pure _
  | some info =>
    refine only_bind (storage_dataInsert libs.json info) fun result => ?_
    split
    · refine only_bind (only_perform trivial) fun _ => ?_
      refine only_bind (only_perform trivial) fun _ => ?_
      split
      · exact only_pure _
      · exact only_pure _
    · exact only_pure _

theorem storage_storeUpload (a : UploadArgs) : OnlyStorage (storeUpload cfg libs a) := by
  refine only_bind (storage_getOneByUrl _) fun existing => ?_
  cases existing with
  | some existing => exact only_pure _
  | none =>
    refine only_bind (only_perform trivial) fun made => ?_
    split
    · refine only_bind (only_perform trivial) fun copied => ?_
      split
      · refine only_bind (storage_createTempFile _ _) fun temporary => ?_
        cases temporary with
        | none => exact only_pure _
        | some temporary =>
          refine only_bind (p := writeUpload cfg libs a temporary) ?_ fun stored => ?_
          · unfold writeUpload
            split
            · exact storage_of_files (onFiles_setContent temporary a.content)
            · exact storage_compress temporary a.content cfg.bundleFormat
          · split
            · refine only_bind (storage_commitNoReplace _ _) fun committed => ?_
              cases committed with
              | ok => exact storage_recordUpload a
              | «exists» => exact only_bind (storage_removeGuarded _) fun _ => only_pure _
              | failed => exact only_bind (storage_removeGuarded _) fun _ => only_pure _
            · exact only_bind (storage_removeGuarded _) fun _ => only_pure _
      · exact only_pure _
    · exact only_pure _

theorem storage_upload : OnlyStorage (upload cfg libs request) := by
  unfold upload
  split
  · exact only_pure _
  · exact storage_storeUpload _

theorem storage_dataDeleteRecord (url storagePath : Bytes) (trash : Option Bytes) :
    OnlyStorage (eraseRecord cfg libs url storagePath trash) := by
  refine only_bind (storage_dataDelete libs.json url) fun result => ?_
  split
  · refine only_bind (p := emptyTrash trash) ?_ fun _ => only_pure _
    cases trash with
    | none => exact only_pure _
    | some path =>
      refine only_bind (only_perform trivial) fun removed => ?_
      split
      · exact only_pure _
      · exact storage_removeGuarded path
  · refine only_bind (p := restoreTrash trash storagePath) ?_ fun _ => ?_
    · cases trash with
      | none => exact only_pure _
      | some path => exact only_bind (only_perform trivial) fun _ => only_pure _
    · split
      · exact only_pure _
      · exact only_pure _

theorem storage_delete : OnlyStorage (delete cfg libs request) := by
  unfold delete
  split
  · exact only_pure _
  · rename_i url _
    refine only_bind (storage_getOneByUrl url) fun info => ?_
    cases info with
    | none => exact only_pure _
    | some info =>
      refine only_bind (only_perform trivial) fun (present : Option Bool) => ?_
      match present with
      | none => exact only_pure _
      | some false => exact storage_dataDeleteRecord url _ none
      | some true =>
        refine only_bind (storage_createTempFile _ _) fun trash => ?_
        cases trash with
        | none => exact only_pure _
        | some trash =>
          refine only_bind (only_perform trivial) fun _ => ?_
          refine only_bind (only_perform trivial) fun moved => ?_
          split
          · exact storage_dataDeleteRecord url _ (some trash)
          · exact only_pure _

theorem storage_serveFile (info : StorageInfo) (path : Bytes) :
    OnlyStorage (serveFile libs request info path) := by
  refine only_bind (storage_of_files (onFiles_fileSize path)) fun size => ?_
  split
  · exact only_pure _
  dsimp only
  split
  · exact only_pure _
  split
  · exact only_pure _
  split
  · exact only_pure _
  · refine only_bind (only_perform trivial) fun (opened : Option Nat) => ?_
    cases opened with
    | none => exact only_pure _
    | some fd =>
      refine only_bind (only_perform trivial) fun (body : Option Bytes) => ?_
      cases body with
      | none => exact only_bind (only_perform trivial) fun _ => only_pure _
      | some body => exact only_pure _

theorem storage_download (url : Bytes) : OnlyStorage (download cfg libs request url) := by
  refine only_bind (storage_getOneByUrl url) fun info => ?_
  cases info with
  | none => exact only_pure _
  | some info =>
    simp only
    split
    · refine only_bind (storage_createTempFile _ _) fun temporary => ?_
      cases temporary with
      | none => exact only_pure _
      | some temporary =>
        refine only_bind (storage_unCompress _ _) fun unpacked => ?_
        split
        · refine only_bind (storage_serveFile info temporary) fun response => ?_
          exact only_bind (storage_removeGuarded temporary) fun _ => only_pure _
        · exact only_bind (storage_removeGuarded temporary) fun _ => only_pure _
    · exact storage_serveFile info _

theorem storage_listFiles : OnlyStorage (listFiles libs) := by
  refine only_bind storage_getAll fun files => ?_
  refine only_bind (only_perform trivial) fun (order : List Nat) => ?_
  refine only_bind (only_perform trivial) fun (content : Option Bytes) => ?_
  cases content with
  | none => exact only_pure _
  | some content =>
    simp only
    split
    · exact only_pure _
    · exact only_pure _

/-! ### What they keep -/

/-- Sessions and limiter are as before. -/
structure SameGuests (w w' : World) : Prop where
  sessions : w'.sessions = w.sessions
  attempts : w'.attempts = w.attempts
  clock : w.clock ≤ w'.clock

theorem wp_onlyStorage {A : Assumption} {w : World} {α : Type} {p : Program α} (hp : OnlyStorage p) :
    wp (System A) p (fun _ => SameGuests w) (SameGuests w) w := by
  refine wp_only hp (fun c w₁ r w₂ hc h ha => ?_) ⟨rfl, rfl, Int.le_refl _⟩
  obtain ⟨-, ch, hanswer⟩ := ha
  obtain ⟨rfl, rfl⟩ := Prod.mk.injEq .. ▸ hanswer
  have hclock : w.clock ≤ max w₁.clock ch.now := Int.le_trans h.clock (Int.le_max_left ..)
  cases c <;> first
    | exact hc.elim
    | exact ⟨h.sessions, h.attempts, hclock⟩

end CloudStorage
