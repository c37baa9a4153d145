import CloudStorage.Request

/-!
# Upload (`Service::Upload`)

The checks of the request are pure; what follows is a transaction: a temporary
in the storage directory, a hard link to the final name, a metadata insert. The
specification has two outcomes: the upload is stored and recorded, or nothing
but paths whose removal failed is left.
-/

namespace CloudStorage
open Posix Interact

def uploadPrefix : Bytes := lit ".upload-"

structure UploadArgs where
  filename : Bytes
  storageType : Bytes
  content : Bytes
  deriving DecidableEq, Repr

/-- The checks of the request; an error is the reply. -/
def checkUpload (cfg : Config) (request : Request) : Except Response UploadArgs :=
  match request.body with
  | none => .error (badRequest (lit "request body missing"))
  | some content =>
    if content.length = 0 then .error (badRequest (lit "empty files are not accepted"))
    else if content.length > cfg.maxUploadSize then
      .error (sendText [] 413 (lit "Payload Too Large") (lit "file too large"))
    else
      match request.findHeader (lit "FileName") with
      | none => .error (badRequest (lit "invalid FileName header"))
      | some header =>
        if header = [] ∨ header.length > 1024 then
          .error (badRequest (lit "invalid FileName header"))
        else
          match base64Decode header with
          | none => .error (badRequest (lit "invalid filename"))
          | some filename =>
            if !isSafeFileName filename then .error (badRequest (lit "invalid filename"))
            else
              match request.findHeader (lit "StorageType") with
              | none => .error (badRequest (lit "StorageType is required"))
              | some storageType =>
                if storageType = low ∨ storageType = deep then
                  .ok { filename, storageType, content }
                else .error (badRequest (lit "invalid storage type"))

namespace UploadArgs

def directory (a : UploadArgs) (cfg : Config) : Bytes := cfg.directory a.storageType

def url (a : UploadArgs) (cfg : Config) : Bytes := cfg.downloadPrefix ++ a.filename

def finalPath (a : UploadArgs) (cfg : Config) : Bytes := joinPath (a.directory cfg) a.filename

end UploadArgs

def uploaded : Response := sendText [] 201 (lit "Created") (lit "upload successful")

/-- The content goes to the temporary, packed for deep storage. -/
def writeUpload (cfg : Config) (libs : Libs) (a : UploadArgs) (temporary : Bytes) :
    Program Bool :=
  if a.storageType = low then setContent temporary a.content
  else compress libs.bundle temporary a.content cfg.bundleFormat

/-- The end of an upload, once the file has its final name. -/
def recordUpload (cfg : Config) (libs : Libs) (a : UploadArgs) : Program Response := do
  let final := a.finalPath cfg
  match ← newStorageInfo cfg final final a.storageType with
  | none =>
    let _ ← unlink final
    return internalError [] (lit "cannot read stored file metadata")
  | some info =>
    let result ← DataManager.insert cfg libs.json info
    if result ≠ .ok then
      let _ ← unlink final
      let _ ← syncDirectory (parentPath final)
      if result = .alreadyExists then return conflict
      else return internalError [] (lit "cannot persist upload metadata")
    else return uploaded

def storeUpload (cfg : Config) (libs : Libs) (a : UploadArgs) : Program Response := do
  match ← getOneByUrl (a.url cfg) with
  | some _ => return conflict
  | none =>
    if ← createDirectory (a.directory cfg) then
      if ← copyOut then
        match ← createTempFile (a.directory cfg) uploadPrefix with
        | none => return internalError [] (lit "cannot create upload temporary file")
        | some temporary =>
          if ← writeUpload cfg libs a temporary then
            match ← commitNoReplace temporary (a.finalPath cfg) with
            | .exists =>
              removeGuarded temporary
              return conflict
            | .failed =>
              removeGuarded temporary
              return internalError [] (lit "cannot commit upload")
            | .ok => recordUpload cfg libs a
          else
            removeGuarded temporary
            return internalError [] (lit "cannot store upload")
      else return internalError [] (lit "cannot read upload body")
    else return internalError [] (lit "cannot create storage directory")

/-- `Service::Upload`. -/
def upload (cfg : Config) (libs : Libs) (request : Request) : Program Response :=
  match checkUpload cfg request with
  | .error response => return response
  | .ok a => storeUpload cfg libs a

/-- What the checks establish. -/
structure UploadArgs.Checked (cfg : Config) (a : UploadArgs) : Prop where
  safe : isSafeFileName a.filename = true
  type : a.storageType = low ∨ a.storageType = deep
  content_ne : a.content ≠ []

theorem checkUpload_ok {cfg : Config} {request : Request} {a : UploadArgs}
    (h : checkUpload cfg request = .ok a) : a.Checked cfg ∧ request.body = some a.content := by
  unfold checkUpload at h
  split at h
  · cases h
  rename_i content hbody
  split at h
  · cases h
  rename_i hempty
  split at h
  · cases h
  split at h
  · cases h
  split at h
  · cases h
  split at h
  · cases h
  split at h
  · cases h
  rename_i hsafe
  split at h
  · cases h
  split at h
  · rename_i htype
    cases h
    exact ⟨⟨by simpa using hsafe, htype, fun hn => hempty (List.length_eq_zero_iff.mpr hn)⟩, hbody⟩
  · cases h

theorem checkUpload_error {cfg : Config} {request : Request} {r : Response}
    (h : checkUpload cfg request = .error r) : r.status ≠ 201 := by
  unfold checkUpload at h
  repeat' split at h
  all_goals cases h
  all_goals first
    | exact (by decide : (400 : Nat) ≠ 201)
    | exact (by decide : (413 : Nat) ≠ 201)

/-! ### Specification -/

variable {A : Assumption} {w : World} {cfg : Config} {libs : Libs} {a : UploadArgs}

/-- The bytes stored for a content. -/
def StoredAs (A : Assumption) (cfg : Config) (libs : Libs) (a : UploadArgs) (s : Bytes) : Prop :=
  if a.storageType = low then s = a.content
  else PackResult A libs.bundle cfg.bundleFormat a.content s

/-- The record of an upload whose file is `file`. -/
structure RecordOf (cfg : Config) (a : UploadArgs) (file : Inode) (info : StorageInfo) : Prop where
  mtime : info.mtime_ = file.mtime / second
  mtime_nonneg : 0 ≤ info.mtime_
  atime_nonneg : 0 ≤ info.atime_
  fsize : info.fsize_ = file.bytes.length
  path : info.storage_path_ = a.finalPath cfg
  url : info.url_ = cfg.downloadPrefix ++ fileName (a.finalPath cfg)
  type : info.storage_type_ = a.storageType

/-- The final name was linked, after the directory was there. -/
def Linked (A : Assumption) (cfg : Config) (a : UploadArgs) : Prop :=
  ∃ w temporary, A w (.fs (.link temporary (a.finalPath cfg))) .ok ∧
    ⟨.fs (.mkdirs (a.directory cfg)), true⟩ ∈ w.trace

/-- The paths an upload may make; the final one only if its URL is free. -/
def UploadPath (A : Assumption) (cfg : Config) (table : Table) (a : UploadArgs) (p : Bytes) :
    Prop :=
  TempPath A table (a.directory cfg) uploadPrefix p ∨
    (p = a.finalPath cfg ∧ a.url cfg ∉ table ∧ Linked A cfg a) ∨ SnapshotTemp A cfg table p

/-- The file has its final name, which was free; the metadata is as before. -/
structure Placed (A : Assumption) (cfg : Config) (libs : Libs) (a : UploadArgs) (file : Inode)
    (w w' : World) : Prop where
  unknown : a.url cfg ∉ w.table
  linked : Linked A cfg a
  frame : Frame {place (a.finalPath cfg)} w w'
  free : w.fs.get (place (a.finalPath cfg)) = none
  final : w'.fs.get (place (a.finalPath cfg)) = some file
  stored : StoredAs A cfg libs a file.bytes
  since : w.clock ≤ file.mtime
  until_ : file.mtime ≤ w'.clock

/-- The files once the snapshot with the new record is written. -/
structure Recorded (A : Assumption) (cfg : Config) (libs : Libs) (a : UploadArgs) (file : Inode)
    (info : StorageInfo) (w w' : World) : Prop where
  unknown : a.url cfg ∉ w.table
  linked : Linked A cfg a
  absent : info.url_ ∉ w.table
  free : w.fs.get (place (a.finalPath cfg)) = none
  record : RecordOf cfg a file info
  stored : StoredAs A cfg libs a file.bytes
  since : w.clock ≤ file.mtime
  until_ : file.mtime ≤ w'.clock
  files : ∀ k, k ≠ place (a.finalPath cfg) → k ≠ place cfg.storageInfo →
    w'.fs.get k = w.fs.get k
  final : place (a.finalPath cfg) ≠ place cfg.storageInfo →
    w'.fs.get (place (a.finalPath cfg)) = some file
  written : ∃ body t, libs.json.write (tableJson (w.table.insert info.url_ info)) = some body ∧
    w'.fs.get (place cfg.storageInfo) = some ⟨body, t⟩
  sessions : w'.sessions = w.sessions
  attempts : w'.attempts = w.attempts
  templates : w'.templates = w.templates
  trace : w.trace <+: w'.trace
  clock : w.clock ≤ w'.clock

/-- How an upload ends. -/
inductive UploadEffect (A : Assumption) (cfg : Config) (libs : Libs) (a : UploadArgs)
    (w : World) : Response → World → Prop
  | refused {r : Response} {w' : World} : r.status ≠ 201 →
      Leaves (UploadPath A cfg w.table a) w w' → UploadEffect A cfg libs a w r w'
  | stored {file : Inode} {info : StorageInfo} {w' : World} :
      Recorded A cfg libs a file info w w' → w'.table = w.table.insert info.url_ info →
      UploadEffect A cfg libs a w uploaded w'

/-- Where an upload may be interrupted. -/
inductive Uploading (A : Assumption) (cfg : Config) (libs : Libs) (a : UploadArgs)
    (w w' : World) : Prop
  | before : Touches (UploadPath A cfg w.table a) w w' → Uploading A cfg libs a w w'
  | after {file : Inode} {info : StorageInfo} : Recorded A cfg libs a file info w w' →
      w'.table = w.table → Uploading A cfg libs a w w'

theorem wp_newStorageInfo {path storageType : Bytes} :
    wp (System A) (newStorageInfo cfg path path storageType)
      (fun r w' => Same w w' ∧ ∀ info, r = some info →
        ∃ file, w.fs.get (place path) = some file ∧
          info.mtime_ = file.mtime / second ∧ 0 ≤ info.mtime_ ∧ 0 ≤ info.atime_ ∧
          info.fsize_ = file.bytes.length ∧ info.storage_path_ = path ∧
          info.url_ = cfg.downloadPrefix ++ fileName path ∧ info.storage_type_ = storageType)
      (Same w) w := by
  unfold newStorageInfo
  split
  · exact ⟨Same.refl w, fun _ h => by cases h⟩
  refine wp_seq wp_fileSize (fun _ h => h) ?_
  rintro size w₁ ⟨h₁, hsize⟩
  refine wp_seq wp_lastModifyTime (fun _ h => h₁.trans h) ?_
  rintro modified w₂ ⟨h₂, hmodified⟩
  have h₂ := h₁.trans h₂
  refine wp_seq wp_lastAccessTime (fun _ h => h₂.trans h) ?_
  rintro accessed w₃ h₃
  have h₃ := h₂.trans h₃
  split
  · exact ⟨h₃, fun _ h => by cases h⟩
  · rename_i hneg
    simp only [not_or, not_lt] at hneg
    refine ⟨h₃, fun info h => ?_⟩
    cases h
    obtain hs | ⟨file, hfile, rfl⟩ := hsize
    · exact absurd hneg.1 (by omega)
    obtain hm | ⟨file', hfile', rfl⟩ := hmodified
    · exact absurd hneg.2.1 (by omega)
    rw [h₁.fs, hfile] at hfile'
    cases hfile'
    exact ⟨file, hfile, rfl, hneg.2.1, hneg.2.2, by simp, rfl, rfl, rfl⟩

theorem Placed.pending {file : Inode} {w' : World} (h : Placed A cfg libs a file w w') :
    Pending (UploadPath A cfg w.table a) (a.finalPath cfg) w w' :=
  Pending.of_frame (Or.inr (Or.inl ⟨rfl, h.unknown, h.linked⟩)) h.free h.frame

theorem Placed.touches {file : Inode} {w' : World} (h : Placed A cfg libs a file w w') :
    Touches (UploadPath A cfg w.table a) w w' :=
  h.pending.touches

theorem Placed.recorded {file : Inode} {info : StorageInfo} {w₁ w' : World}
    (h : Placed A cfg libs a file w w₁) (hr : RecordOf cfg a file info)
    (habsent : info.url_ ∉ w₁.table)
    (hw : Written cfg libs.json (w₁.table.insert info.url_ info) w₁ w') :
    Recorded A cfg libs a file info w w' where
  unknown := h.unknown
  linked := h.linked
  absent := by
    rw [← h.frame.table]
    exact habsent
  free := h.free
  record := hr
  stored := h.stored
  since := h.since
  until_ := Int.le_trans h.until_ hw.clock
  files k hk hk' := (hw.files k hk').trans (h.frame.files k hk)
  final hne := (hw.files _ hne).trans h.final
  written := by
    rw [← h.frame.table]
    exact hw.written
  sessions := hw.sessions.trans h.frame.sessions
  attempts := hw.attempts.trans h.frame.attempts
  templates := hw.templates.trans h.frame.templates
  trace := h.frame.trace.trans hw.trace
  clock := Int.le_trans h.frame.clock hw.clock

theorem Placed.same {file : Inode} {w₁ w₂ : World} (h : Placed A cfg libs a file w w₁)
    (h₂ : Same w₁ w₂) : Placed A cfg libs a file w w₂ where
  unknown := h.unknown
  linked := h.linked
  frame := h.frame.same h₂
  free := h.free
  final := by rw [h₂.fs, h.final]
  stored := h.stored
  since := h.since
  until_ := Int.le_trans h.until_ h₂.frame.clock

theorem snapshotTemp_uploadPath {table : Table} {p : Bytes} (h : SnapshotTemp A cfg table p) :
    UploadPath A cfg table a p :=
  Or.inr (Or.inr h)

/-- The tail of a failed upload: the final name is removed and the directory synced. -/
theorem wp_undoUpload {β : Type} {rest : Program β} {Q : β → World → Prop}
    {C : World → Prop} {w₁ : World}
    (h : Pending (UploadPath A cfg w.table a) (a.finalPath cfg) w w₁)
    (hC : ∀ w', Touches (UploadPath A cfg w.table a) w w' → C w')
    (hf : ∀ w', Leaves (UploadPath A cfg w.table a) w w' → wp (System A) rest Q C w') :
    wp (System A) (do
      let _ ← unlink (a.finalPath cfg)
      let _ ← syncDirectory (parentPath (a.finalPath cfg))
      rest) Q C w₁ := by
  refine wp_seq (wp_unlink_pending h) (fun w' h' => hC _ (h' ▸ h.touches)) ?_
  intro _ w₂ h₂
  rw [wp_bind]
  refine wp_syncDir (hC _ (h₂.mono fun _ hq => hq.1)) fun _ w₃ _ hD hfs => ?_
  exact hf w₃ (h₂.trans (Touches.of_frame (hD.same hfs).frame) (hD.same hfs).frame.trace)

theorem wp_recordUpload {file : Inode} {w₁ : World} (h : Placed A cfg libs a file w w₁) :
    wp (System A) (recordUpload cfg libs a) (UploadEffect A cfg libs a w)
      (Uploading A cfg libs a w) w₁ := by
  unfold recordUpload
  refine wp_seq wp_newStorageInfo (fun w' h' => .before (h.same h').touches) ?_
  rintro r w₂ ⟨h₂, hr⟩
  have hp := h.same h₂
  cases r with
  | none =>
    refine wp_seq (wp_unlink_pending hp.pending) (fun w' h' => .before (h' ▸ hp.touches)) ?_
    exact fun _ w' h' => .refused (by decide) h'
  | some info =>
    obtain ⟨file', hfile', hmtime, hm, ha, hsize, hpath, hurl, htype⟩ := hr info rfl
    rw [h.final] at hfile'
    cases hfile'
    have hrecord : RecordOf cfg a file info := ⟨hmtime, hm, ha, hsize, hpath, hurl, htype⟩
    refine wp_seq wp_dataInsert (fun w' h' => ?_) ?_
    · obtain hs | ⟨habsent, ht | hc⟩ := h'
      · exact .before (hp.same hs).touches
      · refine .before (hp.touches.trans (ht.mono fun p hq => ?_))
        rw [← hp.frame.table]
        exact snapshotTemp_uploadPath hq
      · exact .after (hp.recorded hrecord habsent hc.toWritten)
          (hc.frame.table.trans hp.frame.table)
    · rintro r w₃ (⟨rfl, -, hs⟩ | ⟨rfl, habsent, hc⟩ | ⟨rfl, -, hl⟩)
      · refine wp_undoUpload (hp.same hs).pending (fun w' h' => .before h') fun w' h' => ?_
        exact .refused (by decide) h'
      · refine .stored (hp.recorded hrecord habsent hc.toWritten) ?_
        rw [hc.table, hp.frame.table]
      · have hl : Leaves (UploadPath A cfg w.table a) w₂ w₃ := hl.mono fun p hq => by
          rw [← hp.frame.table]
          exact ⟨snapshotTemp_uploadPath hq.1, hq.2⟩
        refine wp_undoUpload (hp.pending.leaves hl) (fun w' h' => .before h') fun w' h' => ?_
        exact .refused (by decide) h'

theorem wp_writeUpload {temporary : Bytes} {i : Nat} (h : w.fs.Owns (place temporary) i) :
    wp (System A) (writeUpload cfg libs a temporary)
      (fun ok w' => Frame {place temporary} w w' ∧ w'.fs.Owns (place temporary) i ∧
        (ok = true → ∃ file, StoredAs A cfg libs a file.bytes ∧
          w'.fs.get (place temporary) = some file ∧ w.clock ≤ file.mtime ∧
          file.mtime ≤ w'.clock))
      (fun w' => Frame {place temporary} w w') w := by
  unfold writeUpload
  split
  · rename_i hlow
    refine wp_mono (wp_setContent h) ?_ fun _ h' => h'
    rintro ok w' ⟨hf, ho, hok⟩
    refine ⟨hf, ho, fun he => ?_⟩
    obtain ⟨t, hget, hlo, hhi⟩ := hok he
    refine ⟨⟨a.content, t⟩, ?_, hget, hlo, hhi⟩
    rw [StoredAs, if_pos hlow]
  · rename_i hdeep
    refine wp_mono (wp_compress h) ?_ fun _ h' => h'
    rintro ok w' ⟨hf, ho, hok⟩
    refine ⟨hf, ho, fun he => ?_⟩
    obtain ⟨s, t, hs, hget, hlo, hhi⟩ := hok he
    refine ⟨⟨s, t⟩, ?_, hget, hlo, hhi⟩
    rw [StoredAs, if_neg hdeep]
    exact hs

/-- The temporary, new since `w`, has become the final file. -/
theorem placed_of_commit {temporary : Bytes} {file : Inode} {w₁ w₂ : World}
    (hunknown : a.url cfg ∉ w.table) (hlinked : Linked A cfg a)
    (hf₁ : Frame {place temporary} w w₁) (hnew : w.fs.get (place temporary) = none)
    (hget : w₁.fs.get (place temporary) = some file) (hstored : StoredAs A cfg libs a file.bytes)
    (hlo : w.clock ≤ file.mtime) (hhi : file.mtime ≤ w₁.clock)
    (hne : place (a.finalPath cfg) ≠ place temporary)
    (hfree : w₁.fs.get (place (a.finalPath cfg)) = none)
    (hf₂ : Frame {place temporary, place (a.finalPath cfg)} w₁ w₂)
    (hgone : w₂.fs.get (place temporary) = none)
    (hfinal : w₂.fs.get (place (a.finalPath cfg)) = w₁.fs.get (place temporary)) :
    Placed A cfg libs a file w w₂ where
  unknown := hunknown
  linked := hlinked
  frame := by
    have hf := (hf₁.mono fun _ h => Or.inl h).trans hf₂
    refine { hf with files := fun k hk => ?_ }
    by_cases hkt : k = place temporary
    · rw [hkt, hgone, hnew]
    · exact hf.files k fun h => h.elim hkt hk
  free := (hf₁.files _ hne).symm.trans hfree
  final := hfinal.trans hget
  stored := hstored
  since := hlo
  until_ := Int.le_trans hhi hf₂.clock

theorem wp_storeUpload :
    wp (System A) (storeUpload cfg libs a) (UploadEffect A cfg libs a w)
      (Uploading A cfg libs a w) w := by
  unfold storeUpload
  refine wp_seq wp_getOneByUrl (fun w' h' => .before (Touches.of_frame h'.frame)) ?_
  rintro r w₁ ⟨hlookup, h₁⟩
  cases r with
  | some info => exact .refused (by decide) (Touches.of_frame h₁.frame)
  | none =>
    have hunknown : a.url cfg ∉ w.table := AList.lookup_eq_none.mp hlookup.symm
    refine (wp_bind ..).mpr ?_
    refine wp_mkdirs (.before (Touches.of_frame h₁.frame)) fun made w₂ _ hD₂ hfs₂ => ?_
    have h₂ := h₁.trans (hD₂.same hfs₂)
    cases made with
    | false => exact .refused (by decide) (Touches.of_frame h₂.frame)
    | true =>
      simp only [ite_true]
      rw [wp_bind]
      refine wp_copyOut (.before (Touches.of_frame h₂.frame)) fun copied w₃ _ hD₃ hfs₃ => ?_
      have h₃ := h₂.trans (hD₃.same hfs₃)
      cases copied with
      | false => exact .refused (by decide) (Touches.of_frame h₃.frame)
      | true =>
        simp only [ite_true]
        have htemps : ∀ p, TempPath A w₃.table (a.directory cfg) uploadPrefix p →
            UploadPath A cfg w.table a p := fun p hp => Or.inl (h₃.frame.table ▸ hp)
        refine wp_seq wp_createTempFile
          (fun w' h' => .before (Touches.after h₃ (h'.mono htemps))) ?_
        intro r w₄ hr
        cases r with
        | none =>
          exact .refused (by decide) (Touches.after h₃ (hr.mono fun p hp => ⟨htemps p hp.1, hp.2⟩))
        | some temporary =>
          obtain ⟨htemp, hnew, hf₄', i, hown⟩ := hr
          have htemp := htemps _ htemp
          rw [h₃.fs] at hnew
          have hf₄ := (h₃.frame.mono (Set.empty_subset _)).trans hf₄'
          refine wp_seq (wp_writeUpload hown) (fun w' h' =>
            .before (Touches.single (hf₄.trans h') htemp hnew)) ?_
          rintro ok w₅ ⟨hf₅, hown₅, hok⟩
          have hf₅' := hf₄.trans hf₅
          have hpending := Pending.of_frame htemp hnew hf₅'
          cases ok with
          | false =>
            refine wp_seq (wp_removeGuarded hpending)
              (fun w' h' => .before (h' ▸ hpending.touches)) ?_
            exact fun _ w' h' => .refused (by decide) h'
          | true =>
            obtain ⟨file, hstored, hget, hlo, hhi⟩ := hok rfl
            have hpresent : w₅.fs.get (place temporary) ≠ none := by simp [hget]
            have hmade : ⟨.fs (.mkdirs (a.directory cfg)), true⟩ ∈ w₅.trace :=
              (hD₃.same hfs₃ |>.frame.trace.trans (hf₄'.trace.trans hf₅.trace)).subset hD₂.mem
            have hlinked : A w₅ (.fs (.link temporary (a.finalPath cfg))) .ok → Linked A cfg a :=
              fun hA => ⟨w₅, temporary, hA, hmade⟩
            simp only [ite_true]
            refine wp_seq (wp_commitNoReplace hpresent) ?_ ?_
            · rintro w' (hf | ⟨hA, hfree, hf, -⟩)
              · exact .before (Touches.single (hf₅'.trans (hf.mono (Set.empty_subset _))) htemp hnew)
              · have hne : place (a.finalPath cfg) ≠ place temporary :=
                  fun he => hpresent (he ▸ hfree)
                refine .before ⟨_, (hf₅'.mono fun _ h => Or.inl h).trans hf, ?_⟩
                rintro k (rfl | rfl)
                · exact ⟨temporary, htemp, rfl, hnew⟩
                · exact ⟨_, Or.inr (Or.inl ⟨rfl, hunknown, hlinked hA⟩), rfl,
                    (hf₅'.files _ hne).symm.trans hfree⟩
            · intro r w₆ hr
              cases r with
              | ok =>
                obtain ⟨hA, hne, hfree, hf₆, hgone, hfinal⟩ := hr
                exact wp_recordUpload (placed_of_commit hunknown (hlinked hA) hf₅'
                  hnew hget hstored (Int.le_trans hf₄.clock hlo) hhi hne hfree hf₆ hgone hfinal)
              | «exists» =>
                have hp₆ := Pending.of_frame htemp hnew
                  (hf₅'.trans (hr.2.mono (Set.empty_subset _)))
                refine wp_seq (wp_removeGuarded hp₆)
                  (fun w' h' => .before (h' ▸ hp₆.touches)) ?_
                exact fun _ w' h' => .refused (by decide) h'
              | failed =>
                have hp₆ := hpending.leaves (hr.mono fun p hp =>
                  ⟨hp.1.1 ▸ Or.inr (Or.inl ⟨rfl, hunknown, hlinked hp.1.2.1⟩), hp.2⟩)
                refine wp_seq (wp_removeGuarded hp₆)
                  (fun w' h' => .before (h' ▸ hp₆.touches)) ?_
                exact fun _ w' h' => .refused (by decide) h'

end CloudStorage
