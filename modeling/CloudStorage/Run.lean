import CloudStorage.Upload
import CloudStorage.Delete
import CloudStorage.Download

/-!
# Runs of the server

The event loop handles one request at a time. A request that stores, removes or
reads a file is an `Op`; a run is a sequence of complete handlings. Every
handling changes the table by one insertion, one removal, or not at all.
-/

namespace CloudStorage
open Posix Interact

inductive Op
  | upload (request : Request)
  | delete (request : Request)
  | download (request : Request) (url : Bytes)

def serve (cfg : Config) (libs : Libs) : Op → Program Response
  | .upload request => upload cfg libs request
  | .delete request => delete cfg libs request
  | .download request url => download cfg libs request url

abbrev Log := List (Op × Response)

/-- The requests of the log are handled from `w` to `w'`. -/
abbrev ServerRun (A : Assumption) (cfg : Config) (libs : Libs) : World → Log → World → Prop :=
  Served (System A) (serve cfg libs)

/-- The requests of a client; the name of an uploaded file is sent in base64. -/
def uploadOf (header storageType content : Bytes) : Request where
  method := .post
  findHeader := findIn [(lit "FileName", header), (lit "StorageType", storageType)]
  body := some content

def deleteOf (url : Bytes) : Request where
  method := .post
  findHeader := findIn [(lit "DeleteUrl", url)]

/-- Requests served with answers the assumption admits. -/
def serveUnder (A : Assumption) [∀ w c r, Decidable (A w c r)] (cfg : Config) (libs : Libs)
    (requests : List (Op × List Choice)) (w : World) : Option (Log × World) :=
  playAll answer A.test (serve cfg libs) requests w

theorem serveUnder_run {A : Assumption} [∀ w c r, Decidable (A w c r)] {cfg : Config}
    {libs : Libs} {requests : List (Op × List Choice)} {w w' : World} {log : Log}
    (h : serveUnder A cfg libs requests w = some (log, w')) : ServerRun A cfg libs w log w' :=
  playAll_served A.test_answer h

/-- What one request does to the table. -/
inductive TableStep (A : Assumption) (cfg : Config) (table : Table) : Table → Prop
  | unchanged : TableStep A cfg table table
  | inserted {a : UploadArgs} {file : Inode} {info : StorageInfo} : a.Checked cfg →
      RecordOf cfg a file info → Linked A cfg a → info.url_ ∉ table →
      TableStep A cfg table (table.insert info.url_ info)
  | erased (url : Bytes) : TableStep A cfg table (table.erase url)

variable {A : Assumption} {w : World} {cfg : Config} {libs : Libs}

/-- The records' files are not the metadata file. -/
def Outside (cfg : Config) (table : Table) : Prop :=
  ∀ url info, table.lookup url = some info → place info.storage_path_ ≠ place cfg.storageInfo

/-- A snapshot that was there stays with its table, or is replaced by the complete
text of the next table. -/
def SnapshotStep (cfg : Config) (libs : Libs) (w w' : World) : Prop :=
  w.fs.get (place cfg.storageInfo) ≠ none →
    w'.table = w.table ∧
        w'.fs.get (place cfg.storageInfo) = w.fs.get (place cfg.storageInfo) ∨
      ∃ body t, libs.json.write (tableJson w'.table) = some body ∧
        w'.fs.get (place cfg.storageInfo) = some ⟨body, t⟩

/-- One request from the point of view of the metadata. -/
structure MetaStep (A : Assumption) (cfg : Config) (libs : Libs) (w w' : World) : Prop where
  table : TableStep A cfg w.table w'.table
  snapshot : Outside cfg w.table → SnapshotStep cfg libs w w'

theorem MetaStep.of_touches {P : Bytes → Prop} {w' : World} (h : Touches P w w') :
    MetaStep A cfg libs w w' where
  table := by
    rw [h.frame.table]
    exact .unchanged
  snapshot _ hs := Or.inl ⟨h.frame.table, h.old hs⟩

theorem MetaStep.of_same {w' : World} (h : Same w w') : MetaStep A cfg libs w w' :=
  .of_touches (@Touches.of_frame (fun _ => False) _ _ h.frame)

theorem UploadEffect.metaStep {a : UploadArgs} {r : Response} {w' : World} (ha : a.Checked cfg)
    (h : UploadEffect A cfg libs a w r w') : MetaStep A cfg libs w w' := by
  cases h with
  | refused _ hl => exact .of_touches hl
  | stored hr htable =>
    constructor
    · rw [htable]
      exact .inserted ha hr.record hr.linked hr.absent
    · intro _ _
      rw [htable]
      exact Or.inr hr.written

theorem DeleteKeeps.metaStep {url path : Bytes} {w' : World}
    (h : DeleteKeeps cfg libs url path w w')
    (hpath : Outside cfg w.table → place path ≠ place cfg.storageInfo) :
    MetaStep A cfg libs w w' := by
  rcases h with hk | ⟨htable, he⟩
  · constructor
    · rw [hk.table]
      exact .unchanged
    · exact fun hout hs => Or.inl ⟨hk.table, hk.files _ hs (Ne.symm (hpath hout))⟩
  · constructor
    · rw [htable]
      exact .erased url
    · intro _ hs
      rw [htable]
      exact Or.inr (he.written hs)

theorem wp_upload_meta (request : Request) :
    wp (System A) (upload cfg libs request) (fun _ w' => MetaStep A cfg libs w w')
      (fun _ => True) w := by
  unfold upload
  cases hc : checkUpload cfg request with
  | error response => exact MetaStep.of_same (Same.refl w)
  | ok a =>
    exact wp_mono wp_storeUpload (fun _ _ h => h.metaStep (checkUpload_ok hc).1)
      fun _ _ => trivial

theorem wp_delete_meta (request : Request) :
    wp (System A) (delete cfg libs request) (fun _ w' => MetaStep A cfg libs w w')
      (fun _ => True) w := by
  unfold delete
  cases checkDelete cfg request with
  | error response => exact MetaStep.of_same (Same.refl w)
  | ok url =>
    simp only
    cases hinfo : w.table.lookup url with
    | none =>
      exact wp_mono (wp_deleteUrl_unknown hinfo) (fun _ _ h => .of_same h.2) fun _ _ => trivial
    | some info =>
      exact wp_mono (wp_deleteUrl_keeps hinfo) (fun _ _ h => h.metaStep fun hout => hout url info hinfo)
        fun _ _ => trivial

theorem wp_download_meta (request : Request) (url : Bytes) :
    wp (System A) (download cfg libs request url) (fun _ w' => MetaStep A cfg libs w w')
      (fun _ => True) w := by
  cases hinfo : w.table.lookup url with
  | none =>
    exact wp_mono (wp_download_unknown hinfo) (fun _ _ h => .of_same h.2) fun _ _ => trivial
  | some info =>
    exact wp_mono (wp_download hinfo) (fun _ _ h => .of_touches h.leaves) fun _ _ => trivial

theorem wp_serve_meta (op : Op) :
    wp (System A) (serve cfg libs op) (fun _ w' => MetaStep A cfg libs w w')
      (fun _ => True) w := by
  cases op with
  | upload request => exact wp_upload_meta request
  | delete request => exact wp_delete_meta request
  | download request url => exact wp_download_meta request url

/-- What holds of the records and of every uploaded record holds of the next records. -/
theorem TableStep.records {P : Bytes → StorageInfo → Prop} {table next : Table}
    (h : TableStep A cfg table next)
    (hnew : ∀ (a : UploadArgs) file info, a.Checked cfg → RecordOf cfg a file info →
      Linked A cfg a → P info.url_ info)
    (htable : ∀ url info, table.lookup url = some info → P url info) :
    ∀ url info, next.lookup url = some info → P url info := by
  intro url info hinfo
  cases h with
  | unchanged => exact htable url info hinfo
  | @inserted a file new ha hr hl _ =>
    by_cases hurl : url = new.url_
    · subst hurl
      rw [AList.lookup_insert] at hinfo
      cases hinfo
      exact hnew a file _ ha hr hl
    · rw [AList.lookup_insert_ne hurl] at hinfo
      exact htable url info hinfo
  | erased gone =>
    by_cases hurl : url = gone
    · subst hurl
      rw [AList.lookup_erase] at hinfo
      cases hinfo
    · rw [AList.lookup_erase_ne hurl] at hinfo
      exact htable url info hinfo

theorem serverRun_records {P : Bytes → StorageInfo → Prop} {w' : World} {log : Log}
    (hnew : ∀ (a : UploadArgs) file info, a.Checked cfg → RecordOf cfg a file info →
      Linked A cfg a → P info.url_ info)
    (h : ∀ url info, w.table.lookup url = some info → P url info)
    (hrun : ServerRun A cfg libs w log w') :
    ∀ url info, w'.table.lookup url = some info → P url info := by
  induction hrun with
  | nil => exact h
  | snoc _ hr ih => exact (wp_runs (wp_serve_meta _) hr).table.records hnew ih

end CloudStorage
