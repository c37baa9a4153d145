import CloudStorage.Request

/-!
# Download (`Service::Download`)

A deep file is unpacked into a temporary first. `respond` is the reply for a
content when no call fails: full, partial or unsatisfiable, with or without a
body; every other reply is an error.
-/

namespace CloudStorage
open Posix Interact

def downloadPrefix : Bytes := lit ".download-"

/-- `std::numeric_limits<ev_off_t>::max()`. -/
def evOffMax : Nat := 2 ^ 63 - 1

/-- The headers every found file gets. -/
def fileHeaders (libs : Libs) (info : StorageInfo) : Headers := [
  (lit "Accept-Ranges", lit "bytes"),
  (lit "ETag", entityTag libs info),
  (lit "Content-Type", lit "application/octet-stream"),
  (lit "Content-Disposition",
    lit "attachment; filename*=UTF-8''" ++ urlEncode (fileName info.storage_path_))]

/-- The range asked for, when `If-Range` does not rule it out. -/
def requestedRange (request : Request) (etag : Bytes) (fileSize : Nat) : ByteRange :=
  match request.findHeader (lit "Range") with
  | none => {}
  | some range =>
    match request.findHeader (lit "If-Range") with
    | none => parseRangeHeader range fileSize
    | some ifRange => if secureEqual ifRange etag then parseRangeHeader range fileSize else {}

def contentRange : Bytes := lit "Content-Range"

/-- `bytes o-e/n`. -/
def rangeText (offset length fileSize : Nat) : Bytes :=
  lit "bytes " ++ decimal offset ++ lit "-" ++ decimal (offset + length - 1) ++ lit "/" ++
    decimal fileSize

/-- `bytes */n`. -/
def unsatisfiedText (fileSize : Nat) : Bytes := lit "bytes */" ++ decimal fileSize

/-- Offset and length of what is sent. -/
def ByteRange.window (range : ByteRange) (fileSize : Nat) : Nat × Nat :=
  if range.status = .partialContent then (range.offset, range.length) else (0, fileSize)

/-- `Content-Length`, and `Content-Range` for a part. -/
def windowHeaders (range : ByteRange) (fileSize : Nat) : Headers :=
  let window := range.window fileSize
  (contentLength, decimal window.2) ::
    if range.status = .partialContent then
      [(contentRange, rangeText window.1 window.2 fileSize)]
    else []

/-- The reply with a full or partial body. -/
def sendWindow (headers : Headers) (range : ByteRange) (body : Bytes) : Response :=
  if range.status = .partialContent then ⟨206, lit "Partial Content", headers, body⟩
  else ⟨200, lit "OK", headers, body⟩

def rangeNotSatisfiable (headers : Headers) (fileSize : Nat) : Response :=
  sendText (headers ++ [(contentRange, unsatisfiedText fileSize)]) 416
    (lit "Range Not Satisfiable") []

/-- The reply for the file at `path`. -/
def serveFile (libs : Libs) (request : Request) (info : StorageInfo) (path : Bytes) :
    Program Response := do
  let size ← fileSize path
  if size < 0 then return fileNotFound []
  else
    let size := size.toNat
    let headers := fileHeaders libs info
    let range := requestedRange request (entityTag libs info) size
    if range.status = .unsatisfiable then return rangeNotSatisfiable headers size
    else
      let window := range.window size
      let headers := headers ++ windowHeaders range size
      if request.method = .head then return sendWindow headers range []
      else if window.1 > evOffMax ∨ window.2 > evOffMax then
        return internalError headers (lit "file is too large for this server")
      else
        match ← openRead path with
        | none => return fileNotFound headers
        | some fd =>
          match ← addFile fd window.1 window.2 with
          | none =>
            let _ ← close fd
            return internalError headers (lit "cannot prepare file response")
          | some body => return sendWindow headers range body

/-- `Service::Download`. -/
def download (cfg : Config) (libs : Libs) (request : Request) (url : Bytes) :
    Program Response := do
  match ← getOneByUrl url with
  | none => return fileNotFound []
  | some info =>
    if info.storage_type_ = deep then
      match ← createTempFile cfg.tempDir downloadPrefix with
      | none => return internalError [] (lit "cannot create download temporary file")
      | some temporary =>
        if ← unCompress libs.bundle info.storage_path_ temporary then
          let response ← serveFile libs request info temporary
          removeGuarded temporary
          return response
        else
          removeGuarded temporary
          return internalError [] (lit "cannot decompress file")
    else serveFile libs request info info.storage_path_

/-- The reply for a content. -/
def respond (libs : Libs) (request : Request) (info : StorageInfo) (content : Bytes) :
    Response :=
  let size := content.length
  let range := requestedRange request (entityTag libs info) size
  if range.status = .unsatisfiable then rangeNotSatisfiable (fileHeaders libs info) size
  else
    let window := range.window size
    sendWindow (fileHeaders libs info ++ windowHeaders range size) range
      (if request.method = .head then [] else (content.drop window.1).take window.2)

/-! ### Specification -/

variable {A : Assumption} {w : World} {cfg : Config} {libs : Libs} {request : Request}
  {info : StorageInfo} {url : Bytes}

/-- An I/O error. -/
def Response.Failed (r : Response) : Prop := r.status = 404 ∨ r.status = 500

theorem wp_serveFile {path : Bytes} :
    wp (System A) (serveFile libs request info path)
      (fun r w' => Same w w' ∧ (r.Failed ∨
        ∃ file, w.fs.get (place path) = some file ∧ r = respond libs request info file.bytes))
      (Same w) w := by
  unfold serveFile
  refine wp_seq wp_fileSize (fun _ h => h) ?_
  rintro size w₁ ⟨h₁, hsize⟩
  split
  · exact ⟨h₁, Or.inl (Or.inl rfl)⟩
  rename_i hneg
  obtain hbad | ⟨file, hfile, rfl⟩ := hsize
  · exact absurd (by omega) hneg
  simp only [Int.toNat_natCast]
  split
  · rename_i hrange
    refine ⟨h₁, Or.inr ⟨file, hfile, ?_⟩⟩
    simp only [respond, hrange, ite_true]
  rename_i hrange
  split
  · rename_i hhead
    refine ⟨h₁, Or.inr ⟨file, hfile, ?_⟩⟩
    simp only [respond, hrange, hhead, ite_true, ite_false]
  rename_i hhead
  split
  · exact ⟨h₁, Or.inl (Or.inr rfl)⟩
  rw [wp_bind]
  apply wp_openRead h₁
  · intro w₂ _ hD₂ hfs₂
    exact ⟨h₁.trans (hD₂.same hfs₂), Or.inl (Or.inl rfl)⟩
  · intro i w₂ _ hD₂ he hfs₂
    have h₂ := h₁.trans (hD₂.same hfs₂)
    have hi : w₂.fs.inode i = file := by
      have hget : w₁.fs.get (place path) = some file := by rw [h₁.fs, hfile]
      rw [FileSystem.get, he, Option.map_some, Option.some.injEq] at hget
      rw [hfs₂, hget]
    simp only
    rw [wp_bind]
    apply wp_addFile h₂
    · intro w₃ hD₃ hfs₃
      have h₃ := h₂.trans (hD₃.same hfs₃)
      simp only
      rw [wp_bind]
      refine wp_close h₃ fun _ w₄ _ hD₄ hfs₄ => ?_
      exact ⟨h₃.trans (hD₄.same hfs₄), Or.inl (Or.inr rfl)⟩
    · intro w₃ hD₃ hfs₃
      refine ⟨h₂.trans (hD₃.same hfs₃), Or.inr ⟨file, hfile, ?_⟩⟩
      simp only [respond, hrange, hhead, ite_false, hi]

/-- The content a stored file is served as. -/
def ServedAs (A : Assumption) (libs : Libs) (info : StorageInfo) (stored content : Bytes) :
    Prop :=
  if info.storage_type_ = deep then UnpackResult A libs.bundle stored content
  else content = stored

/-- The names a download may make. -/
abbrev DownloadTemp (A : Assumption) (cfg : Config) (table : Table) : Bytes → Prop :=
  TempPath A table cfg.tempDir downloadPrefix

/-- The file at `path` is there, or no temporary takes its name. -/
def Readable (A : Assumption) (cfg : Config) (path : Bytes) (w : World) : Prop :=
  w.fs.get (place path) = none → ∀ p, DownloadTemp A cfg w.table p → place path ≠ place p

/-- How a download of the record `info` ends. -/
structure Downloaded (A : Assumption) (cfg : Config) (libs : Libs) (request : Request)
    (info : StorageInfo) (w : World) (r : Response) (w' : World) : Prop where
  leaves : Leaves (DownloadTemp A cfg w.table) w w'
  reply : Readable A cfg info.storage_path_ w →
    r.Failed ∨ ∃ file content, w.fs.get (place info.storage_path_) = some file ∧
      ServedAs A libs info file.bytes content ∧ r = respond libs request info content

theorem wp_download (hinfo : w.table.lookup url = some info) :
    wp (System A) (download cfg libs request url) (Downloaded A cfg libs request info w)
      (Touches (DownloadTemp A cfg w.table) w) w := by
  unfold download
  refine wp_seq wp_getOneByUrl (fun w' hs => Touches.of_frame hs.frame) ?_
  rintro r w₁ ⟨rfl, h₁⟩
  rw [hinfo]
  simp only
  split
  · rename_i hdeep
    have htemps : ∀ p, DownloadTemp A cfg w₁.table p → DownloadTemp A cfg w.table p :=
      fun p hp => h₁.frame.table ▸ hp
    refine wp_seq wp_createTempFile (fun w' h' => Touches.after h₁ (h'.mono htemps)) ?_
    intro r w₂ hr
    cases r with
    | none =>
      exact ⟨Touches.after h₁ (hr.mono fun p hp => ⟨htemps p hp.1, hp.2⟩),
        fun _ => Or.inl (Or.inr rfl)⟩
    | some temporary =>
      obtain ⟨htemp, hfree, hf₂, i, hown⟩ := hr
      have htemp := htemps _ htemp
      rw [h₁.fs] at hfree
      have hf₂ := (h₁.frame.mono (Set.empty_subset _)).trans hf₂
      refine wp_seq (wp_unCompress hown) (fun w' h' => Touches.single (hf₂.trans h') htemp hfree) ?_
      rintro ok w₃ ⟨hf₃, -, hok⟩
      have hf₃ := hf₂.trans hf₃
      cases ok with
      | false =>
        refine wp_seq (wp_removeGuarded (Pending.of_frame htemp hfree hf₃))
          (fun w' h' => h' ▸ Touches.single hf₃ htemp hfree) ?_
        exact fun _ w' h' => ⟨h', fun _ => Or.inl (Or.inr rfl)⟩
      | true =>
        obtain ⟨file, content, t, hfile, hcontent, hget⟩ := hok rfl
        simp only [ite_true]
        refine wp_seq wp_serveFile
          (fun w' h' => Touches.single (hf₃.same h') htemp hfree) ?_
        rintro response w₄ ⟨h₄, hresponse⟩
        refine wp_seq (wp_removeGuarded (Pending.of_frame htemp hfree (hf₃.same h₄)))
          (fun w' h' => h' ▸ Touches.single (hf₃.same h₄) htemp hfree) ?_
        refine fun _ w' h' => ⟨h', fun hread => hresponse.imp id ?_⟩
        rintro ⟨served, hserved, hreply⟩
        rw [hget] at hserved
        cases hserved
        -- the temporary is not the file that was unpacked
        have hne : place info.storage_path_ ≠ place temporary := by
          intro he
          exact hread (he ▸ hfree) temporary htemp he
        refine ⟨file, content, ?_, ?_, hreply⟩
        · rw [← hf₂.files _ hne, hfile]
        · rw [ServedAs, if_pos hdeep]
          exact hcontent
  · rename_i hlow
    refine wp_mono wp_serveFile ?_ fun w' hs => Touches.of_frame (h₁.trans hs).frame
    rintro response w' ⟨hs, hresponse⟩
    refine ⟨Touches.of_frame (h₁.trans hs).frame, fun _ => hresponse.imp id ?_⟩
    rintro ⟨file, hfile, hreply⟩
    refine ⟨file, file.bytes, h₁.fs ▸ hfile, ?_, hreply⟩
    rw [ServedAs, if_neg hlow]

theorem wp_download_unknown (hinfo : w.table.lookup url = none) :
    wp (System A) (download cfg libs request url) (fun r w' => r.Failed ∧ Same w w')
      (Same w) w := by
  unfold download
  refine wp_seq wp_getOneByUrl (fun w' hs => hs) ?_
  rintro r w₁ ⟨rfl, h₁⟩
  rw [hinfo]
  exact ⟨Or.inl rfl, h₁⟩

end CloudStorage
