import CloudStorage.Refine

/-!
# Upload, download and `HEAD` agree

From an acknowledged upload to the delete of its URL every reply to a download is
an I/O error or `respond` applied to the uploaded content, so it is a function of
the request alone. What `respond` answers is a matter of the headers.
-/

namespace CloudStorage
open Posix Interact

variable {A : Assumption} {w : World} {cfg : Config} {libs : Libs} {σ : Store}
  {home : Bytes → Bytes} {old : Key → Prop}

/-- The request deleted the URL. -/
def Deletes (cfg : Config) (url : Bytes) (l : Op × Response) : Prop :=
  ∃ request, l.1 = .delete request ∧ checkDelete cfg request = .ok url ∧ l.2.status = 200

theorem StoreRun.kept {σ' : Store} {log : Log} {url : Bytes} {s : Stored}
    (h : StoreRun A cfg libs σ log σ') (hs : σ url = some s)
    (hlog : ∀ l ∈ log, ¬Deletes cfg url l) : σ' url = some s := by
  induction h with
  | nil => exact hs
  | @snoc σ₁ σ₂ log l _ hstep ih =>
    have hs₁ := ih fun l hl => hlog l (List.mem_append_left _ hl)
    have hl := hlog l (List.mem_append_right _ (List.mem_singleton.mpr rfl))
    cases hstep with
    | uploaded _ hfree =>
      rw [Function.update_of_ne, hs₁]
      rintro rfl
      rw [hfree] at hs₁
      cases hs₁
    | deleted hc _ hr =>
      rw [Function.update_of_ne, hs₁]
      rintro rfl
      exact hl ⟨_, rfl, hc, hr⟩
    | kept => exact hs₁

theorem upload_stored (hA : A.Sound cfg) (hcfg : cfg.Checked) (hinfo : cfg.InfoOutside)
    (h : Represents cfg libs old σ home w) {request : Request} {a : UploadArgs} {r : Response}
    {w' : World} (ha : checkUpload cfg request = .ok a)
    (hrun : Runs (System A) (upload cfg libs request) w r w') (hr : r.status = 201) :
    ∃ σ' home' s, Represents cfg libs old σ' home' w' ∧ σ' (a.url cfg) = some s ∧
      RecordOf cfg a s.file s.info ∧ StoredAs A cfg libs a s.file.bytes := by
  obtain ⟨σ', home', hstep, hrep⟩ := (wp_runs (wp_upload_refined hA hcfg hinfo h request) hrun).step
  cases hstep with
  | uploaded ha' _ hrecord hstored =>
    rw [ha] at ha'
    cases ha'
    exact ⟨_, home', _, hrep, Function.update_self .., hrecord, hstored⟩
  | kept hn => exact absurd hr hn

theorem run_stored (hA : A.Sound cfg) (hcfg : cfg.Checked) (hinfo : cfg.InfoOutside)
    (h : Represents cfg libs old σ home w) {url : Bytes} {s : Stored} (hs : σ url = some s)
    {w' : World} {log : Log} (hrun : ServerRun A cfg libs w log w')
    (hlog : ∀ l ∈ log, ¬Deletes cfg url l) :
    ∃ σ' home', Represents cfg libs old σ' home' w' ∧ σ' url = some s := by
  obtain ⟨σ', hσ, home', hrep⟩ := serverRun_refines hA hcfg hinfo h hrun
  exact ⟨σ', home', hrep, StoreRun.kept hσ hs hlog⟩

theorem download_stored (hA : A.Sound cfg) (h : Represents cfg libs old σ home w) {url : Bytes}
    {s : Stored} (hs : σ url = some s) {request : Request} {r : Response} {w' : World}
    (hrun : Runs (System A) (download cfg libs request url) w r w') :
    Leaves (DownloadTemp A cfg w.table) w w' ∧ (r.Failed ∨
      ∃ content, ServedAs A libs s.info s.file.bytes content ∧
        r = respond libs request s.info content) := by
  have hlookup := h.housed.lookup hs
  have hd := wp_runs (wp_download hlookup) hrun
  have hread : Readable A cfg s.info.storage_path_ w :=
    fun _ p hp => (TempPath.fresh hA hp).2 url s.info hlookup
  refine ⟨hd.leaves, (hd.reply hread).imp id ?_⟩
  rintro ⟨file, content, hfile, hserved, hr⟩
  have hhome := h.housed.home_eq hs (by rw [hfile]; exact Option.some_ne_none file)
  have hget := h.housed.stored url s hs
  rw [hhome, hfile] at hget
  cases hget
  exact ⟨content, hserved, hr⟩

/-! ### What a reply says -/

/-- The value of a header. -/
def Response.header (r : Response) (name : Bytes) : Option Bytes :=
  (r.headers.find? fun h => decide (h.1 = name)).map fun h => h.2

def Request.range (request : Request) : Option Bytes := request.findHeader (lit "Range")
def Request.ifRange (request : Request) : Option Bytes := request.findHeader (lit "If-Range")

/-- The body but for a `HEAD`. -/
def Request.bodyOf (request : Request) (body : Bytes) : Bytes :=
  if request.method = .head then [] else body

/-- The reply is the content, the part of it that the range asks for, or that there is
no such part. -/
inductive Serves (request : Request) (content : Bytes) (r : Response) : Prop
  | full : r.status = 200 → r.header contentLength = some (decimal content.length) →
      r.body = request.bodyOf content → Serves request content r
  | part {header : Bytes} {o l : Nat} : request.range = some header →
      parseRangeHeader header content.length = ⟨.partialContent, o, l⟩ →
      0 < l → o + l ≤ content.length → r.status = 206 →
      r.header contentLength = some (decimal l) →
      r.header contentRange = some (rangeText o l content.length) →
      r.body = request.bodyOf ((content.drop o).take l) → Serves request content r
  | unsatisfiable {header : Bytes} : request.range = some header →
      (parseRangeHeader header content.length).status = .unsatisfiable → r.status = 416 →
      r.header contentRange = some (unsatisfiedText content.length) → r.body = [] →
      Serves request content r

/-- What is asked for is what the range header says, or everything. -/
theorem requestedRange_cases (request : Request) (etag : Bytes) (n : Nat) :
    requestedRange request etag n = {} ∨
      ∃ header, request.range = some header ∧ requestedRange request etag n = parseRangeHeader header n := by
  unfold requestedRange
  cases hrange : request.findHeader (lit "Range") with
  | none => exact Or.inl rfl
  | some header =>
    simp only
    split
    · exact Or.inr ⟨header, hrange, rfl⟩
    · split
      · exact Or.inr ⟨header, hrange, rfl⟩
      · exact Or.inl rfl

section Respond

variable (request : Request) (info : StorageInfo) (content : Bytes)

theorem respond_full
    (h : (requestedRange request (entityTag libs info) content.length).status = .ignore) :
    respond libs request info content = ⟨200, lit "OK",
      fileHeaders libs info ++ [(contentLength, decimal content.length)],
      request.bodyOf content⟩ := by
  simp [respond, h, ByteRange.window, windowHeaders, sendWindow, Request.bodyOf]

theorem respond_part {o l : Nat}
    (h : requestedRange request (entityTag libs info) content.length = ⟨.partialContent, o, l⟩) :
    respond libs request info content = ⟨206, lit "Partial Content",
      fileHeaders libs info ++ [(contentLength, decimal l),
        (contentRange, rangeText o l content.length)],
      request.bodyOf ((content.drop o).take l)⟩ := by
  simp [respond, h, ByteRange.window, windowHeaders, sendWindow, Request.bodyOf]

theorem respond_unsatisfiable
    (h : (requestedRange request (entityTag libs info) content.length).status = .unsatisfiable) :
    respond libs request info content =
      rangeNotSatisfiable (fileHeaders libs info) content.length := by
  simp [respond, h]

theorem respond_serves : Serves request content (respond libs request info content) := by
  have hcases := requestedRange_cases request (entityTag libs info) content.length
  cases hr : requestedRange request (entityTag libs info) content.length with
  | mk status o l =>
    rw [hr] at hcases
    cases status with
    | ignore =>
      rw [respond_full request info content (by rw [hr])]
      exact .full rfl rfl rfl
    | partialContent =>
      rw [respond_part request info content hr]
      obtain he | ⟨header, hheader, hparse⟩ := hcases
      · cases he
      · have hwithin := parseRangeHeader_within header content.length
        rw [← hparse] at hwithin
        obtain ⟨hpos, hle⟩ := hwithin rfl
        exact .part hheader hparse.symm hpos hle rfl rfl rfl rfl
    | unsatisfiable =>
      rw [respond_unsatisfiable request info content (by rw [hr])]
      obtain he | ⟨header, hheader, hparse⟩ := hcases
      · cases he
      · exact .unsatisfiable hheader (by rw [← hparse]) rfl rfl rfl

end Respond

/-! ### From the upload to the delete -/

/-- What downloads of an uploaded content are answered, as long as its URL is not deleted:
an I/O error or a reply that depends on the request alone. -/
structure Agrees (A : Assumption) (cfg : Config) (libs : Libs) (url content : Bytes) (w : World)
    (reply : Request → Response) : Prop where
  replies : ∀ {log : Log} {w₁ w₂ : World} {request : Request} {r : Response},
    ServerRun A cfg libs w log w₁ → (∀ l ∈ log, ¬Deletes cfg url l) →
    Runs (System A) (download cfg libs request url) w₁ r w₂ →
    (r.Failed ∨ r = reply request) ∧ Leaves (DownloadTemp A cfg w₁.table) w₁ w₂
  serves : ∀ request, Serves request content (reply request)
  ifRange : ∀ request v, request.ifRange = some v → (reply request).header (lit "ETag") ≠ some v →
    (reply request).status = 200
  head : ∀ request, (reply { request with method := .head }).status = (reply request).status ∧
    (reply { request with method := .head }).headers = (reply request).headers

end CloudStorage
