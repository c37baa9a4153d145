import CloudStorage.Retrieve

/-!
# Compressed storage (`FileUtil::Compress`, `FileUtil::UnCompress`)

Both directions use the wrappers that return only a string, and take every string
for a success. What is served is the uploaded content when both operations
succeed, or when the content was stored as it is and is not unpacked.
-/

namespace CloudStorage
open Posix Interact

variable {A B : Assumption} {w : World} {cfg : Config} {libs : Libs} {σ : Store}

/-- Packing ends with `o₁` and unpacking with `o₂`: the content comes back. -/
def HonestCodec (lib : Bundle) (q : Nat) (c : Bytes) (o₁ o₂ : Outcome) : Prop :=
  if o₁ = .ok then (lib.isPacked (lib.image q c) = true ∧ o₂ = .ok) ∨ lib.image q c = c
  else ¬(lib.isPacked c = true ∧ o₂ = .ok) ∨ lib.content c = c

theorem unpack_pack_iff {lib : Bundle} {q : Nat} {c s u : Bytes} {o₁ o₂ : Outcome}
    (hA : ∀ w c r, A w c r → CodecAnswers o₁ w c r) (hB : ∀ w c r, B w c r → CodecAnswers o₂ w c r)
    (hinverts : lib.Inverts) (hc : c ≠ []) (hpack : PackResult A lib q c s)
    (hunpack : UnpackResult B lib s u) : u = c ↔ HonestCodec lib q c o₁ o₂ := by
  unfold HonestCodec
  cases hpack with
  | empty he => exact absurd he hc
  | packed _ ho₁ =>
    rw [if_pos (ho₁.eq hA).symm]
    cases hunpack with
    | plain hp => simp [hp]
    | unpacked hp ho₂ =>
      have hok := ho₂.eq hB
      exact iff_of_true (hinverts q c hc) (Or.inl ⟨hp, hok.symm⟩)
    | unchanged hp ho₂ =>
      have hfailed := ho₂.eq hB
      simp [← hfailed]
  | unchanged _ ho₁ =>
    have hne : o₁ ≠ .ok := by
      rw [← ho₁.eq hA]
      decide
    rw [if_neg hne]
    cases hunpack with
    | plain hp => simp [hp]
    | unpacked hp ho₂ =>
      have hok := ho₂.eq hB
      simp [hp, ← hok]
    | unchanged hp ho₂ =>
      have hfailed := ho₂.eq hB
      simp [← hfailed]

/-- A full reply to a `GET` has the content for body. -/
theorem respond_body {request : Request} {info : StorageInfo} {content : Bytes}
    (hget : request.method ≠ .head) (h200 : (respond libs request info content).status = 200) :
    (respond libs request info content).body = content := by
  cases respond_serves request info content with
  | full _ _ hbody => rw [hbody, Request.bodyOf, if_neg hget]
  | part _ _ _ _ h206 => rw [h200] at h206; cases h206
  | unsatisfiable _ _ h416 => rw [h200] at h416; cases h416

/-- After an acknowledged deep upload whose packing ended with `o₁`, and until its URL is
deleted, a download whose unpacking ended with `o₂` is answered with an I/O error, or
served from the uploaded content exactly when the pair is honest; a full reply then has
the content for body. -/
theorem deep_download_iff {o₁ o₂ : Outcome} (hinverts : libs.bundle.Inverts) (hcfg : cfg.Accepted)
    (hinfo : cfg.InfoOutside) {w₀ w₁ w₂ w₃ w₄ : World} {log log' : Log}
    (hopen : Opened cfg libs σ w₀) (hrun : ServerRun (Faithful cfg) cfg libs w₀ log w₁)
    {request request' : Request} {a : UploadArgs} {r r' : Response}
    (ha : checkUpload cfg request = .ok a) (hdeep : a.storageType = deep)
    (hupload : Runs (System ((Faithful cfg).and (CodecAnswers o₁))) (upload cfg libs request) w₁ r w₂)
    (hr : r.status = 201) (hrun' : ServerRun (Faithful cfg) cfg libs w₂ log' w₃)
    (hkept : ∀ l ∈ log', ¬Deletes cfg (a.url cfg) l)
    (hdownload : Runs (System ((Faithful cfg).and (CodecAnswers o₂)))
      (download cfg libs request' (a.url cfg)) w₃ r' w₄) :
    (r'.Failed ∨ ∃ content, Serves request' content r' ∧
      (content = a.content ↔ HonestCodec libs.bundle cfg.bundleFormat a.content o₁ o₂)) ∧
    (request'.method ≠ .head → r'.status = 200 →
      (r'.body = a.content ↔ HonestCodec libs.bundle cfg.bundleFormat a.content o₁ o₂)) := by
  have hc := hcfg.checked
  have hA : Assumption.Sound (Faithful cfg) cfg := fun _ _ _ h => h
  obtain ⟨σ₁, -, home₁, hrep₁⟩ := serverRun_refines hA hc hinfo hopen.represents hrun
  obtain ⟨σ₂, home₂, s, hrep₂, hs, hrecord, hstored⟩ :=
    upload_stored (fun _ _ _ h => h.1) hc hinfo hrep₁ ha hupload hr
  obtain ⟨σ₃, home₃, hrep₃, hs₃⟩ := run_stored hA hc hinfo hrep₂ hs hrun' hkept
  obtain ⟨-, hreply⟩ := download_stored (fun _ _ _ h => h.1) hrep₃ hs₃ hdownload
  have hlow : a.storageType ≠ low := by
    rw [hdeep]
    decide
  rw [StoredAs, if_neg hlow] at hstored
  rcases hreply with hfailed | ⟨content, hserved, rfl⟩
  · refine ⟨Or.inl hfailed, fun _ h200 => ?_⟩
    rcases hfailed with h404 | h500
    · rw [h200] at h404
      cases h404
    · rw [h200] at h500
      cases h500
  · rw [ServedAs, hrecord.type, if_pos hdeep] at hserved
    have hhonest := unpack_pack_iff (fun _ _ _ h => h.2) (fun _ _ _ h => h.2) hinverts
      (checkUpload_ok ha).1.content_ne hstored hserved
    refine ⟨Or.inr ⟨content, respond_serves request' s.info content, hhonest⟩, fun hget h200 => ?_⟩
    rw [respond_body hget h200]
    exact hhonest

/-- `abc` uploaded for deep storage as `x`. -/
def deepUpload : Request := uploadOf (lit "eA==") deep (lit "abc")

def deepRecord (cfg : Config) (size : Nat) : StorageInfo where
  mtime_ := 0
  atime_ := 0
  fsize_ := size
  storage_path_ := joinPath cfg.deepStorageDir (lit "x")
  url_ := cfg.downloadPrefix ++ lit "x"
  storage_type_ := deep

def deepLibs : Libs := .plain (textsOf [
  (∅ : Table).insert (deepRecord settledConfig 35).url_ (deepRecord settledConfig 35)])

def deepUploadFine (x y : Bytes) : List Choice :=
  List.replicate 4 fine ++ [named x] ++ List.replicate 13 fine ++ persistFine y ++ [fine]

/-- The calls of a deep download, the operation of the codec ending as chosen. -/
def deepDownload (x : Bytes) (codec : Choice) : List Choice :=
  [fine, fine, named x] ++ List.replicate 6 fine ++ [codec] ++ List.replicate 8 fine

theorem deep_download_honest : ∃ w₂ r' w₄,
    Runs (System ((Faithful settledConfig).and (CodecAnswers .ok)))
      (upload settledConfig deepLibs deepUpload) World.empty uploaded w₂ ∧
    Runs (System ((Faithful settledConfig).and (CodecAnswers .ok)))
      (download settledConfig deepLibs {} (lit "/download/x")) w₂ r' w₄ ∧
    (r'.body = lit "abc" ↔ HonestCodec deepLibs.bundle 4 (lit "abc") .ok .ok) := by
  have hupload := @playUnder_runs ((Faithful settledConfig).and (CodecAnswers .ok)) _ _
    (upload settledConfig deepLibs deepUpload) (deepUploadFine (lit "AAAAAA") (lit "BBBBBB"))
    World.empty uploaded (by decide +kernel)
  have hplay : ((playUnder ((Faithful settledConfig).and (CodecAnswers .ok))
      (download settledConfig deepLibs {} (lit "/download/x"))
      (deepDownload (lit "CCCCCC") fine) (playUnder ((Faithful settledConfig).and (CodecAnswers .ok))
        (upload settledConfig deepLibs deepUpload) (deepUploadFine (lit "AAAAAA") (lit "BBBBBB"))
        World.empty).2).1.result.any fun r => decide (r.status = 200)) = true := by decide +kernel
  obtain ⟨r', hr', h200⟩ := (Option.any_eq_true _ _).mp hplay
  have hdownload := playUnder_runs _ hr'
  have hserved := @deep_download_iff settledConfig deepLibs _ .ok .ok
    Bundle.raw_inverts (Config.shipped_accepted (by decide) (by decide)) settled_outside
    _ _ _ _ _ [] [] opened_empty (.nil _) deepUpload {} ⟨lit "x", deep, lit "abc"⟩ _ _ rfl rfl
    hupload rfl (.nil _) (fun _ hl => by cases hl) hdownload
  exact ⟨_, r', _, hupload, hdownload, hserved.2 (by decide) (of_decide_eq_true h200)⟩

/-- When unpacking fails the packed image is served. -/
theorem packed_image_served : ¬∀ (cfg : Config) (libs : Libs) (σ : Store) (w₁ w₂ w₄ : World)
    (request request' : Request) (a : UploadArgs) (r r' : Response) (o₁ o₂ : Outcome),
    libs.bundle.Inverts → cfg.Accepted → cfg.InfoOutside → Opened cfg libs σ w₁ →
    checkUpload cfg request = .ok a → a.storageType = deep →
    Runs (System ((Faithful cfg).and (CodecAnswers o₁))) (upload cfg libs request) w₁ r w₂ →
    r.status = 201 → request'.method ≠ .head →
    Runs (System ((Faithful cfg).and (CodecAnswers o₂)))
      (download cfg libs request' (a.url cfg)) w₂ r' w₄ → r'.status = 200 →
    r'.body = a.content := by
  intro h
  have hupload := @playUnder_runs ((Faithful settledConfig).and (CodecAnswers .ok)) _ _
    (upload settledConfig deepLibs deepUpload) (deepUploadFine (lit "AAAAAA") (lit "BBBBBB"))
    World.empty uploaded (by decide +kernel)
  have hplay : ((playUnder ((Faithful settledConfig).and (CodecAnswers .failed))
      (download settledConfig deepLibs {} (lit "/download/x"))
      (deepDownload (lit "CCCCCC") fails) (playUnder ((Faithful settledConfig).and (CodecAnswers .ok))
        (upload settledConfig deepLibs deepUpload) (deepUploadFine (lit "AAAAAA") (lit "BBBBBB"))
        World.empty).2).1.result.any fun r =>
          decide (r.status = 200) && decide (r.body ≠ lit "abc")) = true := by decide +kernel
  obtain ⟨r', hr', hend⟩ := (Option.any_eq_true _ _).mp hplay
  simp only [Bool.and_eq_true, decide_eq_true_eq] at hend
  exact hend.2 (h settledConfig deepLibs _ _ _ _ deepUpload {} ⟨lit "x", deep, lit "abc"⟩ _ r'
    .ok .failed Bundle.raw_inverts (Config.shipped_accepted (by decide) (by decide))
    settled_outside opened_empty rfl rfl hupload rfl (by decide) (playUnder_runs _ hr') hend.1)

end CloudStorage
