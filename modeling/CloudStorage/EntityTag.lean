import CloudStorage.Retrieve

/-!
# What an entity tag distinguishes

The tag is a digest of the storage path, the size and the whole second of the last
modification. As long as the files a URL stood for one after the other differ in one
of these, two replies with one tag are about one content; a content stored again at
the same path with the same size in the same second gets the same tag.
-/

namespace CloudStorage
open Posix Interact

/-! ### The tag determines what it is made of -/

/-- A handled request with the worlds around it. -/
structure Visit where
  op : Op
  reply : Response
  before : World
  after : World

/-- What an acknowledged upload was given. -/
def Visit.uploaded (cfg : Config) (v : Visit) : Option UploadArgs :=
  match v.op with
  | .upload request => if v.reply.status = 201 then (checkUpload cfg request).toOption else none
  | _ => none

/-- The URL an acknowledged delete was given. -/
def Visit.deleted (cfg : Config) (v : Visit) : Option Bytes :=
  match v.op with
  | .delete request => if v.reply.status = 200 then (checkDelete cfg request).toOption else none
  | _ => none

/-- A file a URL stood for, and the content uploaded as it. -/
structure Version where
  url : Bytes
  path : Bytes
  file : Inode
  content : Bytes

/-- The file an acknowledged upload left. -/
def Visit.version (cfg : Config) (v : Visit) : Option Version :=
  (v.uploaded cfg).bind fun a =>
    (v.after.fs.get (place (a.finalPath cfg))).map fun file =>
      ⟨a.url cfg, a.finalPath cfg, file, a.content⟩

/-- Versions of the start and of the run. -/
def Known (cfg : Config) (started : Bytes → Option Version) (run : List Visit) (V : Version) : Prop :=
  started V.url = some V ∨ V ∈ run.filterMap (Visit.version cfg)

/-- What one request makes of the content of a URL. -/
def Visit.content (cfg : Config) (url : Bytes) (content : Option Bytes) (v : Visit) : Option Bytes :=
  match v.uploaded cfg with
  | some a => if a.url cfg = url then some a.content else content
  | none => if v.deleted cfg = some url then none else content

/-- The content last uploaded as the URL, until it is deleted. -/
def contentAfter (cfg : Config) (started : Bytes → Option Version) (url : Bytes)
    (run : List Visit) : Option Bytes :=
  run.foldl (Visit.content cfg url) ((started url).map Version.content)

variable {A : Assumption} {w w' : World} {cfg : Config} {libs : Libs} {σ : Store}
  {home : Bytes → Bytes} {old : Key → Prop} {started : Bytes → Option Version} {run : List Visit}
  {v : Visit}

/-- What is stored under the URL is the upload `a`, and the content the run has given it. -/
structure Current (A : Assumption) (cfg : Config) (libs : Libs) (started : Bytes → Option Version)
    (run : List Visit) (url : Bytes) (s : Stored) (a : UploadArgs) : Prop where
  checked : a.Checked cfg
  record : RecordOf cfg a s.file s.info
  stored : StoredAs A cfg libs a s.file.bytes
  known : Known cfg started run ⟨url, a.finalPath cfg, s.file, a.content⟩
  content : contentAfter cfg started url run = some a.content

def Traced (A : Assumption) (cfg : Config) (libs : Libs) (started : Bytes → Option Version)
    (run : List Visit) (σ : Store) : Prop :=
  ∀ url s, σ url = some s → ∃ a, Current A cfg libs started run url s a

theorem Known.append {V : Version} (h : Known cfg started run V) (rest : List Visit) :
    Known cfg started (run ++ rest) V := by
  refine h.imp id fun hmem => ?_
  rw [List.filterMap_append]
  exact List.mem_append_left _ hmem

theorem contentAfter_snoc (url : Bytes) : contentAfter cfg started url (run ++ [v]) =
    v.content cfg url (contentAfter cfg started url run) := by
  rw [contentAfter, List.foldl_append]
  rfl

theorem Current.snoc {url : Bytes} {s : Stored} {a : UploadArgs}
    (h : Current A cfg libs started run url s a)
    (hsame : v.content cfg url (some a.content) = some a.content) :
    Current A cfg libs started (run ++ [v]) url s a where
  checked := h.checked
  record := h.record
  stored := h.stored
  known := h.known.append [v]
  content := by rw [contentAfter_snoc, h.content, hsame]

theorem Traced.kept (h : Traced A cfg libs started run σ) (hu : v.uploaded cfg = none)
    (hd : v.deleted cfg = none) : Traced A cfg libs started (run ++ [v]) σ := by
  intro url s hs
  obtain ⟨a, ha⟩ := h url s hs
  refine ⟨a, ha.snoc ?_⟩
  rw [Visit.content, hu, hd]
  rfl

theorem Traced.deleted (h : Traced A cfg libs started run σ) {gone : Bytes}
    (hu : v.uploaded cfg = none) (hd : v.deleted cfg = some gone) :
    Traced A cfg libs started (run ++ [v]) (Function.update σ gone none) := by
  intro url s hs
  by_cases he : url = gone
  · subst he
    rw [Function.update_self] at hs
    cases hs
  · rw [Function.update_of_ne he] at hs
    obtain ⟨a, ha⟩ := h url s hs
    refine ⟨a, ha.snoc ?_⟩
    simp only [Visit.content, hu, hd]
    rw [if_neg fun hsome => he (Option.some.inj hsome).symm]

theorem Traced.uploaded (h : Traced A cfg libs started run σ) {b : UploadArgs} {s : Stored}
    (hu : v.uploaded cfg = some b) (hb : b.Checked cfg) (hrecord : RecordOf cfg b s.file s.info)
    (hstored : StoredAs A cfg libs b s.file.bytes)
    (hfile : v.after.fs.get (place (b.finalPath cfg)) = some s.file) :
    Traced A cfg libs started (run ++ [v]) (Function.update σ (b.url cfg) (some s)) := by
  intro url s' hs
  by_cases he : url = b.url cfg
  · subst he
    rw [Function.update_self] at hs
    cases hs
    refine ⟨b, hb, hrecord, hstored, Or.inr ?_, ?_⟩
    · rw [Transition.filterMap_snoc]
      refine List.mem_append_right _ ?_
      rw [Visit.version, hu, Option.bind_some, hfile]
      exact List.mem_singleton.mpr rfl
    · rw [contentAfter_snoc, Visit.content, hu]
      exact if_pos rfl
  · rw [Function.update_of_ne he] at hs
    obtain ⟨a, ha⟩ := h url s' hs
    refine ⟨a, ha.snoc ?_⟩
    simp only [Visit.content, hu]
    rw [if_neg fun heq => he heq.symm]

end CloudStorage
