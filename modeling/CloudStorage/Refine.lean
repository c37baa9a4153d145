import CloudStorage.Store
import CloudStorage.Restart

/-!
# The server refines the store

One request is one step of the store, whatever calls fail; so is a run. The one
assumption is that `mkstemp` makes no name that is the storage path of a record
or of the metadata file.
-/

namespace CloudStorage
open Posix Interact

variable {A : Assumption} {w : World} {cfg : Config} {libs : Libs} {σ : Store}
  {home : Bytes → Bytes} {old : Key → Prop}

/-- Table and snapshot are as before. -/
def Unchanged (cfg : Config) (w w' : World) : Prop :=
  w'.table = w.table ∧ w'.fs.get (place cfg.storageInfo) = w.fs.get (place cfg.storageInfo)

/-- What a handled request does to the store, the world that represents it, the table
and the snapshot. -/
structure Refined (A : Assumption) (cfg : Config) (libs : Libs) (old : Key → Prop) (σ : Store)
    (op : Op) (w : World) (r : Response) (w' : World) : Prop where
  step : ∃ σ' home', StoreStep A cfg libs σ (op, r) σ' ∧ Represents cfg libs old σ' home' w'
  refused : ¬Acknowledged op r → Unchanged cfg w w'
  exact : ExactSnapshot cfg libs w → ExactSnapshot cfg libs w'

theorem ExactSnapshot.unchanged {w' : World} (h : ExactSnapshot cfg libs w)
    (hsame : Unchanged cfg w w') : ExactSnapshot cfg libs w' := by
  rw [ExactSnapshot, hsame.1, hsame.2]
  exact h

theorem Refined.of_leaves {P : Bytes → Prop} {op : Op} {r : Response} {w' : World}
    (h : Represents cfg libs old σ home w) (hr : ¬Acknowledged op r) (hl : Leaves P w w')
    (hP : ∀ p, P p → FreshPath cfg w.table p) : Refined A cfg libs old σ op w r w' where
  step := ⟨σ, home, .kept hr, h.leaves hl hP⟩
  refused _ := ⟨hl.frame.table, hl.snapshot_same fun p hp => hP p hp.1⟩
  exact he := he.unchanged ⟨hl.frame.table, hl.snapshot_same fun p hp => hP p hp.1⟩

theorem Refined.of_same {op : Op} {r : Response} {w' : World}
    (h : Represents cfg libs old σ home w) (hr : ¬Acknowledged op r) (hs : Same w w') :
    Refined A cfg libs old σ op w r w' :=
  .of_leaves h hr (@Touches.of_frame (fun p => False ∧ RemovalFailed p w') _ _ hs.frame)
    fun _ hp => hp.elim

theorem wp_upload_refined (hA : A.Sound cfg) (hcfg : cfg.Checked) (hinfo : cfg.InfoOutside)
    (h : Represents cfg libs old σ home w) (request : Request) :
    wp (System A) (upload cfg libs request) (Refined A cfg libs old σ (.upload request) w)
      (fun _ => True) w := by
  unfold upload
  cases hc : checkUpload cfg request with
  | error response => exact .of_same h (checkUpload_error hc) (Same.refl w)
  | ok a =>
    have ha := (checkUpload_ok hc).1
    refine wp_mono wp_storeUpload ?_ fun _ _ => trivial
    intro r w' he
    cases he with
    | refused hr hl =>
      exact .of_leaves h hr hl fun p hp => hp.fresh hA hcfg hinfo ha h.housed.situated_table
    | @stored file info _ hr htable =>
      have hnone := h.housed.eq_none hr.unknown
      exact ⟨⟨_, _, .uploaded hc hnone hr.record hr.stored rfl,
        h.uploaded hA hcfg hinfo ha hr htable⟩, fun hn => absurd rfl hn,
        fun _ => exactSnapshot_of_recorded hr htable⟩

theorem wp_delete_refined (hA : A.Sound cfg) (h : Represents cfg libs old σ home w)
    (request : Request) :
    wp (System A) (delete cfg libs request) (Refined A cfg libs old σ (.delete request) w)
      (fun _ => True) w := by
  unfold delete
  cases hc : checkDelete cfg request with
  | error response => exact .of_same h (checkDelete_error hc) (Same.refl w)
  | ok url =>
    simp only
    cases hlookup : w.table.lookup url with
    | none =>
      refine wp_mono (wp_deleteUrl_unknown hlookup) ?_ fun _ _ => trivial
      exact fun _ _ hs => .of_same h hs.1 hs.2
    | some info =>
      obtain ⟨s, hs, rfl⟩ := h.housed.of_lookup hlookup
      have hfresh : ∀ p, DeletePath A cfg w.table s.info.storage_path_ p →
          FreshPath cfg w.table p := fun _ hp => hp.fresh hA
      have hout := (h.housed.situated url s hs).outside
      refine wp_mono (wp_deleteUrl hlookup (apart_of_fresh hA hlookup hout)) ?_ fun _ _ => trivial
      intro r w' he
      cases he with
      | refused hr hl => exact .of_leaves h hr hl hfresh
      | stranded hr htemp hm hfailed =>
        have hrep := h.stranded hs htemp.shape hm hfailed hfresh
        have hsame : Unchanged cfg w w' := by
          obtain ⟨T, hf, hT⟩ := hm.rest
          refine ⟨hf.table, hf.files _ ?_⟩
          rintro ((hk | hk) | hk)
          · exact hout hk.symm
          · exact (hfresh _ hm.trash_path).1 hk.symm
          · obtain ⟨q, hq, hplace, -⟩ := hT _ hk
            exact (hfresh q hq.1).1 hplace
        exact ⟨⟨_, _, .kept hr, hrep⟩, fun _ => hsame, fun hexact => hexact.unchanged hsame⟩
      | erased htable he =>
        refine ⟨⟨_, home, .deleted hc ?_ rfl, h.erased hs htable he hfresh⟩,
          fun hn => absurd rfl hn, fun _ => exactSnapshot_of_erased he htable⟩
        rw [hs]
        exact Option.some_ne_none s

theorem wp_download_refined (hA : A.Sound cfg) (h : Represents cfg libs old σ home w)
    (request : Request) (url : Bytes) :
    wp (System A) (download cfg libs request url)
      (Refined A cfg libs old σ (.download request url) w) (fun _ => True) w := by
  cases hlookup : w.table.lookup url with
  | none =>
    refine wp_mono (wp_download_unknown hlookup) ?_ fun _ _ => trivial
    exact fun _ _ hs => .of_same h (fun hn => hn) hs.2
  | some info =>
    refine wp_mono (wp_download hlookup) ?_ fun _ _ => trivial
    exact fun _ _ hd => .of_leaves h (fun hn => hn) hd.leaves fun _ hp => hp.fresh hA

theorem wp_serve_refined (hA : A.Sound cfg) (hcfg : cfg.Checked) (hinfo : cfg.InfoOutside)
    (h : Represents cfg libs old σ home w) (op : Op) :
    wp (System A) (serve cfg libs op) (Refined A cfg libs old σ op w) (fun _ => True) w := by
  cases op with
  | upload request => exact wp_upload_refined hA hcfg hinfo h request
  | delete request => exact wp_delete_refined hA h request
  | download request url => exact wp_download_refined hA h request url

/-- A run of the server is a run of the store. -/
theorem serverRun_refines (hA : A.Sound cfg) (hcfg : cfg.Checked) (hinfo : cfg.InfoOutside)
    {w' : World} {log : Log} (h : Represents cfg libs old σ home w)
    (hrun : ServerRun A cfg libs w log w') :
    ∃ σ', StoreRun A cfg libs σ log σ' ∧ ∃ home', Represents cfg libs old σ' home' w' := by
  have hstep : ∀ w l w' σ, Runs (System A) (serve cfg libs l.1) w l.2 w' →
      (∃ home, Represents cfg libs old σ home w) →
      ∃ σ', StoreStep A cfg libs σ l σ' ∧ ∃ home', Represents cfg libs old σ' home' w' := by
    rintro w l w' σ hr ⟨home, h⟩
    obtain ⟨σ', home', hs, hrep⟩ := (wp_runs (wp_serve_refined hA hcfg hinfo h l.1) hr).step
    exact ⟨σ', hs, home', hrep⟩
  exact hrun.simulates hstep ⟨home, h⟩

/-- A server that has just loaded its metadata: every record's file is at its storage path. -/
structure Opened (cfg : Config) (libs : Libs) (σ : Store) (w : World) : Prop where
  table : ∀ url, w.table.lookup url = (σ url).map Stored.info
  situated : ∀ url s, σ url = some s → Situated cfg url s.info
  stored : ∀ url s, σ url = some s → w.fs.get (place s.info.storage_path_) = some s.file
  snapshot : Snapshot cfg libs w

/-- The files there are. -/
def World.present (w : World) : Key → Prop := fun k => w.fs.get k ≠ none

/-- The storage path of what is stored. -/
def Store.path (σ : Store) (url : Bytes) : Bytes :=
  match σ url with
  | some s => s.info.storage_path_
  | none => []

theorem Store.path_eq {url : Bytes} {s : Stored} (hs : σ url = some s) :
    σ.path url = s.info.storage_path_ := by
  rw [Store.path, hs]

theorem Opened.represents (h : Opened cfg libs σ w) :
    Represents cfg libs w.present σ σ.path w where
  housed := by
    refine ⟨h.table, h.situated, ?_, ?_, ?_, ?_⟩
    · intro url s hs
      rw [Store.path_eq hs, h.stored url s hs]
    · exact fun url s hs => Or.inl (Store.path_eq hs)
    · intro url s hs
      rw [Store.path_eq hs]
      exact (h.situated url s hs).outside
    · intro url url' s s' hs hs' he
      rw [Store.path_eq hs, Store.path_eq hs'] at he
      exact (h.situated url s hs).url_eq (h.situated url' s' hs') he
  snapshot := h.snapshot
  accounted k hk := Or.inl hk

theorem opened_empty : Opened cfg libs (fun _ => none) World.empty where
  table _ := AList.lookup_empty _
  situated _ _ hs := by cases hs
  stored _ _ hs := by cases hs
  snapshot := Or.inl ⟨rfl, rfl⟩

def fine : Choice := { ok := true }
def fails : Choice := { ok := false }
def named (x : Bytes) : Choice := { ok := true, name := x }

/-- A `Persist` whose calls succeed. -/
def persistFine (x : Bytes) : List Choice := [fine, fine, named x] ++ List.replicate 7 fine

def uploadFine (x y : Bytes) : List Choice :=
  List.replicate 4 fine ++ [named x] ++ List.replicate 12 fine ++ persistFine y ++ [fine]

def deleteFine (x y : Bytes) : List Choice :=
  List.replicate 3 fine ++ [named x] ++ List.replicate 4 fine ++ persistFine y ++ [fine, fine]

/-- The record of three bytes stored at time zero. -/
def recordAt (cfg : Config) (name : Bytes) : StorageInfo where
  mtime_ := 0
  atime_ := 0
  fsize_ := 3
  storage_path_ := joinPath cfg.lowStorageDir name
  url_ := cfg.downloadPrefix ++ name
  storage_type_ := low

def tableOf (cfg : Config) (names : List Bytes) : Table :=
  names.foldl (fun table name => table.insert (cfg.downloadPrefix ++ name) (recordAt cfg name)) ∅

theorem settled_outside : settledConfig.InfoOutside := by
  have hinfo : key settledConfig.storageInfo = ⟨false, [lit "storage.data"]⟩ := by decide
  have helsewhere : ∀ d name, key d = ⟨false, [name]⟩ → settledConfig.Elsewhere d := by
    intro d name hd f _
    have hne : key settledConfig.storageInfo ≠ (key d).child f := by
      rw [hinfo, hd]
      simp [Key.child]
    exact ⟨hne, fun _ => hne⟩
  exact ⟨helsewhere _ (lit "low_storage") (by decide), helsewhere _ (lit "deep_storage") (by decide)⟩

/-- One upload of `abc` as `x`. -/
def keptRequests : List (Op × List Choice) := [
  (.upload (uploadOf (lit "eA==") low (lit "abc")), uploadFine (lit "AAAAAA") (lit "BBBBBB"))]

def keptLibs : Libs := .plain (textsOf [tableOf settledConfig [lit "x"]])

end CloudStorage
