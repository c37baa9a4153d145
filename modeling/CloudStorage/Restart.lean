import CloudStorage.Upload

/-!
# Restart (`InitLoad` on what `Persist` wrote)

The writer joins the configured directory with the file name; the loader
normalises the path and the directory and compares the parent of the one with
the other. They agree exactly on the directories whose normal form ends in a
filename other than the dot, with no separator after it.
-/

namespace CloudStorage
open Posix Interact

variable {A : Assumption} {w : World} {cfg : Config} {text : JsonText}

/-- Reading calls succeed when there is something to read. -/
def reads (w : World) : (c : Call) → c.Resp → Bool
  | .fs (.fileExists _), found => found.isSome
  | .fs (.stat p), status => (w.fs.get (place p)).isNone || status.isSome
  | .fs (.openRead p), fd => (w.fs.get (place p)).isNone || fd.isSome
  | .fs (.pread fd offset length), chunk =>
    (((w.fs.inode fd).bytes.drop offset).take length).isEmpty || !chunk.isEmpty
  | .fs (.close _), closed => closed
  | _, _ => true

def Reads : Assumption := fun w c r => reads w c r = true

instance (w : World) (c : Call) (r : c.Resp) : Decidable (Reads w c r) :=
  inferInstanceAs (Decidable (_ = true))

/-! ### Reading succeeds -/

theorem wp_fileSize_reads {path : Bytes} {file : Inode}
    (hfile : w.fs.get (place path) = some file) :
    wp (System Reads) (fileSize path)
      (fun size w' => Same w w' ∧ size = file.bytes.length) (fun _ => True) w := by
  unfold fileSize
  rw [wp_bind]
  apply wp_stat trivial
  · intro w' hA _ _
    simp [Reads, reads, hfile] at hA
  · intro found atime w' _ hD hfound hfs
    rw [hfile] at hfound
    cases hfound
    exact ⟨hD.same hfs, rfl⟩

theorem wp_readAll_reads {fd length : Nat} (rounds : Nat) (acc : Bytes)
    (hlen : length ≤ (w.fs.inode fd).bytes.length) (hrounds : length ≤ acc.length + rounds) :
    wp (System Reads) (readAll fd 0 length rounds acc) (fun r _ => r ≠ none) (fun _ => True) w := by
  induction rounds generalizing w acc with
  | zero =>
    rw [readAll]
    have h : ¬acc.length < length := by omega
    simp only [h, ite_false]
    exact Option.some_ne_none acc
  | succ rounds ih =>
    rw [readAll]
    by_cases h : acc.length < length
    · simp only [h, ite_true]
      rw [wp_bind]
      apply wp_pread trivial
      intro m w₁ hA _ _ hfs
      have hmore : ((w.fs.inode fd).bytes.drop (0 + acc.length)).take (length - acc.length) ≠ [] := by
        intro hnil
        have hz := congrArg List.length hnil
        simp only [List.length_take, List.length_drop, List.length_nil] at hz
        omega
      have hchunk : ((w.fs.inode fd).bytes.drop (0 + acc.length)).take m ≠ [] := by
        simp only [Reads, reads, Bool.or_eq_true, List.isEmpty_iff, hmore, false_or,
          Bool.not_eq_true', List.isEmpty_eq_false_iff] at hA
        exact hA
      simp only [hchunk, ite_false]
      refine ih _ (hfs ▸ hlen) ?_
      have hpos := List.length_pos_iff.mpr hchunk
      rw [List.length_append]
      omega
    · simp only [h, ite_false]
      exact Option.some_ne_none acc

theorem wp_getContent_reads {path : Bytes} {file : Inode}
    (hfile : w.fs.get (place path) = some file) (hlen : file.bytes.length < 2 ^ 63) :
    wp (System Reads) (getContent path) (fun r w' => Same w w' ∧ r = some file.bytes)
      (fun _ => True) w := by
  have hsome : wp (System Reads) (getContent path) (fun r _ => r ≠ none) (fun _ => True) w := by
    unfold getContent
    refine wp_seq (wp_fileSize_reads hfile) (fun _ h => h) ?_
    rintro size w₁ ⟨h₁, rfl⟩
    have hrange : ¬(((file.bytes.length : Int) < 0) ∨ (2 ^ 64 - 1 < (file.bytes.length : Int))) := by
      omega
    simp only [hrange, ite_false, Int.toNat_natCast]
    unfold getPosLen
    refine wp_seq (wp_fileSize_reads (h₁.fs ▸ hfile)) (fun _ h => h) ?_
    rintro size₂ w₂ ⟨h₂, rfl⟩
    have h₂ := h₁.trans h₂
    have hrange₂ : ¬(((file.bytes.length : Int) < 0) ∨ ((file.bytes.length : Int) < (0 : Nat)) ∨
        ((file.bytes.length : Int) - (0 : Nat) < file.bytes.length) ∨ offMax < 0) := by
      unfold offMax
      omega
    simp only [hrange₂, ite_false]
    rw [wp_bind]
    apply wp_openRead trivial
    · intro w₃ hA _ _
      have hpresent : w₂.fs.get (place path) ≠ none := by
        rw [h₂.fs, hfile]
        exact Option.some_ne_none file
      simp [Reads, reads, hpresent] at hA
    · intro i w₃ _ hD₃ he hfs₃
      have hi : (w₃.fs.inode i).bytes.length = file.bytes.length := by
        have hget : w₂.fs.get (place path) = some file := by rw [h₂.fs, hfile]
        rw [FileSystem.get, he, Option.map_some, Option.some.injEq] at hget
        rw [hfs₃, hget]
      refine wp_seq (wp_readAll_reads _ [] (by omega) (by simp)) (fun _ h => h) ?_
      intro r w₄ hr
      cases r with
      | none => exact absurd rfl hr
      | some content =>
        simp only
        rw [wp_bind]
        refine wp_close trivial fun closed w₅ hA _ _ => ?_
        have hclosed : closed = true := hA
        simp only [hclosed, ite_true]
        exact Option.some_ne_none content
  refine wp_mono (wp_and wp_getContent hsome) ?_ fun _ _ => trivial
  rintro r w' ⟨⟨hs, hr⟩, hne⟩
  obtain ⟨content, rfl⟩ := Option.ne_none_iff_exists'.mp hne
  obtain ⟨found, hfound, rfl⟩ := hr content rfl
  rw [hfile] at hfound
  cases hfound
  exact ⟨hs, rfl⟩

/-- Loading a readable snapshot takes `table_` to the table its text stands for. -/
theorem wp_initLoad_reads {body : Bytes} {t : Int}
    (hfile : w.fs.get (place cfg.storageInfo) = some ⟨body, t⟩) (hlen : body.length < 2 ^ 63) :
    wp (System Reads) (initLoad cfg text)
      (fun r w' => match loadBody cfg text body with
        | none => r = false
        | some loaded => r = true ∧ w'.table = loaded) (fun _ => True) w := by
  unfold initLoad
  rw [wp_bind]
  apply wp_fileExists trivial
  · intro w₁ hA _ _
    simp [Reads, reads] at hA
  · intro w₁ _ hD hfs
    rw [hfile]
    simp only [Option.isSome_some]
    refine wp_seq (wp_getContent_reads (hfs ▸ hfile) hlen) (fun _ h => h) ?_
    rintro r w₂ ⟨-, rfl⟩
    simp only
    cases loadBody cfg text body with
    | none => rfl
    | some loaded =>
      simp only
      rw [wp_bind]
      exact wp_swapTable trivial fun w₃ _ htable _ _ _ _ _ => ⟨rfl, htable⟩

/-! ### What a start accepts -/

/-- `table_` and the content of the metadata file. -/
structure Saved where
  table : Table
  file : Option Bytes

def World.saved (w : World) (cfg : Config) : Saved where
  table := w.table
  file := (w.fs.get (place cfg.storageInfo)).map Inode.bytes

/-- The existence check of `InitLoad` gives an answer. -/
def probed : (c : Call) → c.Resp → Bool
  | .fs (.fileExists _), found => found.isSome
  | _, _ => true

def Probed : Assumption := fun _ c r => probed c r = true

instance (w : World) (c : Call) (r : c.Resp) : Decidable (Probed w c r) :=
  inferInstanceAs (Decidable (_ = true))

/-- What `InitLoad` accepts: no file, for the empty table, or one it loads. -/
def Loaded (cfg : Config) (text : JsonText) (saved : Saved) : Prop :=
  saved.file = none ∧ saved.table = ∅ ∨
    ∃ body, saved.file = some body ∧ loadBody cfg text body = some saved.table

theorem wp_initLoad_probed {w : World} (htable : w.table = ∅) :
    wp (System Probed) (initLoad cfg text)
      (fun ok w' => w'.fs = w.fs ∧ (ok = true → Loaded cfg text (w'.saved cfg)))
      (fun _ => True) w := by
  unfold initLoad
  rw [wp_bind]
  apply wp_fileExists trivial
  · intro w₁ hA _ _
    simp [Probed, probed] at hA
  · intro w₁ _ hD hfs
    cases hfile : w.fs.get (place cfg.storageInfo) with
    | none =>
      refine ⟨hfs, fun _ => Or.inl ?_⟩
      simp [World.saved, hfs, hfile, hD.table, htable]
    | some file =>
      simp only [Option.isSome_some]
      refine wp_seq wp_getContent (fun _ _ => trivial) ?_
      rintro r w₂ ⟨h₂, hr⟩
      cases r with
      | none => exact ⟨h₂.fs.trans hfs, fun hok => by cases hok⟩
      | some body =>
        obtain ⟨found, hfound, rfl⟩ := hr body rfl
        rw [hfs, hfile] at hfound
        cases hfound
        simp only
        cases hload : loadBody cfg text file.bytes with
        | none => exact ⟨h₂.fs.trans hfs, fun hok => by cases hok⟩
        | some loaded =>
          simp only
          rw [wp_bind]
          refine wp_swapTable trivial fun w₃ hfs₃ htable₃ _ _ _ _ _ => ?_
          refine ⟨(hfs₃.trans h₂.fs).trans hfs, fun _ => Or.inr ⟨file.bytes, ?_, ?_⟩⟩
          · simp [World.saved, hfs₃, h₂.fs, hfs, hfile]
          · rw [hload, World.saved, htable₃]

/-! ### The loader on what the writer wrote -/

/-- The records an upload can insert, with the ranges of `time_t` and `uint64_t`. -/
structure Insertable (cfg : Config) (info : StorageInfo) : Prop where
  uploaded : ∃ a file, UploadArgs.Checked cfg a ∧ RecordOf cfg a file info
  mtime : info.mtime_ < 2 ^ 63
  atime : info.atime_ < 2 ^ 63
  fsize : info.fsize_ < 2 ^ 64

/-- What the loader needs to know about an uploaded record. -/
structure Insertable.Facts (cfg : Config) (info : StorageInfo) (filename : Bytes) : Prop where
  plain : Plain filename
  path : info.storage_path_ = join (cfg.directory info.storage_type_) filename
  url : info.url_ = cfg.downloadPrefix ++ filename
  type : info.storage_type_ = low ∨ info.storage_type_ = deep
  mtime : 0 ≤ info.mtime_ ∧ info.mtime_ < 2 ^ 63
  atime : 0 ≤ info.atime_ ∧ info.atime_ < 2 ^ 63
  fsize : info.fsize_ < 2 ^ 64

theorem Insertable.facts {info : StorageInfo} (hcfg : cfg.Checked) (h : Insertable cfg info) :
    ∃ filename, Insertable.Facts cfg info filename := by
  obtain ⟨a, file, hc, hr⟩ := h.uploaded
  have hplain := isSafeFileName_plain hc.safe
  have hdir : cfg.directory info.storage_type_ = a.directory cfg := by rw [hr.type]; rfl
  have hname : fileName (a.finalPath cfg) = a.filename :=
    filename_join (hcfg.directory_ne a.storageType) hplain
  refine ⟨a.filename, hplain, ?_, ?_, ?_, ⟨hr.mtime_nonneg, h.mtime⟩, ⟨hr.atime_nonneg, h.atime⟩,
    h.fsize⟩
  · rw [hr.path, hdir]
    rfl
  · rw [hr.url, hname]
  · rw [hr.type]
    exact hc.type

/-- What the loader sees of a written record. -/
theorem parseStorageInfo_members (info : StorageInfo) :
    parseStorageInfo cfg (recordJson info) =
      parseMembers cfg (.str info.storage_path_) (.str info.url_) (.int info.fsize_)
        (.int info.mtime_) (.int info.atime_) (.str info.storage_type_) true := by
  have hpath : (recordJson info).member (lit "storage_path_") = .str info.storage_path_ := rfl
  have hurl : (recordJson info).member (lit "url_") = .str info.url_ := rfl
  have hfsize : (recordJson info).member (lit "fsize_") = .int info.fsize_ := rfl
  have hmtime : (recordJson info).member (lit "mtime_") = .int info.mtime_ := rfl
  have hatime : (recordJson info).member (lit "atime_") = .int info.atime_ := rfl
  have htype : (recordJson info).member (lit "storage_type_") = .str info.storage_type_ := rfl
  have hmember : (recordJson info).isMember (lit "storage_type_") = true := rfl
  rw [parseStorageInfo, hpath, hurl, hfsize, hmtime, hatime, htype, hmember]
  exact if_neg Bool.false_ne_true

/-- The loader accepts a written record exactly when the directory of its type is settled. -/
theorem parseStorageInfo_recordJson {info : StorageInfo} (hcfg : cfg.Checked)
    (h : Insertable cfg info) :
    parseStorageInfo cfg (recordJson info) =
      if Settled (cfg.directory info.storage_type_) then some info else none := by
  obtain ⟨f, hf⟩ := h.facts hcfg
  have hdir := hcfg.directory_ne info.storage_type_
  have hpath : info.storage_path_.isEmpty = false := by
    rw [List.isEmpty_eq_false_iff, hf.path]
    intro hnil
    have hname := filename_join hdir hf.plain
    rw [hnil] at hname
    exact hf.plain.ne_nil hname.symm
  have hurl : info.url_.isEmpty = false := by
    rw [List.isEmpty_eq_false_iff, hf.url]
    exact List.append_ne_nil_of_right_ne_nil _ hf.plain.ne_nil
  have hmtime := Json.isInt64_int hf.mtime.1 hf.mtime.2
  have hatime := Json.isInt64_int hf.atime.1 hf.atime.2
  have hfsize := Json.isUInt64_int hf.fsize
  have hneg : ∀ signed : Bool, ¬((signed = true ∧ (if signed then (info.fsize_ : Int) else 0) < 0) ∨
      info.mtime_ < 0 ∨ info.atime_ < 0) := by
    intro signed
    have hm := hf.mtime.1
    have ha := hf.atime.1
    split <;> omega
  have htype : ¬(info.storage_type_ ≠ low ∧ info.storage_type_ ≠ deep) := by
    rintro ⟨hl, hd⟩
    exact hf.type.elim hl hd
  have hfilename : filename (normal (parse info.storage_path_)) = f := by
    rw [hf.path, filename_normal_join hdir hf.plain]
  have hparent : parent (normal (parse info.storage_path_)) =
      normal (parse (cfg.directory info.storage_type_)) ↔
        Settled (cfg.directory info.storage_type_) := by
    rw [hf.path]
    exact parent_normal_join_eq_iff hdir hf.plain
  rw [parseStorageInfo_members]
  unfold parseMembers
  simp only [hmtime, hatime, hfsize, Json.isString, Json.asString, hpath, hurl, Bool.true_or,
    Bool.not_true, Bool.or_false, Bool.and_self, ite_true, Json.asWhole, Json.whole,
    Option.getD_some]
  rw [if_neg (by decide), if_neg (hneg (Json.int info.fsize_).isInt64), if_neg htype, hfilename]
  by_cases hset : Settled (cfg.directory info.storage_type_)
  · have hpass : ¬(f = [] ∨ parent (normal (parse info.storage_path_)) ≠
        normal (parse (cfg.directory info.storage_type_))) := by
      rintro (hnil | hne)
      · exact hf.plain.ne_nil hnil
      · exact hne (hparent.mpr hset)
    rw [if_neg hpass, if_pos hf.url, if_pos hset]
    simp
  · have hfail : f = [] ∨ parent (normal (parse info.storage_path_)) ≠
        normal (parse (cfg.directory info.storage_type_)) :=
      Or.inr fun he => hset (hparent.mp he)
    rw [if_pos hfail, if_neg hset]

abbrev Entries := List (Sigma fun _ : Bytes => StorageInfo)

theorem loadItems_some (entries : Entries) (acc : Table) (hnd : entries.NodupKeys)
    (hparse : ∀ e ∈ entries, e.2.url_ = e.1 ∧ parseStorageInfo cfg (recordJson e.2) = some e.2)
    (hacc : ∀ e ∈ entries, e.1 ∉ acc) :
    ∃ t, loadItems cfg (entries.map fun e => recordJson e.2) acc = some t ∧
      ∀ url, t.lookup url = (entries.dlookup url).or (acc.lookup url) := by
  induction entries generalizing acc with
  | nil => exact ⟨acc, rfl, fun url => by rw [List.dlookup_nil]; rfl⟩
  | cons e entries ih =>
    obtain ⟨hkey, hrecord⟩ := hparse e (List.mem_cons_self ..)
    have hnew : e.1 ∉ acc := hacc e (List.mem_cons_self ..)
    obtain ⟨hnot, hnd'⟩ := List.nodupKeys_cons.mp hnd
    obtain ⟨t, ht, hlookup⟩ := ih (acc.insert e.1 e.2) hnd'
      (fun e' he' => hparse e' (List.mem_cons_of_mem _ he')) (fun e' he' hmem => by
        rcases (AList.mem_insert acc).mp hmem with he | hin
        · exact hnot (he ▸ List.mem_keys_of_mem he')
        · exact hacc e' (List.mem_cons_of_mem _ he') hin)
    refine ⟨t, ?_, fun url => ?_⟩
    · simp only [List.map_cons, loadItems, hrecord, hkey, hnew, ite_false]
      exact ht
    · rw [hlookup]
      by_cases he : url = e.1
      · subst he
        have hnone : entries.dlookup e.1 = none := List.dlookup_eq_none.mpr hnot
        rw [hnone, AList.lookup_insert, List.dlookup_cons_eq]
        rfl
      · rw [AList.lookup_insert_ne he, List.dlookup_cons_ne _ _ he]

theorem loadItems_none (entries : Entries) (acc : Table)
    (h : ∃ e ∈ entries, parseStorageInfo cfg (recordJson e.2) = none) :
    loadItems cfg (entries.map fun e => recordJson e.2) acc = none := by
  induction entries generalizing acc with
  | nil =>
    obtain ⟨_, he, _⟩ := h
    cases he
  | cons e entries ih =>
    rw [List.map_cons, loadItems]
    cases hparse : parseStorageInfo cfg (recordJson e.2) with
    | none => rfl
    | some info =>
      simp only
      split
      · rfl
      · obtain ⟨e', he', hnone⟩ := h
        rcases List.mem_cons.mp he' with rfl | he'
        · rw [hparse] at hnone
          cases hnone
        · exact ih _ ⟨e', he', hnone⟩

theorem parseStorageInfo_written {info read : StorageInfo}
    (h : parseStorageInfo cfg (recordJson info) = some read) : read = info := by
  rw [parseStorageInfo_members] at h
  obtain ⟨hchecks, h⟩ := Option.ite_none_left_eq_some.mp h
  obtain ⟨-, h⟩ := Option.ite_none_left_eq_some.mp h
  obtain ⟨-, h⟩ := Option.ite_none_left_eq_some.mp h
  obtain ⟨-, h⟩ := Option.ite_none_left_eq_some.mp h
  obtain ⟨-, h⟩ := Option.ite_none_right_eq_some.mp h
  cases h
  have hfsize : (if (Json.int info.fsize_).isUInt64 then (Json.int info.fsize_).asWhole.toNat
      else (if (Json.int info.fsize_).isInt64 then (Json.int info.fsize_).asWhole else 0).toNat) =
      info.fsize_ := by
    simp only [Bool.or_eq_true, not_or, Bool.not_eq_true, Bool.not_eq_false'] at hchecks
    obtain ⟨⟨⟨-, hsize⟩, -⟩, -⟩ := hchecks
    by_cases hu : (Json.int info.fsize_).isUInt64 = true
    · rw [if_pos hu]
      rfl
    · rw [if_neg hu, if_pos (hsize.resolve_left hu)]
      rfl
  cases info
  simp only [StorageInfo.mk.injEq]
  exact ⟨rfl, rfl, hfsize, rfl, rfl, rfl⟩

theorem loadBody_written {table loaded : Table} {body : Bytes} (htext : text.RoundTrips)
    (hkey : ∀ url info, table.lookup url = some info → info.url_ = url)
    (hbody : text.write (tableJson table) = some body)
    (hload : loadBody cfg text body = some loaded) (url : Bytes) :
    loaded.lookup url = table.lookup url := by
  have hitems : loadItems cfg (table.entries.map fun e => recordJson e.2) ∅ = some loaded := by
    rw [← hload]
    unfold loadBody
    rw [htext _ _ hbody]
    rfl
  have hparse : ∀ e ∈ table.entries, parseStorageInfo cfg (recordJson e.2) = some e.2 := by
    intro e he
    cases hread : parseStorageInfo cfg (recordJson e.2) with
    | none =>
      rw [loadItems_none table.entries ∅ ⟨e, he, hread⟩] at hitems
      cases hitems
    | some read => rw [parseStorageInfo_written hread]
  obtain ⟨t, ht, hlookup⟩ := loadItems_some table.entries ∅ table.nodupKeys
    (fun e he => ⟨hkey e.1 e.2 (mem_entries_iff.mp he), hparse e he⟩)
    (fun e _ => AList.notMem_empty e.1)
  rw [hitems] at ht
  cases ht
  rw [hlookup, AList.lookup_empty, Option.or_none]
  rfl

/-- The records are those uploads insert, under their URLs. -/
def Uploads (cfg : Config) (table : Table) : Prop :=
  ∀ url info, table.lookup url = some info → info.url_ = url ∧ Insertable cfg info

/-- The directory of every record's type is settled. -/
def SettledRecords (cfg : Config) (table : Table) : Prop :=
  ∀ url info, table.lookup url = some info → Settled (cfg.directory info.storage_type_)

theorem loadBody_uploads {table : Table} {body : Bytes} (htext : text.RoundTrips)
    (hcfg : cfg.Checked) (htable : Uploads cfg table)
    (hbody : text.write (tableJson table) = some body) :
    (SettledRecords cfg table → ∃ loaded, loadBody cfg text body = some loaded ∧
      ∀ url, loaded.lookup url = table.lookup url) ∧
    (¬SettledRecords cfg table → loadBody cfg text body = none) := by
  have hload : loadBody cfg text body =
      loadItems cfg (table.entries.map fun e => recordJson e.2) ∅ := by
    unfold loadBody
    rw [htext _ _ hbody]
    rfl
  rw [hload]
  have hentry : ∀ e ∈ table.entries, e.2.url_ = e.1 ∧ Insertable cfg e.2 :=
    fun e he => htable e.1 e.2 (mem_entries_iff.mp he)
  constructor
  · intro hset
    obtain ⟨t, ht, hlookup⟩ := loadItems_some table.entries ∅ table.nodupKeys
      (fun e he => ⟨(hentry e he).1, by
        rw [parseStorageInfo_recordJson hcfg (hentry e he).2,
          if_pos (hset e.1 e.2 (mem_entries_iff.mp he))]⟩)
      (fun e _ => AList.notMem_empty e.1)
    refine ⟨t, ht, fun url => ?_⟩
    rw [hlookup, AList.lookup_empty, Option.or_none]
    rfl
  · intro hset
    refine loadItems_none _ _ ?_
    simp only [SettledRecords, not_forall] at hset
    obtain ⟨url, info, hlookup, hunsettled⟩ := hset
    have hmem : (⟨url, info⟩ : Sigma fun _ : Bytes => StorageInfo) ∈ table.entries :=
      mem_entries_iff.mpr hlookup
    refine ⟨⟨url, info⟩, hmem, ?_⟩
    rw [parseStorageInfo_recordJson hcfg (hentry _ hmem).2, if_neg hunsettled]

/-- A restart recovers the persisted table exactly when the directories of its records
are settled. -/
theorem restart_recovers_iff {table : Table} {w₁ w₂ : World} {r : Bool}
    (htext : text.RoundTrips) (hcfg : Config.Accepted cfg) (htable : Uploads cfg table)
    (hpersist : Runs (System Anything) (persist cfg text table) w true w₁)
    (hload : Runs (System Reads) (initLoad cfg text) w₁.restart r w₂) :
    (r = true ∧ ∀ url, w₂.table.lookup url = table.lookup url) ↔ SettledRecords cfg table := by
  have hp : Persisted cfg text table w w₁ := by simpa using wp_runs wp_persist hpersist
  obtain ⟨body, t, hbody, hfile⟩ := hp.written
  have hfile' : w₁.restart.fs.get (place cfg.storageInfo) = some ⟨body, t⟩ := hfile
  have hrun := wp_runs (wp_initLoad_reads hfile' (text.write_length _ _ hbody)) hload
  obtain ⟨hok, hfail⟩ := loadBody_uploads htext hcfg.checked htable hbody
  constructor
  · rintro ⟨rfl, -⟩
    by_contra hset
    rw [hfail hset] at hrun
    cases hrun
  · intro hset
    obtain ⟨loaded, hloaded, hlookup⟩ := hok hset
    rw [hloaded] at hrun
    obtain ⟨hr, htab⟩ := hrun
    exact ⟨hr, fun url => by rw [htab, hlookup]⟩

/-- One small file, uploaded for low storage. -/
def sampleUpload : UploadArgs := ⟨lit "x.txt", low, lit "abc"⟩

def sampleRecord (cfg : Config) : StorageInfo where
  mtime_ := 5
  atime_ := 7
  fsize_ := 3
  storage_path_ := sampleUpload.finalPath cfg
  url_ := cfg.downloadPrefix ++ fileName (sampleUpload.finalPath cfg)
  storage_type_ := low

def sampleTable (cfg : Config) : Table :=
  (∅ : Table).insert (sampleRecord cfg).url_ (sampleRecord cfg)

/-- The text jsoncpp writes for a record whose texts need no escapes. -/
def recordText (info : StorageInfo) : Bytes :=
  lit "\t\x7b\n\t\t\"atime_\" : " ++ decimalInt info.atime_ ++
  lit ",\n\t\t\"fsize_\" : " ++ decimal info.fsize_ ++
  lit ",\n\t\t\"mtime_\" : " ++ decimalInt info.mtime_ ++
  lit ",\n\t\t\"storage_path_\" : \"" ++ info.storage_path_ ++
  lit "\",\n\t\t\"storage_type_\" : \"" ++ info.storage_type_ ++
  lit "\",\n\t\t\"url_\" : \"" ++ info.url_ ++ lit "\"\n\t\x7d"

def tableText (table : Table) : Bytes :=
  if table.entries = [] then lit "[]"
  else lit "[\n" ++
    (lit ",\n").intercalate (table.entries.map fun entry => recordText entry.2) ++ lit "\n]"

/-- The JSON library on the texts of some tables. -/
def textsOf (tables : List Table) : JsonText :=
  .ofPairs (tables.map fun table => (tableJson table, tableText table))

def sampleText (cfg : Config) : JsonText := textsOf [sampleTable cfg]

theorem sampleTable_uploads (cfg : Config) : Uploads cfg (sampleTable cfg) := by
  intro url info h
  by_cases hurl : url = (sampleRecord cfg).url_
  · subst hurl
    rw [sampleTable, AList.lookup_insert] at h
    cases h
    refine ⟨rfl, ⟨sampleUpload, ⟨lit "abc", 5 * second⟩, ⟨by decide, Or.inl rfl, by decide⟩, ?_⟩,
      by simp [sampleRecord], by simp [sampleRecord], by simp [sampleRecord]⟩
    exact ⟨by simp [sampleRecord, second], by simp [sampleRecord], by simp [sampleRecord],
      by simp only [sampleRecord]; decide, rfl, rfl, rfl⟩
  · rw [sampleTable, AList.lookup_insert_ne hurl, AList.lookup_empty] at h
    cases h

/-- All calls of a `Persist` succeed. -/
def persistChoices : List Choice :=
  [{ ok := true }, { ok := true }, { name := lit "abcdef" }] ++ List.replicate 7 { ok := true }

def loadChoices : List Choice := List.replicate 7 { ok := true }

def settledConfig : Config :=
  .shipped (lit "deep_storage") (lit "low_storage") (lit "tmp") (lit "storage.data")

theorem restart_recovers_settled :
    ∃ w₁ w₂, Runs (System Anything)
      (persist settledConfig (sampleText settledConfig) (sampleTable settledConfig))
        World.empty true w₁ ∧
      Runs (System Reads) (initLoad settledConfig (sampleText settledConfig)) w₁.restart true w₂ ∧
      ((true = true ∧ ∀ url, w₂.table.lookup url = (sampleTable settledConfig).lookup url) ↔
        SettledRecords settledConfig (sampleTable settledConfig)) := by
  have hp := @playUnder_runs Anything _ _
    (persist settledConfig (sampleText settledConfig) (sampleTable settledConfig)) persistChoices
    World.empty true (by decide +kernel)
  have hl := @playUnder_runs Reads _ _ (initLoad settledConfig (sampleText settledConfig))
    loadChoices (playUnder Anything
      (persist settledConfig (sampleText settledConfig) (sampleTable settledConfig))
      persistChoices World.empty).2.restart true (by decide +kernel)
  exact ⟨_, _, hp, hl, restart_recovers_iff (JsonText.ofPairs_roundTrips (by simp))
    (Config.shipped_accepted (by decide) (by decide)) (sampleTable_uploads _) hp hl⟩

/-- With the shipped directories, which end in a separator, the snapshot of one
uploaded file is refused. -/
theorem restart_fails_shipped : ¬∀ (text : JsonText) (cfg : Config) (table : Table)
    (w w₁ w₂ : World) (r : Bool), text.RoundTrips → Config.Accepted cfg → Uploads cfg table →
    Runs (System Anything) (persist cfg text table) w true w₁ →
    Runs (System Reads) (initLoad cfg text) w₁.restart r w₂ →
    r = true ∧ ∀ url, w₂.table.lookup url = table.lookup url := by
  intro h
  let cfg := Config.shipped (lit "./deep_storage/") (lit "./low_storage/") (lit "./tmp/")
    (lit "./storage.data")
  have hp := @playUnder_runs Anything _ _ (persist cfg (sampleText cfg) (sampleTable cfg))
    persistChoices World.empty true (by decide +kernel)
  have hl := @playUnder_runs Reads _ _ (initLoad cfg (sampleText cfg)) loadChoices
    (playUnder Anything (persist cfg (sampleText cfg) (sampleTable cfg))
      persistChoices World.empty).2.restart false (by decide +kernel)
  have hr := h _ _ _ _ _ _ _ (JsonText.ofPairs_roundTrips (by simp))
    (Config.shipped_accepted (by decide) (by decide)) (sampleTable_uploads cfg) hp hl
  exact Bool.false_ne_true hr.1

end CloudStorage
