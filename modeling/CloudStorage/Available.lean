import CloudStorage.Healthy

/-!
# The store in a healthy environment (`Service::Upload`, `Delete`, `Download`)

When no call fails the replies are those of an ideal store: a map from URLs to
uploaded contents that refuses what the checks refuse, answers a conflict for a URL
that is taken and a 404 for one that is not there, and serves every content whole.
-/

namespace CloudStorage
open Posix Interact

variable {A : Assumption} {w : World} {cfg : Config} {libs : Libs}

/-! ### Names of temporaries -/

/-- A name without a separator is put after the directory. -/
theorem join_append (d : Bytes) : ∃ s, ∀ f, sep ∉ f → join d f = s ++ f := by
  have hrooted : ∀ f : Bytes, sep ∉ f → rooted f = false := by
    intro f hf
    cases f with
    | nil => rfl
    | cons c cs =>
      have hc : c ≠ sep := fun he => hf (he ▸ List.mem_cons_self ..)
      simp [rooted, hc]
  by_cases hd : d = [] ∨ endsInSep d = true
  · refine ⟨d, fun f hf => ?_⟩
    simp only [join, hrooted f hf, hd, Bool.false_eq_true, ite_true, ite_false]
  · refine ⟨d ++ [sep], fun f hf => ?_⟩
    simp only [join, hrooted f hf, hd, Bool.false_eq_true, ite_false, List.append_assoc,
      List.singleton_append]

theorem TempName.eq_join {directory pre p : Bytes} (hdir : (0 : Byte) ∉ directory)
    (hpre : (0 : Byte) ∉ pre) (hsep : sep ∉ pre) (h : TempName directory pre p) :
    ∃ x, TempSuffix x ∧ p = joinPath directory (pre ++ x) := by
  obtain ⟨x, hx, rfl⟩ := h
  obtain ⟨s, hs⟩ := join_append directory
  have hsuffix := sixX_suffix hdir hpre
  have hplain : sep ∉ pre ++ sixX := fun h => (List.mem_append.mp h).elim hsep (by decide)
  have hname : sep ∉ pre ++ x := fun h => (List.mem_append.mp h).elim hsep fun hm =>
    absurd (List.all_eq_true.mp hx.2 sep hm) (by decide)
  have h0 : (0 : Byte) ∉ joinPath directory (pre ++ sixX) := by
    intro h
    rcases mem_join h with h | h | h
    · exact hdir h
    · exact absurd h (by decide)
    · exact (List.mem_append.mp h).elim hpre (by decide)
  refine ⟨x, hx, ?_⟩
  rw [cString_eq h0, joinPath, joinPath, hs _ hplain, hs _ hname, fillTemplate]
  have hlen : (s ++ (pre ++ sixX)).length - 6 = (s ++ pre).length := by
    simp only [List.length_append, sixX, List.length_cons, List.length_nil]
    omega
  rw [hlen, ← List.append_assoc, List.take_left' rfl, List.append_assoc]

theorem place_tempName {directory pre p : Bytes} (hne : directory ≠ [])
    (hdir : (0 : Byte) ∉ directory) (hpre : (0 : Byte) ∉ pre) (hsep : sep ∉ pre)
    (h : TempName directory pre p) :
    ∃ x, place p = (key directory).child (pre ++ x) := by
  obtain ⟨x, hx, rfl⟩ := h.eq_join hdir hpre hsep
  have hmem : ∀ b ∈ x, isAlnum b = true := List.all_eq_true.mp hx.2
  have hplain : Plain (pre ++ x) := by
    have hlen : 6 ≤ (pre ++ x).length := by
      rw [List.length_append, hx.1]
      omega
    refine ⟨?_, ?_, ?_, fun h => (List.mem_append.mp h).elim hsep fun hm =>
      absurd (hmem sep hm) (by decide)⟩
    · rintro h
      simp [h] at hlen
    · rintro h
      simp [h, dot] at hlen
    · rintro h
      simp [h, dotdot] at hlen
  have h0 : (0 : Byte) ∉ join directory (pre ++ x) := by
    intro h
    rcases mem_join h with h | h | h
    · exact hdir h
    · exact absurd h (by decide)
    · exact (List.mem_append.mp h).elim hpre fun hm => absurd (hmem 0 hm) (by decide)
  refine ⟨x, ?_⟩
  rw [joinPath, place_eq h0, key_join hne hplain]

/-- The requested name is not one that an upload may give its temporary. -/
def UploadArgs.Ordinary (a : UploadArgs) : Prop := ¬uploadPrefix <+: a.filename

instance (a : UploadArgs) : Decidable a.Ordinary := inferInstanceAs (Decidable (¬_))

theorem uploadPrefix_clean : (0 : Byte) ∉ uploadPrefix ∧ sep ∉ uploadPrefix := by decide
theorem deletePrefix_clean : (0 : Byte) ∉ deletePrefix ∧ sep ∉ deletePrefix := by decide
theorem downloadPrefix_clean : (0 : Byte) ∉ downloadPrefix ∧ sep ∉ downloadPrefix := by decide

theorem UploadArgs.Ordinary.apart {a : UploadArgs} (h : a.Ordinary) (hcfg : cfg.Checked)
    (ha : a.Checked cfg) (h0 : (0 : Byte) ∉ a.directory cfg) {p : Bytes}
    (hp : TempName (a.directory cfg) uploadPrefix p) : place (a.finalPath cfg) ≠ place p := by
  obtain ⟨x, hx⟩ := place_tempName (hcfg.directory_ne a.storageType) h0 uploadPrefix_clean.1
    uploadPrefix_clean.2 hp
  rw [ha.place_final hcfg h0, hx, ne_eq, Key.child_inj]
  rintro ⟨-, hname⟩
  exact h ⟨x, hname.symm⟩

theorem parentPath_no_nul {s : Bytes} (h : (0 : Byte) ∉ s) : (0 : Byte) ∉ parentPath s := by
  have hstring : (0 : Byte) ∉ parentString s := by
    unfold parentString
    split
    · exact h
    · simp only
      split
      · split <;> decide
      · refine fun hm => h ?_
        exact (List.rdropWhile_prefix _ _).subset ((List.rdropWhile_prefix _ _).subset hm)
  unfold parentPath
  split
  · decide
  · exact hstring

/-! ### Uploads -/

theorem wp_pack_done {lib : Bundle} {q : Nat} {input : Bytes} (hA : A.Healthy) (h : Clear w) :
    wp (System A) (pack lib q input) (fun r w' => r ≠ none ∧ Clear w') (fun _ => True) w := by
  unfold pack
  split
  · exact ⟨Option.some_ne_none _, h⟩
  · rw [wp_bind]
    refine wp_codec trivial fun o w' hok hD _ => ?_
    have ho : o = .ok := of_decide_eq_true (hA _ _ _ hok)
    subst ho
    exact ⟨Option.some_ne_none _, h.did hD rfl⟩

theorem wp_writeUpload_done {a : UploadArgs} {temporary : Bytes} (hA : A.Healthy) (h : Clear w) :
    wp (System A) (writeUpload cfg libs a temporary) (fun ok w' => ok = true ∧ Clear w')
      (fun _ => True) w := by
  unfold writeUpload
  split
  · exact wp_setContent_done hA h
  · unfold compress
    refine wp_seq (wp_pack_done hA h) (fun _ h => h) ?_
    rintro r w₁ ⟨hr, h₁⟩
    obtain ⟨packed, rfl⟩ := Option.ne_none_iff_exists'.mp hr
    exact wp_setContent_done hA h₁

theorem url_finalPath (hcfg : cfg.Checked) {a : UploadArgs} (ha : a.Checked cfg) :
    cfg.downloadPrefix ++ fileName (a.finalPath cfg) = a.url cfg := by
  have hname : fileName (a.finalPath cfg) = a.filename :=
    filename_join (hcfg.directory_ne a.storageType) (isSafeFileName_plain ha.safe)
  rw [hname]
  rfl

theorem wp_recordUpload_done {a : UploadArgs} {file : Inode} (hA : A.Healthy) (h : Clear w)
    (hcfg : cfg.Checked) (ha : a.Checked cfg) (hfree : a.url cfg ∉ w.table)
    (hfile : w.fs.get (place (a.finalPath cfg)) = some file) (hmtime : 0 ≤ file.mtime)
    (hwrite : ∀ info, Measured A cfg (a.finalPath cfg) a.storageType info →
      libs.json.write (tableJson (w.table.insert info.url_ info)) ≠ none)
    (hdir : (0 : Byte) ∉ parentPath cfg.storageInfo) :
    wp (System A) (recordUpload cfg libs a) (fun r w' => r = uploaded ∧ Clear w')
      (fun _ => True) w := by
  unfold recordUpload
  refine wp_seq_and wp_newStorageInfo (wp_newStorageInfo_done hA h ha.type hfile hmtime) ?_
  rintro r w₁ ⟨hs, hr⟩ ⟨⟨info, rfl, hinfo⟩, h₁⟩
  obtain ⟨-, -, -, -, -, -, -, hurl, -⟩ := hr info rfl
  have htable : w₁.table = w.table := hs.frame.table
  have hunknown : info.url_ ∉ w₁.table := by
    rw [hurl, url_finalPath hcfg ha, htable]
    exact hfree
  refine wp_seq (wp_dataInsert_done hA h₁ hunknown (htable ▸ hwrite info hinfo) hdir)
    (fun _ h => h) ?_
  rintro result w₂ ⟨rfl, h₂⟩
  exact ⟨rfl, h₂⟩

/-- The upload of an ordinary name whose URL and place are free. -/
theorem wp_storeUpload_done {a : UploadArgs} (hA : A.Healthy) (h : Clear w) (hcfg : cfg.Checked)
    (ha : a.Checked cfg) (hname : a.Ordinary) (h0 : (0 : Byte) ∉ a.directory cfg)
    (hfree : a.url cfg ∉ w.table) (hplace : w.fs.get (place (a.finalPath cfg)) = none)
    (hclock : 0 ≤ w.clock)
    (hwrite : ∀ info, Measured A cfg (a.finalPath cfg) a.storageType info →
      libs.json.write (tableJson (w.table.insert info.url_ info)) ≠ none)
    (hdir : (0 : Byte) ∉ parentPath cfg.storageInfo) :
    wp (System A) (storeUpload cfg libs a) (fun r w' => r = uploaded ∧ Clear w') (fun _ => True)
      w := by
  unfold storeUpload
  refine wp_seq (wp_getOneByUrl_done h) (fun _ h => h) ?_
  rintro _ w₁ ⟨rfl, hs₁, h₁⟩
  rw [AList.lookup_eq_none.mpr hfree]
  refine wp_seq (@wp_quiet_done A w₁ (.mkdirs _) hA trivial h₁) (fun _ h => h) ?_
  rintro made w₂ ⟨hmade, hs₂, h₂⟩
  have hm : made = true := hmade
  subst hm
  simp only [ite_true]
  rw [wp_bind]
  refine wp_copyOut trivial fun copied w₃ hok hD₃ hfs₃ => ?_
  have hc : copied = true := hA _ _ _ hok
  subst hc
  have hs₃ := (hs₁.trans hs₂).trans (hD₃.same hfs₃)
  simp only [ite_true]
  refine wp_seq_and wp_createTempFile (wp_createTempFile_done hA (h₂.did hD₃ rfl) h0
    uploadPrefix_clean.1 uploadPrefix_clean.2) ?_
  rintro r w₄ htemp ⟨hr, h₄⟩
  obtain ⟨temporary, rfl⟩ := Option.ne_none_iff_exists'.mp hr
  obtain ⟨htemp, -, hf₄, i, hown⟩ := htemp
  have hne := hname.apart hcfg ha h0 htemp.shape
  simp only
  refine wp_seq_and (wp_writeUpload hown) (wp_writeUpload_done hA h₄) ?_
  rintro ok w₅ ⟨hf₅, hown₅, hwritten⟩ ⟨rfl, h₅⟩
  obtain ⟨file, -, hget, hlo, -⟩ := hwritten rfl
  have hpresent : w₅.fs.get (place temporary) ≠ none := by
    rw [hget]
    exact Option.some_ne_none _
  simp only [ite_true]
  refine wp_seq_and (wp_commitNoReplace hpresent) (wp_commitNoReplace_done hA h₅ hpresent) ?_
  rintro r w₆ hr ⟨hdone, h₆⟩
  have hsame : w₅.fs.get (place (a.finalPath cfg)) = none := by
    rw [hf₅.files _ hne, hf₄.files _ hne, hs₃.fs, hplace]
  rcases hdone with rfl | ⟨-, hold⟩
  · obtain ⟨-, -, -, hf₆, -, hfinal⟩ := hr
    have htable : w₆.table = w.table := by
      rw [hf₆.table, hf₅.table, hf₄.table, hs₃.frame.table]
    refine wp_recordUpload_done hA h₆ hcfg ha (htable ▸ hfree) (hfinal.trans hget) ?_
      (htable ▸ hwrite) hdir
    exact Int.le_trans hclock (Int.le_trans hs₃.frame.clock (Int.le_trans hf₄.clock hlo))
  · exact absurd hsame hold

/-! ### Deletes -/

theorem wp_emptyTrash_done {trash : Bytes} (hA : A.Healthy) (h : Clear w)
    (hpresent : w.fs.get (place trash) ≠ none) :
    wp (System A) (emptyTrash (some trash)) (fun _ w' => Clear w') (fun _ => True) w := by
  unfold emptyTrash
  refine wp_seq (wp_unlink_done hA h hpresent) (fun _ h => h) ?_
  rintro done w₁ ⟨rfl, h₁⟩
  exact h₁

/-- The file is at `trash` and its record is still there. -/
theorem wp_eraseRecord_done {url path trash : Bytes} (hA : A.Healthy) (h : Clear w)
    (hmem : url ∈ w.table) (hpresent : w.fs.get (place trash) ≠ none)
    (hne : place trash ≠ place cfg.storageInfo)
    (hwrite : libs.json.write (tableJson (w.table.erase url)) ≠ none)
    (hdir : (0 : Byte) ∉ parentPath cfg.storageInfo) :
    wp (System A) (eraseRecord cfg libs url path (some trash))
      (fun r w' => r = deleted ∧ Clear w') (fun _ => True) w := by
  unfold eraseRecord
  refine wp_seq_and wp_dataDelete (wp_dataDelete_done hA h hmem hwrite hdir) ?_
  rintro r w₁ hr ⟨rfl, h₁⟩
  obtain ⟨hbad, -⟩ | ⟨-, -, hc⟩ | ⟨hbad, -⟩ := hr
  · cases hbad
  · have hpresent₁ : w₁.fs.get (place trash) ≠ none := by
      rw [hc.files _ hne]
      exact hpresent
    simp only [ite_true]
    refine wp_seq (wp_emptyTrash_done hA h₁ hpresent₁) (fun _ h => h) ?_
    exact fun _ w₂ h₂ => ⟨rfl, h₂⟩
  · cases hbad

theorem wp_deleteUrl_done {url : Bytes} {info : StorageInfo} (hA : A.Healthy) (h : Clear w)
    (hinfo : w.table.lookup url = some info)
    (hfile : w.fs.get (place info.storage_path_) ≠ none)
    (hpath : (0 : Byte) ∉ parentPath info.storage_path_)
    (hapart : Apart A cfg w.table info.storage_path_)
    (hwrite : libs.json.write (tableJson (w.table.erase url)) ≠ none)
    (hdir : (0 : Byte) ∉ parentPath cfg.storageInfo) :
    wp (System A) (deleteUrl cfg libs url) (fun r w' => r = deleted ∧ Clear w') (fun _ => True)
      w := by
  unfold deleteUrl
  refine wp_seq (wp_getOneByUrl_done h) (fun _ h => h) ?_
  rintro _ w₁ ⟨rfl, hs₁, h₁⟩
  rw [hinfo]
  simp only
  rw [wp_bind]
  apply wp_fileExists trivial
  · intro w₂ hok _ _
    have hs := hA _ _ _ hok
    simp [Succeeds, succeeds, reads] at hs
  intro w₂ _ hD₂ hfs₂
  have hs₂ := hs₁.trans (hD₂.same hfs₂)
  have hthere : (w₁.fs.get (place info.storage_path_)).isSome = true := by
    rw [hs₁.fs]
    exact Option.isSome_iff_ne_none.mpr hfile
  rw [hthere]
  simp only
  refine wp_seq_and wp_createTempFile (wp_createTempFile_done hA (h₁.did hD₂ rfl) hpath
    deletePrefix_clean.1 deletePrefix_clean.2) ?_
  rintro r w₃ htemp ⟨hr, h₃⟩
  obtain ⟨trash, rfl⟩ := Option.ne_none_iff_exists'.mp hr
  obtain ⟨htemp, -, hf₃, i, hown⟩ := htemp
  obtain ⟨hne, hstore⟩ := hapart.temp trash (Or.inl (hs₂.frame.table ▸ htemp))
  have hpresent : w₃.fs.get (place trash) ≠ none := by
    rw [hown.get]
    exact Option.some_ne_none _
  simp only
  rw [wp_bind]
  apply wp_unlink trivial
  · intro w₄ hok _ _
    have hs := hA _ _ _ hok
    simp [Succeeds, succeeds, hpresent] at hs
  intro w₄ _ hD₄ _ hfs₄
  have hold : w₄.fs.get (place info.storage_path_) ≠ none := by
    rw [hfs₄, FileSystem.get_dropEntry, if_neg (Ne.symm hne), hf₃.files _ (Ne.symm hne), hs₂.fs]
    exact hfile
  have hgone : w₄.fs.get (place trash) = none := by
    rw [hfs₄, FileSystem.get_dropEntry, if_pos rfl]
  rw [wp_bind]
  apply wp_rename trivial
  · intro w₅ hok _ _
    have hs := hA _ _ _ hok
    simp [Succeeds, succeeds, hold] at hs
  intro w₅ _ hD₅ _ hfs₅
  simp only [ite_true]
  have hmoved : w₅.fs.get (place trash) ≠ none := by
    have hentry : w₄.fs.entry (place info.storage_path_) ≠ w₄.fs.entry (place trash) := by
      rw [FileSystem.get_eq_none.mp hgone]
      exact fun he => hold (FileSystem.get_eq_none.mpr he)
    rw [hfs₅, FileSystem.get_move hentry, if_neg hne, if_pos rfl]
    exact hold
  have htable : w₅.table = w.table := by
    rw [hD₅.table, hD₄.table, hf₃.table, hs₂.frame.table]
  refine wp_eraseRecord_done hA ((h₃.did hD₄ rfl).did hD₅ rfl) ?_ hmoved hstore
    (htable ▸ hwrite) hdir
  rw [htable]
  refine AList.lookup_isSome.mp ?_
  rw [hinfo]
  rfl

/-! ### Downloads -/

/-- The content a stored file stands for. -/
def unpackedContent (libs : Libs) (info : StorageInfo) (stored : Bytes) : Bytes :=
  if info.storage_type_ = deep ∧ libs.bundle.isPacked stored = true then
    libs.bundle.content stored
  else stored

theorem Assumption.Healthy.not_failed (hA : A.Healthy) : ¬CodecMay A .failed := by
  rintro ⟨w, hw⟩
  exact absurd (hA _ _ _ hw) (by simp [Succeeds, succeeds])

theorem wp_unpack_done {lib : Bundle} {input : Bytes} (hA : A.Healthy) (h : Clear w) :
    wp (System A) (unpack lib input)
      (fun r w' => r = some (if lib.isPacked input = true then lib.content input else input) ∧
        Same w w' ∧ Clear w') (fun _ => True) w := by
  unfold unpack
  split
  · rw [wp_bind]
    refine wp_codec trivial fun o w' hok hD hfs => ?_
    have ho : o = .ok := of_decide_eq_true (hA _ _ _ hok)
    subst ho
    exact ⟨rfl, hD.same hfs, h.did hD rfl⟩
  · exact ⟨rfl, Same.refl w, h⟩

theorem wp_unCompress_done {lib : Bundle} {path outputPath : Bytes} {file : Inode} {i : Nat}
    (hA : A.Healthy) (h : Clear w) (hfile : w.fs.get (place path) = some file)
    (hlen : file.bytes.length < 2 ^ 63) (hown : w.fs.Owns (place outputPath) i) :
    wp (System A) (unCompress lib path outputPath)
      (fun ok w' => ok = true ∧ Clear w' ∧ ∃ t, w'.fs.get (place outputPath) =
        some ⟨if lib.isPacked file.bytes = true then lib.content file.bytes else file.bytes, t⟩)
      (fun _ => True) w := by
  unfold unCompress
  refine wp_seq (wp_getContent_done hA h hfile hlen) (fun _ h => h) ?_
  rintro _ w₁ ⟨⟨hs₁, rfl⟩, h₁⟩
  simp only
  refine wp_seq (wp_unpack_done hA h₁) (fun _ h => h) ?_
  rintro _ w₂ ⟨rfl, hs₂, h₂⟩
  have hown₂ : w₂.fs.Owns (place outputPath) i := (hs₁.trans hs₂).fs ▸ hown
  simp only
  refine wp_mono (wp_and (wp_setContent hown₂) (wp_setContent_done hA h₂)) ?_ fun _ _ => trivial
  rintro ok w₃ ⟨⟨-, -, hget⟩, rfl, h₃⟩
  obtain ⟨t, hget, -⟩ := hget rfl
  exact ⟨rfl, h₃, t, hget⟩

/-- What is sent of a content of an addressable size is addressable. -/
theorem window_le {request : Request} {etag : Bytes} {n : Nat} (hn : n ≤ evOffMax) :
    ¬(((requestedRange request etag n).window n).1 > evOffMax ∨
      ((requestedRange request etag n).window n).2 > evOffMax) := by
  have hcases := requestedRange_cases request etag n
  unfold ByteRange.window
  split
  · rename_i hpart
    obtain he | ⟨header, -, hparse⟩ := hcases
    · rw [he] at hpart
      cases hpart
    · have hwithin := parseRangeHeader_within header n
      rw [← hparse] at hwithin
      obtain ⟨-, hle⟩ := hwithin hpart
      omega
  · simp only
    omega

theorem wp_serveFile_done {request : Request} {info : StorageInfo} {path : Bytes} {file : Inode}
    (hA : A.Healthy) (h : Clear w) (hfile : w.fs.get (place path) = some file)
    (hlen : file.bytes.length ≤ evOffMax) :
    wp (System A) (serveFile libs request info path)
      (fun r w' => r = respond libs request info file.bytes ∧ Same w w' ∧ Clear w')
      (fun _ => True) w := by
  unfold serveFile fileSize
  rw [wp_bind, wp_bind]
  refine wp_mono (wp_stat_done hA h hfile) ?_ fun _ h => h
  rintro _ w₁ ⟨⟨status, rfl, -, hsize, -⟩, hs₁, h₁⟩
  have hneg : ¬((file.bytes.length : Int) < 0) := by omega
  simp only [wp_pure, hsize, hneg, ite_false, Int.toNat_natCast]
  split
  · rename_i hrange
    refine ⟨?_, hs₁, h₁⟩
    simp only [respond, hrange, ite_true]
  rename_i hrange
  split
  · rename_i hhead
    refine ⟨?_, hs₁, h₁⟩
    simp only [respond, hrange, hhead, ite_true, ite_false]
  rename_i hhead
  rw [if_neg (window_le hlen), wp_bind]
  have hpresent : w₁.fs.get (place path) ≠ none := by
    rw [hs₁.fs, hfile]
    exact Option.some_ne_none _
  apply wp_openRead trivial
  · intro w₂ hok _ _
    have hs := hA _ _ _ hok
    simp [Succeeds, succeeds, reads, hpresent] at hs
  intro i w₂ _ hD₂ he hfs₂
  have hi : w₂.fs.inode i = file := by
    have hget : w₁.fs.get (place path) = some file := by rw [hs₁.fs, hfile]
    rw [FileSystem.get, he, Option.map_some, Option.some.injEq] at hget
    rw [hfs₂, hget]
  simp only
  refine wp_seq (wp_addFile_done hA (h₁.did hD₂ rfl)) (fun _ h => h) ?_
  rintro _ w₃ ⟨rfl, hs₃, h₃⟩
  refine ⟨?_, (hs₁.trans (hD₂.same hfs₂)).trans hs₃, h₃⟩
  simp only [respond, hrange, hhead, ite_false, hi]

theorem wp_download_done {request : Request} {url : Bytes} {info : StorageInfo} {file : Inode}
    (hA : A.Healthy) (h : Clear w) (hinfo : w.table.lookup url = some info)
    (hfile : w.fs.get (place info.storage_path_) = some file)
    (hlen : file.bytes.length < 2 ^ 63)
    (hcontent : (unpackedContent libs info file.bytes).length ≤ evOffMax)
    (hdir : (0 : Byte) ∉ cfg.tempDir) :
    wp (System A) (download cfg libs request url)
      (fun r w' => r = respond libs request info (unpackedContent libs info file.bytes) ∧
        Clear w') (fun _ => True) w := by
  unfold download
  refine wp_seq (wp_getOneByUrl_done h) (fun _ h => h) ?_
  rintro _ w₁ ⟨rfl, hs₁, h₁⟩
  rw [hinfo]
  simp only
  split
  · rename_i hdeep
    simp only [unpackedContent, hdeep, true_and] at hcontent ⊢
    refine wp_seq_and wp_createTempFile (wp_createTempFile_done hA h₁ hdir
      downloadPrefix_clean.1 downloadPrefix_clean.2) ?_
    rintro r w₂ htemp ⟨hr, h₂⟩
    obtain ⟨temporary, rfl⟩ := Option.ne_none_iff_exists'.mp hr
    obtain ⟨-, hfree, hf₂, i, hown⟩ := htemp
    have hne : place info.storage_path_ ≠ place temporary := by
      intro he
      rw [← he, hs₁.fs, hfile] at hfree
      cases hfree
    have hfile₂ : w₂.fs.get (place info.storage_path_) = some file := by
      rw [hf₂.files _ hne, hs₁.fs, hfile]
    simp only
    refine wp_seq (wp_unCompress_done hA h₂ hfile₂ hlen hown) (fun _ h => h) ?_
    rintro ok w₃ ⟨rfl, h₃, t, hget⟩
    simp only [ite_true]
    refine wp_seq (wp_serveFile_done hA h₃ hget hcontent) (fun _ h => h) ?_
    rintro _ w₄ ⟨rfl, hs₄, h₄⟩
    have hpresent : w₄.fs.get (place temporary) ≠ none := by
      rw [hs₄.fs, hget]
      exact Option.some_ne_none _
    unfold removeGuarded
    rw [wp_bind]
    refine wp_seq (wp_unlink_done hA h₄ hpresent) (fun _ h => h) ?_
    exact fun _ w₅ hd => ⟨rfl, hd.2⟩
  · rename_i hlow
    have hsame : unpackedContent libs info file.bytes = file.bytes := by
      rw [unpackedContent, if_neg fun hc => hlow hc.1]
    rw [hsame] at hcontent ⊢
    refine wp_mono (wp_serveFile_done hA h₁ (hs₁.fs ▸ hfile) hcontent) ?_ fun _ h => h
    exact fun _ w₂ hr => ⟨hr.1, hr.2.2⟩

/-! ### The ideal store -/

/-- What a download of a stored file gets. -/
def Stored.content (libs : Libs) (s : Stored) : Bytes := unpackedContent libs s.info s.file.bytes

/-- The reply of a store in which nothing fails. -/
def idealReply (cfg : Config) (libs : Libs) (σ : Store) : Op → Response
  | .upload request =>
    match checkUpload cfg request with
    | .error response => response
    | .ok a => if σ (a.url cfg) = none then uploaded else conflict
  | .delete request =>
    match checkDelete cfg request with
    | .error response => response
    | .ok url => if σ url = none then fileNotFound [] else deleted
  | .download request url =>
    match σ url with
    | none => fileNotFound []
    | some s => respond libs request s.info (s.content libs)

/-- The request changes the store. -/
def Changes (cfg : Config) (σ : Store) : Op → Prop
  | .upload request => ∃ a, checkUpload cfg request = .ok a ∧ σ (a.url cfg) = none
  | .delete request => ∃ url, checkDelete cfg request = .ok url ∧ σ url ≠ none
  | .download .. => False

/-- What the store holds after a request. -/
inductive IdealNext (cfg : Config) (libs : Libs) (σ : Store) : Op → Store → Prop
  | uploaded {request : Request} {a : UploadArgs} {s : Stored} :
      checkUpload cfg request = .ok a → σ (a.url cfg) = none → RecordOf cfg a s.file s.info →
      s.content libs = a.content →
      IdealNext cfg libs σ (.upload request) (Function.update σ (a.url cfg) (some s))
  | deleted {request : Request} {url : Bytes} : checkDelete cfg request = .ok url →
      σ url ≠ none → IdealNext cfg libs σ (.delete request) (Function.update σ url none)
  | kept {op : Op} : ¬Changes cfg σ op → IdealNext cfg libs σ op σ

/-- A request and its reply. -/
def IdealStep (cfg : Config) (libs : Libs) (σ : Store) (l : Op × Response) (σ' : Store) : Prop :=
  l.2 = idealReply cfg libs σ l.1 ∧ IdealNext cfg libs σ l.1 σ'

abbrev IdealRun (cfg : Config) (libs : Libs) : Store → Log → Store → Prop :=
  Transition.Run (IdealStep cfg libs)

/-! ### What is assumed -/

/-- The paths of the configuration are C strings. -/
structure Config.CStrings (cfg : Config) : Prop where
  low : (0 : Byte) ∉ cfg.lowStorageDir
  deep : (0 : Byte) ∉ cfg.deepStorageDir
  temp : (0 : Byte) ∉ cfg.tempDir
  info : (0 : Byte) ∉ cfg.storageInfo

/-- The packer is inverted by the unpacker, which knows its images. -/
structure Libs.Work (libs : Libs) (cfg : Config) : Prop where
  inverts : libs.bundle.Inverts
  recognised : ∀ q c, libs.bundle.isPacked (libs.bundle.image q c) = true
  image_length : ∀ q c, c.length ≤ cfg.maxUploadSize → (libs.bundle.image q c).length < 2 ^ 63

/-- A table that a request to a server with this one may write. -/
inductive NextTable (A : Assumption) (cfg : Config) (table : Table) : Op → Table → Prop
  | inserted {request : Request} {a : UploadArgs} {info : StorageInfo} :
      checkUpload cfg request = .ok a → a.url cfg ∉ table →
      Measured A cfg (a.finalPath cfg) a.storageType info →
      NextTable A cfg table (.upload request) (table.insert info.url_ info)
  | deleted {request : Request} {url : Bytes} : checkDelete cfg request = .ok url →
      url ∈ table → NextTable A cfg table (.delete request) (table.erase url)

/-- The JSON writer writes it. -/
def Writable (A : Assumption) (cfg : Config) (libs : Libs) (w : World) (op : Op) : Prop :=
  ∀ next, NextTable A cfg w.table op next → libs.json.write (tableJson next) ≠ none

/-- A request whose table can be written, and its reply. -/
def WritingStep (A : Assumption) (cfg : Config) (libs : Libs) (w : World) (l : Op × Response)
    (w' : World) : Prop :=
  Writable A cfg libs w l.1 ∧ Runs (System A) (serve cfg libs l.1) w l.2 w'

abbrev WritingRun (A : Assumption) (cfg : Config) (libs : Libs) : World → Log → World → Prop :=
  Transition.Run (WritingStep A cfg libs)

/-- No call fails, names of temporaries are fresh and directories stay. -/
def Undisturbed (cfg : Config) : Assumption := (Faithful cfg).and Succeeds

instance (cfg : Config) (w : World) (c : Call) (r : c.Resp) : Decidable (Undisturbed cfg w c r) :=
  inferInstanceAs (Decidable ((Faithful cfg).and Succeeds w c r))

theorem undisturbed_sound : (Undisturbed cfg).Sound cfg := fun _ _ _ h => h.1

theorem undisturbed_healthy : (Undisturbed cfg).Healthy := fun _ _ _ h => h.2

/-- No upload asks for a name that its temporary may get. -/
def Op.Ordinary (cfg : Config) : Op → Prop
  | .upload request => ∀ a, checkUpload cfg request = .ok a → a.Ordinary
  | _ => True

instance (cfg : Config) : (op : Op) → Decidable (op.Ordinary cfg)
  | .upload request => match hc : checkUpload cfg request with
    | .error _ => isTrue fun a ha => by rw [hc] at ha; cases ha
    | .ok a => decidable_of_iff a.Ordinary
        ⟨fun h b hb => by rw [hc] at hb; cases hb; exact h, fun h => h a hc⟩
  | .delete _ => isTrue trivial
  | .download .. => isTrue trivial

/-- What is stored can be read and sent. -/
structure Stored.Sound (libs : Libs) (s : Stored) : Prop where
  path : (0 : Byte) ∉ s.info.storage_path_
  size : s.file.bytes.length < 2 ^ 63
  content : (s.content libs).length ≤ evOffMax

/-- The files are those of `old`, the metadata and what is stored, and no removal has
failed so far. -/
structure Ready (cfg : Config) (libs : Libs) (old : Key → Prop) (σ : Store) (w : World) :
    Prop where
  opened : Opened cfg libs σ w
  tidy : ∀ k, w.fs.get k ≠ none → old k ∨ k = place cfg.storageInfo ∨
    ∃ url s, σ url = some s ∧ k = place s.info.storage_path_
  sound : ∀ url s, σ url = some s → s.Sound libs
  clear : Clear w
  clock : 0 ≤ w.clock

variable {σ σ' : Store} {old : Key → Prop} {home : Bytes → Bytes} {w' : World}

theorem Config.CStrings.directory (h : cfg.CStrings) (a : UploadArgs) :
    (0 : Byte) ∉ a.directory cfg := by
  unfold UploadArgs.directory Config.directory
  split
  · exact h.deep
  · exact h.low

theorem Ready.represents (h : Ready cfg libs old σ w) :
    Represents cfg libs old σ σ.path w where
  housed := h.opened.represents.housed
  snapshot := h.opened.snapshot
  accounted k hk := by
    rcases h.tidy k hk with hold | hstore | ⟨url, s, hs, hplace⟩
    · exact Or.inl hold
    · exact Or.inr (Or.inl hstore)
    · refine Or.inr (Or.inr (Or.inl ⟨url, ?_, ?_⟩))
      · rw [hs]
        exact Option.some_ne_none s
      · rw [Store.path_eq hs, hplace]

theorem Represents.home_of_clear (h : Represents cfg libs old σ home w) (hclear : Clear w)
    {url : Bytes} {s : Stored} (hs : σ url = some s) : home url = s.info.storage_path_ :=
  (h.housed.at_home url s hs).resolve_right fun hst =>
    hclear.not_restoreFailed _ _ hst.failed

theorem Represents.ready (h : Represents cfg libs old σ home w) (hclear : Clear w)
    (hclock : 0 ≤ w.clock) (hsound : ∀ url s, σ url = some s → s.Sound libs) :
    Ready cfg libs old σ w where
  opened := by
    refine ⟨h.housed.table, h.housed.situated, fun url s hs => ?_, h.snapshot⟩
    rw [← h.home_of_clear hclear hs]
    exact h.housed.stored url s hs
  tidy k hk := by
    rcases h.accounted k hk with hold | hstore | ⟨url, hne, hplace⟩ | ⟨p, -, hfailed⟩
    · exact Or.inl hold
    · exact Or.inr (Or.inl hstore)
    · obtain ⟨s, hs⟩ := Option.ne_none_iff_exists'.mp hne
      exact Or.inr (Or.inr ⟨url, s, hs, h.home_of_clear hclear hs ▸ hplace⟩)
    · rcases hfailed with hr | ⟨path, -, hr⟩
      · exact absurd hr (hclear.not_removalFailed p)
      · exact absurd hr (hclear.not_restoreFailed p path)
  sound := hsound
  clear := hclear
  clock := hclock

/-- The place of an upload to a free URL is free. -/
theorem Ready.place_free (h : Ready cfg libs old σ w) (hcfg : cfg.Checked)
    (hinfo : cfg.InfoOutside) (hpaths : cfg.CStrings)
    (hold : ∀ a : UploadArgs, a.Checked cfg → ¬old (place (a.finalPath cfg))) {a : UploadArgs}
    (ha : a.Checked cfg) (hfree : σ (a.url cfg) = none) :
    w.fs.get (place (a.finalPath cfg)) = none := by
  have h0 := hpaths.directory a
  by_contra hne
  rcases h.tidy _ hne with hk | hk | ⟨url, s, hs, hk⟩
  · exact hold a ha hk
  · exact hinfo.entry hcfg ha h0 hk
  · obtain ⟨d, f, hurl, hplace⟩ := (h.opened.situated url s hs).named
    rw [hplace, ha.place_final hcfg h0, Key.child_inj] at hk
    rw [UploadArgs.url, hk.2, ← hurl, hs] at hfree
    cases hfree

/-! ### Every request -/

section Requests

variable (hA : A.Healthy) (hfresh : A.Sound cfg) (hcfg : cfg.Checked) (hinfo : cfg.InfoOutside)
  (hpaths : cfg.CStrings)
  (hold : ∀ a : UploadArgs, a.Checked cfg → ¬old (place (a.finalPath cfg)))

include hA hcfg hinfo hpaths hold in
theorem wp_upload_ideal (h : Ready cfg libs old σ w) {request : Request}
    (hwrites : Writable A cfg libs w (.upload request))
    (hname : ∀ a, checkUpload cfg request = .ok a → a.Ordinary) :
    wp (System A) (upload cfg libs request)
      (fun r w' => r = idealReply cfg libs σ (.upload request) ∧ Clear w') (fun _ => True) w := by
  unfold upload
  simp only [idealReply]
  cases hc : checkUpload cfg request with
  | error response => exact ⟨rfl, h.clear⟩
  | ok a =>
    have ha := (checkUpload_ok hc).1
    have htable := h.opened.table (a.url cfg)
    simp only
    by_cases hfree : σ (a.url cfg) = none
    · rw [if_pos hfree]
      rw [hfree, Option.map_none, AList.lookup_eq_none] at htable
      exact wp_storeUpload_done hA h.clear hcfg ha (hname a hc) (hpaths.directory a) htable
        (h.place_free hcfg hinfo hpaths hold ha hfree) h.clock
        (fun info hm => hwrites _ (.inserted hc htable hm)) (parentPath_no_nul hpaths.info)
    · rw [if_neg hfree]
      obtain ⟨s, hs⟩ := Option.ne_none_iff_exists'.mp hfree
      unfold storeUpload
      refine wp_seq (wp_getOneByUrl_done h.clear) (fun _ h => h) ?_
      rintro _ w₁ ⟨rfl, -, h₁⟩
      rw [htable, hs]
      exact ⟨rfl, h₁⟩

include hA hfresh hpaths in
theorem wp_delete_ideal (h : Ready cfg libs old σ w) {request : Request}
    (hwrites : Writable A cfg libs w (.delete request)) :
    wp (System A) (delete cfg libs request)
      (fun r w' => r = idealReply cfg libs σ (.delete request) ∧ Clear w') (fun _ => True) w := by
  unfold delete
  simp only [idealReply]
  cases hc : checkDelete cfg request with
  | error response => exact ⟨rfl, h.clear⟩
  | ok url =>
    have htable := h.opened.table url
    simp only
    cases hs : σ url with
    | none =>
      rw [if_pos rfl]
      unfold deleteUrl
      refine wp_seq (wp_getOneByUrl_done h.clear) (fun _ h => h) ?_
      rintro _ w₁ ⟨rfl, -, h₁⟩
      rw [htable, hs]
      exact ⟨rfl, h₁⟩
    | some s =>
      rw [if_neg (Option.some_ne_none s)]
      rw [hs, Option.map_some] at htable
      have hfile : w.fs.get (place s.info.storage_path_) ≠ none := by
        rw [h.opened.stored url s hs]
        exact Option.some_ne_none _
      have hmem : url ∈ w.table := by
        rw [← AList.lookup_isSome, htable]
        rfl
      exact wp_deleteUrl_done hA h.clear htable hfile (parentPath_no_nul (h.sound url s hs).path)
        (apart_of_fresh hfresh htable (h.opened.situated url s hs).outside)
        (hwrites _ (.deleted hc hmem)) (parentPath_no_nul hpaths.info)

include hA hpaths in
theorem wp_download_ideal (h : Ready cfg libs old σ w) (request : Request) (url : Bytes) :
    wp (System A) (download cfg libs request url)
      (fun r w' => r = idealReply cfg libs σ (.download request url) ∧ Clear w')
      (fun _ => True) w := by
  have htable := h.opened.table url
  simp only [idealReply]
  cases hs : σ url with
  | none =>
    unfold download
    refine wp_seq (wp_getOneByUrl_done h.clear) (fun _ h => h) ?_
    rintro _ w₁ ⟨rfl, -, h₁⟩
    rw [htable, hs]
    exact ⟨rfl, h₁⟩
  | some s =>
    rw [hs, Option.map_some] at htable
    have hsound := h.sound url s hs
    exact wp_download_done hA h.clear htable (h.opened.stored url s hs) hsound.size
      hsound.content hpaths.temp

include hA hfresh hcfg hinfo hpaths hold in
theorem wp_serve_ideal (h : Ready cfg libs old σ w) {op : Op} (hwrites : Writable A cfg libs w op)
    (hop : op.Ordinary cfg) :
    wp (System A) (serve cfg libs op)
      (fun r w' => r = idealReply cfg libs σ op ∧ Clear w') (fun _ => True) w := by
  cases op with
  | upload request => exact wp_upload_ideal hA hcfg hinfo hpaths hold h hwrites hop
  | delete request => exact wp_delete_ideal hA hfresh hpaths h hwrites
  | download request url => exact wp_download_ideal hA hpaths h request url

end Requests

/-! ### What uploads store -/

theorem checkUpload_length {request : Request} {a : UploadArgs}
    (h : checkUpload cfg request = .ok a) : a.content.length ≤ cfg.maxUploadSize := by
  unfold checkUpload at h
  repeat' split at h
  all_goals cases h
  simp only
  omega

theorem Config.readSize_le {root : Json} {name : Bytes} {minimum maximum : Int} {size : Nat}
    (h : readSize root name minimum maximum = .ok size) : (size : Int) ≤ max 0 maximum := by
  unfold readSize at h
  split at h
  · cases h
  · simp only at h
    split at h
    · cases h
    · cases h
      omega

theorem Config.Accepted.maxUploadSize_le (h : cfg.Accepted) : cfg.maxUploadSize ≤ 2 ^ 32 := by
  obtain ⟨text, path, content, env, h⟩ := h
  unfold readConfig at h
  repeat' split at h
  all_goals try cases h
  obtain ⟨read, hread, h⟩ := bind_ok h
  obtain ⟨rfl, -⟩ := validate_ok h
  unfold readMembers at hread
  obtain ⟨_, -, hread⟩ := bind_ok hread
  obtain ⟨_, -, hread⟩ := bind_ok hread
  obtain ⟨_, -, hread⟩ := bind_ok hread
  obtain ⟨_, -, hread⟩ := bind_ok hread
  obtain ⟨_, -, hread⟩ := bind_ok hread
  obtain ⟨_, -, hread⟩ := bind_ok hread
  obtain ⟨_, -, hread⟩ := bind_ok hread
  obtain ⟨_, -, hread⟩ := bind_ok hread
  obtain ⟨_, -, hread⟩ := bind_ok hread
  obtain ⟨_, -, hread⟩ := bind_ok hread
  obtain ⟨_, -, hread⟩ := bind_ok hread
  obtain ⟨_, -, hread⟩ := bind_ok hread
  obtain ⟨size, hsize, hread⟩ := bind_ok hread
  split at hread
  · cases hread
  · cases hread
    have hle := readSize_le hsize
    simp only
    omega

theorem content_eq (hA : A.Healthy) (hlibs : libs.Work cfg) {a : UploadArgs} {s : Stored}
    (ha : a.Checked cfg) (hrecord : RecordOf cfg a s.file s.info)
    (hstored : StoredAs A cfg libs a s.file.bytes) : s.content libs = a.content := by
  unfold Stored.content unpackedContent
  unfold StoredAs at hstored
  rw [hrecord.type]
  rcases ha.type with hlow | hdeep
  · have hne : a.storageType ≠ deep := by
      rw [hlow]
      decide
    rw [if_pos hlow] at hstored
    rw [if_neg fun hc => hne hc.1, hstored]
  · have hne : a.storageType ≠ low := by
      rw [hdeep]
      decide
    rw [if_neg hne] at hstored
    generalize s.file.bytes = bytes at hstored
    cases hstored with
    | empty he => exact absurd he ha.content_ne
    | packed hc _ => rw [if_pos ⟨hdeep, hlibs.recognised _ _⟩, hlibs.inverts _ _ hc]
    | unchanged _ hf => exact absurd hf hA.not_failed

theorem stored_length (hA : A.Healthy) (hlibs : libs.Work cfg) {a : UploadArgs} {bytes : Bytes}
    (ha : a.Checked cfg) (hlen : a.content.length ≤ cfg.maxUploadSize)
    (hmax : cfg.maxUploadSize ≤ 2 ^ 32) (hstored : StoredAs A cfg libs a bytes) :
    bytes.length < 2 ^ 63 := by
  unfold StoredAs at hstored
  split at hstored
  · rw [hstored]
    omega
  · cases hstored with
    | empty he => exact absurd he ha.content_ne
    | packed _ _ => exact hlibs.image_length _ _ hlen
    | unchanged _ hf => exact absurd hf hA.not_failed

/-! ### Runs -/

/-- A step of the store whose reply is the ideal one is a step of the ideal store. -/
theorem StoreStep.ideal (hA : A.Healthy) (hlibs : libs.Work cfg) {op : Op} {r : Response}
    (h : StoreStep A cfg libs σ (op, r) σ') (hr : r = idealReply cfg libs σ op) :
    IdealStep cfg libs σ (op, r) σ' := by
  refine ⟨hr, ?_⟩
  cases h with
  | uploaded hc hfree hrecord hstored _ =>
    exact .uploaded hc hfree hrecord (content_eq hA hlibs (checkUpload_ok hc).1 hrecord hstored)
  | deleted hc hne _ => exact .deleted hc hne
  | kept hn =>
    refine .kept fun hchanges => hn ?_
    subst hr
    cases op with
    | upload request =>
      obtain ⟨a, hc, hfree⟩ := hchanges
      simp only [Acknowledged, idealReply, hc, hfree, ite_true]
      rfl
    | delete request =>
      obtain ⟨url, hc, hne⟩ := hchanges
      simp only [Acknowledged, idealReply, hc, hne, ite_false]
      rfl
    | download request url => exact hchanges

theorem StoreStep.sound (hA : A.Healthy) (hcfg : cfg.Accepted) (hpaths : cfg.CStrings)
    (hlibs : libs.Work cfg) {l : Op × Response} (h : StoreStep A cfg libs σ l σ')
    (hsound : ∀ url s, σ url = some s → s.Sound libs) :
    ∀ url s, σ' url = some s → s.Sound libs := by
  intro url s hs
  cases h with
  | @uploaded request r a new hc hfree hrecord hstored hr =>
    by_cases he : url = a.url cfg
    · subst he
      rw [Function.update_self] at hs
      cases hs
      have ha := (checkUpload_ok hc).1
      have hlen := checkUpload_length hc
      have hmax := hcfg.maxUploadSize_le
      refine ⟨?_, stored_length hA hlibs ha hlen hmax hstored, ?_⟩
      · rw [hrecord.path]
        intro h
        rcases mem_join h with h | h | h
        · exact hpaths.directory a h
        · exact absurd h (by decide)
        · exact isSafeFileName_no_nul ha.safe h
      · rw [content_eq hA hlibs ha hrecord hstored, evOffMax]
        omega
    · rw [Function.update_of_ne he] at hs
      exact hsound url s hs
  | @deleted request r gone hc hne hr =>
    by_cases he : url = gone
    · subst he
      rw [Function.update_self] at hs
      cases hs
    · rw [Function.update_of_ne he] at hs
      exact hsound url s hs
  | kept => exact hsound url s hs

/-- One request. -/
theorem Ready.step (hA : A.Healthy) (hfresh : A.Sound cfg) (hcfg : cfg.Accepted)
    (hinfo : cfg.InfoOutside) (hpaths : cfg.CStrings) (hlibs : libs.Work cfg)
    (hold : ∀ a : UploadArgs, a.Checked cfg → ¬old (place (a.finalPath cfg)))
    (h : Ready cfg libs old σ w) {op : Op} {r : Response} (hop : op.Ordinary cfg)
    (hstep : WritingStep A cfg libs w (op, r) w') :
    ∃ σ', IdealStep cfg libs σ (op, r) σ' ∧ Ready cfg libs old σ' w' := by
  obtain ⟨hwrites, hrun⟩ := hstep
  have hc := hcfg.checked
  obtain ⟨hr, hclear⟩ :=
    wp_runs (wp_serve_ideal hA hfresh hc hinfo hpaths hold h hwrites hop) hrun
  obtain ⟨σ', home', hstep, hrep⟩ :=
    (wp_runs (wp_serve_refined hfresh hc hinfo h.represents op) hrun).step
  refine ⟨σ', hstep.ideal hA hlibs hr, hrep.ready hclear ?_ ?_⟩
  · exact Int.le_trans h.clock (clock_steps hrun)
  · exact hstep.sound hA hcfg hpaths hlibs h.sound

/-- When no call fails every reply is that of the ideal store, and no file but the
metadata and what is stored is added. -/
theorem undisturbed_ideal (hA : A.Healthy) (hfresh : A.Sound cfg) (hcfg : cfg.Accepted)
    (hinfo : cfg.InfoOutside) (hpaths : cfg.CStrings) (hlibs : libs.Work cfg)
    (hold : ∀ a : UploadArgs, a.Checked cfg → ¬old (place (a.finalPath cfg))) {log : Log}
    (h : Ready cfg libs old σ w) (hlog : ∀ l ∈ log, l.1.Ordinary cfg)
    (hrun : WritingRun A cfg libs w log w') :
    ∃ σ', IdealRun cfg libs σ log σ' ∧ Ready cfg libs old σ' w' := by
  induction hrun with
  | nil => exact ⟨σ, .nil _, h⟩
  | @snoc _ _ log l _ hstep ih =>
    obtain ⟨σ₁, hideal, h₁⟩ := ih fun l hl => hlog l (List.mem_append_left _ hl)
    have hop := hlog l (List.mem_append_right _ (List.mem_singleton.mpr rfl))
    obtain ⟨σ₂, hnext, h₂⟩ :=
      h₁.step hA hfresh hcfg hinfo hpaths hlibs hold hop hstep
    exact ⟨σ₂, .snoc hideal hnext, h₂⟩

theorem encGroups_length (rounds n : Nat) : (encGroups rounds n).length ≤ rounds := by
  induction rounds generalizing n with
  | zero => simp [encGroups]
  | succ rounds ih =>
    rw [encGroups]
    split
    · simp
    · have hle := ih (n / 128)
      simp only [List.length_cons]
      omega

def settledLibs : Libs :=
  .plain (textsOf [tableOf settledConfig [lit "x"], tableOf settledConfig []])

theorem settled_roundTrips : settledLibs.json.RoundTrips :=
  JsonText.ofPairs_roundTrips (by decide)

theorem settled_work : settledLibs.Work settledConfig where
  inverts := Bundle.raw_inverts
  recognised := Bundle.raw_recognised
  image_length q c hc := by
    have hlen := encGroups_length (c.length + 1) c.length
    have hmax : c.length ≤ 104857600 := hc
    simp only [settledLibs, Libs.plain, Bundle.image, Bundle.raw, maxHeaderSize,
      List.length_append, List.length_replicate, List.length_cons]
    omega

theorem settled_cstrings : settledConfig.CStrings :=
  ⟨by decide, by decide, by decide, by decide⟩

theorem ready_empty : Ready cfg libs (fun _ => False) (fun _ => none) World.empty where
  opened := opened_empty
  tidy k hk := absurd rfl hk
  sound _ _ hs := by cases hs
  clear _ he := absurd he (List.not_mem_nil)
  clock := Int.le_refl _

/-- A file is uploaded twice, fetched, deleted and asked for again. -/
def settledRequests : List (Op × List Choice) := [
  (.upload (uploadOf (lit "eA==") low (lit "abc")), uploadFine (lit "AAAAAA") (lit "BBBBBB")),
  (.upload (uploadOf (lit "eA==") low (lit "xyz")), [fine]),
  (.download {} (lit "/download/x"), List.replicate 4 fine),
  (.delete (deleteOf (lit "/download/x")), deleteFine (lit "CCCCCC") (lit "DDDDDD")),
  (.download {} (lit "/download/x"), [fine])]

/-- Every status that `stat` gives is the same. -/
def statsAre (status : Stat) : (c : Call) → c.Resp → Bool
  | .fs (.stat _), given => given.all fun s => decide (s = status)
  | _, _ => true

/-- Nothing fails, and every file is one of three bytes stored at time zero. -/
def Steady : Assumption :=
  (Undisturbed settledConfig).and fun _ c r => statsAre ⟨3, 0, 0⟩ c r = true

instance (w : World) (c : Call) (r : c.Resp) : Decidable (Steady w c r) :=
  inferInstanceAs (Decidable ((Undisturbed settledConfig).and _ w c r))

theorem steady_sound : Steady.Sound settledConfig := fun w c r h => undisturbed_sound w c r h.1

theorem steady_healthy : Steady.Healthy := fun w c r h => undisturbed_healthy w c r h.1

theorem StatMay.steady {p : Bytes} {status : Stat} (h : StatMay Steady p status) :
    status = ⟨3, 0, 0⟩ := by
  obtain ⟨-, w, -, hsame⟩ := h
  exact of_decide_eq_true hsame

/-- The table that a request may write when every status is this one. -/
def nextTable (cfg : Config) (status : Stat) (table : Table) : Op → Option Table
  | .upload request =>
    match checkUpload cfg request with
    | .error _ => none
    | .ok a =>
      let info := measured cfg (a.finalPath cfg) a.storageType status status status
      if a.url cfg ∈ table then none else some (table.insert info.url_ info)
  | .delete request =>
    match checkDelete cfg request with
    | .error _ => none
    | .ok url => if url ∈ table then some (table.erase url) else none
  | .download .. => none

theorem NextTable.steady {table next : Table} {op : Op}
    (h : NextTable Steady cfg table op next) : nextTable cfg ⟨3, 0, 0⟩ table op = some next := by
  cases h with
  | inserted hc hfree hm =>
    obtain ⟨_, _, _, hsize, hmodified, haccessed, -, rfl⟩ := hm
    simp only [nextTable, hc, hfree, ite_false, hsize.steady, hmodified.steady, haccessed.steady]
  | deleted hc hmem => simp only [nextTable, hc, hmem, ite_true]

/-- A request played in a steady environment, if its table can be written. -/
def steadyStep (libs : Libs) (w : World) (q : Op × List Choice) :
    Option ((Op × Response) × World) :=
  if (nextTable settledConfig ⟨3, 0, 0⟩ w.table q.1).all
      fun next => (libs.json.write (tableJson next)).isSome then
    (playUnder Steady (serve settledConfig libs q.1) q.2 w).1.result.map fun r =>
      ((q.1, r), (playUnder Steady (serve settledConfig libs q.1) q.2 w).2)
  else
    none

theorem steadyStep_writing {q : Op × List Choice} {l : Op × Response}
    (h : steadyStep libs w q = some (l, w')) : WritingStep Steady settledConfig libs w l w' := by
  unfold steadyStep at h
  split at h
  · rename_i hwrite
    obtain ⟨r, hr, he⟩ := Option.map_eq_some_iff.mp h
    cases he
    refine ⟨fun next hnext => ?_, playUnder_runs Steady hr⟩
    rw [hnext.steady, Option.all_some] at hwrite
    exact Option.isSome_iff_ne_none.mp hwrite
  · cases h

/-- The run is one of a writer that reads back what it wrote. -/
theorem undisturbed_ideal_sample : ∃ log w σ',
    settledLibs.json.RoundTrips ∧
    Transition.Run.play (steadyStep settledLibs) World.empty settledRequests = some (log, w) ∧
    log.map (fun l => l.2.status) = [201, 409, 200, 200, 404] ∧
    IdealRun settledConfig settledLibs (fun _ => none) log σ' ∧
    Ready settledConfig settledLibs (fun _ => False) σ' w := by
  have hplay : (Transition.Run.play (steadyStep settledLibs) World.empty settledRequests).any
      (fun out => decide (out.1.map (fun l => l.2.status) = [201, 409, 200, 200, 404]) &&
        out.1.all fun l => decide (l.1.Ordinary settledConfig)) = true := by
    decide +kernel
  obtain ⟨⟨log, w⟩, hrun, hchecked⟩ := (Option.any_eq_true _ _).mp hplay
  obtain ⟨hstatus, hordinary⟩ := Bool.and_eq_true_iff.mp hchecked
  have hlog : ∀ l ∈ log, l.1.Ordinary settledConfig := fun l hl =>
    of_decide_eq_true (List.all_eq_true.mp hordinary l hl)
  have hwriting : WritingRun Steady settledConfig settledLibs World.empty log w := by
    refine Transition.Run.of_play ?_ hrun
    exact fun _ _ _ _ => steadyStep_writing
  obtain ⟨σ', hideal, hready⟩ := undisturbed_ideal steady_healthy steady_sound
    (Config.shipped_accepted (by decide) (by decide)) settled_outside settled_cstrings settled_work
    (fun _ _ h => h) ready_empty hlog hwriting
  exact ⟨log, w, σ', settled_roundTrips, hrun, of_decide_eq_true hstatus, hideal, hready⟩

end CloudStorage
