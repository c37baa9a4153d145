import CloudStorage.Retrieve

/-!
# Calls that do not fail

In a healthy environment a call fails only where it has nothing to work on; reads
and writes may still be short. There every operation of the server reaches its last
line, and none tries to remove or to rename a file that is not there.
-/

namespace CloudStorage
open Posix Interact

/-- The numbers fit in `off_t` and `time_t`, and the last access is after the epoch. -/
def fits (status : Stat) : Bool :=
  decide (status.size < 2 ^ 63 ∧ status.mtime < 2 ^ 63 ∧ 0 ≤ status.atime ∧
    status.atime < 2 ^ 63)

/-- The call does its work. -/
def succeeds (w : World) : (c : Call) → c.Resp → Bool
  | .fs (.mkdirs _), made => made
  | .fs (.mkstemp template), made => !decide (sixX <:+ cString template) || made.isSome
  | .fs (.openTrunc _), fd => fd.isSome
  | .fs (.write _ data), count => data.isEmpty || decide (count ≠ 0)
  | .fs (.fsync _), synced => synced
  | .fs (.syncDir _), synced => synced
  | .fs (.stat p), status => (w.fs.get (place p)).isNone || status.any fits
  | .fs (.link old new), r =>
    (w.fs.get (place old)).isNone || decide (r = .ok) ||
      -- the name is that of a file, not of a directory
      (decide (r = .exists) && (w.fs.get (place new)).isSome)
  | .fs (.unlink p), done => (w.fs.get (place p)).isNone || done
  | .fs (.rename old _), done => (w.fs.get (place old)).isNone || done
  | .codec, outcome => decide (outcome = .ok)
  | .copyOut, copied => copied
  | .addFile .., body => body.isSome
  | c, r => reads w c r

def Succeeds : Assumption := fun w c r => succeeds w c r = true

instance (w : World) (c : Call) (r : c.Resp) : Decidable (Succeeds w c r) :=
  inferInstanceAs (Decidable (_ = true))

/-- No call fails. -/
def Assumption.Healthy (A : Assumption) : Prop := ∀ w c r, A w c r → Succeeds w c r

theorem Succeeds.reads {w : World} {c : Call} {r : c.Resp} (h : Succeeds w c r) : Reads w c r := by
  cases c with
  | fs c =>
    cases c with
    | stat p =>
      simp only [Succeeds, succeeds, Bool.or_eq_true] at h
      simp only [Reads, CloudStorage.reads, Bool.or_eq_true]
      exact h.imp id fun hs => Option.isSome_of_any hs
    | fileExists p => exact h
    | openRead p => exact h
    | pread fd offset length => exact h
    | close fd => exact h
    | _ => rfl
  | _ => rfl

variable {A : Assumption} {w w' : World}

theorem Assumption.Healthy.wp_reads (hA : A.Healthy) {α : Type} {p : Program α}
    {Q : α → World → Prop} {C : World → Prop} (h : wp (System Reads) p Q C w) :
    wp (System A) p Q C w :=
  wp_env h fun _ _ _ _ hr => ⟨(hA _ _ _ hr.1).reads, hr.2⟩

/-! ### Removals and renamings -/

/-- A removal or a renaming that failed. -/
def Event.failed : Event → Bool
  | ⟨.fs (.unlink _), done⟩ => !done
  | ⟨.fs (.rename ..), done⟩ => !done
  | _ => false

/-- There was none. -/
def Clear (w : World) : Prop := ∀ e ∈ w.trace, e.failed = false

theorem Clear.did {c : Call} {r : c.Resp} (h : Clear w) (hD : Did w c r w')
    (hok : Event.failed ⟨c, r⟩ = false) : Clear w' := by
  intro e he
  rw [hD.trace, List.mem_append, List.mem_singleton] at he
  rcases he with he | rfl
  · exact h e he
  · exact hok

theorem Clear.not_removalFailed (h : Clear w) (p : Bytes) : ¬RemovalFailed p w :=
  fun hf => Bool.noConfusion (h _ hf)

theorem Clear.not_restoreFailed (h : Clear w) (trash path : Bytes) :
    ¬RestoreFailed trash path w :=
  fun hf => Bool.noConfusion (h _ hf)

/-- Nothing is left behind. -/
theorem Clear.frame {P : Bytes → Prop} (h : Clear w') (hl : Leaves P w w') : Frame ∅ w w' := by
  obtain ⟨S, hf, hS⟩ := hl
  refine { hf with files := fun k _ => hf.files k fun hk => ?_ }
  obtain ⟨p, ⟨-, hp⟩, -⟩ := hS k hk
  exact h.not_removalFailed p hp

/-! ### Calls -/

theorem FsCall.Quiet.not_failed {c : FsCall} (hq : FsCall.Quiet c) (r : c.Resp) :
    Event.failed ⟨.fs c, r⟩ = false := by
  cases c <;> first | exact hq.elim | rfl

theorem wp_quiet_done {c : FsCall} (hA : A.Healthy) (hq : FsCall.Quiet c) (h : Clear w) :
    wp (System A) (fsCall c)
      (fun r w' => Succeeds w (.fs c) r ∧ Same w w' ∧ Clear w') (fun _ => True) w :=
  wp_quiet hq trivial fun r _ hok hD hfs =>
    ⟨hA _ _ _ hok, hD.same hfs, h.did hD (hq.not_failed r)⟩

theorem wp_unlink_done {p : Bytes} (hA : A.Healthy) (h : Clear w)
    (hp : w.fs.get (place p) ≠ none) :
    wp (System A) (unlink p) (fun done w' => done = true ∧ Clear w') (fun _ => True) w := by
  apply wp_unlink trivial
  · intro w' hok _ _
    have hs := hA _ _ _ hok
    simp [Succeeds, succeeds, hp] at hs
  · exact fun _ _ hD _ _ => ⟨rfl, h.did hD rfl⟩

theorem wp_rename_done {old new : Bytes} (hA : A.Healthy) (h : Clear w)
    (hp : w.fs.get (place old) ≠ none) :
    wp (System A) (rename old new) (fun done w' => done = true ∧ Clear w' ∧
      w'.fs = w.fs.move (place old) (place new)) (fun _ => True) w := by
  apply wp_rename trivial
  · intro w' hok _ _
    have hs := hA _ _ _ hok
    simp [Succeeds, succeeds, hp] at hs
  · exact fun w' _ hD _ hfs => ⟨rfl, h.did hD rfl, hfs⟩

theorem wp_swapTable_done {next : Table} (h : Clear w) :
    wp (System A) (swapTable next) (fun _ w' => Clear w') (fun _ => True) w := by
  refine wp_perform trivial fun r w' ch _ hans => ?_
  obtain ⟨rfl, rfl⟩ := Prod.mk.injEq .. ▸ hans
  intro e he
  rcases List.mem_append.mp he with he | he
  · exact h e he
  · rw [List.mem_singleton.mp he]
    rfl

theorem wp_addFile_done {fd offset length : Nat} (hA : A.Healthy) (h : Clear w) :
    wp (System A) (addFile fd offset length)
      (fun r w' => r = some (((w.fs.inode fd).bytes.drop offset).take length) ∧ Same w w' ∧
        Clear w') (fun _ => True) w := by
  have hadmitted : wp (System A) (addFile fd offset length)
      (fun r _ => A w (.addFile fd offset length) r) (fun _ => True) w :=
    wp_perform trivial fun _ _ _ hok _ => hok
  have hanswer : wp (System A) (addFile fd offset length)
      (fun r w' => (r = none ∨ r = some (((w.fs.inode fd).bytes.drop offset).take length)) ∧
        Same w w' ∧ Clear w') (fun _ => True) w := by
    apply wp_addFile trivial
    · exact fun _ hD hfs => ⟨Or.inl rfl, hD.same hfs, h.did hD rfl⟩
    · exact fun _ hD hfs => ⟨Or.inr rfl, hD.same hfs, h.did hD rfl⟩
  refine wp_mono (wp_and hadmitted hanswer) ?_ fun _ _ => trivial
  rintro r w' ⟨hok, rfl | hr, hs⟩
  · exact absurd (hA _ _ _ hok) (by simp [Succeeds, succeeds])
  · exact ⟨hr, hs⟩

/-! ### File operations -/

theorem wp_writeAll_done {fd : Nat} (hA : A.Healthy) (rounds : Nat) (rest : Bytes)
    (hlen : rest.length ≤ rounds) (h : Clear w) :
    wp (System A) (writeAll fd rounds rest) (fun ok w' => ok = true ∧ Clear w') (fun _ => True)
      w := by
  induction rounds generalizing w rest with
  | zero =>
    cases rest with
    | nil => exact ⟨rfl, h⟩
    | cons b bs => simp at hlen
  | succ rounds ih =>
    cases rest with
    | nil => exact ⟨rfl, h⟩
    | cons b bs =>
      rw [writeAll]
      · rw [wp_bind]
        apply wp_write trivial
        · intro w' hok _ _
          have hs := hA _ _ _ hok
          simp [Succeeds, succeeds] at hs
        · intro n w' hok hD _ _
          have hn : n ≠ 0 := by simpa [Succeeds, succeeds] using hA _ _ _ hok
          have hpos : (0 : Nat) < n := Nat.pos_of_ne_zero hn
          simp only [hn, ite_false]
          refine ih _ ?_ (h.did hD rfl)
          simp only [List.length_cons, List.length_drop] at hlen ⊢
          omega
      · simp

theorem wp_setContent_done {path content : Bytes} (hA : A.Healthy) (h : Clear w) :
    wp (System A) (setContent path content) (fun ok w' => ok = true ∧ Clear w') (fun _ => True)
      w := by
  have hrest : ∀ fd w₁, Clear w₁ → wp (System A) (do
      if ← writeAll fd content.length content then
        let synced ← fsync fd
        let closed ← close fd
        return synced && closed
      else
        let _ ← close fd
        return false) (fun ok w' => ok = true ∧ Clear w') (fun _ => True) w₁ := by
    intro fd w₁ h₁
    refine wp_seq (wp_writeAll_done hA _ _ (Nat.le_refl _) h₁) (fun _ h => h) ?_
    rintro ok w₂ ⟨rfl, h₂⟩
    simp only [ite_true]
    refine wp_seq (@wp_quiet_done A w₂ (.fsync fd) hA trivial h₂) (fun _ h => h) ?_
    rintro synced w₃ ⟨hsynced, -, h₃⟩
    refine wp_seq (@wp_quiet_done A w₃ (.close fd) hA trivial h₃) (fun _ h => h) ?_
    rintro closed w₄ ⟨hclosed, -, h₄⟩
    have hs : synced = true := hsynced
    have hc : closed = true := hclosed
    subst hs hc
    exact ⟨rfl, h₄⟩
  unfold setContent
  rw [wp_bind]
  apply wp_openTrunc trivial
  · intro w' hok _ _
    have hs := hA _ _ _ hok
    simp [Succeeds, succeeds] at hs
  · exact fun i w' _ hD _ _ => hrest i w' (h.did hD rfl)
  · exact fun w' hD _ _ => hrest _ w' (h.did hD rfl)

theorem suffix_join (d f : Bytes) : f <:+ join d f := by
  unfold join
  split
  · exact List.suffix_rfl
  · split
    · exact List.suffix_append ..
    · exact (List.suffix_cons ..).trans (List.suffix_append ..)

/-- The template of a directory and a prefix without NUL ends in six `X`. -/
theorem sixX_suffix {directory pre : Bytes} (hdir : (0 : Byte) ∉ directory)
    (hpre : (0 : Byte) ∉ pre) : sixX <:+ cString (joinPath directory (pre ++ sixX)) := by
  have h0 : (0 : Byte) ∉ joinPath directory (pre ++ sixX) := by
    intro h
    rcases mem_join h with h | h | h
    · exact hdir h
    · exact absurd h (by decide)
    · exact (List.mem_append.mp h).elim hpre (by decide)
  rw [cString_eq h0]
  exact (List.suffix_append ..).trans (suffix_join ..)

theorem wp_createTempFile_done {directory pre : Bytes} (hA : A.Healthy) (h : Clear w)
    (hdir : (0 : Byte) ∉ directory) (hpre : (0 : Byte) ∉ pre) (hsep : sep ∉ pre) :
    wp (System A) (createTempFile directory pre) (fun r w' => r ≠ none ∧ Clear w')
      (fun _ => True) w := by
  unfold createTempFile
  rw [if_neg hsep]
  refine wp_seq (@wp_quiet_done A w (.mkdirs directory) hA trivial h) (fun _ h => h) ?_
  rintro made w₁ ⟨hmade, -, h₁⟩
  have hm : made = true := hmade
  subst hm
  simp only [ite_true]
  rw [wp_bind]
  apply wp_mkstemp trivial
  · intro w₂ hok _ _
    have hs := hA _ _ _ hok
    simp [Succeeds, succeeds, sixX_suffix hdir hpre] at hs
  · intro x w₂ _ hD _ _ _ _
    simp only
    refine wp_seq (@wp_quiet_done A w₂ (.close w₁.fs.next) hA trivial (h₁.did hD rfl))
      (fun _ h => h) ?_
    rintro closed w₃ ⟨hclosed, -, h₃⟩
    have hc : closed = true := hclosed
    subst hc
    exact ⟨Option.some_ne_none _, h₃⟩

theorem wp_commitNoReplace_done {temporary final : Bytes} (hA : A.Healthy) (h : Clear w)
    (ht : w.fs.get (place temporary) ≠ none) :
    wp (System A) (commitNoReplace temporary final)
      (fun r w' => (r = .ok ∨ r = .exists ∧ w.fs.get (place final) ≠ none) ∧ Clear w')
      (fun _ => True) w := by
  unfold commitNoReplace
  rw [wp_bind]
  apply wp_link trivial
  · intro w₁ hok _ _
    have hs := hA _ _ _ hok
    simp [Succeeds, succeeds, ht] at hs
  · intro w₁ hok hD _ _
    have hs := hA _ _ _ hok
    refine ⟨Or.inr ⟨rfl, ?_⟩, h.did hD rfl⟩
    simpa [Succeeds, succeeds, ht, Option.isSome_iff_ne_none] using hs
  · intro w₁ _ hD he _ _ hfs
    have hnamed : w₁.fs.get (place temporary) ≠ none := by
      rw [hfs, FileSystem.get_addLink]
      split <;> exact ht
    refine wp_seq (wp_unlink_done hA (h.did hD rfl) hnamed) (fun _ h => h) ?_
    rintro done w₂ ⟨rfl, h₂⟩
    simp only [ite_true]
    refine wp_seq (@wp_quiet_done A w₂ (.syncDir (parentPath final)) hA trivial h₂)
      (fun _ h => h) ?_
    exact fun _ w₃ hs => ⟨Or.inl rfl, hs.2.2⟩

/-! ### Reading -/

/-- Neither a removal nor a renaming. -/
def Call.Harmless (c : Call) : Prop := ∀ r, Event.failed ⟨c, r⟩ = false

theorem wp_harmless {α : Type} {p : Program α} (hp : p.Only Call.Harmless) (h : Clear w) :
    wp (System A) p (fun _ => Clear) Clear w := by
  refine wp_only hp ?_ h
  rintro c w r w' hc h ⟨-, ch, hans⟩ e he
  have htrace : w'.trace = w.trace ++ [⟨c, r⟩] := by
    rw [answer] at hans
    obtain ⟨rfl, rfl⟩ := Prod.mk.injEq .. ▸ hans
    rfl
  rw [htrace] at he
  rcases List.mem_append.mp he with he | he
  · exact h e he
  · rw [List.mem_singleton.mp he]
    exact hc r

theorem harmless_readAll (fd position length rounds : Nat) (acc : Bytes) :
    (readAll fd position length rounds acc).Only Call.Harmless := by
  induction rounds generalizing acc with
  | zero => exact only_pure _
  | succ rounds ih =>
    rw [readAll]
    split
    · refine only_bind (only_perform fun _ => rfl) fun chunk => ?_
      split
      · exact only_pure _
      · exact ih _
    · exact only_pure _

theorem harmless_fileSize (path : Bytes) : (fileSize path).Only Call.Harmless := by
  refine only_bind (only_perform fun _ => rfl) fun status => ?_
  cases status <;> exact only_pure _

theorem harmless_getContent (path : Bytes) : (getContent path).Only Call.Harmless := by
  refine only_bind (harmless_fileSize path) fun size => ?_
  split
  · exact only_pure _
  · unfold getPosLen
    refine only_bind (harmless_fileSize path) fun size => ?_
    split
    · exact only_pure _
    · refine only_bind (only_perform fun _ => rfl) fun opened => ?_
      cases opened with
      | none => exact only_pure _
      | some fd =>
        refine only_bind (harmless_readAll ..) fun content => ?_
        cases content with
        | none => exact only_bind (only_perform fun _ => rfl) fun _ => only_pure _
        | some content =>
          refine only_bind (only_perform fun _ => rfl) fun closed => ?_
          cases closed <;> exact only_pure _

theorem wp_getContent_done {path : Bytes} {file : Inode} (hA : A.Healthy) (h : Clear w)
    (hfile : w.fs.get (place path) = some file) (hlen : file.bytes.length < 2 ^ 63) :
    wp (System A) (getContent path) (fun r w' => (Same w w' ∧ r = some file.bytes) ∧ Clear w')
      (fun _ => True) w :=
  wp_mono (wp_and (hA.wp_reads (wp_getContent_reads hfile hlen))
    (wp_harmless (harmless_getContent path) h)) (fun _ _ h => h) fun _ _ => trivial

/-- An answer that `stat` may give. -/
def StatMay (A : Assumption) (p : Bytes) (status : Stat) : Prop :=
  fits status = true ∧ ∃ w : World, A w (.fs (.stat p)) (some status)

theorem Succeeds.fits {p : Bytes} {status : Stat} (h : Succeeds w (.fs (.stat p)) (some status))
    (hfile : w.fs.get (place p) ≠ none) : fits status = true := by
  have hor : (w.fs.get (place p)).isNone = true ∨ CloudStorage.fits status = true :=
    (Bool.or_eq_true ..).mp h
  exact hor.resolve_left fun hnone => hfile (Option.isNone_iff_eq_none.mp hnone)

theorem wp_stat_done {p : Bytes} {file : Inode} (hA : A.Healthy) (h : Clear w)
    (hfile : w.fs.get (place p) = some file) :
    wp (System A) (stat p)
      (fun r w' => (∃ status, r = some status ∧ StatMay A p status ∧
          status.size = file.bytes.length ∧ status.mtime = file.mtime / second) ∧
        Same w w' ∧ Clear w') (fun _ => True) w := by
  apply wp_stat trivial
  · intro w' hok _ _
    have hs := hA _ _ _ hok
    simp [Succeeds, succeeds, hfile] at hs
  · intro found atime w' hok hD hfound hfs
    rw [hfile] at hfound
    cases hfound
    have hfits := (hA _ _ _ hok).fits (hfile ▸ Option.some_ne_none _)
    exact ⟨⟨_, rfl, ⟨hfits, w, hok⟩, rfl, rfl⟩, hD.same hfs, h.did hD rfl⟩

/-! ### The metadata -/

/-- The record that three answers of `stat` make of the file at `path`. -/
def measured (cfg : Config) (path storageType : Bytes) (size modified accessed : Stat) :
    StorageInfo where
  mtime_ := modified.mtime
  atime_ := accessed.atime
  fsize_ := size.size.toNat
  storage_path_ := path
  url_ := cfg.downloadPrefix ++ fileName path
  storage_type_ := storageType

/-- A record that `NewStorageInfo` may make: none of the numbers is negative. -/
def Measured (A : Assumption) (cfg : Config) (path storageType : Bytes) (info : StorageInfo) :
    Prop :=
  ∃ size modified accessed, StatMay A path size ∧ StatMay A path modified ∧
    StatMay A path accessed ∧ 0 ≤ modified.mtime ∧
    info = measured cfg path storageType size modified accessed

theorem wp_newStorageInfo_done {cfg : Config} {path storageType : Bytes} {file : Inode}
    (hA : A.Healthy) (h : Clear w) (htype : storageType = low ∨ storageType = deep)
    (hfile : w.fs.get (place path) = some file) (hmtime : 0 ≤ file.mtime) :
    wp (System A) (newStorageInfo cfg path path storageType)
      (fun r w' => (∃ info, r = some info ∧ Measured A cfg path storageType info) ∧ Clear w')
      (fun _ => True) w := by
  have hknown : ¬(storageType ≠ low ∧ storageType ≠ deep) := by
    rintro ⟨hlow, hdeep⟩
    exact htype.elim hlow hdeep
  unfold newStorageInfo fileSize lastModifyTime lastAccessTime
  rw [if_neg hknown, wp_bind, wp_bind]
  refine wp_mono (wp_stat_done hA h hfile) ?_ fun _ h => h
  rintro _ w₁ ⟨⟨size, rfl, hmay₁, hsize, -⟩, hs₁, h₁⟩
  simp only [wp_pure]
  rw [wp_bind, wp_bind]
  refine wp_mono (wp_stat_done hA h₁ (hs₁.fs ▸ hfile)) ?_ fun _ h => h
  rintro _ w₂ ⟨⟨modified, rfl, hmay₂, -, hmodified⟩, hs₂, h₂⟩
  simp only [wp_pure]
  rw [wp_bind, wp_bind]
  refine wp_mono (wp_stat_done hA h₂ ((hs₁.trans hs₂).fs ▸ hfile)) ?_ fun _ h => h
  rintro _ w₃ ⟨⟨accessed, rfl, hmay₃, -, -⟩, -, h₃⟩
  have hm : 0 ≤ modified.mtime := hmodified ▸ Int.ediv_nonneg hmtime (by decide)
  have hatime : 0 ≤ accessed.atime := (of_decide_eq_true hmay₃.1).2.2.1
  have hgood : ¬(size.size < 0 ∨ modified.mtime < 0 ∨ accessed.atime < 0) := by omega
  simp only [wp_pure]
  rw [if_neg hgood]
  exact ⟨⟨_, rfl, size, modified, accessed, hmay₁, hmay₂, hmay₃, hm, rfl⟩, h₃⟩

theorem storagePrefix_clean : (0 : Byte) ∉ storagePrefix ∧ sep ∉ storagePrefix := by decide

theorem wp_persist_done {cfg : Config} {text : JsonText} {table : Table} (hA : A.Healthy)
    (h : Clear w) (hwrite : text.write (tableJson table) ≠ none)
    (hdir : (0 : Byte) ∉ parentPath cfg.storageInfo) :
    wp (System A) (persist cfg text table) (fun ok w' => ok = true ∧ Clear w') (fun _ => True)
      w := by
  obtain ⟨body, hbody⟩ := Option.ne_none_iff_exists'.mp hwrite
  unfold persist
  rw [hbody]
  simp only
  refine wp_seq (@wp_quiet_done A w (.mkdirs _) hA trivial h) (fun _ h => h) ?_
  rintro made w₁ ⟨hmade, -, h₁⟩
  have hm : made = true := hmade
  subst hm
  simp only [ite_true]
  refine wp_seq_and wp_createTempFile
    (wp_createTempFile_done hA h₁ hdir storagePrefix_clean.1 storagePrefix_clean.2) ?_
  rintro r w₂ htemp ⟨hr, h₂⟩
  obtain ⟨temporary, rfl⟩ := Option.ne_none_iff_exists'.mp hr
  obtain ⟨-, -, -, i, hown⟩ := htemp
  simp only
  refine wp_seq_and (wp_setContent hown) (wp_setContent_done hA h₂) ?_
  rintro ok w₃ ⟨-, hown₃, -⟩ ⟨rfl, h₃⟩
  have hpresent : w₃.fs.get (place temporary) ≠ none := by
    rw [hown₃.get]
    exact Option.some_ne_none _
  simp only [ite_true]
  refine wp_seq (wp_rename_done hA h₃ hpresent) (fun _ h => h) ?_
  rintro ok w₄ ⟨rfl, h₄, -⟩
  simp only [ite_true]
  refine wp_seq (@wp_quiet_done A w₄ (.syncDir _) hA trivial h₄) (fun _ h => h) ?_
  exact fun _ w₅ hs => ⟨rfl, hs.2.2⟩

theorem wp_commit_done {cfg : Config} {text : JsonText} {table : Table} (hA : A.Healthy)
    (h : Clear w) (hwrite : text.write (tableJson table) ≠ none)
    (hdir : (0 : Byte) ∉ parentPath cfg.storageInfo) :
    wp (System A) (commit cfg text table) (fun r w' => r = .ok ∧ Clear w') (fun _ => True) w := by
  unfold commit
  refine wp_seq (wp_persist_done hA h hwrite hdir) (fun _ h => h) ?_
  rintro ok w₁ ⟨rfl, h₁⟩
  simp only [ite_true]
  refine wp_seq (wp_swapTable_done h₁) (fun _ h => h) ?_
  exact fun _ w₂ h₂ => ⟨rfl, h₂⟩

theorem wp_loadTable_done (h : Clear w) :
    wp (System A) loadTable (fun table w' => table = w.table ∧ Same w w' ∧ Clear w')
      (fun _ => True) w :=
  wp_loadTable trivial fun _ hD hfs => ⟨rfl, hD.same hfs, h.did hD rfl⟩

theorem wp_dataInsert_done {cfg : Config} {text : JsonText} {info : StorageInfo} (hA : A.Healthy)
    (h : Clear w) (hfree : info.url_ ∉ w.table)
    (hwrite : text.write (tableJson (w.table.insert info.url_ info)) ≠ none)
    (hdir : (0 : Byte) ∉ parentPath cfg.storageInfo) :
    wp (System A) (DataManager.insert cfg text info) (fun r w' => r = .ok ∧ Clear w')
      (fun _ => True) w := by
  unfold DataManager.insert
  refine wp_seq (wp_loadTable_done h) (fun _ h => h) ?_
  rintro _ w₁ ⟨rfl, -, h₁⟩
  rw [if_neg hfree]
  exact wp_commit_done hA h₁ hwrite hdir

theorem wp_dataDelete_done {cfg : Config} {text : JsonText} {url : Bytes} (hA : A.Healthy)
    (h : Clear w) (hmem : url ∈ w.table)
    (hwrite : text.write (tableJson (w.table.erase url)) ≠ none)
    (hdir : (0 : Byte) ∉ parentPath cfg.storageInfo) :
    wp (System A) (DataManager.delete cfg text url) (fun r w' => r = .ok ∧ Clear w')
      (fun _ => True) w := by
  unfold DataManager.delete
  refine wp_seq (wp_loadTable_done h) (fun _ h => h) ?_
  rintro _ w₁ ⟨rfl, -, h₁⟩
  rw [if_neg (not_not.mpr hmem)]
  exact wp_commit_done hA h₁ hwrite hdir

theorem wp_getOneByUrl_done {url : Bytes} (h : Clear w) :
    wp (System A) (getOneByUrl url)
      (fun r w' => r = w.table.lookup url ∧ Same w w' ∧ Clear w') (fun _ => True) w := by
  unfold getOneByUrl
  refine wp_seq (wp_loadTable_done h) (fun _ h => h) ?_
  rintro _ w₁ ⟨rfl, h₁⟩
  exact ⟨rfl, h₁⟩

end CloudStorage
