import CloudStorage.FileUtil

/-!
# Specifications of the file operations
-/

namespace CloudStorage
open Posix Interact

variable {A : Assumption} {w : World}

/-- A name `mkstemp` makes from a directory and a prefix. -/
def TempName (directory pre p : Bytes) : Prop :=
  ∃ x, TempSuffix x ∧ p = fillTemplate (cString (joinPath directory (pre ++ sixX))) x

/-- One that the assumption admits while `table_` is `table`. -/
structure TempPath (A : Assumption) (table : Table) (directory pre : Bytes) (p : Bytes) : Prop where
  shape : TempName directory pre p
  admitted : ∃ (w : World) (t : Bytes) (i : Nat), w.table = table ∧
    A w (.fs (.mkstemp t)) (some (p, i))

/-- The write loop, on a file with one name: all of it is appended, or the result
is false; no other file is touched. -/
theorem wp_writeAll {fd : Nat} {k : Key} (since : Int) (rounds : Nat) (rest : Bytes)
    (h : w.fs.Owns k fd) (ht : since ≤ (w.fs.inode fd).mtime ∧ (w.fs.inode fd).mtime ≤ w.clock)
    (hs : since ≤ w.clock) :
    wp (System A) (writeAll fd rounds rest)
      (fun ok w' => Frame {k} w w' ∧ w'.fs.Owns k fd ∧
        (since ≤ (w'.fs.inode fd).mtime ∧ (w'.fs.inode fd).mtime ≤ w'.clock) ∧
        (ok = true → (w'.fs.inode fd).bytes = (w.fs.inode fd).bytes ++ rest))
      (fun w' => Frame {k} w w') w := by
  induction rounds generalizing w rest with
  | zero =>
    cases rest with
    | nil => exact ⟨Frame.refl _ w, h, ht, fun _ => (List.append_nil _).symm⟩
    | cons b bs => exact ⟨Frame.refl _ w, h, ht, fun hf => by cases hf⟩
  | succ rounds ih =>
    cases rest with
    | nil => exact ⟨Frame.refl _ w, h, ht, fun _ => (List.append_nil _).symm⟩
    | cons b bs =>
      rw [writeAll]
      · rw [wp_bind]
        apply wp_write (Frame.refl _ w)
        · intro w' _ hD hfs
          simp only [ite_true]
          refine ⟨hD.quiet hfs {k}, hfs ▸ h, ?_, fun hc => by cases hc⟩
          rw [hfs]
          exact ⟨ht.1, Int.le_trans ht.2 hD.clock⟩
        · intro n w' _ hD hn hfs
          have hown : w'.fs.Owns k fd := hfs ▸ h.setInode _
          have hframe : Frame {k} w w' := hD.frame fun l hl => by
            rw [hfs, FileSystem.get_setInode h]
            exact if_neg hl
          have hnode : w'.fs.inode fd =
              ⟨(w.fs.inode fd).bytes ++ (b :: bs).take n, w'.clock⟩ := by
            rw [hfs]
            simp [FileSystem.setInode]
          have hclock : since ≤ w'.clock := Int.le_trans hs hD.clock
          by_cases hz : n = 0
          · simp only [hz, ite_true]
            refine ⟨hframe, hown, ?_, fun hc => by cases hc⟩
            rw [hnode]
            exact ⟨hclock, Int.le_refl _⟩
          · simp only [hz, ite_false]
            refine wp_mono (ih ((b :: bs).drop n) hown ?_ hclock) ?_ fun w'' h' => hframe.trans h'
            · rw [hnode]
              exact ⟨hclock, Int.le_refl _⟩
            · rintro ok w'' ⟨hf, ho, htime, hok⟩
              refine ⟨hframe.trans hf, ho, htime, fun he => ?_⟩
              rw [hok he, hnode, List.append_assoc, List.take_append_drop]
      · simp

theorem wp_setContent {path content : Bytes} {i : Nat} (h : w.fs.Owns (place path) i) :
    wp (System A) (setContent path content)
      (fun ok w' => Frame {place path} w w' ∧ w'.fs.Owns (place path) i ∧
        (ok = true → ∃ t, w'.fs.get (place path) = some ⟨content, t⟩ ∧
          w.clock ≤ t ∧ t ≤ w'.clock))
      (fun w' => Frame {place path} w w') w := by
  unfold setContent
  rw [wp_bind]
  apply wp_openTrunc (Frame.refl _ w)
  · intro w' _ hD hfs
    exact ⟨hD.quiet hfs _, hfs ▸ h, fun hc => by cases hc⟩
  · intro j w' _ hD he hfs
    obtain rfl : i = j := by simpa [h.named] using he
    have hown : w'.fs.Owns (place path) i := hfs ▸ h.setInode _
    have hframe : Frame {place path} w w' := hD.frame fun l hl => by
      rw [hfs, FileSystem.get_setInode h]
      exact if_neg hl
    have hnode : w'.fs.inode i = ⟨[], w'.clock⟩ := by
      rw [hfs]
      simp [FileSystem.setInode]
    refine wp_seq (wp_writeAll w.clock content.length content hown ?_ hD.clock)
      (fun w'' hf => hframe.trans hf) ?_
    · rw [hnode]
      exact ⟨hD.clock, Int.le_refl _⟩
    · rintro ok w₁ ⟨hf₁, ho₁, ht₁, hok⟩
      have hf₁ := hframe.trans hf₁
      cases ok with
      | false =>
        simp only [Bool.false_eq_true, ite_false]
        rw [wp_bind]
        refine wp_close hf₁ fun r w₂ _ hD₂ hfs₂ => ?_
        exact ⟨hf₁.trans (hD₂.quiet hfs₂ _), hfs₂ ▸ ho₁, fun hc => by cases hc⟩
      | true =>
        simp only [ite_true]
        rw [wp_bind]
        refine wp_fsync hf₁ fun synced w₂ _ hD₂ hfs₂ => ?_
        have hf₂ := hf₁.trans (hD₂.quiet hfs₂ _)
        rw [wp_bind]
        refine wp_close hf₂ fun closed w₃ _ hD₃ hfs₃ => ?_
        have hfs := hfs₃.trans hfs₂
        refine ⟨hf₂.trans (hD₃.quiet hfs₃ _), hfs ▸ ho₁, fun _ => ?_⟩
        refine ⟨(w₁.fs.inode i).mtime, ?_, ht₁.1,
          Int.le_trans ht₁.2 (Int.le_trans hD₂.clock hD₃.clock)⟩
        have hbytes := hok rfl
        rw [hnode, List.nil_append] at hbytes
        rw [hfs, ho₁.get, ← hbytes]
  · intro w' _ he _
    rw [h.named] at he
    cases he

/-! ### Temporary files -/

/-- The new file `p` is still to be removed; else only files whose removal failed differ. -/
structure Pending (P : Bytes → Prop) (p : Bytes) (w w' : World) : Prop where
  path : P p
  free : w.fs.get (place p) = none
  rest : ∃ T, Frame ({place p} ∪ T) w w' ∧
    ∀ k ∈ T, ∃ q, (P q ∧ RemovalFailed q w') ∧ place q = k ∧ w.fs.get k = none

theorem Pending.of_frame {P : Bytes → Prop} {p : Bytes} {w w' : World} (hp : P p)
    (hfree : w.fs.get (place p) = none) (hf : Frame {place p} w w') : Pending P p w w' :=
  ⟨hp, hfree, ∅, hf.mono Set.subset_union_left, fun _ hk => hk.elim⟩

theorem Pending.touches {P : Bytes → Prop} {p : Bytes} {w w' : World} (h : Pending P p w w') :
    Touches P w w' := by
  obtain ⟨T, hf, hT⟩ := h.rest
  refine ⟨_, hf, ?_⟩
  rintro k (rfl | hk)
  · exact ⟨p, h.path, rfl, h.free⟩
  · obtain ⟨q, hq, hkey, hnew⟩ := hT k hk
    exact ⟨q, hq.1, hkey, hnew⟩

theorem Pending.leaves {P : Bytes → Prop} {p : Bytes} {a b c : World} (h : Pending P p a b)
    (h' : Leaves P b c) : Pending P p a c := by
  obtain ⟨T, hf, hT⟩ := h.rest
  obtain ⟨U, hf', hT'⟩ := h'
  refine ⟨h.path, h.free, T ∪ (U \ ({place p} ∪ T)), ?_, ?_⟩
  · refine (hf.mono ?_).trans (hf'.mono ?_)
    · exact Set.union_subset_union_right _ Set.subset_union_left
    · intro k hk
      by_cases hold : k ∈ {place p} ∪ T
      · exact hold.imp (fun h => h) Or.inl
      · exact Or.inr (Or.inr ⟨hk, hold⟩)
  · rintro k (hk | ⟨hk, hold⟩)
    · obtain ⟨q, hq, hkey, hnew⟩ := hT k hk
      exact ⟨q, ⟨hq.1, hq.2.mono hf'.trace⟩, hkey, hnew⟩
    · obtain ⟨q, hq, hkey, hnew⟩ := hT' k hk
      exact ⟨q, hq, hkey, (hf.files k hold).symm.trans hnew⟩

theorem wp_unlink_pending {P : Bytes → Prop} {w₀ : World} {p : Bytes} (h : Pending P p w₀ w) :
    wp (System A) (unlink p) (fun _ w' => Leaves P w₀ w') (fun w' => w' = w) w := by
  obtain ⟨T, hf, hT⟩ := h.rest
  apply wp_unlink rfl
  · intro w' _ hD hfs
    refine ⟨_, hf.trans (hD.quiet hfs _), ?_⟩
    rintro k (rfl | hk)
    · exact ⟨p, ⟨h.path, hD.mem⟩, rfl, h.free⟩
    · obtain ⟨q, hq, hkey, hnew⟩ := hT k hk
      exact ⟨q, ⟨hq.1, hq.2.mono (hD.quiet hfs ∅).trace⟩, hkey, hnew⟩
  · intro w' _ hD _ hfs
    have hd : Frame ({place p} ∪ T) w w' := hD.frame fun k hk => by
      rw [hfs, FileSystem.get_dropEntry]
      exact if_neg fun h => hk (Or.inl h)
    have hf' := hf.trans hd
    refine ⟨T, { hf' with files := fun k hk => ?_ }, ?_⟩
    · by_cases hkp : k = place p
      · rw [hfs, FileSystem.get_dropEntry, if_pos hkp, hkp, h.free]
      · exact hf'.files k fun hs => hs.elim hkp hk
    · intro k hk
      obtain ⟨q, hq, hkey, hnew⟩ := hT k hk
      exact ⟨q, ⟨hq.1, hq.2.mono hd.trace⟩, hkey, hnew⟩

theorem wp_unlink_new {w₀ : World} {p : Bytes} (hf : Frame {place p} w₀ w)
    (hnew : w₀.fs.get (place p) = none) :
    wp (System A) (unlink p) (fun _ w' => Leaves (fun q => q = p) w₀ w') (fun w' => w' = w) w :=
  wp_unlink_pending (Pending.of_frame rfl hnew hf)

/-- `CreateTempFile`: a new empty file with one name, or nothing but a file whose
removal failed. -/
theorem wp_createTempFile {directory pre : Bytes} :
    wp (System A) (createTempFile directory pre)
      (fun r w' => match r with
        | none => Leaves (TempPath A w.table directory pre) w w'
        | some p => TempPath A w.table directory pre p ∧ w.fs.get (place p) = none ∧
            Frame {place p} w w' ∧ ∃ i, w'.fs.Owns (place p) i)
      (fun w' => Touches (TempPath A w.table directory pre) w w') w := by
  unfold createTempFile
  split
  · exact Touches.refl _ w
  rw [wp_bind]
  refine wp_mkdirs (Touches.refl _ w) fun made w₁ _ hD₁ hfs₁ => ?_
  have hf₁ : Frame ∅ w w₁ := hD₁.quiet hfs₁ _
  cases made with
  | false => exact Touches.of_frame hf₁
  | true =>
    simp only [ite_true]
    rw [wp_bind]
    apply wp_mkstemp (Touches.of_frame hf₁)
    · intro w₂ _ hD₂ hfs₂
      exact Touches.of_frame (hf₁.trans (hD₂.quiet hfs₂ _))
    · intro x w₂ hA₂ hD₂ hx _ hnone hfs₂
      generalize hp : fillTemplate (cString (joinPath directory (pre ++ sixX))) x = p
        at hA₂ hnone hfs₂ ⊢
      have htemp : TempPath A w.table directory pre p :=
        ⟨⟨x, hx, hp.symm⟩, w₁, _, _, hD₁.table, hA₂⟩
      have hnew : w.fs.get (place p) = none := by
        rw [← hfs₁]
        exact FileSystem.get_eq_none.mpr hnone
      have hf₂ : Frame {place p} w w₂ :=
        (hf₁.mono (Set.empty_subset _)).trans (hD₂.frame fun k hk => by
          rw [hfs₂, FileSystem.get_create]
          exact if_neg hk)
      have hown : w₂.fs.Owns (place p) w₁.fs.next := hfs₂ ▸ FileSystem.owns_create _
      rw [wp_bind]
      refine wp_close (Touches.single hf₂ htemp hnew) fun closed w₃ _ hD₃ hfs₃ => ?_
      have hf₃ := hf₂.trans (hD₃.quiet hfs₃ _)
      cases closed with
      | true => exact ⟨htemp, hnew, hf₃, _, hfs₃ ▸ hown⟩
      | false =>
        simp only [Bool.false_eq_true, ite_false]
        refine wp_seq (wp_unlink_new hf₃ hnew) ?_ ?_
        · rintro w' rfl
          exact Touches.single hf₃ htemp hnew
        · intro _ w' h
          exact h.mono fun q hq => ⟨hq.1 ▸ htemp, hq.2⟩

/-- `CommitNoReplace` on a temporary that is there: the file gets its final name,
which was free, or nothing but a final name whose removal failed; in that case and
after a failed removal of the temporary name the temporary is still there. -/
theorem wp_commitNoReplace {temporary final : Bytes}
    (ht : w.fs.get (place temporary) ≠ none) :
    wp (System A) (commitNoReplace temporary final)
      (fun r w' => match r with
        | .ok => A w (.fs (.link temporary final)) .ok ∧
            place final ≠ place temporary ∧ w.fs.get (place final) = none ∧
            Frame {place temporary, place final} w w' ∧ w'.fs.get (place temporary) = none ∧
            w'.fs.get (place final) = w.fs.get (place temporary)
        | .exists => (w.fs.get (place final) ≠ none ∨ IsDir w.dirs (place final)) ∧ Frame ∅ w w'
        | .failed => Leaves (fun p => p = final ∧ A w (.fs (.link temporary final)) .ok ∧
            w.fs.get (place final) = none) w w')
      (fun w' => Frame ∅ w w' ∨ A w (.fs (.link temporary final)) .ok ∧
        w.fs.get (place final) = none ∧ Frame {place temporary, place final} w w' ∧
        w'.fs.get (place final) = w.fs.get (place temporary)) w := by
  unfold commitNoReplace
  rw [wp_bind]
  apply wp_link (Or.inl (Frame.refl _ w))
  · intro w₁ _ hD hfs
    exact Touches.of_frame (hD.quiet hfs _)
  · intro w₁ _ hD he hfs
    exact ⟨he.imp_left fun he hn => he (FileSystem.get_eq_none.mp hn), hD.quiet hfs _⟩
  · intro w₁ hA hD₁ _ he _ hfs₁
    have hnew : w.fs.get (place final) = none := FileSystem.get_eq_none.mpr he
    have hne : place final ≠ place temporary := fun h => ht (h ▸ hnew)
    have hget : ∀ k, w₁.fs.get k =
        if k = place final then w.fs.get (place temporary) else w.fs.get k := fun k => by
      rw [hfs₁, FileSystem.get_addLink]
    have hf₁ : Frame {place final} w w₁ := hD₁.frame fun k hk => by
      rw [hget]
      exact if_neg hk
    have hfinal : w₁.fs.get (place final) = w.fs.get (place temporary) := by simp [hget]
    have hmid : w.fs.get (place final) = none ∧ Frame {place temporary, place final} w w₁ ∧
        w₁.fs.get (place final) = w.fs.get (place temporary) :=
      ⟨hnew, hf₁.mono (Set.subset_union_right), hfinal⟩
    rw [wp_bind]
    apply wp_unlink (Or.inr ⟨hA, hmid⟩)
    · intro w₂ _ hD₂ hfs₂
      have hf₂ := hf₁.trans (hD₂.quiet hfs₂ _)
      simp only [Bool.false_eq_true, ite_false]
      refine wp_seq (wp_unlink_new hf₂ hnew) ?_ ?_
      · rintro w' rfl
        exact Or.inr ⟨hA, hnew, hf₂.mono (Set.subset_union_right), by rw [hfs₂]; exact hfinal⟩
      · intro _ w' h
        exact h.mono fun q hq => ⟨⟨hq.1, hA, hnew⟩, hq.2⟩
    · intro w₂ _ hD₂ _ hfs₂
      have hget₂ : ∀ k, w₂.fs.get k = if k = place temporary then none else w₁.fs.get k := fun k => by
        rw [hfs₂, FileSystem.get_dropEntry]
      have hf₂ : Frame {place temporary, place final} w w₂ :=
        hmid.2.1.trans (hD₂.frame fun k hk => by
          rw [hget₂]
          exact if_neg fun h => hk (Or.inl h))
      have hfinal₂ : w₂.fs.get (place final) = w.fs.get (place temporary) := by
        rw [hget₂, if_neg hne, hfinal]
      simp only [ite_true]
      rw [wp_bind]
      refine wp_syncDir (Or.inr ⟨hA, hnew, hf₂, hfinal₂⟩) fun _ w₃ _ hD₃ hfs₃ => ?_
      exact ⟨hA, hne, hnew, hf₂.trans (hD₃.quiet hfs₃ _), by rw [hfs₃, hget₂]; simp,
        by rw [hfs₃, hfinal₂]⟩

/-! ### Reading -/

/-- The file system is as it was, and so is the memory. -/
structure Same (w w' : World) : Prop where
  fs : w'.fs = w.fs
  frame : Frame ∅ w w'

theorem Same.refl (w : World) : Same w w := ⟨rfl, Frame.refl _ w⟩

theorem Same.trans {a b c : World} (h : Same a b) (h' : Same b c) : Same a c :=
  ⟨h'.fs.trans h.fs, h.frame.trans h'.frame⟩

theorem Did.same {c : Call} {r : c.Resp} {w' : World} (h : Did w c r w') (hfs : w'.fs = w.fs) :
    Same w w' :=
  ⟨hfs, h.quiet hfs _⟩

theorem Frame.same {S : Set Key} {a b c : World} (h : Frame S a b) (h' : Same b c) : Frame S a c :=
  h.trans (h'.frame.mono (Set.empty_subset S))

theorem wp_fileSize {path : Bytes} :
    wp (System A) (fileSize path)
      (fun size w' => Same w w' ∧ (size = -1 ∨
        ∃ file, w.fs.get (place path) = some file ∧ size = file.bytes.length))
      (Same w) w := by
  unfold fileSize
  rw [wp_bind]
  apply wp_stat (Same.refl w)
  · intro w' _ hD hfs
    exact ⟨hD.same hfs, Or.inl rfl⟩
  · intro file atime w' _ hD hfile hfs
    exact ⟨hD.same hfs, Or.inr ⟨file, hfile, rfl⟩⟩

theorem wp_lastModifyTime {path : Bytes} :
    wp (System A) (lastModifyTime path)
      (fun time w' => Same w w' ∧ (time = -1 ∨
        ∃ file, w.fs.get (place path) = some file ∧ time = file.mtime / second))
      (Same w) w := by
  unfold lastModifyTime
  rw [wp_bind]
  apply wp_stat (Same.refl w)
  · intro w' _ hD hfs
    exact ⟨hD.same hfs, Or.inl rfl⟩
  · intro file atime w' _ hD hfile hfs
    exact ⟨hD.same hfs, Or.inr ⟨file, hfile, rfl⟩⟩

theorem wp_lastAccessTime {path : Bytes} :
    wp (System A) (lastAccessTime path) (fun _ w' => Same w w') (Same w) w := by
  unfold lastAccessTime
  rw [wp_bind]
  apply wp_stat (Same.refl w)
  · intro w' _ hD hfs
    exact hD.same hfs
  · intro file atime w' _ hD _ hfs
    exact hD.same hfs

/-- The read loop: what it returns is what the file has from `position` on. -/
theorem wp_readAll {fd position length : Nat} (rounds : Nat) (acc : Bytes)
    (hacc : acc = ((w.fs.inode fd).bytes.drop position).take acc.length)
    (hlen : acc.length ≤ length) :
    wp (System A) (readAll fd position length rounds acc)
      (fun r w' => Same w w' ∧ ∀ content, r = some content →
        content = ((w.fs.inode fd).bytes.drop position).take length ∧ content.length = length)
      (Same w) w := by
  induction rounds generalizing w acc with
  | zero =>
    rw [readAll]
    by_cases h : acc.length < length
    · simp only [h, ite_true]
      exact ⟨Same.refl w, fun _ hc => by cases hc⟩
    · simp only [h, ite_false]
      refine ⟨Same.refl w, fun content hc => ?_⟩
      cases hc
      have he : acc.length = length := by omega
      exact ⟨he ▸ hacc, he⟩
  | succ rounds ih =>
    rw [readAll]
    by_cases h : acc.length < length
    · simp only [h, ite_true]
      rw [wp_bind]
      apply wp_pread (Same.refl w)
      intro m w₁ _ hD hm hfs
      have hsame := hD.same hfs
      split
      · exact ⟨hsame, fun _ hc => by cases hc⟩
      · generalize hchunk : ((w.fs.inode fd).bytes.drop (position + acc.length)).take m = chunk
        have hclen : chunk.length ≤ m := by
          rw [← hchunk]
          exact List.length_take_le ..
        have hnext : acc ++ chunk =
            ((w₁.fs.inode fd).bytes.drop position).take (acc ++ chunk).length := by
          rw [hfs, List.length_append, List.take_add, ← hacc, List.drop_drop]
          congr 1
          rw [← hchunk, List.take_eq_take_iff, List.length_take]
          omega
        have hle : (acc ++ chunk).length ≤ length := by
          rw [List.length_append]
          omega
        refine wp_mono (ih (acc ++ chunk) hnext hle) ?_ fun w' h' => hsame.trans h'
        rintro r w' ⟨hs, hr⟩
        refine ⟨hsame.trans hs, fun content hc => ?_⟩
        rw [← hfs]
        exact hr content hc
    · simp only [h, ite_false]
      refine ⟨Same.refl w, fun content hc => ?_⟩
      cases hc
      have he : acc.length = length := by omega
      exact ⟨he ▸ hacc, he⟩

/-- `GetContent` returns the content of the file or nothing. -/
theorem wp_getContent {path : Bytes} :
    wp (System A) (getContent path)
      (fun r w' => Same w w' ∧ ∀ content, r = some content →
        ∃ file, w.fs.get (place path) = some file ∧ content = file.bytes)
      (Same w) w := by
  unfold getContent
  refine wp_seq wp_fileSize (fun _ h => h) ?_
  rintro size w₁ ⟨h₁, hsize⟩
  split
  · exact ⟨h₁, fun _ hc => by cases hc⟩
  · rename_i hrange
    obtain hbad | ⟨file, hfile, rfl⟩ := hsize
    · exact absurd (Or.inl (by omega)) hrange
    unfold getPosLen
    refine wp_seq wp_fileSize (fun _ h => h₁.trans h) ?_
    rintro size₂ w₂ ⟨h₂, -⟩
    split
    · exact ⟨h₁.trans h₂, fun _ hc => by cases hc⟩
    have h₂ := h₁.trans h₂
    rw [wp_bind]
    apply wp_openRead h₂
    · intro w₃ _ hD₃ hfs₃
      exact ⟨h₂.trans (hD₃.same hfs₃), fun _ hc => by cases hc⟩
    · intro i w₃ _ hD₃ he hfs₃
      have h₃ := h₂.trans (hD₃.same hfs₃)
      have hi : w₃.fs.inode i = file := by
        have hget : w₂.fs.get (place path) = some file := by rw [h₂.fs, hfile]
        rw [FileSystem.get, he, Option.map_some, Option.some.injEq] at hget
        rw [hfs₃, hget]
      refine wp_seq (wp_readAll _ [] (by simp) (Nat.zero_le _)) (fun _ h => h₃.trans h) ?_
      rintro r w₄ ⟨h₄, hr⟩
      have h₄ := h₃.trans h₄
      cases r with
      | none =>
        rw [wp_bind]
        refine wp_close h₄ fun _ w₅ _ hD₅ hfs₅ => ?_
        exact ⟨h₄.trans (hD₅.same hfs₅), fun _ hc => by cases hc⟩
      | some content =>
        rw [wp_bind]
        refine wp_close h₄ fun closed w₅ _ hD₅ hfs₅ => ?_
        have h₅ := h₄.trans (hD₅.same hfs₅)
        cases closed with
        | false => exact ⟨h₅, fun _ hc => by cases hc⟩
        | true =>
          refine ⟨h₅, fun found hc => ?_⟩
          cases hc
          refine ⟨file, hfile, ?_⟩
          rw [(hr content rfl).1, hi]
          simp

end CloudStorage
