import CloudStorage.World

/-!
# File-system calls of the server and their rules

One rule per call: what the world is after each answer. A rule asks for the
crash postcondition where the call is made and for the postcondition after
every answer the assumption admits.
-/

namespace CloudStorage
open Posix Interact

def mkdirs (dir : Bytes) : Program Bool := fsCall (.mkdirs dir)
def mkstemp (template : Bytes) : Program (Option (Bytes × Nat)) := fsCall (.mkstemp template)
def openTrunc (path : Bytes) : Program (Option Nat) := fsCall (.openTrunc path)
def openRead (path : Bytes) : Program (Option Nat) := fsCall (.openRead path)
def write (fd : Nat) (data : Bytes) : Program Nat := fsCall (.write fd data)
def pread (fd offset length : Nat) : Program Bytes := fsCall (.pread fd offset length)
def fsync (fd : Nat) : Program Bool := fsCall (.fsync fd)
def close (fd : Nat) : Program Bool := fsCall (.close fd)
def stat (path : Bytes) : Program (Option Stat) := fsCall (.stat path)
def fileExists (path : Bytes) : Program (Option Bool) := fsCall (.fileExists path)
def link (old new : Bytes) : Program LinkResult := fsCall (.link old new)
def unlink (path : Bytes) : Program Bool := fsCall (.unlink path)
def rename (old new : Bytes) : Program Bool := fsCall (.rename old new)
def syncDir (dir : Bytes) : Program Bool := fsCall (.syncDir dir)

variable {A : Assumption} {C : World → Prop} {w : World}

/-- Calls that never change a file. -/
def FsCall.Quiet : FsCall → Prop
  | .mkdirs _ | .openRead _ | .pread .. | .fsync _ | .close _ | .stat _ | .fileExists _
  | .syncDir _ => True
  | _ => False

theorem fsAnswer_quiet {c : FsCall} (hq : FsCall.Quiet c) {fs fs' : FileSystem}
    {dirs : List Key} {now : Int} {ch : Choice} {r : c.Resp}
    (h : fsAnswer fs dirs now ch c = (r, fs')) : fs' = fs := by
  cases c <;> first | exact hq.elim | exact (congrArg Prod.snd h).symm

theorem wp_quiet {c : FsCall} (hq : FsCall.Quiet c) {Q : c.Resp → World → Prop} (hC : C w)
    (hQ : ∀ r w', A w (.fs c) r → Did w (.fs c) r w' → w'.fs = w.fs → Q r w') :
    wp (System A) (fsCall c) Q C w :=
  wp_fsCall hC fun r w' _ _ hA hD _ _ h => hQ r w' hA hD (fsAnswer_quiet hq h)

theorem wp_mkdirs {dir : Bytes} {Q : Bool → World → Prop} (hC : C w)
    (hQ : ∀ r w', A w (.fs (.mkdirs dir)) r → Did w (.fs (.mkdirs dir)) r w' → w'.fs = w.fs →
      Q r w') : wp (System A) (mkdirs dir) Q C w :=
  @wp_quiet A C w (.mkdirs dir) trivial Q hC hQ

theorem wp_fsync {fd : Nat} {Q : Bool → World → Prop} (hC : C w)
    (hQ : ∀ r w', A w (.fs (.fsync fd)) r → Did w (.fs (.fsync fd)) r w' → w'.fs = w.fs →
      Q r w') : wp (System A) (fsync fd) Q C w :=
  @wp_quiet A C w (.fsync fd) trivial Q hC hQ

theorem wp_close {fd : Nat} {Q : Bool → World → Prop} (hC : C w)
    (hQ : ∀ r w', A w (.fs (.close fd)) r → Did w (.fs (.close fd)) r w' → w'.fs = w.fs →
      Q r w') : wp (System A) (close fd) Q C w :=
  @wp_quiet A C w (.close fd) trivial Q hC hQ

theorem wp_syncDir {dir : Bytes} {Q : Bool → World → Prop} (hC : C w)
    (hQ : ∀ r w', A w (.fs (.syncDir dir)) r → Did w (.fs (.syncDir dir)) r w' → w'.fs = w.fs →
      Q r w') : wp (System A) (syncDir dir) Q C w :=
  @wp_quiet A C w (.syncDir dir) trivial Q hC hQ

theorem wp_mkstemp {t : Bytes} {Q : Option (Bytes × Nat) → World → Prop} (hC : C w)
    (hnone : ∀ w', A w (.fs (.mkstemp t)) none → Did w (.fs (.mkstemp t)) none w' →
      w'.fs = w.fs → Q none w')
    (hsome : ∀ x w', A w (.fs (.mkstemp t)) (some (fillTemplate (cString t) x, w.fs.next)) →
      Did w (.fs (.mkstemp t)) (some (fillTemplate (cString t) x, w.fs.next)) w' → TempSuffix x →
      sixX <:+ cString t → w.fs.entry (place (fillTemplate (cString t) x)) = none →
      w'.fs = w.fs.create (place (fillTemplate (cString t) x)) w'.clock →
      Q (some (fillTemplate (cString t) x, w.fs.next)) w') :
    wp (System A) (mkstemp t) Q C w := by
  refine wp_fsCall hC fun r w' now ch hA hD _ hnow h => ?_
  simp only [fsAnswer] at h
  split at h
  · rename_i hc
    obtain ⟨rfl, hfs⟩ := Prod.mk.injEq .. ▸ h
    exact hsome ch.name w' hA hD hc.2.1 hc.2.2.1 hc.2.2.2.1 (by rw [← hfs, hnow])
  · obtain ⟨rfl, hfs⟩ := Prod.mk.injEq .. ▸ h
    exact hnone w' hA hD hfs.symm

theorem wp_openTrunc {p : Bytes} {Q : Option Nat → World → Prop} (hC : C w)
    (hnone : ∀ w', A w (.fs (.openTrunc p)) none → Did w (.fs (.openTrunc p)) none w' →
      w'.fs = w.fs → Q none w')
    (hold : ∀ i w', A w (.fs (.openTrunc p)) (some i) → Did w (.fs (.openTrunc p)) (some i) w' →
      w.fs.entry (place p) = some i → w'.fs = w.fs.setInode i ⟨[], w'.clock⟩ → Q (some i) w')
    (hnew : ∀ w', Did w (.fs (.openTrunc p)) (some w.fs.next) w' → w.fs.entry (place p) = none →
      w'.fs = w.fs.create (place p) w'.clock → Q (some w.fs.next) w') :
    wp (System A) (openTrunc p) Q C w := by
  refine wp_fsCall hC fun r w' now ch hA hD _ hnow h => ?_
  simp only [fsAnswer] at h
  split at h
  · split at h
    · rename_i i he
      obtain ⟨rfl, hfs⟩ := Prod.mk.injEq .. ▸ h
      exact hold i w' hA hD he (by rw [← hfs, hnow])
    · rename_i he
      obtain ⟨rfl, hfs⟩ := Prod.mk.injEq .. ▸ h
      exact hnew w' hD he (by rw [← hfs, hnow])
  · obtain ⟨rfl, hfs⟩ := Prod.mk.injEq .. ▸ h
    exact hnone w' hA hD hfs.symm

theorem wp_openRead {p : Bytes} {Q : Option Nat → World → Prop} (hC : C w)
    (hnone : ∀ w', A w (.fs (.openRead p)) none → Did w (.fs (.openRead p)) none w' →
      w'.fs = w.fs → Q none w')
    (hsome : ∀ i w', A w (.fs (.openRead p)) (some i) → Did w (.fs (.openRead p)) (some i) w' →
      w.fs.entry (place p) = some i → w'.fs = w.fs → Q (some i) w') :
    wp (System A) (openRead p) Q C w := by
  refine wp_fsCall hC fun r w' now ch hA hD _ _ h => ?_
  simp only [fsAnswer, Prod.mk.injEq] at h
  obtain ⟨hr, hfs⟩ := h
  cases r with
  | none => exact hnone w' hA hD hfs.symm
  | some i =>
    have he : w.fs.entry (place p) = some i := by
      by_cases hok : ch.ok = true
      · simpa [hok] using hr
      · simp [hok] at hr
    exact hsome i w' hA hD he hfs.symm

theorem wp_write {fd : Nat} {data : Bytes} {Q : Nat → World → Prop} (hC : C w)
    (hzero : ∀ w', A w (.fs (.write fd data)) 0 → Did w (.fs (.write fd data)) 0 w' →
      w'.fs = w.fs → Q 0 w')
    (hsome : ∀ n w', A w (.fs (.write fd data)) n → Did w (.fs (.write fd data)) n w' →
      n ≤ data.length →
      w'.fs = w.fs.setInode fd ⟨(w.fs.inode fd).bytes ++ data.take n, w'.clock⟩ → Q n w') :
    wp (System A) (write fd data) Q C w := by
  refine wp_fsCall hC fun r w' now ch hA hD _ hnow h => ?_
  simp only [fsAnswer] at h
  split at h
  · obtain ⟨rfl, hfs⟩ := Prod.mk.injEq .. ▸ h
    refine hsome _ w' hA hD (by simp) ?_
    rw [← hfs, hnow]
    congr 3
    simp
  · obtain ⟨rfl, hfs⟩ := Prod.mk.injEq .. ▸ h
    exact hzero w' hA hD hfs.symm

theorem wp_pread {fd offset length : Nat} {Q : Bytes → World → Prop} (hC : C w)
    (hread : ∀ m w', A w (.fs (.pread fd offset length))
        (((w.fs.inode fd).bytes.drop offset).take m) →
      Did w (.fs (.pread fd offset length)) (((w.fs.inode fd).bytes.drop offset).take m) w' →
      m ≤ length → w'.fs = w.fs → Q (((w.fs.inode fd).bytes.drop offset).take m) w') :
    wp (System A) (pread fd offset length) Q C w := by
  refine wp_fsCall hC fun r w' now ch hA hD _ _ h => ?_
  simp only [fsAnswer, Prod.mk.injEq] at h
  obtain ⟨hr, hfs⟩ := h
  by_cases hok : ch.ok = true
  · simp only [hok, ite_true] at hr
    subst hr
    exact hread _ w' hA hD (by omega) hfs.symm
  · simp only [hok] at hr
    subst hr
    exact hread 0 w' (by simpa using hA) (by simpa using hD) (by omega) hfs.symm

theorem wp_stat {p : Bytes} {Q : Option Stat → World → Prop} (hC : C w)
    (hnone : ∀ w', A w (.fs (.stat p)) none → Did w (.fs (.stat p)) none w' →
      w'.fs = w.fs → Q none w')
    (hsome : ∀ file atime w', A w (.fs (.stat p))
        (some ⟨file.bytes.length, file.mtime / second, atime⟩) →
      Did w (.fs (.stat p)) (some ⟨file.bytes.length, file.mtime / second, atime⟩) w' →
      w.fs.get (place p) = some file → w'.fs = w.fs →
      Q (some ⟨file.bytes.length, file.mtime / second, atime⟩) w') :
    wp (System A) (stat p) Q C w := by
  refine wp_fsCall hC fun r w' now ch hA hD _ _ h => ?_
  simp only [fsAnswer, Prod.mk.injEq] at h
  obtain ⟨hr, hfs⟩ := h
  cases hg : w.fs.get (place p) with
  | none =>
    have : r = none := by rw [← hr, hg]; simp
    subst this
    exact hnone w' hA hD hfs.symm
  | some file =>
    by_cases hok : ch.ok = true
    · simp only [hok, ite_true, hg, Option.map_some] at hr
      subst hr
      exact hsome file ch.atime w' hA hD hg hfs.symm
    · simp only [hok] at hr
      subst hr
      exact hnone w' hA hD hfs.symm

theorem wp_fileExists {p : Bytes} {Q : Option Bool → World → Prop} (hC : C w)
    (hnone : ∀ w', A w (.fs (.fileExists p)) none → Did w (.fs (.fileExists p)) none w' →
      w'.fs = w.fs → Q none w')
    (hsome : ∀ w', A w (.fs (.fileExists p)) (some (w.fs.get (place p)).isSome) →
      Did w (.fs (.fileExists p)) (some (w.fs.get (place p)).isSome) w' → w'.fs = w.fs →
      Q (some (w.fs.get (place p)).isSome) w') :
    wp (System A) (fileExists p) Q C w := by
  refine wp_fsCall hC fun r w' now ch hA hD _ _ h => ?_
  simp only [fsAnswer, Prod.mk.injEq] at h
  obtain ⟨hr, hfs⟩ := h
  by_cases hok : ch.ok = true
  · simp only [hok, ite_true] at hr
    subst hr
    exact hsome w' hA hD hfs.symm
  · simp only [hok] at hr
    subst hr
    exact hnone w' hA hD hfs.symm

theorem wp_link {a b : Bytes} {Q : LinkResult → World → Prop} (hC : C w)
    (hfail : ∀ w', A w (.fs (.link a b)) .failed → Did w (.fs (.link a b)) .failed w' →
      w'.fs = w.fs → Q .failed w')
    (hexists : ∀ w', A w (.fs (.link a b)) .exists → Did w (.fs (.link a b)) .exists w' →
      w.fs.entry (place b) ≠ none ∨ IsDir w.dirs (place b) → w'.fs = w.fs → Q .exists w')
    (hok : ∀ w', A w (.fs (.link a b)) .ok → Did w (.fs (.link a b)) .ok w' →
      w.fs.entry (place a) ≠ none → w.fs.entry (place b) = none → ¬IsDir w.dirs (place b) →
      w'.fs = w.fs.addLink (place a) (place b) → Q .ok w') :
    wp (System A) (link a b) Q C w := by
  refine wp_fsCall hC fun r w' now ch hA hD _ _ h => ?_
  simp only [fsAnswer] at h
  split at h
  · rename_i hc
    split at h
    · rename_i hb
      obtain ⟨rfl, hfs⟩ := Prod.mk.injEq .. ▸ h
      exact hexists w' hA hD (hb.imp_left Option.isSome_iff_ne_none.mp) hfs.symm
    · rename_i hb
      rw [not_or, Bool.not_eq_true, Option.isSome_eq_false_iff, Option.isNone_iff_eq_none] at hb
      obtain ⟨rfl, hfs⟩ := Prod.mk.injEq .. ▸ h
      exact hok w' hA hD (Option.isSome_iff_ne_none.mp hc.2) hb.1 hb.2 hfs.symm
  · obtain ⟨rfl, hfs⟩ := Prod.mk.injEq .. ▸ h
    exact hfail w' hA hD hfs.symm

theorem wp_unlink {p : Bytes} {Q : Bool → World → Prop} (hC : C w)
    (hfail : ∀ w', A w (.fs (.unlink p)) false → Did w (.fs (.unlink p)) false w' →
      w'.fs = w.fs → Q false w')
    (hok : ∀ w', A w (.fs (.unlink p)) true → Did w (.fs (.unlink p)) true w' →
      w.fs.entry (place p) ≠ none → w'.fs = w.fs.dropEntry (place p) → Q true w') :
    wp (System A) (unlink p) Q C w := by
  refine wp_fsCall hC fun r w' now ch hA hD _ _ h => ?_
  simp only [fsAnswer] at h
  split at h
  · rename_i hc
    obtain ⟨rfl, hfs⟩ := Prod.mk.injEq .. ▸ h
    exact hok w' hA hD (Option.isSome_iff_ne_none.mp hc.2) hfs.symm
  · obtain ⟨rfl, hfs⟩ := Prod.mk.injEq .. ▸ h
    exact hfail w' hA hD hfs.symm

theorem wp_rename {a b : Bytes} {Q : Bool → World → Prop} (hC : C w)
    (hfail : ∀ w', A w (.fs (.rename a b)) false → Did w (.fs (.rename a b)) false w' →
      w'.fs = w.fs → Q false w')
    (hok : ∀ w', A w (.fs (.rename a b)) true → Did w (.fs (.rename a b)) true w' →
      w.fs.entry (place a) ≠ none → w'.fs = w.fs.move (place a) (place b) → Q true w') :
    wp (System A) (rename a b) Q C w := by
  refine wp_fsCall hC fun r w' now ch hA hD _ _ h => ?_
  simp only [fsAnswer] at h
  split at h
  · rename_i hc
    obtain ⟨rfl, hfs⟩ := Prod.mk.injEq .. ▸ h
    exact hok w' hA hD (Option.isSome_iff_ne_none.mp hc.2.1) hfs.symm
  · obtain ⟨rfl, hfs⟩ := Prod.mk.injEq .. ▸ h
    exact hfail w' hA hD hfs.symm

/-! ### Calls on the memory of the process -/

def loadTable : Program Table := perform .loadTable
def iteration : Program (List Nat) := perform .iteration
def swapTable (next : Table) : Program Unit := perform (.swapTable next)
def codec : Program Outcome := perform .codec
def copyOut : Program Bool := perform .copyOut
def addFile (fd offset length : Nat) : Program (Option Bytes) := perform (.addFile fd offset length)

theorem wp_loadTable {Q : Table → World → Prop} (hC : C w)
    (hQ : ∀ w', Did w .loadTable w.table w' → w'.fs = w.fs → Q w.table w') :
    wp (System A) loadTable Q C w := by
  refine wp_perform hC fun r w' ch _ h => ?_
  obtain ⟨rfl, rfl⟩ := Prod.mk.injEq .. ▸ h
  exact hQ _ ⟨rfl, rfl, rfl, rfl, rfl, Int.le_max_left ..⟩ rfl

theorem wp_iteration {Q : List Nat → World → Prop} (hC : C w)
    (hQ : ∀ order w', Did w .iteration order w' → w'.fs = w.fs → Q order w') :
    wp (System A) iteration Q C w := by
  refine wp_perform hC fun r w' ch _ h => ?_
  obtain ⟨rfl, rfl⟩ := Prod.mk.injEq .. ▸ h
  exact hQ _ _ ⟨rfl, rfl, rfl, rfl, rfl, Int.le_max_left ..⟩ rfl

theorem wp_swapTable {next : Table} {Q : Unit → World → Prop} (hC : C w)
    (hQ : ∀ w', w'.fs = w.fs → w'.table = next → w'.sessions = w.sessions →
      w'.attempts = w.attempts → w'.templates = w.templates → w.trace <+: w'.trace →
      w.clock ≤ w'.clock → Q () w') :
    wp (System A) (swapTable next) Q C w := by
  refine wp_perform hC fun r w' ch _ h => ?_
  obtain ⟨rfl, rfl⟩ := Prod.mk.injEq .. ▸ h
  exact hQ _ rfl rfl rfl rfl rfl (List.prefix_append ..) (Int.le_max_left ..)

theorem wp_codec {Q : Outcome → World → Prop} (hC : C w)
    (hQ : ∀ r w', A w .codec r → Did w .codec r w' → w'.fs = w.fs → Q r w') :
    wp (System A) codec Q C w := by
  refine wp_perform hC fun r w' ch hA h => ?_
  obtain ⟨rfl, rfl⟩ := Prod.mk.injEq .. ▸ h
  exact hQ _ _ hA ⟨rfl, rfl, rfl, rfl, rfl, Int.le_max_left ..⟩ rfl

theorem wp_copyOut {Q : Bool → World → Prop} (hC : C w)
    (hQ : ∀ r w', A w .copyOut r → Did w .copyOut r w' → w'.fs = w.fs → Q r w') :
    wp (System A) copyOut Q C w := by
  refine wp_perform hC fun r w' ch hA h => ?_
  obtain ⟨rfl, rfl⟩ := Prod.mk.injEq .. ▸ h
  exact hQ _ _ hA ⟨rfl, rfl, rfl, rfl, rfl, Int.le_max_left ..⟩ rfl

theorem wp_addFile {fd offset length : Nat} {Q : Option Bytes → World → Prop} (hC : C w)
    (hnone : ∀ w', Did w (.addFile fd offset length) none w' → w'.fs = w.fs → Q none w')
    (hsome : ∀ w', Did w (.addFile fd offset length)
        (some (((w.fs.inode fd).bytes.drop offset).take length)) w' → w'.fs = w.fs →
      Q (some (((w.fs.inode fd).bytes.drop offset).take length)) w') :
    wp (System A) (addFile fd offset length) Q C w := by
  refine wp_perform hC fun r w' ch _ h => ?_
  obtain ⟨hr, rfl⟩ := Prod.mk.injEq .. ▸ h
  by_cases hok : ch.ok = true
  · have : r = some (((w.fs.inode fd).bytes.drop offset).take length) := by
      rw [← hr]
      simp [effect, hok]
    subst this
    exact hsome _ ⟨rfl, rfl, rfl, rfl, by simp [← hr], Int.le_max_left ..⟩ rfl
  · have : r = none := by
      rw [← hr]
      simp [effect, hok]
    subst this
    exact hnone _ ⟨rfl, rfl, rfl, rfl, by simp [← hr], Int.le_max_left ..⟩ rfl

end CloudStorage
