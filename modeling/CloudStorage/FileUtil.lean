import CloudStorage.Calls

/-!
# File operations (`FileUtil`, `Util.hpp`)

Each operation is the sequence of calls of the source, with its error paths. The
specifications say which files an operation may leave behind: `Touches P` bounds
what has changed at any point inside it by new files with a path in `P`, and
`Leaves P` what has changed when it is over by those whose removal failed.
-/

namespace CloudStorage
open Posix Interact

def joinPath (directory name : Bytes) : Bytes := join directory name

/-- `FileUtil::ParentPath`. -/
def parentPath (path : Bytes) : Bytes :=
  if parentString path = [] then dot else parentString path

def fileName (path : Bytes) : Bytes := filename (parse path)

def fileSize (path : Bytes) : Program Int := do
  match ← stat path with
  | none => return -1
  | some status => return status.size

def lastAccessTime (path : Bytes) : Program Int := do
  match ← stat path with
  | none => return -1
  | some status => return status.atime

def lastModifyTime (path : Bytes) : Program Int := do
  match ← stat path with
  | none => return -1
  | some status => return status.mtime

def createDirectory (path : Bytes) : Program Bool := mkdirs path

def syncDirectory (directory : Bytes) : Program Bool := syncDir directory

/-- The write loop of `SetContent`; every round but the last writes something, so
the length of the content bounds the rounds. -/
def writeAll (fd : Nat) : Nat → Bytes → Program Bool
  | _, [] => return true
  | 0, _ => return false
  | rounds + 1, rest => do
    let count ← write fd rest
    if count = 0 then return false
    else writeAll fd rounds (rest.drop count)

def setContent (path content : Bytes) : Program Bool := do
  match ← openTrunc path with
  | none => return false
  | some fd =>
    if ← writeAll fd content.length content then
      let synced ← fsync fd
      let closed ← close fd
      return synced && closed
    else
      let _ ← close fd
      return false

/-- The read loop of `GetPosLen`. -/
def readAll (fd position length : Nat) : Nat → Bytes → Program (Option Bytes)
  | 0, acc => return if acc.length < length then none else some acc
  | rounds + 1, acc => do
    if acc.length < length then
      let chunk ← pread fd (position + acc.length) (length - acc.length)
      if chunk = [] then return none
      else readAll fd position length rounds (acc ++ chunk)
    else return some acc

/-- `std::numeric_limits<off_t>::max()`. -/
def offMax : Nat := 2 ^ 63 - 1

def getPosLen (path : Bytes) (position length : Nat) : Program (Option Bytes) := do
  let size ← fileSize path
  if size < 0 ∨ size < position ∨ size - position < length ∨ offMax < position then return none
  else
    match ← openRead path with
    | none => return none
    | some fd =>
      match ← readAll fd position length length [] with
      | none =>
        let _ ← close fd
        return none
      | some content =>
        if ← close fd then return some content else return none

def getContent (path : Bytes) : Program (Option Bytes) := do
  let size ← fileSize path
  if size < 0 ∨ 2 ^ 64 - 1 < size then return none
  else getPosLen path 0 size.toNat

def createTempFile (directory pre : Bytes) : Program (Option Bytes) := do
  if sep ∈ pre then return none
  else if ← createDirectory directory then
    match ← mkstemp (joinPath directory (pre ++ sixX)) with
    | none => return none
    | some (path, fd) =>
      if ← close fd then return some path
      else
        let _ ← unlink path
        return none
  else return none

/-- Result of `CommitNoReplace` with its `errno` as far as it is looked at. -/
inductive CommitResult
  | ok
  | exists
  | failed
  deriving DecidableEq, Repr

def commitNoReplace (temporary final : Bytes) : Program CommitResult := do
  match ← link temporary final with
  | .exists => return .exists
  | .failed => return .failed
  | .ok =>
    if ← unlink temporary then
      let _ ← syncDirectory (parentPath final)
      return .ok
    else
      let _ ← unlink final
      return .failed

/-! ### Calls of a transfer -/

/-- Calls on files; the only other call on the file system makes directories. -/
def Call.OnFiles : Call → Prop
  | .fs (.mkdirs _) => False
  | .fs _ => True
  | _ => False

abbrev OnlyOnFiles {α : Type} (p : Program α) : Prop := Prog.Only Call.OnFiles p

theorem onFiles_fileSize (path : Bytes) : OnlyOnFiles (fileSize path) := by
  refine only_bind (only_perform trivial) fun status => ?_
  cases status with
  | none => exact only_pure _
  | some status => exact only_pure _

theorem onFiles_lastModifyTime (path : Bytes) : OnlyOnFiles (lastModifyTime path) := by
  refine only_bind (only_perform trivial) fun status => ?_
  cases status with
  | none => exact only_pure _
  | some status => exact only_pure _

theorem onFiles_lastAccessTime (path : Bytes) : OnlyOnFiles (lastAccessTime path) := by
  refine only_bind (only_perform trivial) fun status => ?_
  cases status with
  | none => exact only_pure _
  | some status => exact only_pure _

theorem onFiles_writeAll (fd rounds : Nat) (rest : Bytes) : OnlyOnFiles (writeAll fd rounds rest) := by
  induction rounds generalizing rest with
  | zero =>
    cases rest with
    | nil => exact only_pure _
    | cons b rest => exact only_pure _
  | succ rounds ih =>
    cases rest with
    | nil => exact only_pure _
    | cons b rest =>
      refine only_bind (only_perform trivial) fun (count : Nat) => ?_
      split
      · exact only_pure _
      · exact ih _

theorem onFiles_setContent (path content : Bytes) : OnlyOnFiles (setContent path content) := by
  refine only_bind (only_perform trivial) fun (opened : Option Nat) => ?_
  cases opened with
  | none => exact only_pure _
  | some fd =>
    refine only_bind (onFiles_writeAll fd _ content) fun written => ?_
    split
    · refine only_bind (only_perform trivial) fun _ => ?_
      exact only_bind (only_perform trivial) fun _ => only_pure _
    · exact only_bind (only_perform trivial) fun _ => only_pure _

theorem onFiles_readAll (fd position length rounds : Nat) (acc : Bytes) :
    OnlyOnFiles (readAll fd position length rounds acc) := by
  induction rounds generalizing acc with
  | zero => exact only_pure _
  | succ rounds ih =>
    unfold readAll
    split
    · refine only_bind (only_perform trivial) fun (chunk : Bytes) => ?_
      split
      · exact only_pure _
      · exact ih _
    · exact only_pure _

theorem onFiles_getPosLen (path : Bytes) (position length : Nat) :
    OnlyOnFiles (getPosLen path position length) := by
  refine only_bind (onFiles_fileSize path) fun size => ?_
  split
  · exact only_pure _
  · refine only_bind (only_perform trivial) fun (opened : Option Nat) => ?_
    cases opened with
    | none => exact only_pure _
    | some fd =>
      refine only_bind (onFiles_readAll fd _ _ _ _) fun content => ?_
      cases content with
      | none => exact only_bind (only_perform trivial) fun _ => only_pure _
      | some content =>
        refine only_bind (only_perform trivial) fun closed => ?_
        split
        · exact only_pure _
        · exact only_pure _

theorem onFiles_getContent (path : Bytes) : OnlyOnFiles (getContent path) := by
  refine only_bind (onFiles_fileSize path) fun size => ?_
  split
  · exact only_pure _
  · exact onFiles_getPosLen path 0 _

/-- Calls after which the directories are as before. -/
def Call.KeepsDirs : Call → Prop
  | .fs (.mkdirs _) => False
  | _ => True

theorem keepsDirs_of_files {α : Type} {p : Program α} (hp : OnlyOnFiles p) :
    Prog.Only Call.KeepsDirs p := by
  refine only_mono hp fun c hc => ?_
  cases c with
  | fs c => cases c <;> first | exact hc.elim | trivial
  | _ => exact hc.elim

theorem wp_keepsDirs {A : Assumption} {w : World} {α : Type} {p : Program α}
    (hp : Prog.Only Call.KeepsDirs p) :
    wp (System A) p (fun _ w' => w'.dirs = w.dirs) (fun w' => w'.dirs = w.dirs) w := by
  refine wp_only hp (fun c w₁ r w₂ hc h ha => ?_) rfl
  obtain ⟨-, ch, hanswer⟩ := ha
  obtain ⟨rfl, rfl⟩ := Prod.mk.injEq .. ▸ hanswer
  cases c with
  | fs c => cases c <;> first | exact hc.elim | exact h
  | _ => exact h

theorem onFiles_dirs {A : Assumption} {w w' : World} {α : Type} {p : Program α} {a : α}
    (hp : OnlyOnFiles p) (h : Runs (System A) p w a w') : w'.dirs = w.dirs := by
  have hend := wp_runs (wp_keepsDirs (keepsDirs_of_files hp)) h
  exact hend

/-! ### What an operation may leave behind -/

/-- The removal of `p` was tried and failed. -/
def RemovalFailed (p : Bytes) (w : World) : Prop := ⟨.fs (.unlink p), false⟩ ∈ w.trace

/-- Only files that are new and whose paths satisfy `P` differ. -/
def Touches (P : Bytes → Prop) (w w' : World) : Prop :=
  ∃ S, Frame S w w' ∧ ∀ k ∈ S, ∃ p, P p ∧ place p = k ∧ w.fs.get k = none

/-- The same, and each such file is there because its removal failed. -/
def Leaves (P : Bytes → Prop) (w w' : World) : Prop :=
  Touches (fun p => P p ∧ RemovalFailed p w') w w'

theorem RemovalFailed.mono {p : Bytes} {w w' : World} (h : RemovalFailed p w)
    (ht : w.trace <+: w'.trace) : RemovalFailed p w' :=
  ht.subset h

theorem Touches.mono {P P' : Bytes → Prop} {w w' : World} (h : Touches P w w')
    (hP : ∀ p, P p → P' p) : Touches P' w w' := by
  obtain ⟨S, hf, hS⟩ := h
  refine ⟨S, hf, fun k hk => ?_⟩
  obtain ⟨p, hp, hkey, hnew⟩ := hS k hk
  exact ⟨p, hP p hp, hkey, hnew⟩

theorem Touches.of_frame {P : Bytes → Prop} {w w' : World} (h : Frame ∅ w w') : Touches P w w' :=
  ⟨∅, h, fun _ hk => hk.elim⟩

theorem Touches.refl (P : Bytes → Prop) (w : World) : Touches P w w :=
  .of_frame (Frame.refl _ w)

theorem Touches.single {P : Bytes → Prop} {w w' : World} {p : Bytes} (h : Frame {place p} w w')
    (hp : P p) (hnew : w.fs.get (place p) = none) : Touches P w w' :=
  ⟨{place p}, h, fun _ hk => ⟨p, hp, hk.symm, hk ▸ hnew⟩⟩

theorem Touches.trans {P : Bytes → Prop} {a b c : World} (h : Touches P a b)
    (h' : Touches P b c) : Touches P a c := by
  obtain ⟨S, hf, hS⟩ := h
  obtain ⟨T, hf', hT⟩ := h'
  refine ⟨S ∪ T, (hf.mono Set.subset_union_left).trans (hf'.mono Set.subset_union_right), ?_⟩
  intro k hk
  by_cases hkS : k ∈ S
  · exact hS k hkS
  · obtain ⟨p, hp, hkey, hnew⟩ := hT k (hk.resolve_left hkS)
    exact ⟨p, hp, hkey, by rw [← hf.files k hkS]; exact hnew⟩

theorem Leaves.trans {P : Bytes → Prop} {a b c : World} (h : Leaves P a b) (h' : Leaves P b c)
    (ht : b.trace <+: c.trace) : Leaves P a c :=
  (h.mono fun _ hp => ⟨hp.1, hp.2.mono ht⟩).trans h'

theorem Touches.old {P : Bytes → Prop} {w w' : World} (h : Touches P w w') {k : Key}
    (hk : w.fs.get k ≠ none) : w'.fs.get k = w.fs.get k := by
  obtain ⟨S, hf, hS⟩ := h
  refine hf.files k fun hkS => ?_
  obtain ⟨_, _, _, hnew⟩ := hS k hkS
  exact hk hnew

/-- A file that differs has a path in `P` and is new. -/
theorem Touches.changed {P : Bytes → Prop} {w w' : World} (h : Touches P w w') {k : Key}
    (hk : w'.fs.get k ≠ w.fs.get k) : ∃ p, P p ∧ place p = k ∧ w.fs.get k = none := by
  obtain ⟨S, hf, hS⟩ := h
  exact hS k (by_contra fun hkS => hk (hf.files k hkS))

theorem Touches.frame {P : Bytes → Prop} {w w' : World} (h : Touches P w w') :
    Frame Set.univ w w' := by
  obtain ⟨S, hf, _⟩ := h
  exact hf.mono (Set.subset_univ S)

end CloudStorage
