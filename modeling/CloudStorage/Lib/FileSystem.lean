import CloudStorage.Lib.LexPath
import Mathlib.Logic.Function.Basic

/-!
# A POSIX file system

Directory entries name inodes, so that a hard link is a second name of one
inode; entries are addressed by the key of their path (no symbolic links, one
working directory), and a path ends at its first NUL byte, as a C string does.
Directories hold no bytes and are a list of keys beside the files: no file is made,
written or put under the name of one, and none is made where a file is. The calls
that look for a file (`stat`, the existence check, opening for reading, the name
`link`, `rename` and `unlink` start from) know regular files only.
A call takes what the environment decides about it: whether it fails, the name
`mkstemp` makes, by how much a read or write falls short, the access time.
A failing call changes nothing but for the directories that
`create_directories` made before its error; a call interrupted by a signal is
repeated by its caller and counts once.
-/

namespace Posix

structure Inode where
  bytes : Bytes
  mtime : Int
  deriving DecidableEq, Repr

/-- Entries, inodes, and a bound on the inodes in use. -/
structure FileSystem where
  entry : Key → Option Nat
  inode : Nat → Inode
  next : Nat
  allocated : ∀ k i, entry k = some i → i < next

namespace FileSystem

def empty : FileSystem := ⟨fun _ => none, fun _ => ⟨[], 0⟩, 0, by simp⟩

/-- The file an entry names. -/
def get (fs : FileSystem) (k : Key) : Option Inode := (fs.entry k).map fs.inode

/-- `k` is the only name of inode `i`. -/
structure Owns (fs : FileSystem) (k : Key) (i : Nat) : Prop where
  named : fs.entry k = some i
  only : ∀ l, fs.entry l = some i → l = k

/-! ### Updates -/

/-- A new empty file. -/
def create (fs : FileSystem) (k : Key) (now : Int) : FileSystem where
  entry := Function.update fs.entry k (some fs.next)
  inode := Function.update fs.inode fs.next ⟨[], now⟩
  next := fs.next + 1
  allocated := by
    intro l i h
    by_cases hl : l = k
    · subst hl
      simp only [Function.update_self, Option.some.injEq] at h
      omega
    · rw [Function.update_of_ne hl] at h
      exact Nat.lt_succ_of_lt (fs.allocated l i h)

def setInode (fs : FileSystem) (i : Nat) (node : Inode) : FileSystem :=
  { fs with inode := Function.update fs.inode i node }

def addLink (fs : FileSystem) (a b : Key) : FileSystem where
  entry := Function.update fs.entry b (fs.entry a)
  inode := fs.inode
  next := fs.next
  allocated := by
    intro l i h
    by_cases hl : l = b
    · subst hl
      rw [Function.update_self] at h
      exact fs.allocated a i h
    · rw [Function.update_of_ne hl] at h
      exact fs.allocated l i h

def dropEntry (fs : FileSystem) (k : Key) : FileSystem where
  entry := Function.update fs.entry k none
  inode := fs.inode
  next := fs.next
  allocated := by
    intro l i h
    by_cases hl : l = k
    · subst hl
      simp at h
    · rw [Function.update_of_ne hl] at h
      exact fs.allocated l i h

/-- `rename`: two names of one inode are left as they are. -/
def move (fs : FileSystem) (a b : Key) : FileSystem :=
  if fs.entry a = fs.entry b then fs else (fs.addLink a b).dropEntry a

variable {fs : FileSystem} {k l : Key} {i : Nat}

theorem get_eq_none : fs.get k = none ↔ fs.entry k = none := by simp [get]

theorem Owns.get (h : fs.Owns k i) : fs.get k = some (fs.inode i) := by
  simp [FileSystem.get, h.named]

theorem get_create (now : Int) :
    (fs.create k now).get l = if l = k then some ⟨[], now⟩ else fs.get l := by
  by_cases hl : l = k
  · simp [get, create, hl]
  · simp only [get, create, hl, ite_false, Function.update_of_ne hl]
    cases he : fs.entry l with
    | none => rfl
    | some j =>
      have hj := fs.allocated l j he
      have hne : j ≠ fs.next := by omega
      simp [hne]

theorem owns_create (now : Int) : (fs.create k now).Owns k fs.next := by
  constructor
  · simp [create]
  · intro l hl
    by_contra hne
    have hold : fs.entry l = some fs.next := by
      rw [← hl]
      exact (Function.update_of_ne hne ..).symm
    exact absurd (fs.allocated l _ hold) (by omega)

theorem inode_create (fs : FileSystem) (k : Key) (now : Int) :
    (fs.create k now).inode fs.next = ⟨[], now⟩ :=
  Function.update_self ..

theorem inode_setInode (fs : FileSystem) (i : Nat) (node : Inode) :
    (fs.setInode i node).inode i = node :=
  Function.update_self ..

theorem get_setInode (h : fs.Owns k i) (node : Inode) :
    (fs.setInode i node).get l = if l = k then some node else fs.get l := by
  by_cases hl : l = k
  · simp [get, setInode, hl, h.named]
  · simp only [get, setInode, hl, ite_false]
    cases he : fs.entry l with
    | none => rfl
    | some j =>
      have hne : j ≠ i := fun hj => hl (h.only l (hj ▸ he))
      simp [hne]

theorem Owns.setInode (h : fs.Owns k i) (node : Inode) : (fs.setInode i node).Owns k i :=
  ⟨h.named, h.only⟩

theorem get_addLink (a b : Key) :
    (fs.addLink a b).get l = if l = b then fs.get a else fs.get l := by
  by_cases hl : l = b <;> simp [get, addLink, hl]

theorem get_dropEntry : (fs.dropEntry k).get l = if l = k then none else fs.get l := by
  by_cases hl : l = k <;> simp [get, dropEntry, hl]

/-- A rename between names of different inodes. -/
theorem get_move {a b : Key} (h : fs.entry a ≠ fs.entry b) :
    (fs.move a b).get l = if l = a then none else if l = b then fs.get a else fs.get l := by
  simp only [move, h, ite_false, get_dropEntry, get_addLink]

end FileSystem

/-! ### Calls -/

/-- A string up to its first NUL byte. -/
def cString (s : Bytes) : Bytes := s.takeWhile fun b => decide (b ≠ 0)

/-- The entry a call on a path is about. -/
def place (path : Bytes) : Key := key (cString path)

theorem cString_eq {s : Bytes} (h : (0 : Byte) ∉ s) : cString s = s := by
  rw [cString, List.takeWhile_eq_self_iff]
  intro b hb
  exact decide_eq_true fun h0 => h (h0 ▸ hb)

theorem place_eq {s : Bytes} (h : (0 : Byte) ∉ s) : place s = key s := by
  rw [place, cString_eq h]

inductive LinkResult
  | ok
  | exists
  | failed
  deriving DecidableEq, Repr

structure Stat where
  size : Int
  mtime : Int
  atime : Int
  deriving DecidableEq, Repr

inductive FsCall
  /-- existence check and `create_directories` -/
  | mkdirs (dir : Bytes)
  | mkstemp (template : Bytes)
  /-- `O_WRONLY | O_CREAT | O_TRUNC` -/
  | openTrunc (path : Bytes)
  | openRead (path : Bytes)
  | write (fd : Nat) (data : Bytes)
  | pread (fd offset length : Nat)
  | fsync (fd : Nat)
  | close (fd : Nat)
  | stat (path : Bytes)
  | fileExists (path : Bytes)
  | link (old new : Bytes)
  | unlink (path : Bytes)
  | rename (old new : Bytes)
  | syncDir (dir : Bytes)
  deriving DecidableEq, Repr

/-- Answers. A descriptor is the inode it is open on; `mkstemp` answers the path and
the descriptor; a write answers how much it wrote and a read what it read, nothing
standing for an error. -/
abbrev FsCall.Resp : FsCall → Type
  | .mkdirs _ | .fsync _ | .close _ | .unlink _ | .rename .. | .syncDir _ => Bool
  | .mkstemp _ => Option (Bytes × Nat)
  | .openTrunc _ | .openRead _ => Option Nat
  | .write .. => Nat
  | .pread .. => Bytes
  | .stat _ => Option Stat
  | .fileExists _ => Option Bool
  | .link .. => LinkResult

/-- What the environment decides about one call. -/
structure Choice where
  ok : Bool := true
  name : Bytes := []
  short : Nat := 0
  atime : Int := 0
  now : Int := 0
  order : List Nat := []
  deriving DecidableEq, Repr

/-- The characters of a name made by `mkstemp`. -/
def isAlnum (b : Byte) : Bool :=
  (48 ≤ b.toNat && b.toNat ≤ 57) || (65 ≤ b.toNat && b.toNat ≤ 90) ||
    (97 ≤ b.toNat && b.toNat ≤ 122)

def sixX : Bytes := [88, 88, 88, 88, 88, 88]

/-- Six characters of the portable kind. -/
def TempSuffix (x : Bytes) : Prop := x.length = 6 ∧ x.all isAlnum = true

instance (x : Bytes) : Decidable (TempSuffix x) := inferInstanceAs (Decidable (_ ∧ _))

/-- The template with its last six bytes replaced. -/
def fillTemplate (template x : Bytes) : Bytes := template.take (template.length - 6) ++ x

/-- One second of the clock, which counts nanoseconds. -/
def second : Int := 1000000000

/-- The directories on the way to a path, which is the last. -/
def wayTo (path : Bytes) : List Key :=
  (names path).inits.tail.map fun ns => resolve ⟨rooted path, ns, false⟩

/-- No file is in the way. -/
def FileSystem.passable (fs : FileSystem) (path : Bytes) : Bool :=
  (wayTo path).all fun k => (fs.entry k).isNone

/-- The root, the working directory and what is above it are always there. -/
def IsDir (dirs : List Key) (k : Key) : Prop :=
  (k.names.all fun n => decide (n = dotdot)) = true ∨ k ∈ dirs

instance (dirs : List Key) (k : Key) : Decidable (IsDir dirs k) :=
  inferInstanceAs (Decidable (_ ∨ _))

/-- The effect on the files and the answer of a call at clock reading `now`. -/
def fsAnswer (fs : FileSystem) (dirs : List Key) (now : Int) (ch : Choice) :
    (c : FsCall) → c.Resp × FileSystem
  | .mkdirs dir => (ch.ok && fs.passable (cString dir), fs)
  | .mkstemp template =>
    let path := fillTemplate (cString template) ch.name
    if ch.ok = true ∧ TempSuffix ch.name ∧ sixX <:+ cString template ∧
        fs.entry (place path) = none ∧ ¬IsDir dirs (place path) then
      (some (path, fs.next), fs.create (place path) now)
    else (none, fs)
  | .openTrunc path =>
    if ch.ok = true ∧ ¬IsDir dirs (place path) then
      match fs.entry (place path) with
      | some i => (some i, fs.setInode i ⟨[], now⟩)
      | none => (some fs.next, fs.create (place path) now)
    else (none, fs)
  | .openRead path => (if ch.ok then fs.entry (place path) else none, fs)
  | .write fd data =>
    if ch.ok then
      let written := data.take (data.length - ch.short)
      (written.length, fs.setInode fd ⟨(fs.inode fd).bytes ++ written, now⟩)
    else ((0 : Nat), fs)
  | .pread fd offset length =>
    (if ch.ok then ((fs.inode fd).bytes.drop offset).take (length - ch.short) else [], fs)
  | .fsync _ => (ch.ok, fs)
  | .close _ => (ch.ok, fs)
  | .stat path =>
    (if ch.ok then
      (fs.get (place path)).map fun file =>
        Stat.mk file.bytes.length (file.mtime / second) ch.atime
      else none, fs)
  | .fileExists path => (if ch.ok then some (fs.get (place path)).isSome else none, fs)
  | .link old new =>
    if ch.ok = true ∧ (fs.entry (place old)).isSome = true then
      if (fs.entry (place new)).isSome = true ∨ IsDir dirs (place new) then (LinkResult.exists, fs)
      else (LinkResult.ok, fs.addLink (place old) (place new))
    else (LinkResult.failed, fs)
  | .unlink path =>
    if ch.ok = true ∧ (fs.entry (place path)).isSome = true then (true, fs.dropEntry (place path))
    else (false, fs)
  | .rename old new =>
    if ch.ok = true ∧ (fs.entry (place old)).isSome = true ∧ ¬IsDir dirs (place new) then
      (true, fs.move (place old) (place new))
    else (false, fs)
  | .syncDir _ => (ch.ok, fs)

/-- The directories after a call. -/
def fsDirs (fs : FileSystem) (dirs : List Key) (ch : Choice) : FsCall → List Key
  | .mkdirs dir =>
    if fs.passable (cString dir) then
      -- an error on the way leaves the first directories made
      (if ch.ok then wayTo (cString dir) else (wayTo (cString dir)).take ch.short) ∪ dirs
    else dirs
  | _ => dirs

end Posix
