import CloudStorage.Lib.Bytes
import CloudStorage.Lib.Interact
import Mathlib.Algebra.Group.Nat.Defs
import Mathlib.Logic.Function.Basic

/-!
# `BackupFileWriter`

The rotating file of the backup server. Each library call is a call of the
program; an answer `none` or `false` stands for an error.
-/

namespace CloudStorage
open Posix Interact

namespace BackupFileWriter

/-- The constructor's arguments. -/
structure Writer where
  filename_ : Bytes
  max_size_ : Nat
  retained_files_ : Nat

inductive Call
  | «exists» (name : Bytes)
  | fileSize (name : Bytes)
  | remove (name : Bytes)
  | rename (old new : Bytes)
  /-- `fopen(name, "ab")` -/
  | openAppend (name : Bytes)
  | fwrite (data : Bytes)
  | fputc (b : Byte)
  | fflush
  | fsync
  | fclose

abbrev Call.Resp : Call → Type
  | .exists _ => Option Bool
  | .fileSize _ => Option Nat
  | .fwrite _ => Nat
  | _ => Bool

abbrev Program := Prog Call.Resp

def perform (c : Call) : Program c.Resp := Prog.perform c

/-! ### The writer -/

def numbered (writer : Writer) (index : Nat) : Bytes := writer.filename_ ++ 46 :: decimal index

/-- The loop over `index` down to 2: `filename.(index - 1)` becomes `filename.index`. -/
def shiftFiles (writer : Writer) : Nat → Program Bool
  | 0 => return true
  | 1 => return true
  | index + 2 => do
    match ← perform (.exists (numbered writer (index + 1))) with
    | none => return false
    | some false => shiftFiles writer (index + 1)
    | some true =>
      if ← perform (.rename (numbered writer (index + 1)) (numbered writer (index + 2))) then
        shiftFiles writer (index + 1)
      else return false

def rotate (writer : Writer) : Program Bool := do
  -- an error of this removal is cleared
  let _ ← perform (.remove (numbered writer writer.retained_files_))
  if ← shiftFiles writer writer.retained_files_ then
    match ← perform (.exists writer.filename_) with
    | none => return false
    | some false => return true
    | some true => perform (.rename writer.filename_ (numbered writer 1))
  else return false

def currentSize (writer : Writer) : Program (Option Nat) := do
  match ← perform (.exists writer.filename_) with
  | none => return none
  | some false => return some 0
  | some true => perform (.fileSize writer.filename_)

/-- The test of `RotateIfNeeded`, in `uintmax_t`. -/
def Writer.fits (writer : Writer) (current incoming : Nat) : Prop :=
  (current + incoming) % 2 ^ 64 ≤ writer.max_size_

instance (writer : Writer) (current incoming : Nat) : Decidable (writer.fits current incoming) :=
  inferInstanceAs (Decidable (_ ≤ _))

def rotateIfNeeded (writer : Writer) (incoming : Nat) : Program Bool := do
  match ← currentSize writer with
  | none => return false
  | some current =>
    if writer.fits current incoming then return true
    else if writer.retained_files_ = 0 then perform (.remove writer.filename_)
    else rotate writer

/-- The loop over `fwrite`; every round but the last writes something, so the length of
the message bounds the rounds. -/
def writeAll : Nat → Bytes → Program Bool
  | _, [] => return true
  | 0, _ => return false
  | rounds + 1, rest => do
    let count ← perform (.fwrite rest)
    if count = 0 then return false
    else writeAll rounds (rest.drop count)

def newline : Byte := 10

def endLine (message : Bytes) : Program Bool :=
  if message.getLast? = some newline then return true else perform (.fputc newline)

def write (writer : Writer) (message : Bytes) : Program Bool := do
  if ← rotateIfNeeded writer message.length then
    if ← perform (.openAppend writer.filename_) then
      if ← writeAll message.length message then
        let ok ← endLine message
        let flushed ← perform .fflush
        -- `fsync` is not reached after a failed `fflush`
        let synced ← if flushed then perform .fsync else pure false
        let closed ← perform .fclose
        return ok && synced && closed
      else
        let _ ← perform .fclose
        return false
    else return false
  else return false

/-! ### A disk without errors -/

abbrev Files := Bytes → Option Bytes

structure Disk where
  files : Files
  /-- the file that is open for appending -/
  stream : Bytes

def Disk.append (disk : Disk) (data : Bytes) : Disk :=
  { disk with
    files := Function.update disk.files disk.stream
      (some ((disk.files disk.stream).getD [] ++ data)) }

def Disk.drop (disk : Disk) (name : Bytes) : Disk :=
  { disk with files := Function.update disk.files name none }

def Disk.move (disk : Disk) (old new content : Bytes) : Disk :=
  { disk with
    files := Function.update (Function.update disk.files old none) new (some content) }

theorem Disk.drop_self (disk : Disk) (name : Bytes) : (disk.drop name).files name = none :=
  Function.update_self ..

theorem Disk.drop_other (disk : Disk) {name other : Bytes} (h : other ≠ name) :
    (disk.drop name).files other = disk.files other :=
  Function.update_of_ne h ..

theorem Disk.move_new (disk : Disk) (old new content : Bytes) :
    (disk.move old new content).files new = some content :=
  Function.update_self ..

theorem Disk.move_old (disk : Disk) {old new : Bytes} (content : Bytes) (h : old ≠ new) :
    (disk.move old new content).files old = none :=
  (Function.update_of_ne h ..).trans (Function.update_self ..)

theorem Disk.move_other (disk : Disk) {old new other : Bytes} (content : Bytes)
    (hold : other ≠ old) (hnew : other ≠ new) :
    (disk.move old new content).files other = disk.files other :=
  (Function.update_of_ne hnew ..).trans (Function.update_of_ne hold ..)

/-- Every call does its work; `fwrite` may be short. -/
def Sound : Env Call.Resp Disk
  | .exists name, disk, answer, disk' => answer = some (disk.files name).isSome ∧ disk' = disk
  | .fileSize name, disk, answer, disk' =>
    answer = (disk.files name).map List.length ∧ disk' = disk
  | .remove name, disk, answer, disk' =>
    answer = true ∧ disk' = disk.drop name
  | .rename old new, disk, answer, disk' =>
    match disk.files old with
    | none => answer = false ∧ disk' = disk
    | some content => answer = true ∧ disk' = disk.move old new content
  | .openAppend name, disk, answer, disk' =>
    answer = true ∧ disk' = Disk.append { disk with stream := name } []
  | .fwrite data, disk, answer, disk' =>
    0 < answer ∧ answer ≤ data.length ∧ disk' = disk.append (data.take answer)
  | .fputc b, disk, answer, disk' => answer = true ∧ disk' = disk.append [b]
  | .fflush, disk, answer, disk' => answer = true ∧ disk' = disk
  | .fsync, disk, answer, disk' => answer = true ∧ disk' = disk
  | .fclose, disk, answer, disk' => answer = true ∧ disk' = disk

/-! ### Names -/

section
variable (writer : Writer)

theorem numbered_inj {i j : Nat} (h : numbered writer i = numbered writer j) : i = j := by
  unfold numbered at h
  have htail := List.append_cancel_left h
  exact decimal_inj (List.cons.inj htail).2

theorem numbered_ne_filename (i : Nat) : numbered writer i ≠ writer.filename_ := by
  intro h
  have hlength := congrArg List.length h
  simp only [numbered, List.length_append, List.length_cons] at hlength
  omega

/-! ### Rotation -/

/-- The numbered files up to `index` have moved on by one, and everything else is as before. -/
structure Shifted (index : Nat) (files files' : Files) : Prop where
  first : files' (numbered writer 1) = none
  moved : ∀ i, 1 ≤ i → i < index → files' (numbered writer (i + 1)) = files (numbered writer i)
  other : ∀ name, (∀ i, 1 ≤ i → i ≤ index → name ≠ numbered writer i) → files' name = files name

/-- When a file is out of the way, the ones before it move on. -/
theorem wp_shiftFiles (index : Nat) (hpos : 1 ≤ index) (disk : Disk)
    (hfree : disk.files (numbered writer index) = none) :
    wp Sound (shiftFiles writer index)
      (fun answer disk' => answer = true ∧ Shifted writer index disk.files disk'.files)
      (fun _ => True) disk := by
  induction index using shiftFiles.induct generalizing disk with
  | case1 => omega
  | case2 => exact ⟨rfl, hfree, fun i h1 h2 => by omega, fun _ _ => rfl⟩
  | case3 index ih =>
    have hne : numbered writer (index + 1) ≠ numbered writer (index + 2) := by
      intro h
      have := numbered_inj writer h
      omega
    -- what is left to do starts with the place of `index + 1` empty
    have hrest : ∀ disk', disk'.files (numbered writer (index + 1)) = none →
        disk'.files (numbered writer (index + 2)) = disk.files (numbered writer (index + 1)) →
        (∀ name, name ≠ numbered writer (index + 1) → name ≠ numbered writer (index + 2) →
          disk'.files name = disk.files name) →
        wp Sound (shiftFiles writer (index + 1))
          (fun answer disk'' => answer = true ∧ Shifted writer (index + 2) disk.files disk''.files)
          (fun _ => True) disk' := by
      intro disk' hempty hmoved hsame
      refine wp_mono (ih (by omega) disk' hempty) ?_ fun _ h => h
      rintro answer disk'' ⟨hanswer, hshifted⟩
      refine ⟨hanswer, hshifted.first, fun i h1 h2 => ?_, fun name hname => ?_⟩
      · by_cases hi : i = index + 1
        · subst hi
          rw [hshifted.other _ fun j _ hj h => by have := numbered_inj writer h; omega, hmoved]
        · rw [hshifted.moved i h1 (by omega)]
          refine hsame _ (fun h => ?_) fun h => ?_
          · exact hi (numbered_inj writer h)
          · have := numbered_inj writer h
            omega
      · rw [hshifted.other name fun i h1 h2 => hname i h1 (by omega)]
        exact hsame name (hname _ (by omega) (by omega)) (hname _ (by omega) (by omega))
    rw [shiftFiles]
    refine wp_perform_bind trivial fun answer disk₁ h => ?_
    obtain ⟨rfl, rfl⟩ := h
    cases hfile : disk₁.files (numbered writer (index + 1)) with
    | none =>
      refine hrest disk₁ hfile ?_ fun _ _ _ => rfl
      rw [hfree, hfile]
    | some content =>
      refine wp_perform_bind trivial fun answer disk₂ h => ?_
      simp only [Sound, hfile] at h
      obtain ⟨rfl, rfl⟩ := h
      refine hrest _ ?_ ?_ fun name h1 h2 => ?_
      · exact disk₁.move_old content hne
      · rw [disk₁.move_new, hfile]
      · exact disk₁.move_other content h1 h2

/-- One rotation: every file moves on, and what was the last one is gone. -/
structure Rotated (files files' : Files) : Prop where
  current : files' writer.filename_ = none
  first : 0 < writer.retained_files_ → files' (numbered writer 1) = files writer.filename_
  moved : ∀ i, 1 ≤ i → i < writer.retained_files_ →
    files' (numbered writer (i + 1)) = files (numbered writer i)

theorem wp_rotate (hpos : 0 < writer.retained_files_) (disk : Disk) :
    wp Sound (rotate writer)
      (fun answer disk' => answer = true ∧ Rotated writer disk.files disk'.files)
      (fun _ => True) disk := by
  unfold rotate
  refine wp_perform_bind trivial fun answer disk₁ h => ?_
  obtain ⟨rfl, rfl⟩ := h
  refine wp_seq (wp_shiftFiles writer _ hpos _ (disk.drop_self _)) (fun _ h => h) ?_
  rintro answer disk₂ ⟨rfl, hshifted⟩
  have hkept : disk₂.files writer.filename_ = disk.files writer.filename_ := by
    rw [hshifted.other _ fun i _ _ h => numbered_ne_filename writer i h.symm]
    exact disk.drop_other (numbered_ne_filename writer _).symm
  have hmoved : ∀ i, 1 ≤ i → i < writer.retained_files_ →
      disk₂.files (numbered writer (i + 1)) = disk.files (numbered writer i) := by
    intro i h1 h2
    rw [hshifted.moved i h1 h2]
    refine disk.drop_other fun h => ?_
    have := numbered_inj writer h
    omega
  simp only [if_true]
  refine wp_perform_bind trivial fun answer disk₃ h => ?_
  obtain ⟨rfl, rfl⟩ := h
  cases hfile : disk₃.files writer.filename_ with
  | none =>
    refine ⟨rfl, hfile, fun _ => ?_, hmoved⟩
    rw [hshifted.first, ← hkept, hfile]
  | some content =>
    refine ⟨trivial, fun answer disk₄ h => ?_⟩
    simp only [Sound, hfile] at h
    obtain ⟨rfl, rfl⟩ := h
    refine ⟨rfl, ?_, fun _ => ?_, fun i h1 h2 => ?_⟩
    · exact disk₃.move_old content (numbered_ne_filename writer 1).symm
    · rw [disk₃.move_new, ← hkept, hfile]
    · rw [disk₃.move_other content (numbered_ne_filename writer _), hmoved i h1 h2]
      intro h
      have := numbered_inj writer h
      omega

/-- Size of the file being written. -/
def fileLength (files : Files) : Nat := ((files writer.filename_).map List.length).getD 0

theorem wp_currentSize (disk : Disk) :
    wp Sound (currentSize writer)
      (fun answer disk' => answer = some (fileLength writer disk.files) ∧ disk' = disk)
      (fun _ => True) disk := by
  unfold currentSize fileLength
  refine wp_perform_bind trivial fun answer disk₁ h => ?_
  obtain ⟨rfl, rfl⟩ := h
  cases hfile : disk₁.files writer.filename_ with
  | none => exact ⟨rfl, rfl⟩
  | some content =>
    refine ⟨trivial, fun answer disk₂ h => ?_⟩
    obtain ⟨rfl, rfl⟩ := h
    rw [hfile]
    exact ⟨rfl, rfl⟩

/-- Before a message is written: nothing happens while it fits, else one rotation. -/
def Prepared (incoming : Nat) (files files' : Files) : Prop :=
  if writer.fits (fileLength writer files) incoming then files' = files
  else Rotated writer files files'

theorem wp_rotateIfNeeded (incoming : Nat) (disk : Disk) :
    wp Sound (rotateIfNeeded writer incoming)
      (fun answer disk' => answer = true ∧ Prepared writer incoming disk.files disk'.files)
      (fun _ => True) disk := by
  unfold rotateIfNeeded Prepared
  refine wp_seq (wp_currentSize writer disk) (fun _ h => h) ?_
  rintro answer disk₁ ⟨rfl, rfl⟩
  simp only
  by_cases hfits : writer.fits (fileLength writer disk₁.files) incoming
  · simp only [hfits, if_true]
    exact ⟨rfl, rfl⟩
  · simp only [hfits, if_false]
    by_cases hzero : writer.retained_files_ = 0
    · rw [if_pos hzero]
      refine ⟨trivial, fun answer disk₂ h => ?_⟩
      obtain ⟨rfl, rfl⟩ := h
      exact ⟨rfl, disk₁.drop_self _, fun h => by omega, fun i h1 h2 => by omega⟩
    · rw [if_neg hzero]
      exact wp_rotate writer (by omega) disk₁

/-! ### Writing -/

/-- The stream's file holds `content`, and the other files are those of `files`. -/
structure Streaming (files : Files) (content : Bytes) (disk : Disk) : Prop where
  stream : disk.stream = writer.filename_
  content : disk.files writer.filename_ = some content
  other : ∀ name, name ≠ writer.filename_ → disk.files name = files name

variable {writer} {files : Files} {content : Bytes} {disk : Disk}

theorem Streaming.append (h : Streaming writer files content disk) (data : Bytes) :
    Streaming writer files (content ++ data) (disk.append data) := by
  refine ⟨h.stream, ?_, fun name hname => ?_⟩
  · simp only [Disk.append, h.stream, h.content, Function.update_self, Option.getD_some]
  · simp only [Disk.append, h.stream]
    rw [Function.update_of_ne hname]
    exact h.other name hname

theorem wp_writeAll (rounds : Nat) (rest : Bytes) (hrounds : rest.length ≤ rounds)
    (h : Streaming writer files content disk) :
    wp Sound (writeAll rounds rest)
      (fun answer disk' => answer = true ∧ Streaming writer files (content ++ rest) disk')
      (fun _ => True) disk := by
  induction rounds generalizing rest content disk with
  | zero =>
    cases rest with
    | nil =>
      rw [List.append_nil]
      exact ⟨rfl, h⟩
    | cons b rest => simp at hrounds
  | succ rounds ih =>
    cases rest with
    | nil =>
      rw [List.append_nil]
      exact ⟨rfl, h⟩
    | cons b rest =>
      rw [writeAll]
      · refine wp_perform_bind trivial fun (count : Nat) disk₁ hcall => ?_
        obtain ⟨hpos, hle, rfl⟩ := hcall
        have hpos : 0 < count := hpos
        rw [if_neg (Nat.ne_of_gt hpos)]
        have hdrop : ((b :: rest).drop count).length ≤ rounds := by
          rw [List.length_drop]
          omega
        refine wp_mono (ih _ hdrop (h.append _)) ?_ fun _ h => h
        rintro answer disk₂ ⟨hanswer, hstream⟩
        rw [List.append_assoc, List.take_append_drop] at hstream
        exact ⟨hanswer, hstream⟩
      · exact fun h => nomatch h

/-- A message and the end of its line. -/
def record (message : Bytes) : Bytes :=
  if message.getLast? = some newline then message else message ++ [newline]

theorem wp_endLine (message : Bytes) (h : Streaming writer files (content ++ message) disk) :
    wp Sound (endLine message)
      (fun answer disk' => answer = true ∧ Streaming writer files (content ++ record message) disk')
      (fun _ => True) disk := by
  unfold endLine record
  by_cases hline : message.getLast? = some newline
  · simp only [hline, if_true]
    exact ⟨rfl, h⟩
  · simp only [hline, if_false]
    refine ⟨trivial, fun answer disk₁ hcall => ?_⟩
    obtain ⟨rfl, rfl⟩ := hcall
    refine ⟨rfl, ?_⟩
    rw [← List.append_assoc]
    exact h.append _

/-- A message is written: the file is prepared, then the record is appended. -/
def Written (writer : Writer) (message : Bytes) (files files' : Files) : Prop :=
  ∃ mid, Prepared writer message.length files mid ∧
    files' writer.filename_ = some ((mid writer.filename_).getD [] ++ record message) ∧
    ∀ name, name ≠ writer.filename_ → files' name = mid name

theorem wp_write (writer : Writer) (message : Bytes) (disk : Disk) :
    wp Sound (write writer message)
      (fun answer disk' => answer = true ∧ Written writer message disk.files disk'.files)
      (fun _ => True) disk := by
  unfold write
  refine wp_seq (wp_rotateIfNeeded writer _ disk) (fun _ h => h) ?_
  rintro answer disk₁ ⟨rfl, hprepared⟩
  rw [if_pos rfl]
  refine wp_perform_bind trivial fun answer disk₂ h => ?_
  obtain ⟨rfl, rfl⟩ := h
  have hopen : Streaming writer disk₁.files ((disk₁.files writer.filename_).getD [])
      (Disk.append { disk₁ with stream := writer.filename_ } []) := by
    refine ⟨rfl, ?_, fun name hname => ?_⟩
    · simp only [Disk.append, Function.update_self, List.append_nil]
    · simp only [Disk.append]
      exact Function.update_of_ne hname ..
  rw [if_pos rfl]
  refine wp_seq (wp_writeAll _ _ (Nat.le_refl _) hopen) (fun _ h => h) ?_
  rintro answer disk₃ ⟨rfl, hall⟩
  rw [if_pos rfl]
  refine wp_seq (wp_endLine message hall) (fun _ h => h) ?_
  rintro answer disk₄ ⟨rfl, hline⟩
  refine wp_perform_bind trivial fun answer disk₅ h => ?_
  obtain ⟨rfl, rfl⟩ := h
  rw [if_pos rfl]
  refine wp_perform_bind trivial fun answer disk₆ h => ?_
  obtain ⟨rfl, rfl⟩ := h
  refine wp_perform_bind trivial fun answer disk₇ h => ?_
  obtain ⟨rfl, rfl⟩ := h
  exact ⟨rfl, disk₁.files, hprepared, hline.content, hline.other⟩

end

end BackupFileWriter
end CloudStorage
