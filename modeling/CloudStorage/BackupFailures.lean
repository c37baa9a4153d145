import CloudStorage.Lib.Ages
import CloudStorage.Lib.Threads
import CloudStorage.Rotation
import Mathlib.Data.List.Forall2

/-!
# `BackupFileWriter` when calls fail

Any call may fail, a stream may hold back what was written to it, threads call `Write`
as they like and the process may be killed between two calls. The disk counts the
removals, one for each rotation, and remembers what has reached the file.
-/

namespace CloudStorage.BackupFileWriter
open Posix Interact Ages

structure Volume where
  files : Files
  /-- the file that is open for appending -/
  stream : Option Bytes
  /-- what was written to the stream and is not in its file yet -/
  buffered : Bytes
  /-- what has been appended to files, in order -/
  appended : Bytes
  /-- how often a file was removed -/
  removals : Nat

namespace Volume

def hold (v : Volume) (data : Bytes) : Volume := { v with buffered := v.buffered ++ data }

def spill (v : Volume) (count : Nat) : Volume :=
  match v.stream with
  | none => v
  | some name =>
    { v with
      files := Function.update v.files name (some ((v.files name).getD [] ++ v.buffered.take count))
      buffered := v.buffered.drop count
      appended := v.appended ++ v.buffered.take count }

/-- What the stream holds back is lost. -/
def lose (v : Volume) : Volume := { v with buffered := [] }

def close (v : Volume) : Volume := { v with stream := none, buffered := [] }

def drop (v : Volume) (name : Bytes) : Volume :=
  { v with files := Function.update v.files name none }

def move (v : Volume) (old new content : Bytes) : Volume :=
  { v with files := Function.update (Function.update v.files old none) new (some content) }

def openAt (v : Volume) (name : Bytes) : Volume :=
  { v with
    files := Function.update v.files name (some ((v.files name).getD []))
    stream := some name
    buffered := [] }

def counted (v : Volume) : Volume := { v with removals := v.removals + 1 }

end Volume

/-- Every call may fail; `fwrite` takes as much as it reports, and a stream that could not be
flushed may lose what it holds. -/
def Failing : Env Call.Resp Volume
  | .exists name, v, answer, v' =>
    (answer = none ∨ answer = some (v.files name).isSome) ∧ v' = v
  | .fileSize name, v, answer, v' =>
    (answer = none ∨ answer = (v.files name).map List.length) ∧ v' = v
  | .remove name, v, answer, v' =>
    answer = true ∧ v' = (v.drop name).counted ∨ answer = false ∧ v' = v.counted
  | .rename old new, v, answer, v' =>
    answer = false ∧ v' = v ∨
      ∃ content, v.files old = some content ∧ answer = true ∧ v' = v.move old new content
  | .openAppend name, v, answer, v' =>
    answer = false ∧ v' = v ∨ answer = true ∧ v' = v.openAt name
  | .fwrite data, v, answer, v' =>
    answer ≤ data.length ∧ ∃ count, v' = (v.hold (data.take answer)).spill count
  | .fputc b, v, answer, v' =>
    ∃ count, answer = true ∧ v' = (v.hold [b]).spill count ∨ answer = false ∧ v' = v.spill count
  | .fflush, v, answer, v' =>
    answer = true ∧ v' = v.spill v.buffered.length ∨
      ∃ count, answer = false ∧ (v' = v.spill count ∨ v' = (v.spill count).lose)
  | .fsync, v, _, v' => v' = v
  | .fclose, v, answer, v' =>
    answer = true ∧ v' = (v.spill v.buffered.length).close ∨
      ∃ count, answer = false ∧ v' = (v.spill count).close

/-! ### Places -/

/-- What the file of an age holds: the current one, then those with numbers. -/
def slot (writer : Writer) (files : Files) (age : Nat) : Bytes :=
  (files (if age = 0 then writer.filename_ else numbered writer age)).getD []

section
variable {writer : Writer} {files files' : Files}

theorem retained_eq_below :
    retained writer files = below (slot writer files) (writer.retained_files_ + 1) := by
  have hall : ∀ n, ((List.range n).map fun i =>
      (files (numbered writer (i + 1))).getD []).reverse.flatten ++
        (files writer.filename_).getD [] = below (slot writer files) (n + 1) := by
    intro n
    induction n with
    | zero => exact (List.append_nil _).symm
    | succ n ih =>
      rw [List.range_succ, List.map_append, List.map_singleton, List.reverse_append,
        List.reverse_singleton, List.flatten_append, List.flatten_singleton, List.append_assoc, ih]
      rfl
  exact hall _

theorem age_inj {i j : Nat} (h : (if i = 0 then writer.filename_ else numbered writer i) =
    if j = 0 then writer.filename_ else numbered writer j) : i = j := by
  split at h
  · rename_i hi
    split at h
    · rename_i hj
      rw [hi, hj]
    · exact absurd h.symm (numbered_ne_filename writer j)
  · split at h
    · exact absurd h (numbered_ne_filename writer i)
    · exact numbered_inj writer h

/-- The name of a file by its age. -/
theorem slot_update (age i : Nat) (content : Option Bytes) :
    slot writer (Function.update files (if age = 0 then writer.filename_ else numbered writer age)
      content) i = if i = age then content.getD [] else slot writer files i := by
  unfold slot
  by_cases hi : i = age
  · subst hi
    rw [Function.update_self, if_pos rfl]
  · rw [Function.update_of_ne fun h => hi (age_inj h), if_neg hi]

theorem slot_grown (data : Bytes) :
    slot writer (Function.update files writer.filename_
      (some ((files writer.filename_).getD [] ++ data))) 0 = slot writer files 0 ++ data ∧
    ∀ i, 0 < i → slot writer (Function.update files writer.filename_
      (some ((files writer.filename_).getD [] ++ data))) i = slot writer files i := by
  have hupdate := fun i => @slot_update writer files 0 i
    (some ((files writer.filename_).getD [] ++ data))
  simp only [if_true] at hupdate
  refine ⟨?_, fun i hi => ?_⟩
  · rw [hupdate 0, if_pos rfl]
    rfl
  · rw [hupdate i, if_neg (by omega)]

theorem slot_dropped (age : Nat) :
    slot writer (Function.update files (if age = 0 then writer.filename_ else numbered writer age)
      none) age = [] ∧
    ∀ i, i ≠ age → slot writer (Function.update files
      (if age = 0 then writer.filename_ else numbered writer age) none) i = slot writer files i := by
  refine ⟨?_, fun i hi => ?_⟩
  · rw [slot_update, if_pos rfl]
    rfl
  · rw [slot_update, if_neg hi]

theorem slot_moved {age : Nat} {content : Bytes}
    (hcontent : files (if age = 0 then writer.filename_ else numbered writer age) = some content) :
    Moved age (slot writer files) (slot writer (Function.update
      (Function.update files (if age = 0 then writer.filename_ else numbered writer age) none)
      (numbered writer (age + 1)) (some content))) := by
  have hupdate := fun i => @slot_update writer (Function.update files
    (if age = 0 then writer.filename_ else numbered writer age) none) (age + 1) i (some content)
  simp only [Nat.succ_ne_zero, if_false] at hupdate
  have hhere : slot writer files age = content := by
    unfold slot
    rw [hcontent]
    rfl
  refine ⟨?_, ?_, fun i hi hnext => ?_⟩
  · rw [hupdate, if_pos rfl, hhere]
    rfl
  · rw [hupdate, if_neg (by omega), slot_update, if_pos rfl]
    rfl
  · rw [hupdate, if_neg hnext, slot_update, if_neg hi]

end

/-! ### Rotation -/

/-- Only the oldest is missing in the files, and a generation grows older only with a removal;
`all` was there at the start, `current` in the current file. -/
structure Holds (writer : Writer) (all current : Bytes) (v : Volume) : Prop where
  suffix : below (slot writer v.files) (writer.retained_files_ + 1) <:+ all ++ v.appended
  newest : v.removals ≤ writer.retained_files_ →
    current ++ v.appended <:+ below (slot writer v.files) (v.removals + 1)

/-- The generations from `index` on have moved. -/
structure Shifting (writer : Writer) (all current : Bytes) (index : Nat) (v : Volume) : Prop where
  suffix : below (slot writer v.files) (writer.retained_files_ + 1) <:+ all ++ v.appended
  older : v.removals ≤ writer.retained_files_ →
    v.removals < index ∨ index = writer.retained_files_ →
    current ++ v.appended <:+ below (slot writer v.files) v.removals
  younger : v.removals ≤ writer.retained_files_ → index ≤ v.removals →
    current ++ v.appended <:+ below (slot writer v.files) (v.removals + 1)
  free : index = writer.retained_files_ ∨ slot writer v.files index = []

/-- No file is open. -/
structure Rests (appended : Bytes) (v : Volume) : Prop where
  stream : v.stream = none
  appended : v.appended = appended

section
variable {writer : Writer} {all current appended : Bytes} {index : Nat} {v v' : Volume}

theorem Shifting.holds (h : Shifting writer all current index v) : Holds writer all current v := by
  refine ⟨h.suffix, fun hfew => ?_⟩
  by_cases hindex : index ≤ v.removals
  · exact h.younger hfew hindex
  · exact (h.older hfew (.inl (by omega))).trans (suffix_of_le (Nat.le_succ _))

theorem Shifting.stay (h : Shifting writer all current (index + 1) v)
    (hindex : index < writer.retained_files_) (hempty : slot writer v.files index = []) :
    Shifting writer all current index v := by
  refine ⟨h.suffix, fun hfew hold => h.older hfew (.inl (by omega)), fun hfew hyoung => ?_,
    .inr hempty⟩
  by_cases hnext : index + 1 ≤ v.removals
  · exact h.younger hfew hnext
  · exact (h.older hfew (.inl (by omega))).trans (suffix_of_le (Nat.le_succ _))

theorem Shifting.move (h : Shifting writer all current (index + 1) v)
    (hindex : index < writer.retained_files_)
    (hmoved : Moved index (slot writer v.files) (slot writer v'.files))
    (happended : v'.appended = v.appended) (hremovals : v'.removals = v.removals) :
    Shifting writer all current index v' := by
  constructor
  · rw [happended]
    apply List.IsSuffix.trans _ h.suffix
    rcases h.free with hlast | hfree
    · rw [← hlast]
      exact hmoved.suffix_top
    · rw [hmoved.below_free hfree (by omega)]
  · intro hfew hold
    rw [hremovals] at hfew hold ⊢
    rw [happended, hmoved.below_younger (by omega)]
    exact h.older hfew (.inl (by omega))
  · intro hfew hyoung
    rw [hremovals] at hfew hyoung ⊢
    rw [happended]
    by_cases hnext : index + 1 ≤ v.removals
    · rcases h.free with hlast | hfree
      · have hall : v.removals = index + 1 := by omega
        have holder := h.older hfew (.inr hlast)
        rw [hall] at holder ⊢
        rw [hmoved.below_top]
        exact holder
      · rw [hmoved.below_free hfree (by omega)]
        exact h.younger hfew hnext
    · have hhere : v.removals ≤ index := by omega
      have holder := h.older hfew (.inl (by omega))
      rw [← hmoved.below_younger hhere] at holder
      exact holder.trans (suffix_of_le (Nat.le_succ _))
  · exact .inr hmoved.old

/-- A removal of the last generation begins the rotation. -/
theorem Holds.removed (h : Holds writer all current v)
    (hlast : ∀ i, i ≠ writer.retained_files_ → slot writer v'.files i = slot writer v.files i)
    (hdropped : slot writer v'.files writer.retained_files_ = [] ∨ v'.files = v.files)
    (happended : v'.appended = v.appended) (hremovals : v'.removals = v.removals + 1) :
    Shifting writer all current writer.retained_files_ v' := by
  constructor
  · rw [happended]
    apply List.IsSuffix.trans _ h.suffix
    rcases hdropped with hempty | hsame
    · rw [below_dropped hempty hlast]
      exact suffix_of_le (Nat.le_succ _)
    · rw [hsame]
  · intro hfew _
    rw [happended, hremovals]
    rw [hremovals] at hfew
    rw [below_congr fun i hi => hlast i (by omega)]
    exact h.newest (by omega)
  · intro hfew hyoung
    rw [happended, hremovals]
    rw [hremovals] at hfew hyoung
    have hnewest := h.newest (by omega)
    have hsame : below (slot writer v'.files) (v.removals + 1) =
        below (slot writer v.files) (v.removals + 1) := below_congr fun i hi => hlast i (by omega)
    rw [← hsame] at hnewest
    exact hnewest.trans (suffix_of_le (Nat.le_succ _))
  · exact .inl rfl

theorem wp_shiftFiles_failing (index : Nat) (hpos : 1 ≤ index)
    (hindex : index ≤ writer.retained_files_) (h : Shifting writer all current index v)
    (hrests : Rests appended v) :
    wp Failing (shiftFiles writer index)
      (fun answer v' => Rests appended v' ∧ Holds writer all current v' ∧
        (answer = true → Shifting writer all current 1 v'))
      (fun v' => Rests appended v' ∧ Holds writer all current v') v := by
  induction index using shiftFiles.induct generalizing v with
  | case1 => omega
  | case2 => exact ⟨hrests, h.holds, fun _ => h⟩
  | case3 index ih =>
    rw [shiftFiles]
    apply wp_perform_bind ⟨hrests, h.holds⟩
    intro answer v₁ hcall
    obtain ⟨hanswer, rfl⟩ := hcall
    rcases hanswer with rfl | rfl
    · exact ⟨hrests, h.holds, fun hfalse => absurd hfalse Bool.false_ne_true⟩
    cases hfile : v₁.files (numbered writer (index + 1)) with
    | none =>
      have hempty : slot writer v₁.files (index + 1) = [] := by
        unfold slot
        rw [if_neg (Nat.succ_ne_zero index), hfile]
        rfl
      exact ih (by omega) (by omega) (h.stay (by omega) hempty) hrests
    | some content =>
      apply wp_perform_bind ⟨hrests, h.holds⟩
      intro answer v₂ hcall
      rcases hcall with ⟨rfl, rfl⟩ | ⟨content', hcontent, rfl, rfl⟩
      · exact ⟨hrests, h.holds, fun hfalse => absurd hfalse Bool.false_ne_true⟩
      · have hplace : v₁.files (if index + 1 = 0 then writer.filename_
            else numbered writer (index + 1)) = some content' := by
          rw [if_neg (Nat.succ_ne_zero index), hcontent]
        have hmoved := slot_moved hplace
        rw [if_neg (Nat.succ_ne_zero index)] at hmoved
        exact ih (by omega) (by omega) (h.move (by omega) hmoved rfl rfl)
          ⟨hrests.stream, hrests.appended⟩

theorem wp_rotate_failing (hpos : 0 < writer.retained_files_) (h : Holds writer all current v)
    (hrests : Rests appended v) :
    wp Failing (rotate writer)
      (fun _ v' => Rests appended v' ∧ Holds writer all current v')
      (fun v' => Rests appended v' ∧ Holds writer all current v') v := by
  unfold rotate
  apply wp_perform_bind ⟨hrests, h⟩
  intro removed v₁ hcall
  have hname : (if writer.retained_files_ = 0 then writer.filename_
      else numbered writer writer.retained_files_) = numbered writer writer.retained_files_ :=
    if_neg (by omega)
  have hstart : Rests appended v₁ ∧ Shifting writer all current writer.retained_files_ v₁ := by
    rcases hcall with ⟨-, rfl⟩ | ⟨-, rfl⟩
    · obtain ⟨hempty, hother⟩ := @slot_dropped writer v.files writer.retained_files_
      rw [hname] at hempty hother
      exact ⟨⟨hrests.stream, hrests.appended⟩, h.removed hother (.inl hempty) rfl rfl⟩
    · exact ⟨⟨hrests.stream, hrests.appended⟩,
        h.removed (fun _ _ => rfl) (.inr rfl) rfl rfl⟩
  apply wp_seq (wp_shiftFiles_failing _ hpos (Nat.le_refl _) hstart.2 hstart.1) fun _ h => h
  intro shifted v₂ hshifted
  obtain ⟨hrests₂, hholds₂, hone⟩ := hshifted
  cases shifted with
  | false => exact ⟨hrests₂, hholds₂⟩
  | true =>
    have hone := hone rfl
    simp only [if_true]
    apply wp_perform_bind ⟨hrests₂, hholds₂⟩
    intro present v₃ hcall
    obtain ⟨hanswer, rfl⟩ := hcall
    rcases hanswer with rfl | rfl
    · exact ⟨hrests₂, hholds₂⟩
    cases hfile : v₃.files writer.filename_ with
    | none => exact ⟨hrests₂, hholds₂⟩
    | some content =>
      refine ⟨⟨hrests₂, hholds₂⟩, fun answer v₄ hcall => ?_⟩
      rcases hcall with ⟨rfl, rfl⟩ | ⟨content', hcontent, rfl, rfl⟩
      · exact ⟨hrests₂, hholds₂⟩
      · have hplace : v₃.files (if 0 = 0 then writer.filename_ else numbered writer 0) =
            some content' := by
          rw [if_pos rfl, hcontent]
        have hmoved := slot_moved hplace
        rw [if_pos rfl] at hmoved
        have hzero : Shifting writer all current 0 (v₃.move writer.filename_ (numbered writer 1)
            content') := hone.move hpos hmoved rfl rfl
        exact ⟨⟨hrests₂.stream, hrests₂.appended⟩, hzero.holds⟩

theorem wp_rotateIfNeeded_failing (incoming : Nat) (h : Holds writer all current v)
    (hrests : Rests appended v) :
    wp Failing (rotateIfNeeded writer incoming)
      (fun _ v' => Rests appended v' ∧ Holds writer all current v')
      (fun v' => Rests appended v' ∧ Holds writer all current v') v := by
  have hsize : wp Failing (currentSize writer) (fun _ v' => v' = v)
      (fun v' => Rests appended v' ∧ Holds writer all current v') v := by
    unfold currentSize
    apply wp_perform_bind ⟨hrests, h⟩
    intro answer v₁ hcall
    obtain ⟨-, rfl⟩ := hcall
    cases answer with
    | none => rfl
    | some present =>
      cases present with
      | false => rfl
      | true => exact ⟨⟨hrests, h⟩, fun answer v₂ hcall => hcall.2⟩
  unfold rotateIfNeeded
  apply wp_seq hsize fun _ h => h
  intro size v₁ hsame
  subst hsame
  cases size with
  | none => exact ⟨hrests, h⟩
  | some size =>
    dsimp only
    split
    · exact ⟨hrests, h⟩
    split
    · rename_i hzero
      refine ⟨⟨hrests, h⟩, fun answer v₂ hcall => ?_⟩
      have hname : (if writer.retained_files_ = 0 then writer.filename_
          else numbered writer writer.retained_files_) = writer.filename_ := if_pos hzero
      rcases hcall with ⟨-, rfl⟩ | ⟨-, rfl⟩
      · obtain ⟨hempty, hother⟩ := @slot_dropped writer v₁.files writer.retained_files_
        rw [hname] at hempty hother
        have hstart : Shifting writer all current writer.retained_files_
            (v₁.drop writer.filename_).counted := h.removed hother (.inl hempty) rfl rfl
        exact ⟨⟨hrests.stream, hrests.appended⟩, hstart.holds⟩
      · have hstart : Shifting writer all current writer.retained_files_ v₁.counted :=
          h.removed (fun _ _ => rfl) (.inr rfl) rfl rfl
        exact ⟨⟨hrests.stream, hrests.appended⟩, hstart.holds⟩
    · rename_i hpos
      exact wp_rotate_failing (by omega) h hrests

end

/-! ### Writing -/

/-- The current file is open, and `taken` has gone to its stream. -/
structure Streams (writer : Writer) (all current appended taken : Bytes) (v : Volume) : Prop where
  stream : v.stream = some writer.filename_
  holds : Holds writer all current v
  taken : ∃ part, v.appended = appended ++ part ∧ part ++ v.buffered = taken

/-- A beginning of the record has reached the file. -/
structure Torn (writer : Writer) (all current appended message : Bytes) (v : Volume) : Prop where
  holds : Holds writer all current v
  part : ∃ part, v.appended = appended ++ part ∧ part <+: record message

/-- `Write` is over; the whole record has reached the file if it returned true. -/
structure Ended (writer : Writer) (all current appended message : Bytes) (ok : Bool)
    (v : Volume) : Prop where
  stream : v.stream = none
  holds : Holds writer all current v
  part : ∃ part, v.appended = appended ++ part ∧ part <+: record message ∧
    (ok = true → part = record message)

theorem prefix_record (message : Bytes) : message <+: record message := by
  unfold record
  split
  · exact List.prefix_refl _
  · exact List.prefix_append _ _

section
variable {writer : Writer} {all current appended taken message : Bytes} {v v' : Volume}

theorem Holds.same (h : Holds writer all current v)
    (hslot : slot writer v'.files = slot writer v.files) (happended : v'.appended = v.appended)
    (hremovals : v'.removals = v.removals) : Holds writer all current v' := by
  constructor
  · rw [hslot, happended]
    exact h.suffix
  · rw [hslot, happended, hremovals]
    exact h.newest

theorem suffix_append_right {a b : Bytes} (h : a <:+ b) (data : Bytes) : a ++ data <:+ b ++ data := by
  obtain ⟨rest, rfl⟩ := h
  exact ⟨rest, by rw [List.append_assoc]⟩

theorem Holds.spill (h : Holds writer all current v) (hstream : v.stream = some writer.filename_)
    (count : Nat) : Holds writer all current (v.spill count) := by
  obtain ⟨hfirst, hother⟩ := @slot_grown writer v.files (v.buffered.take count)
  have hspill : v.spill count =
      { v with
        files := Function.update v.files writer.filename_
          (some ((v.files writer.filename_).getD [] ++ v.buffered.take count))
        buffered := v.buffered.drop count
        appended := v.appended ++ v.buffered.take count } := by
    rw [Volume.spill, hstream]
  rw [hspill]
  constructor
  · rw [below_grown hfirst hother (Nat.succ_pos _), ← List.append_assoc]
    exact suffix_append_right h.suffix _
  · intro hfew
    rw [below_grown hfirst hother (Nat.succ_pos _), ← List.append_assoc]
    exact suffix_append_right (h.newest hfew) _

theorem Streams.spill (h : Streams writer all current appended taken v) (count : Nat) :
    Streams writer all current appended taken (v.spill count) := by
  obtain ⟨part, happended, htaken⟩ := h.taken
  refine ⟨?_, h.holds.spill h.stream count, part ++ v.buffered.take count, ?_, ?_⟩
  · rw [Volume.spill, h.stream]
  · simp only [Volume.spill, h.stream, happended, List.append_assoc]
  · simp only [Volume.spill, h.stream]
    rw [List.append_assoc, List.take_append_drop, htaken]

theorem Streams.hold (h : Streams writer all current appended taken v) (data : Bytes) :
    Streams writer all current appended (taken ++ data) (v.hold data) := by
  obtain ⟨part, happended, htaken⟩ := h.taken
  refine ⟨h.stream, h.holds.same rfl rfl rfl, part, happended, ?_⟩
  rw [← htaken, List.append_assoc]
  rfl

theorem Streams.torn (h : Streams writer all current appended taken v)
    (hbegins : taken <+: record message) : Torn writer all current appended message v := by
  obtain ⟨part, happended, rfl⟩ := h.taken
  exact ⟨h.holds, part, happended, (List.prefix_append _ _).trans hbegins⟩

theorem wp_writeAll_failing (rounds : Nat) (rest : Bytes) (hall : taken ++ rest = message)
    (h : Streams writer all current appended taken v) :
    wp Failing (writeAll rounds rest)
      (fun answer v' => ∃ taken, taken <+: message ∧ Streams writer all current appended taken v' ∧
        (answer = true → taken = message))
      (Torn writer all current appended message) v := by
  have hbegins : ∀ {taken rest : Bytes}, taken ++ rest = message → taken <+: message :=
    fun h => ⟨_, h⟩
  induction rounds generalizing taken rest v with
  | zero =>
    cases rest with
    | nil =>
      rw [List.append_nil] at hall
      exact ⟨taken, hall ▸ List.prefix_refl _, h, fun _ => hall⟩
    | cons b rest => exact ⟨taken, hbegins hall, h, fun hfalse => absurd hfalse Bool.false_ne_true⟩
  | succ rounds ih =>
    cases rest with
    | nil =>
      rw [List.append_nil] at hall
      exact ⟨taken, hall ▸ List.prefix_refl _, h, fun _ => hall⟩
    | cons b rest =>
      rw [writeAll]
      · apply wp_perform_bind (h.torn ((hbegins hall).trans (prefix_record message)))
        intro (count : Nat) v₁ hcall
        obtain ⟨-, spilled, rfl⟩ := hcall
        have hmore := (h.hold ((b :: rest).take count)).spill spilled
        have hall' : taken ++ (b :: rest).take count ++ (b :: rest).drop count = message := by
          rw [List.append_assoc, List.take_append_drop, hall]
        by_cases hzero : count = 0
        · rw [if_pos hzero]
          exact ⟨_, hbegins hall', hmore, fun hfalse => absurd hfalse Bool.false_ne_true⟩
        · rw [if_neg hzero]
          exact ih _ hall' hmore
      · exact List.cons_ne_nil b rest

theorem wp_endLine_failing (h : Streams writer all current appended message v) :
    wp Failing (endLine message)
      (fun answer v' => ∃ taken, taken <+: record message ∧
        Streams writer all current appended taken v' ∧ (answer = true → taken = record message))
      (Torn writer all current appended message) v := by
  unfold endLine
  by_cases hline : message.getLast? = some newline
  · rw [if_pos hline]
    have hrecord : record message = message := if_pos hline
    exact ⟨message, prefix_record message, h, fun _ => hrecord.symm⟩
  · rw [if_neg hline]
    have hrecord : record message = message ++ [newline] := if_neg hline
    refine ⟨h.torn (prefix_record message), fun answer v₁ hcall => ?_⟩
    obtain ⟨spilled, ⟨-, rfl⟩ | ⟨rfl, rfl⟩⟩ := hcall
    · refine ⟨message ++ [newline], ?_, (h.hold [newline]).spill spilled, fun _ => hrecord.symm⟩
      rw [hrecord]
    · exact ⟨message, prefix_record message, h.spill spilled, fun hfalse => absurd hfalse Bool.false_ne_true⟩

/-- `fclose` ends the stream, and the record is whole if nothing was held back. -/
theorem Streams.closed {ok : Bool} (h : Streams writer all current appended taken v)
    (hbegins : taken <+: record message)
    (hok : ok = true → v.buffered = [] ∧ taken = record message) {answer : Bool}
    (hcall : Failing .fclose v answer v') : Ended writer all current appended message ok v' := by
  have hspilled : ∀ count, Ended writer all current appended message ok (v.spill count).close := by
    intro count
    have hmore := h.spill count
    obtain ⟨part, happended, htaken⟩ := hmore.taken
    refine ⟨rfl, hmore.holds.same rfl rfl rfl, part, happended, ?_, fun htrue => ?_⟩
    · exact (List.prefix_append part _).trans (htaken ▸ hbegins)
    · obtain ⟨hnone, hwhole⟩ := hok htrue
      have hrest : (v.spill count).buffered = [] := by
        simp only [Volume.spill, h.stream, hnone, List.drop_nil]
      rw [hrest, List.append_nil] at htaken
      rw [htaken, hwhole]
  rcases hcall with ⟨-, rfl⟩ | ⟨count, -, rfl⟩
  · exact hspilled _
  · exact hspilled count

theorem Rests.torn (h : Holds writer all current v) (hrests : Rests appended v) :
    Torn writer all current appended message v :=
  ⟨h, [], by rw [hrests.appended, List.append_nil], List.nil_prefix⟩

theorem Rests.ended (h : Holds writer all current v) (hrests : Rests appended v) :
    Ended writer all current appended message false v :=
  ⟨hrests.stream, h, [], by rw [hrests.appended, List.append_nil], List.nil_prefix,
    fun hfalse => absurd hfalse Bool.false_ne_true⟩

theorem Rests.opened (h : Holds writer all current v) (hrests : Rests appended v) :
    Streams writer all current appended [] (v.openAt writer.filename_) := by
  refine ⟨rfl, h.same ?_ rfl rfl, [], ?_, rfl⟩
  · funext i
    have hupdate := @slot_update writer v.files 0 i (some ((v.files writer.filename_).getD []))
    rw [if_pos rfl] at hupdate
    refine hupdate.trans ?_
    split
    · rename_i hi
      rw [hi]
      rfl
    · rfl
  · rw [List.append_nil]
    exact hrests.appended

theorem wp_write_failing (h : Holds writer all current v) (hrests : Rests appended v) :
    wp Failing (write writer message) (Ended writer all current appended message)
      (Torn writer all current appended message) v := by
  unfold write
  apply wp_seq (wp_rotateIfNeeded_failing _ h hrests) fun v' hv => hv.1.torn hv.2
  intro ready v₁ h₁
  obtain ⟨hrests₁, hholds₁⟩ := h₁
  cases ready with
  | false => exact hrests₁.ended hholds₁
  | true =>
    simp only [if_true]
    apply wp_perform_bind (hrests₁.torn hholds₁)
    intro opened v₂ hcall
    rcases hcall with ⟨rfl, rfl⟩ | ⟨rfl, rfl⟩
    · exact hrests₁.ended hholds₁
    rw [if_pos rfl]
    apply wp_seq (wp_writeAll_failing _ message (List.nil_append _) (hrests₁.opened hholds₁))
      fun _ h => h
    intro written v₃ hwritten
    obtain ⟨taken, hbegins, hstreams, hwhole⟩ := hwritten
    have hrecord := hbegins.trans (prefix_record message)
    cases written with
    | false =>
      refine ⟨hstreams.torn hrecord, fun answer v₄ hcall => ?_⟩
      exact hstreams.closed hrecord (fun hfalse => absurd hfalse Bool.false_ne_true) hcall
    | true =>
      rw [hwhole rfl] at hstreams
      simp only [if_true]
      apply wp_seq (wp_endLine_failing hstreams) fun _ h => h
      intro ok v₄ hline
      obtain ⟨taken, hbegins, hstreams, hwhole⟩ := hline
      apply wp_perform_bind (hstreams.torn hbegins)
      intro flushed v₅ hcall
      rcases hcall with ⟨rfl, rfl⟩ | ⟨count, rfl, hlost⟩
      · have hspilled := hstreams.spill v₄.buffered.length
        have hnone : (v₄.spill v₄.buffered.length).buffered = [] := by
          simp only [Volume.spill, hstreams.stream, List.drop_length]
        rw [if_pos rfl]
        apply wp_perform_bind (hspilled.torn hbegins)
        intro synced v₆ hcall
        have hcall : v₆ = v₄.spill v₄.buffered.length := hcall
        subst hcall
        apply wp_perform_bind (hspilled.torn hbegins)
        intro closed v₇ hcall
        refine hspilled.closed hbegins (fun htrue => ⟨hnone, hwhole ?_⟩) hcall
        simp only [Bool.and_eq_true] at htrue
        exact htrue.1.1
      · have hshort : ∃ taken, taken <+: record message ∧
            Streams writer all current appended taken v₅ := by
          have hspilled := hstreams.spill count
          rcases hlost with rfl | rfl
          · exact ⟨taken, hbegins, hspilled⟩
          · obtain ⟨part, happended, htaken⟩ := hspilled.taken
            refine ⟨part, (List.prefix_append part _).trans (htaken ▸ hbegins), hspilled.stream,
              hspilled.holds.same rfl rfl rfl, part, happended, ?_⟩
            exact List.append_nil part
        obtain ⟨taken, hbegins, hstreams⟩ := hshort
        simp only [Bool.false_eq_true, if_false]
        apply wp_perform_bind (hstreams.torn hbegins)
        intro closed v₆ hcall
        refine hstreams.closed hbegins (fun htrue => ?_) hcall
        simp only [Bool.and_false, Bool.false_and, Bool.false_eq_true] at htrue

end

/-! ### Threads -/

/-- What reached the files of each call that is over. -/
def Reached (e : Bytes × Bool) (part : Bytes) : Prop :=
  part <+: record e.1 ∧ (e.2 = true → part = record e.1)

structure Between (writer : Writer) (all current : Bytes) (done : List (Bytes × Bool))
    (v : Volume) : Prop where
  stream : v.stream = none
  holds : Holds writer all current v
  parts : ∃ parts, List.Forall₂ Reached done parts ∧ v.appended = parts.flatten

/-- In the course of a call of `Write`. -/
def Inside (writer : Writer) (all current : Bytes) (done : List (Bytes × Bool)) (message : Bytes)
    (p : Program Bool) (v : Volume) : Prop :=
  ∃ parts, List.Forall₂ Reached done parts ∧
    wp Failing p (Ended writer all current parts.flatten message)
      (Torn writer all current parts.flatten message) v

theorem write_sections (writer : Writer) (all current : Bytes) :
    SectionRule (write writer) (fun _ => true) Failing (Between writer all current)
      (Inside writer all current) (fun _ => False) where
  enter done message v _ h := by
    obtain ⟨parts, hparts, happended⟩ := h.parts
    exact ⟨parts, hparts, wp_write_failing h.holds ⟨h.stream, happended⟩⟩
  call done message c next v r v' h hcall := by
    obtain ⟨parts, hparts, hwp⟩ := h
    exact ⟨parts, hparts, hwp.2 r v' hcall⟩
  leave done message ok v h := by
    obtain ⟨parts, hparts, hended⟩ := h
    have hended : Ended writer all current parts.flatten message ok v := hended
    obtain ⟨part, happended, hbegins, hwhole⟩ := hended.part
    refine ⟨hended.stream, hended.holds, parts ++ [part], ?_, ?_⟩
    · exact List.rel_append hparts (.cons ⟨hbegins, hwhole⟩ .nil)
    · rw [happended, List.flatten_append, List.flatten_singleton]
  free op hop := nomatch hop
  quiet done c v r v' hfalse := hfalse.elim
  quiet_section done op p c v r v' hfalse := hfalse.elim

variable {T : Type} [DecidableEq T] {writer : Writer}
  {s₀ s : Threads Call.Resp Volume T Bytes Bool} {log : List (Label Call.Resp T Bytes Bool)}

/-- Whatever fails and wherever the process is stopped, the files hold the end of what was
there and of the records in the order of the lock, each as far as it reached them and whole if
`Write` returned true; and all that came since the start as long as there were no more removals
than files retained. -/
theorem backups_survive (hidle : ∀ t, s₀.phase t = .idle) (hfree : s₀.owner = none)
    (hstream : s₀.world.stream = none) (happended : s₀.world.appended = [])
    (hremovals : s₀.world.removals = 0)
    (hrun : ThreadRun (write writer) (fun _ => true) Failing s₀ log s) :
    ∃ parts last, List.Forall₂ Reached (sections (fun _ => true) log) parts ∧
      (last ≠ [] → ∃ message, last <+: record message ∧
        begun (fun _ => true) log = (sections (fun _ => true) log).map Prod.fst ++ [message]) ∧
      retained writer s.world.files <:+
        retained writer s₀.world.files ++ (parts.flatten ++ last) ∧
      (s.world.removals ≤ writer.retained_files_ →
        (s₀.world.files writer.filename_).getD [] ++ (parts.flatten ++ last) <:+
          retained writer s.world.files) := by
  have hstart : Between writer (retained writer s₀.world.files)
      ((s₀.world.files writer.filename_).getD []) [] s₀.world := by
    refine ⟨hstream, ⟨?_, fun _ => ?_⟩, [], .nil, happended⟩
    · rw [happended, List.append_nil, retained_eq_below]
    · rw [happended, hremovals, List.append_nil]
      show _ <:+ slot writer s₀.world.files 0 ++ []
      rw [List.append_nil]
      exact List.suffix_refl _
  have hsections := run_sections (write_sections writer _ _) hidle hfree hstart hrun
  have hholds : ∀ {appended : Bytes}, Holds writer (retained writer s₀.world.files)
      ((s₀.world.files writer.filename_).getD []) s.world → s.world.appended = appended →
      retained writer s.world.files <:+ retained writer s₀.world.files ++ appended ∧
      (s.world.removals ≤ writer.retained_files_ →
        (s₀.world.files writer.filename_).getD [] ++ appended <:+
          retained writer s.world.files) := by
    intro appended h heq
    subst heq
    rw [@retained_eq_below writer s.world.files]
    refine ⟨h.suffix, fun hfew => (h.newest hfew).trans (suffix_of_le ?_)⟩
    exact Nat.succ_le_succ hfew
  cases hsections.locked with
  | free howner horder hbetween =>
    obtain ⟨parts, hparts, hall⟩ := hbetween.parts
    refine ⟨parts, [], hparts, fun hne => absurd rfl hne, hholds hbetween.holds ?_⟩
    rw [hall, List.append_nil]
  | @held t message p howner hphase hlocks horder hinside =>
    obtain ⟨parts, hparts, hwp⟩ := hinside
    have htorn : Torn writer (retained writer s₀.world.files)
        ((s₀.world.files writer.filename_).getD []) parts.flatten message s.world := by
      cases p with
      | ret ok =>
        have hended : Ended writer _ _ parts.flatten message ok s.world := hwp
        obtain ⟨part, hall, hbegins, -⟩ := hended.part
        exact ⟨hended.holds, part, hall, hbegins⟩
      | call c next => exact hwp.1
    obtain ⟨part, hall, hbegins⟩ := htorn.part
    exact ⟨parts, part, hparts, fun _ => ⟨message, hbegins, horder⟩, hholds htorn.holds hall⟩

/-! ### A recorded run -/

/-- The first part of a choice tells whether the call succeeds, the other how far a write gets. -/
def failingAnswer (v : Volume) (c : Call) (choice : Bool × Nat) : c.Resp × Volume :=
  match c with
  | .exists name => (if choice.1 then some (v.files name).isSome else none, v)
  | .fileSize name => (if choice.1 then (v.files name).map List.length else none, v)
  | .remove name => if choice.1 then (true, (v.drop name).counted) else (false, v.counted)
  | .rename old new =>
    match v.files old with
    | none => (false, v)
    | some content => if choice.1 then (true, v.move old new content) else (false, v)
  | .openAppend name => if choice.1 then (true, v.openAt name) else (false, v)
  | .fwrite data =>
    (min choice.2 data.length, (v.hold (data.take (min choice.2 data.length))).spill choice.2)
  | .fputc b => if choice.1 then (true, (v.hold [b]).spill choice.2) else (false, v.spill choice.2)
  | .fflush =>
    if choice.1 then (true, v.spill v.buffered.length) else (false, (v.spill choice.2).lose)
  | .fsync => (choice.1, v)
  | .fclose =>
    if choice.1 then (true, (v.spill v.buffered.length).close)
    else (false, (v.spill choice.2).close)

theorem failingAnswer_failing (v : Volume) (c : Call) (choice : Bool × Nat) :
    Failing c v (failingAnswer v c choice).1 (failingAnswer v c choice).2 := by
  obtain ⟨succeeds, count⟩ := choice
  cases c with
  | «exists» name =>
    cases succeeds
    · exact ⟨.inl rfl, rfl⟩
    · exact ⟨.inr rfl, rfl⟩
  | fileSize name =>
    cases succeeds
    · exact ⟨.inl rfl, rfl⟩
    · exact ⟨.inr rfl, rfl⟩
  | remove name =>
    cases succeeds
    · exact .inr ⟨rfl, rfl⟩
    · exact .inl ⟨rfl, rfl⟩
  | rename old new =>
    simp only [Failing, failingAnswer]
    cases hfile : v.files old with
    | none => exact .inl ⟨rfl, rfl⟩
    | some content =>
      cases succeeds
      · exact .inl ⟨rfl, rfl⟩
      · exact .inr ⟨content, rfl, rfl, rfl⟩
  | openAppend name =>
    cases succeeds
    · exact .inl ⟨rfl, rfl⟩
    · exact .inr ⟨rfl, rfl⟩
  | fwrite data => exact ⟨Nat.min_le_right _ _, count, rfl⟩
  | fputc b =>
    cases succeeds
    · exact ⟨count, .inr ⟨rfl, rfl⟩⟩
    · exact ⟨count, .inl ⟨rfl, rfl⟩⟩
  | fflush =>
    cases succeeds
    · exact .inr ⟨count, rfl, .inr rfl⟩
    · exact .inl ⟨rfl, rfl⟩
  | fsync => rfl
  | fclose =>
    cases succeeds
    · exact .inr ⟨count, rfl, rfl⟩
    · exact .inl ⟨rfl, rfl⟩

def blankVolume : Volume := ⟨fun _ => none, none, [], [], 0⟩

/-- One thread writes a record while the other waits for the lock. The newline of the next record
is lost with its stream, and the process is killed within a third one. -/
def sampleMoves : List (Move Bool Bytes (Bool × Nat)) :=
  [.invoke false (lit "ab"), .enter false, .invoke true (lit "cd")] ++
    List.replicate 7 (.call false (true, 9)) ++
    [.leave false, .invoke false (lit "e"), .enter true] ++
    List.replicate 6 (.call true (true, 9)) ++
    [.call true (true, 1), .call true (true, 1), .call true (true, 0), .call true (false, 0),
      .call true (true, 0), .leave true, .enter false] ++
    List.replicate 4 (.call false (true, 9))

theorem backups_survive_sample : ∃ log s,
    Transition.Run.play (advance (write sampleWriter) (fun _ => true) failingAnswer
      fun _ _ _ => true) ⟨blankVolume, fun _ => .idle, none⟩ sampleMoves = some (log, s) ∧
    sections (fun _ => true) log = [(lit "ab", true), (lit "cd", false)] ∧
    retained sampleWriter s.world.files = lit "ab\ncde" ∧ s.world.removals = 1 ∧
    ∃ parts last, List.Forall₂ Reached (sections (fun _ => true) log) parts ∧
      (last ≠ [] → ∃ message, last <+: record message ∧
        begun (fun _ => true) log = (sections (fun _ => true) log).map Prod.fst ++ [message]) ∧
      retained sampleWriter s.world.files <:+
        retained sampleWriter blankVolume.files ++ (parts.flatten ++ last) ∧
      (s.world.removals ≤ sampleWriter.retained_files_ →
        (blankVolume.files sampleWriter.filename_).getD [] ++ (parts.flatten ++ last) <:+
          retained sampleWriter s.world.files) := by
  have hplay : (Transition.Run.play (advance (write sampleWriter) (fun _ => true) failingAnswer
      fun _ _ _ => true) ⟨blankVolume, fun _ => .idle, none⟩ sampleMoves).any (fun played =>
        decide (sections (fun _ => true) played.1 = [(lit "ab", true), (lit "cd", false)]) &&
        decide (retained sampleWriter played.2.world.files = lit "ab\ncde") &&
        decide (played.2.world.removals = 1)) = true := by decide +kernel
  obtain ⟨⟨log, s⟩, hplayed, hcheck⟩ := (Option.any_eq_true _ _).mp hplay
  simp only [Bool.and_eq_true, decide_eq_true_eq] at hcheck
  obtain ⟨⟨hsections, hretained⟩, hremovals⟩ := hcheck
  have hrun := threadRun_of_play (fun v c choice _ => failingAnswer_failing v c choice) hplayed
  exact ⟨log, s, hplayed, hsections, hretained, hremovals,
    backups_survive (fun _ => rfl) rfl rfl rfl rfl hrun⟩

end CloudStorage.BackupFileWriter
