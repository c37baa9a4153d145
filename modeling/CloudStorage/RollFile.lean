import CloudStorage.Lib.Interact
import CloudStorage.Lib.LexPath
import CloudStorage.Lib.NextFit
import CloudStorage.LogConfig
import Mathlib.Data.List.Nodup
import Mathlib.Logic.Function.Basic

/-!
# `RollFileFlush`

The log files of the rolling logger. `size_t` is a 64-bit word. A stream may
hold back what was written to it, so a file can be behind its stream.
-/

namespace CloudStorage
open Posix Interact

/-- The object; `file_` is the name of the file that is open. -/
structure RollFileFlush where
  max_size_ : UInt64
  basename_ : Bytes
  current_size_ : UInt64
  sequence_ : UInt64
  file_ : Option Bytes
  positive : max_size_ ≠ 0
  deriving DecidableEq

namespace RollFileFlush

/-- The bytes from `data` to `data + len`. -/
structure Batch where
  data : Bytes
  bounded : data.length < 2 ^ 64

def Batch.len (batch : Batch) : UInt64 := UInt64.ofNat batch.data.length

inductive Call
  | «exists» (path : Bytes)
  | isDirectory (path : Bytes)
  | createDirectories (path : Bytes)
  /-- `system_clock::now()`, in nanoseconds since the epoch -/
  | now
  /-- `localtime_r` and `strftime` with `%Y%m%d-%H%M%S` -/
  | localTime (seconds : Nat)
  | getpid
  /-- `fopen(name, "ab")` -/
  | openAppend (name : Bytes)
  | fileSize (name : Bytes)
  | fwrite (data : Bytes)
  | ferror
  | fflush
  | fsync
  | fclose

abbrev Call.Resp : Call → Type
  | .now => Nat
  | .localTime _ => Bytes
  | .getpid => Nat
  | .fileSize _ => Option Nat
  | .fwrite _ => Nat
  | _ => Bool

abbrev Program := Prog Call.Resp

def perform (c : Call) : Program c.Resp := Prog.perform c

/-! ### The source -/

def createDirectory (pathname : Bytes) : Program Bool := do
  if pathname = [] then return true
  else if ← perform (.exists pathname) then perform (.isDirectory pathname)
  else perform (.createDirectories pathname)

def new (basename : Bytes) (max_size : UInt64) : Program (Except Bytes RollFileFlush) :=
  if h : max_size = 0 then return .error (lit "rolling log size must be positive")
  else do
    if ← createDirectory (parentString basename) then return .ok ⟨max_size, basename, 0, 1, none, h⟩
    else return .error (lit "cannot create rolling log directory")

/-- The two numbers of `CreateFilename` behind the timestamp, and its counter. -/
def filename (basename timestamp : Bytes) (micros pid : Nat) (sequence : UInt64) : Bytes :=
  (basename ++ 45 :: timestamp ++ 45 :: (decimal micros).leftpad 6 48 ++ 45 :: decimal pid) ++
    45 :: (decimal sequence.toNat ++ lit ".log")

def createFilename (roll : RollFileFlush) : Program (Bytes × RollFileFlush) := do
  let now ← perform .now
  let timestamp ← perform (.localTime (now / 10 ^ 9))
  let pid ← perform .getpid
  return (filename roll.basename_ timestamp (now / 10 ^ 3 % 1000000) pid roll.sequence_,
    { roll with sequence_ := roll.sequence_ + 1 })

def remaining (max_size current : UInt64) : UInt64 := max_size - min current max_size

/-- `EnsureFile` from where no file is open. -/
def openNext (roll : RollFileFlush) : Program (Bool × RollFileFlush) := do
  let (name, roll) ← createFilename roll
  if ← perform (.openAppend name) then
    let size ← perform (.fileSize name)
    return (true, { roll with file_ := some name, current_size_ := UInt64.ofNat (size.getD 0) })
  else return (false, roll)

def ensureFile (roll : RollFileFlush) (incoming_size : UInt64) : Program (Bool × RollFileFlush) :=
  match roll.file_ with
  | none => openNext roll
  | some _ =>
    if roll.current_size_ = 0 ∨ incoming_size ≤ remaining roll.max_size_ roll.current_size_ then
      return (true, roll)
    else do
      let _ ← perform .fclose
      openNext { roll with file_ := none }

/-- The loop over `fwrite`; a round that goes on has written something. -/
def writeLoop : Nat → Bytes → Program Bool
  | _, [] => return true
  | 0, _ => return false
  | rounds + 1, rest => do
    let count ← perform (.fwrite rest)
    if count = 0 then return false
    else writeLoop rounds (rest.drop count)

def writeAll (file : Option Bytes) (data : Bytes) : Program Bool :=
  match file with
  | none => return false
  | some _ => do
    if ← writeLoop data.length data then return !(← perform .ferror)
    else return false

def applyFlushPolicy (file : Option Bytes) (g_conf_data : Option JsonData) : Program Bool :=
  match file, g_conf_data with
  | some _, some conf => do
    let flushed ← if 1 ≤ conf.flush_log then perform .fflush else pure true
    if flushed then
      if conf.flush_log = 2 then perform .fsync else return true
    else return false
  | _, _ => return false

def flush (g_conf_data : Option JsonData) (roll : RollFileFlush) (batch : Batch) :
    Program RollFileFlush := do
  let (opened, roll) ← ensureFile roll batch.len
  if opened then
    if ← writeAll roll.file_ batch.data then
      let roll := { roll with current_size_ := roll.current_size_ + batch.len }
      let _ ← applyFlushPolicy roll.file_ g_conf_data
      return roll
    else return roll
  else return roll

def destroy (roll : RollFileFlush) : Program Unit :=
  match roll.file_ with
  | none => return ()
  | some _ => do
    let _ ← perform .fclose
    return ()

/-! ### A disk without errors -/

structure Disk where
  files : Bytes → Option Bytes
  /-- the file that is open for appending -/
  stream : Option Bytes
  /-- what was written to the stream and is not in its file yet -/
  buffered : Bytes
  /-- the names of the files made since the start, in order -/
  created : List Bytes

namespace Disk

/-- A file with what its stream holds back. -/
def contents (disk : Disk) (name : Bytes) : Bytes :=
  (disk.files name).getD [] ++ if disk.stream = some name then disk.buffered else []

def make (disk : Disk) (name : Bytes) : Disk where
  files := Function.update disk.files name (some [])
  stream := some name
  buffered := []
  created := disk.created ++ [name]

def hold (disk : Disk) (data : Bytes) : Disk := { disk with buffered := disk.buffered ++ data }

def spill (disk : Disk) (count : Nat) : Disk :=
  match disk.stream with
  | none => disk
  | some name =>
    { disk with
      files := Function.update disk.files name
        (some ((disk.files name).getD [] ++ disk.buffered.take count))
      buffered := disk.buffered.drop count }

def close (disk : Disk) : Disk := { disk.spill disk.buffered.length with stream := none }

end Disk

/-- Every call does its work and a new file's name is free; `fwrite` may be short, and its
stream may hold back any part. -/
def Sound : Env Call.Resp Disk
  | .openAppend name, disk, answer, disk' =>
    disk.files name = none ∧ answer = true ∧ disk' = disk.make name
  | .fileSize name, disk, answer, disk' =>
    answer = (disk.files name).map List.length ∧ disk' = disk
  | .fwrite data, disk, answer, disk' =>
    0 < answer ∧ answer ≤ data.length ∧
      ∃ count, disk' = (disk.hold (data.take answer)).spill count
  | .ferror, disk, answer, disk' => answer = false ∧ disk' = disk
  | .fflush, disk, answer, disk' => answer = true ∧ disk' = disk.spill disk.buffered.length
  | .fsync, disk, answer, disk' => answer = true ∧ disk' = disk
  | .fclose, disk, answer, disk' => answer = true ∧ disk' = disk.close
  | _, disk, _, disk' => disk' = disk

/-! ### Contents -/

section
variable {disk disk' : Disk} {name other : Bytes} {data : Bytes}

namespace Disk

theorem contents_stream (h : disk.stream = some name) :
    disk.contents name = (disk.files name).getD [] ++ disk.buffered := by
  rw [contents, if_pos h]

theorem contents_other (h : disk.stream ≠ some name) :
    disk.contents name = (disk.files name).getD [] := by
  rw [contents, if_neg h, List.append_nil]

@[simp] theorem spill_stream (count : Nat) : (disk.spill count).stream = disk.stream := by
  unfold spill
  split <;> rfl

@[simp] theorem spill_created (count : Nat) : (disk.spill count).created = disk.created := by
  unfold spill
  split <;> rfl

theorem spill_exist (count : Nat) (h : disk.files name ≠ none) :
    (disk.spill count).files name ≠ none := by
  unfold spill
  split
  · exact h
  · rename_i file hstream
    by_cases hname : name = file
    · subst hname
      simp only [Function.update_self, ne_eq, reduceCtorEq, not_false_eq_true]
    · simp only [Function.update_of_ne hname]
      exact h

theorem spill_contents (count : Nat) : (disk.spill count).contents name = disk.contents name := by
  cases hstream : disk.stream with
  | none => rw [spill, hstream]
  | some file =>
    have hafter : (disk.spill count).stream = some file := by rw [spill_stream, hstream]
    by_cases hname : name = file
    · subst hname
      rw [contents_stream hafter, contents_stream hstream, spill, hstream]
      simp only [Function.update_self, Option.getD_some, List.append_assoc, List.take_append_drop]
    · have hne : some file ≠ some name := fun h => hname (Option.some.inj h).symm
      rw [contents_other (hafter ▸ hne), contents_other (hstream ▸ hne), spill, hstream]
      simp only [Function.update_of_ne hname]

theorem spill_all (h : disk.stream = some name) :
    (disk.spill disk.buffered.length).buffered = [] := by
  rw [spill, h]
  simp only [List.drop_length]

theorem close_contents : disk.close.contents name = disk.contents name := by
  have hclosed : disk.close.stream ≠ some name := by
    simp only [close, ne_eq, reduceCtorEq, not_false_eq_true]
  have hspilled := @spill_contents disk name disk.buffered.length
  rw [contents_other hclosed, ← hspilled]
  cases hstream : disk.stream with
  | none =>
    rw [contents_other]
    · rfl
    · rw [spill_stream, hstream]
      simp only [ne_eq, reduceCtorEq, not_false_eq_true]
  | some file =>
    rw [contents, spill_all hstream, ite_self, List.append_nil]
    rfl

theorem make_contents : (disk.make name).contents name = [] := by
  have hstream : (disk.make name).stream = some name := rfl
  rw [contents_stream hstream]
  simp only [make, Function.update_self, Option.getD_some, List.append_nil]

/-- A file is made beside the others, when no stream holds something back. -/
theorem make_other (hclosed : disk.stream = none) (hne : other ≠ name) :
    (disk.make name).contents other = disk.contents other := by
  have hbefore : disk.stream ≠ some other := by
    rw [hclosed]
    simp only [ne_eq, reduceCtorEq, not_false_eq_true]
  have hafter : (disk.make name).stream ≠ some other := fun h => hne (Option.some.inj h).symm
  rw [contents_other hbefore, contents_other hafter]
  simp only [make, Function.update_of_ne hne]

theorem make_exist (hold : other ≠ name → disk.files other ≠ none) :
    (disk.make name).files other ≠ none := by
  by_cases hne : other = name
  · subst hne
    simp only [make, Function.update_self, ne_eq, reduceCtorEq, not_false_eq_true]
  · simp only [make, Function.update_of_ne hne]
    exact hold hne

end Disk

/-- `data` was written to the stream of the file `name`; the other files are as before. -/
structure Grown (name data : Bytes) (disk disk' : Disk) : Prop where
  stream : disk'.stream = disk.stream
  created : disk'.created = disk.created
  exist : ∀ other, disk.files other ≠ none → disk'.files other ≠ none
  written : disk'.contents name = disk.contents name ++ data
  other : ∀ other, other ≠ name → disk'.contents other = disk.contents other

theorem grown_self (disk : Disk) : Grown name [] disk disk :=
  ⟨rfl, rfl, fun _ h => h, (List.append_nil _).symm, fun _ _ => rfl⟩

theorem grown_spill (disk : Disk) (count : Nat) : Grown name [] disk (disk.spill count) where
  stream := disk.spill_stream count
  created := disk.spill_created count
  exist _ h := disk.spill_exist count h
  written := by rw [Disk.spill_contents, List.append_nil]
  other _ _ := Disk.spill_contents count

theorem grown_hold (hstream : disk.stream = some name) (data : Bytes) :
    Grown name data disk (disk.hold data) where
  stream := rfl
  created := rfl
  exist _ h := h
  written := by
    have hafter : (disk.hold data).stream = some name := hstream
    rw [Disk.contents_stream hafter, Disk.contents_stream hstream, List.append_assoc]
    rfl
  other other hne := by
    have hother : disk.stream ≠ some other := by
      rw [hstream]
      exact fun h => hne (Option.some.inj h).symm
    have hafter : (disk.hold data).stream ≠ some other := hother
    rw [Disk.contents_other hafter, Disk.contents_other hother]
    rfl

theorem Grown.trans {disk'' : Disk} {more : Bytes} (h : Grown name data disk disk')
    (h' : Grown name more disk' disk'') : Grown name (data ++ more) disk disk'' where
  stream := h'.stream.trans h.stream
  created := h'.created.trans h.created
  exist other hother := h'.exist other (h.exist other hother)
  written := by rw [h'.written, h.written, List.append_assoc]
  other other hne := (h'.other other hne).trans (h.other other hne)

/-! ### Writing -/

theorem wp_writeLoop (rounds : Nat) (rest : Bytes) (hrounds : rest.length ≤ rounds)
    (hstream : disk.stream = some name) :
    wp Sound (writeLoop rounds rest) (fun answer disk' => answer = true ∧ Grown name rest disk disk')
      (fun _ => True) disk := by
  induction rounds generalizing rest disk with
  | zero =>
    cases rest with
    | nil => exact ⟨rfl, grown_self disk⟩
    | cons b rest =>
      rw [List.length_cons] at hrounds
      omega
  | succ rounds ih =>
    cases rest with
    | nil => exact ⟨rfl, grown_self disk⟩
    | cons b rest =>
      rw [writeLoop]
      · refine wp_perform_bind trivial fun (count : Nat) disk₁ hcall => ?_
        obtain ⟨hpos, hle, spilled, rfl⟩ := hcall
        have hpos : 0 < count := hpos
        rw [if_neg (Nat.ne_of_gt hpos)]
        have hdrop : ((b :: rest).drop count).length ≤ rounds := by
          rw [List.length_drop]
          omega
        have hgrown : Grown name ((b :: rest).take count) disk
            ((disk.hold ((b :: rest).take count)).spill spilled) := by
          have hboth := (grown_hold hstream ((b :: rest).take count)).trans (grown_spill _ spilled)
          rwa [List.append_nil] at hboth
        refine wp_mono (ih _ hdrop (hgrown.stream.trans hstream)) ?_ fun _ h => h
        rintro answer disk₂ ⟨hanswer, hrest⟩
        refine ⟨hanswer, ?_⟩
        have hall := hgrown.trans hrest
        rwa [List.take_append_drop] at hall
      · exact fun h => nomatch h

theorem wp_writeAll (data : Bytes) (hstream : disk.stream = some name) :
    wp Sound (writeAll (some name) data)
      (fun answer disk' => answer = true ∧ Grown name data disk disk') (fun _ => True) disk := by
  unfold writeAll
  refine wp_seq (wp_writeLoop _ data (Nat.le_refl _) hstream) (fun _ h => h) ?_
  rintro answer disk₁ ⟨rfl, hgrown⟩
  rw [if_pos rfl]
  refine wp_perform_bind trivial fun answer disk₂ hcall => ?_
  obtain ⟨rfl, rfl⟩ := hcall
  exact ⟨rfl, hgrown⟩

theorem wp_applyFlushPolicy (g_conf_data : Option JsonData) :
    wp Sound (applyFlushPolicy (some name) g_conf_data)
      (fun answer disk' => answer = g_conf_data.isSome ∧ Grown name [] disk disk')
      (fun _ => True) disk := by
  have hsync : ∀ (conf : JsonData) (disk₁ : Disk), Grown name [] disk disk₁ →
      wp Sound (if conf.flush_log = 2 then perform .fsync else return true)
        (fun answer disk' => answer = true ∧ Grown name [] disk disk') (fun _ => True) disk₁ := by
    intro conf disk₁ hgrown
    by_cases htwo : conf.flush_log = 2
    · rw [if_pos htwo]
      refine ⟨trivial, fun answer disk₂ hcall => ?_⟩
      obtain ⟨rfl, rfl⟩ := hcall
      exact ⟨rfl, hgrown⟩
    · rw [if_neg htwo]
      exact ⟨rfl, hgrown⟩
  cases g_conf_data with
  | none => exact ⟨rfl, grown_self disk⟩
  | some conf =>
    unfold applyFlushPolicy
    by_cases hone : 1 ≤ conf.flush_log
    · simp only [if_pos hone]
      refine wp_perform_bind trivial fun answer disk₁ hcall => ?_
      obtain ⟨rfl, rfl⟩ := hcall
      exact hsync conf _ (grown_spill disk _)
    · simp only [if_neg hone]
      exact hsync conf disk (grown_self disk)

end

/-! ### Names -/

/-- Whatever the clock and the process, the number tells two names apart. -/
theorem filename_sequence {basename timestamp timestamp' : Bytes} {micros micros' pid pid' : Nat}
    {sequence sequence' : UInt64}
    (h : filename basename timestamp micros pid sequence =
      filename basename timestamp' micros' pid' sequence') : sequence = sequence' := by
  have hmark : ∀ number : Nat, (45 : Byte) ∉ decimal number ++ lit ".log" := by
    intro number hmem
    rcases List.mem_append.mp hmem with hmem | hmem
    · have := (decimal_digit hmem).1
      exact absurd this (by decide)
    · exact absurd hmem (by decide +kernel)
  have htail := (last_mark_inj (hmark _) (hmark _) h).2
  exact UInt64.toNat_inj.mp (decimal_inj (List.append_cancel_right htail))

theorem wp_createFilename (roll : RollFileFlush) (disk : Disk) :
    wp Sound (createFilename roll)
      (fun out disk' => disk' = disk ∧ out.2 = { roll with sequence_ := roll.sequence_ + 1 } ∧
        ∃ timestamp micros pid,
          out.1 = filename roll.basename_ timestamp micros pid roll.sequence_)
      (fun _ => True) disk := by
  unfold createFilename
  refine wp_perform_bind trivial fun now disk₁ hcall => ?_
  have hcall : disk₁ = disk := hcall
  subst hcall
  refine wp_perform_bind trivial fun timestamp disk₂ hcall => ?_
  have hcall : disk₂ = disk₁ := hcall
  subst hcall
  refine wp_perform_bind trivial fun pid disk₃ hcall => ?_
  have hcall : disk₃ = disk₂ := hcall
  subst hcall
  exact ⟨rfl, rfl, timestamp, _, pid, rfl⟩

/-! ### The space that is left -/

/-- The saturating subtraction stays in range for every two words. -/
theorem remaining_exact (max_size current : UInt64) :
    (remaining max_size current).toNat + min current.toNat max_size.toNat = max_size.toNat := by
  unfold remaining
  have hmin : (min current max_size).toNat = min current.toNat max_size.toNat := by
    show (if current ≤ max_size then current else max_size).toNat = _
    rw [Nat.min_def]
    simp only [UInt64.le_iff_toNat_le]
    split
    · rfl
    · rfl
  have hle : min current max_size ≤ max_size := by
    rw [UInt64.le_iff_toNat_le, hmin]
    omega
  rw [UInt64.toNat_sub_of_le _ _ hle, hmin]
  omega

/-- A batch joins a file that is empty, or that has the space. -/
def Joins (limit : Nat) (group : List Bytes) (data : Bytes) : Prop :=
  group.flatten = [] ∨ data.length ≤ limit - group.flatten.length

instance (limit : Nat) (group : List Bytes) (data : Bytes) : Decidable (Joins limit group data) :=
  inferInstanceAs (Decidable (_ ∨ _))

theorem Batch.len_toNat (batch : Batch) : batch.len.toNat = batch.data.length := by
  rw [Batch.len, UInt64.toNat_ofNat', Nat.mod_eq_of_lt batch.bounded]

section
variable {max_size current : UInt64} {group : List Bytes}

theorem fits_iff (hsize : current.toNat = group.flatten.length) (batch : Batch) :
    current = 0 ∨ batch.len ≤ remaining max_size current ↔
      Joins max_size.toNat group batch.data := by
  have hspace := remaining_exact max_size current
  rw [Joins, UInt64.le_iff_toNat_le, batch.len_toNat, ← List.length_eq_zero_iff, ← hsize,
    ← UInt64.toNat_inj]
  have hzero : (0 : UInt64).toNat = 0 := rfl
  rw [hzero]
  omega

theorem grown_size (hsize : current.toNat = group.flatten.length) {batch : Batch}
    (hjoins : Joins max_size.toNat group batch.data) :
    (current + batch.len).toNat = (group ++ [batch.data]).flatten.length := by
  have hmax := max_size.toNat_lt
  have hcurrent := current.toNat_lt
  have hbatch := batch.bounded
  have hsmall : current.toNat + batch.data.length < 2 ^ 64 := by
    rcases hjoins with hempty | hle
    · rw [hsize, hempty, List.length_nil]
      omega
    · omega
  rw [UInt64.toNat_add, batch.len_toNat, Nat.mod_eq_of_lt hsmall, hsize]
  simp only [List.flatten_append, List.flatten_cons, List.flatten_nil, List.append_nil,
    List.length_append]

end

/-- Within the limit, or the bytes of one batch. -/
def Limited (limit : Nat) (group : List Bytes) : Prop :=
  group.flatten.length ≤ limit ∨ ∃ data ∈ group, group.flatten = data

theorem limited_snoc {limit : Nat} {group : List Bytes} {data : Bytes} (h : Limited limit group)
    (hjoins : Joins limit group data) : Limited limit (group ++ [data]) := by
  have hflatten : (group ++ [data]).flatten = group.flatten ++ data := by
    simp only [List.flatten_append, List.flatten_cons, List.flatten_nil, List.append_nil]
  unfold Limited
  rw [hflatten]
  rcases hjoins with hempty | hspace
  · right
    exact ⟨data, by simp, by rw [hempty, List.nil_append]⟩
  · by_cases hsize : group.flatten.length ≤ limit
    · left
      rw [List.length_append]
      omega
    · -- there is no space, so the batch is empty
      obtain ⟨only, hmem, honly⟩ := h.resolve_left hsize
      have hnil : data = [] := List.eq_nil_of_length_eq_zero (by omega)
      right
      exact ⟨only, List.mem_append_left _ hmem, by rw [hnil, List.append_nil, honly]⟩

/-! ### The invariant -/

/-- The files made so far hold the groups, one each, and carry the numbers from 1. -/
structure Files (basename : Bytes) (max_size : UInt64) (groups : List (List Bytes))
    (roll : RollFileFlush) (disk : Disk) : Prop where
  limit : roll.max_size_ = max_size
  base : roll.basename_ = basename
  contents : disk.created.map disk.contents = groups.map List.flatten
  exist : ∀ name ∈ disk.created, disk.files name ≠ none
  distinct : disk.created.Nodup
  sequence : roll.sequence_ = UInt64.ofNat (disk.created.length + 1)
  names : ∀ i name, disk.created[i]? = some name → ∃ timestamp micros pid,
    name = filename basename timestamp micros pid (UInt64.ofNat (i + 1))

/-- The last of them is open, and `current_size_` is its size. -/
structure Stores (basename : Bytes) (max_size : UInt64) (groups : List (List Bytes))
    (roll : RollFileFlush) (disk : Disk) : Prop extends Files basename max_size groups roll disk where
  file : roll.file_ = disk.created.getLast?
  stream : disk.stream = roll.file_
  size : roll.current_size_.toNat = (groups.getLast?.getD []).flatten.length

section
variable {basename : Bytes} {max_size : UInt64} {groups : List (List Bytes)} {group : List Bytes}
  {roll : RollFileFlush} {disk disk' : Disk}

theorem Files.length (h : Files basename max_size groups roll disk) :
    disk.created.length = groups.length := by
  have hlength := congrArg List.length h.contents
  simpa only [List.length_map] using hlength

/-- In the first 2^64 - 2 files no name comes twice, whatever the clock and the process say. -/
theorem Files.name_fresh (h : Files basename max_size groups roll disk)
    (hfew : groups.length + 1 < 2 ^ 64) (timestamp : Bytes) (micros pid : Nat) :
    filename basename timestamp micros pid roll.sequence_ ∉ disk.created := by
  intro hmem
  obtain ⟨i, hi⟩ := List.mem_iff_getElem?.mp hmem
  obtain ⟨timestamp', micros', pid', hname⟩ := h.names i _ hi
  obtain ⟨hlt, -⟩ := List.getElem?_eq_some_iff.mp hi
  have hsequence := filename_sequence hname
  rw [h.sequence, ← UInt64.toNat_inj, UInt64.toNat_ofNat', UInt64.toNat_ofNat'] at hsequence
  have hlength := h.length
  rw [Nat.mod_eq_of_lt (by omega), Nat.mod_eq_of_lt (by omega)] at hsequence
  omega

theorem Files.made (h : Files basename max_size groups roll disk) (hclosed : disk.stream = none)
    {name timestamp : Bytes} {micros pid : Nat} (hfree : disk.files name = none)
    (hname : name = filename basename timestamp micros pid roll.sequence_) :
    Stores basename max_size (groups ++ [[]])
      { roll with
        sequence_ := roll.sequence_ + 1
        file_ := some name
        current_size_ := UInt64.ofNat 0 } (disk.make name) := by
  have hnew : name ∉ disk.created := fun hmem => h.exist name hmem hfree
  refine { limit := h.limit, base := h.base, contents := ?_, exist := ?_, distinct := ?_,
           sequence := ?_, names := ?_, file := ?_, stream := rfl, size := ?_ }
  · have hkept : disk.created.map (disk.make name).contents = disk.created.map disk.contents :=
      List.map_congr_left fun other hmem =>
        Disk.make_other hclosed fun he => hnew (he ▸ hmem)
    show (disk.created ++ [name]).map _ = _
    rw [List.map_append, hkept, h.contents, List.map_append, List.map_cons, List.map_nil,
      Disk.make_contents]
    rfl
  · intro other hmem
    have hold : other ≠ name → other ∈ disk.created := fun hne =>
      (List.mem_append.mp hmem).resolve_right fun hlast => hne (List.mem_singleton.mp hlast)
    exact Disk.make_exist fun hne => h.exist other (hold hne)
  · show (disk.created ++ [name]).Nodup
    rw [List.nodup_append]
    refine ⟨h.distinct, List.nodup_singleton _, fun other hmem last hlast he => hnew ?_⟩
    rw [← List.mem_singleton.mp hlast, ← he]
    exact hmem
  · show roll.sequence_ + 1 = UInt64.ofNat ((disk.created ++ [name]).length + 1)
    rw [h.sequence, List.length_append, List.length_singleton,
      UInt64.ofNat_add (disk.created.length + 1) 1]
    rfl
  · intro i other hi
    have hi : (disk.created ++ [name])[i]? = some other := hi
    rcases Nat.lt_or_ge i disk.created.length with hlt | hge
    · rw [List.getElem?_append_left hlt] at hi
      exact h.names i other hi
    · rw [List.getElem?_append_right hge] at hi
      obtain ⟨hlast, hother⟩ := List.getElem?_eq_some_iff.mp hi
      have hi : i = disk.created.length := by
        rw [List.length_singleton] at hlast
        omega
      rw [List.getElem_singleton] at hother
      refine ⟨timestamp, micros, pid, ?_⟩
      rw [← hother, hname, h.sequence, hi]
  · exact List.getLast?_concat.symm
  · rw [List.getLast?_concat]
    rfl

theorem wp_openNext (h : Files basename max_size groups roll disk) (hclosed : disk.stream = none) :
    wp Sound (openNext roll)
      (fun out disk' => out.1 = true ∧ Stores basename max_size (groups ++ [[]]) out.2 disk')
      (fun _ => True) disk := by
  unfold openNext
  refine wp_seq (wp_createFilename roll disk) (fun _ h => h) ?_
  rintro ⟨name, roll₁⟩ disk₁ ⟨rfl, hroll, timestamp, micros, pid, hname⟩
  have hroll : roll₁ = { roll with sequence_ := roll.sequence_ + 1 } := hroll
  subst hroll
  have hname : name = filename roll.basename_ timestamp micros pid roll.sequence_ := hname
  refine wp_perform_bind trivial fun answer disk₂ hcall => ?_
  obtain ⟨hfree, rfl, rfl⟩ := hcall
  rw [if_pos rfl]
  refine wp_perform_bind trivial fun answer disk₃ hcall => ?_
  obtain ⟨rfl, rfl⟩ := hcall
  rw [h.base] at hname
  have hmade := h.made hclosed hfree hname
  have hsize : ((disk₁.make name).files name).map List.length = some 0 := by
    simp only [Disk.make, Function.update_self, Option.map_some, List.length_nil]
  simp only [hsize]
  exact ⟨rfl, hmade⟩

/-- What is made stays made: another disk with the same files, longer perhaps. -/
theorem Files.kept {groups' : List (List Bytes)} {roll' : RollFileFlush}
    (h : Files basename max_size groups roll disk) (hlimit : roll'.max_size_ = roll.max_size_)
    (hbase : roll'.basename_ = roll.basename_) (hsequence : roll'.sequence_ = roll.sequence_)
    (hcreated : disk'.created = disk.created)
    (hexist : ∀ name, disk.files name ≠ none → disk'.files name ≠ none)
    (hcontents : disk.created.map disk'.contents = groups'.map List.flatten) :
    Files basename max_size groups' roll' disk' := by
  refine { limit := hlimit.trans h.limit, base := hbase.trans h.base, contents := ?_, exist := ?_,
           distinct := ?_, sequence := ?_, names := ?_ }
  · rw [hcreated]
    exact hcontents
  · intro name hmem
    rw [hcreated] at hmem
    exact hexist name (h.exist name hmem)
  · rw [hcreated]
    exact h.distinct
  · rw [hcreated, hsequence]
    exact h.sequence
  · intro i name hi
    rw [hcreated] at hi
    exact h.names i name hi

theorem Files.closed (h : Files basename max_size groups roll disk) :
    Files basename max_size groups { roll with file_ := none } disk.close := by
  refine h.kept rfl rfl rfl (disk.spill_created _) (fun _ => disk.spill_exist _) ?_
  rw [← h.contents]
  exact List.map_congr_left fun name _ => Disk.close_contents

/-- After `EnsureFile` the batch belongs into the file that is open. -/
structure Ready (basename : Bytes) (max_size : UInt64) (groups : List (List Bytes)) (batch : Batch)
    (before : List (List Bytes)) (group : List Bytes) (roll : RollFileFlush) (disk : Disk) : Prop where
  stores : Stores basename max_size (before ++ [group]) roll disk
  joins : Joins max_size.toNat group batch.data
  placed : NextFit.place (Joins max_size.toNat) groups batch.data = before ++ [group ++ [batch.data]]

theorem wp_ensureFile (h : Stores basename max_size groups roll disk) (batch : Batch) :
    wp Sound (ensureFile roll batch.len)
      (fun out disk' => out.1 = true ∧ ∃ before group,
        Ready basename max_size groups batch before group out.2 disk')
      (fun _ => True) disk := by
  have hempty : Joins max_size.toNat [] batch.data := .inl rfl
  unfold ensureFile
  cases hfile : roll.file_ with
  | none =>
    have hnone : groups = [] := by
      have hcreated : disk.created = [] := by
        rw [h.file] at hfile
        exact List.getLast?_eq_none_iff.mp hfile
      have hlength := h.length
      rw [hcreated] at hlength
      exact List.eq_nil_of_length_eq_zero hlength.symm
    refine wp_mono (wp_openNext h.toFiles (h.stream.trans hfile)) ?_ fun _ h => h
    rintro ⟨opened, roll'⟩ disk' ⟨hopened, hstores⟩
    refine ⟨hopened, groups, [], hstores, hempty, ?_⟩
    rw [hnone]
    rfl
  | some name =>
    obtain ⟨before, group, rfl⟩ : ∃ before group, groups = before ++ [group] := by
      cases groups using List.reverseRecOn with
      | nil =>
        have hnil : disk.created = [] := List.eq_nil_of_length_eq_zero h.length
        rw [h.file, hnil] at hfile
        cases hfile
      | append_singleton before group => exact ⟨before, group, rfl⟩
    have hsize : roll.current_size_.toNat = group.flatten.length := by
      rw [h.size, List.getLast?_concat]
      rfl
    have hfits : roll.current_size_ = 0 ∨
        batch.len ≤ remaining roll.max_size_ roll.current_size_ ↔
          Joins max_size.toNat group batch.data := by
      rw [h.limit]
      exact fits_iff hsize batch
    simp only [hfits]
    by_cases hjoins : Joins max_size.toNat group batch.data
    · rw [if_pos hjoins]
      exact ⟨rfl, before, group, h, hjoins, NextFit.place_joined hjoins⟩
    · rw [if_neg hjoins]
      refine wp_perform_bind trivial fun answer disk₁ hcall => ?_
      obtain ⟨rfl, rfl⟩ := hcall
      have hclosed : disk.close.stream = none := rfl
      refine wp_mono (wp_openNext h.toFiles.closed hclosed) ?_ fun _ h => h
      rintro ⟨opened, roll'⟩ disk' ⟨hopened, hstores⟩
      exact ⟨hopened, before ++ [group], [], hstores, hempty, NextFit.place_apart hjoins⟩

theorem Stores.grown {name : Bytes} {batch : Batch}
    (h : Stores basename max_size (groups ++ [group]) roll disk) (hfile : roll.file_ = some name)
    (hgrown : Grown name batch.data disk disk') (hjoins : Joins max_size.toNat group batch.data) :
    Stores basename max_size (groups ++ [group ++ [batch.data]])
      { roll with current_size_ := roll.current_size_ + batch.len } disk' := by
  obtain ⟨others, hcreated⟩ := List.getLast?_eq_some_iff.mp (h.file ▸ hfile)
  have hnew : name ∉ others := by
    have hdistinct := h.distinct
    rw [hcreated, List.nodup_append] at hdistinct
    exact fun hmem => hdistinct.2.2 name hmem name (List.mem_singleton_self _) rfl
  have hcontents := h.contents
  rw [hcreated, List.map_append, List.map_append] at hcontents
  obtain ⟨hbefore, hlast⟩ := List.append_inj' hcontents rfl
  have hkept : others.map disk'.contents = others.map disk.contents :=
    List.map_congr_left fun other hmem => hgrown.other other fun he => hnew (he ▸ hmem)
  have hlast : disk.contents name = group.flatten := (List.cons.inj hlast).1
  have hall : disk.created.map disk'.contents =
      (groups ++ [group ++ [batch.data]]).map List.flatten := by
    rw [hcreated, List.map_append, hkept, hbefore, List.map_append, List.map_cons, List.map_nil,
      hgrown.written, hlast]
    simp only [List.map_cons, List.map_nil, List.flatten_append, List.flatten_cons,
      List.flatten_nil, List.append_nil]
  refine { h.toFiles.kept rfl rfl rfl hgrown.created hgrown.exist hall with
           file := ?_, stream := hgrown.stream.trans h.stream, size := ?_ }
  · rw [hgrown.created]
    exact h.file
  · have hsize : roll.current_size_.toNat = group.flatten.length := by
      rw [h.size, List.getLast?_concat]
      rfl
    rw [List.getLast?_concat]
    exact grown_size hsize hjoins

theorem Stores.current_size {name : Bytes} (h : Stores basename max_size groups roll disk)
    (hfile : roll.file_ = some name) : roll.current_size_.toNat = (disk.contents name).length := by
  have hlast := congrArg List.getLast? h.contents
  rw [List.getLast?_map, List.getLast?_map, ← h.file, hfile] at hlast
  obtain ⟨group, hgroup, hflatten⟩ := Option.map_eq_some_iff.mp hlast.symm
  rw [h.size, hgroup, ← hflatten]
  rfl

theorem wp_flush (g_conf_data : Option JsonData)
    (h : Stores basename max_size groups roll disk) (batch : Batch) :
    wp Sound (flush g_conf_data roll batch)
      (Stores basename max_size (NextFit.place (Joins max_size.toNat) groups batch.data))
      (fun _ => True) disk := by
  unfold flush
  refine wp_seq (wp_ensureFile h batch) (fun _ h => h) ?_
  rintro ⟨opened, ⟨limit, base, size, sequence, file, positive⟩⟩ disk₁
    ⟨hopened, before, group, hready⟩
  have hopened : opened = true := hopened
  subst hopened
  rw [hready.placed]
  have hstores := hready.stores
  cases file with
  | none =>
    -- there are files, so the last one is open
    have hcreated : disk₁.created = [] := List.getLast?_eq_none_iff.mp hstores.file.symm
    have hlength := hstores.length
    rw [hcreated, List.length_append, List.length_singleton, List.length_nil] at hlength
    omega
  | some name =>
    refine wp_seq (wp_writeAll batch.data hstores.stream) (fun _ h => h) ?_
    rintro answer disk₂ ⟨rfl, hgrown⟩
    rw [if_pos rfl]
    refine wp_seq (wp_applyFlushPolicy g_conf_data) (fun _ h => h) ?_
    rintro answer disk₃ ⟨-, hflushed⟩
    have hboth := hgrown.trans hflushed
    rw [List.append_nil] at hboth
    exact hstores.grown rfl hboth hready.joins

end

/-! ### Runs -/

/-- Calls of `Flush` one after the other, with the object between them. -/
abbrev FlushRun (g_conf_data : Option JsonData) :
    RollFileFlush × Disk → List Batch → RollFileFlush × Disk → Prop :=
  Transition.Run fun s batch s' => Runs Sound (flush g_conf_data s.1 batch) s.2 s'.1 s'.2

/-- The batches, file by file. -/
def rolled (max_size : UInt64) (batches : List Batch) : List (List Bytes) :=
  NextFit.fill (Joins max_size.toNat) (batches.map Batch.data)

section
variable {g_conf_data : Option JsonData} {basename : Bytes} {max_size : UInt64}
  {roll roll' : RollFileFlush} {disk disk₀ disk' : Disk} {batches : List Batch}

theorem wp_new (basename : Bytes) (max_size : UInt64) (disk : Disk) :
    wp Sound (new basename max_size)
      (fun out disk' => disk' = disk ∧ ∀ roll, out = .ok roll →
        roll.max_size_ = max_size ∧ roll.basename_ = basename ∧ roll.current_size_ = 0 ∧
          roll.sequence_ = 1 ∧ roll.file_ = none)
      (fun _ => True) disk := by
  have hdirectory : ∀ pathname, wp Sound (createDirectory pathname) (fun _ disk' => disk' = disk)
      (fun _ => True) disk := by
    intro pathname
    unfold createDirectory
    split
    · rfl
    · refine wp_perform_bind trivial fun found disk₁ hcall => ?_
      have hcall : disk₁ = disk := hcall
      subst hcall
      split
      · exact ⟨trivial, fun _ _ hcall => hcall⟩
      · exact ⟨trivial, fun _ _ hcall => hcall⟩
  unfold new
  split
  · exact ⟨rfl, fun roll h => nomatch h⟩
  · refine wp_seq (hdirectory _) (fun _ h => h) ?_
    rintro made disk₁ rfl
    split
    · refine ⟨rfl, fun roll h => ?_⟩
      cases h
      exact ⟨rfl, rfl, rfl, rfl, rfl⟩
    · exact ⟨rfl, fun roll h => nomatch h⟩

theorem stores_new (hnone : disk.created = []) (hclosed : disk.stream = none)
    (hnew : Runs Sound (new basename max_size) disk (.ok roll) disk₀) :
    Stores basename max_size [] roll disk₀ := by
  obtain ⟨hdisk, hfields⟩ := wp_runs (wp_new basename max_size disk) hnew
  obtain ⟨hlimit, hbase, hsize, hsequence, hfile⟩ := hfields roll rfl
  rw [hdisk]
  refine { limit := hlimit, base := hbase, contents := ?_, exist := ?_, distinct := ?_,
           sequence := ?_, names := ?_, file := ?_, stream := ?_, size := ?_ }
  · rw [hnone]
    rfl
  · rw [hnone]
    intro name hmem
    cases hmem
  · rw [hnone]
    exact List.nodup_nil
  · rw [hsequence, hnone]
    rfl
  · rw [hnone]
    intro i name hi
    cases hi
  · rw [hfile, hnone]
    rfl
  · rw [hfile, hclosed]
  · rw [hsize]
    rfl

theorem run_rolled (h : Stores basename max_size [] roll disk)
    (hrun : FlushRun g_conf_data (roll, disk) batches (roll', disk')) :
    Stores basename max_size (rolled max_size batches) roll' disk' := by
  have hI : ∀ (log : List Batch) (s : RollFileFlush × Disk) (batch : Batch)
      (s' : RollFileFlush × Disk),
      Stores basename max_size (rolled max_size log) s.1 s.2 →
      Runs Sound (flush g_conf_data s.1 batch) s.2 s'.1 s'.2 →
      Stores basename max_size (rolled max_size (log ++ [batch])) s'.1 s'.2 := by
    intro log s batch s' hs hflush
    rw [rolled, List.map_append, List.map_singleton, NextFit.fill_snoc]
    exact wp_runs (wp_flush g_conf_data hs batch) hflush
  exact Transition.Run.invariant hI hrun h

/-- The files in the order of their creation hold the batches in the order of the calls. -/
theorem rolling_keeps_stream (hnone : disk.created = []) (hclosed : disk.stream = none)
    (hnew : Runs Sound (new basename max_size) disk (.ok roll) disk₀)
    (hrun : FlushRun g_conf_data (roll, disk₀) batches (roll', disk')) :
    disk'.created.Nodup ∧
      disk'.created.map disk'.contents = (rolled max_size batches).map List.flatten ∧
      (rolled max_size batches).flatten = batches.map Batch.data ∧
      (disk'.created.map disk'.contents).flatten = (batches.map Batch.data).flatten ∧
      (∀ group ∈ rolled max_size batches, group.flatten.length ≤ max_size.toNat ∨
        ∃ data ∈ group, group.flatten = data) ∧
      roll'.file_ = disk'.created.getLast? ∧
      (∀ name, roll'.file_ = some name →
        roll'.current_size_.toNat = (disk'.contents name).length) ∧
      ((rolled max_size batches).length + 1 < 2 ^ 64 → ∀ timestamp micros pid,
        filename basename timestamp micros pid roll'.sequence_ ∉ disk'.created) ∧
      ∀ limit current : UInt64,
        (remaining limit current).toNat + min current.toNat limit.toNat = limit.toNat := by
  have hstores := run_rolled (stores_new hnone hclosed hnew) hrun
  have hflatten : (rolled max_size batches).flatten = batches.map Batch.data :=
    NextFit.flatten_fill _
  refine ⟨hstores.distinct, hstores.contents, hflatten, ?_, ?_, hstores.file,
    fun name => hstores.current_size, hstores.name_fresh, remaining_exact⟩
  · rw [hstores.contents, ← hflatten, List.flatten_flatten]
  · have hone : ∀ data, Limited max_size.toNat [data] :=
      fun data => .inr ⟨data, List.mem_singleton_self _, List.flatten_singleton⟩
    exact NextFit.fill_forall hone (fun _ _ => limited_snoc) _

/-- When the object is gone, the files hold what their streams held back. -/
theorem destroy_files {groups : List (List Bytes)} (h : Stores basename max_size groups roll disk)
    (hrun : Runs Sound (destroy roll) disk () disk') :
    disk'.created = disk.created ∧
      disk'.created.map disk'.files = groups.map fun group => some group.flatten := by
  have hend : wp Sound (destroy roll)
      (fun _ disk' => disk'.stream = none ∧ disk'.created = disk.created ∧
        (∀ name ∈ disk.created, disk'.files name ≠ none) ∧ disk'.contents = disk.contents)
      (fun _ => True) disk := by
    unfold destroy
    split
    · rename_i hfile
      exact ⟨h.stream.trans hfile, rfl, h.exist, rfl⟩
    · refine wp_perform_bind trivial fun answer disk₁ hcall => ?_
      obtain ⟨rfl, rfl⟩ := hcall
      exact ⟨rfl, disk.spill_created _, fun name hmem => disk.spill_exist _ (h.exist name hmem),
        funext fun name => Disk.close_contents⟩
  obtain ⟨hclosed, hcreated, hexist, hcontents⟩ := wp_runs hend hrun
  refine ⟨hcreated, ?_⟩
  have hfiles : disk'.created.map disk'.files = (disk.created.map disk.contents).map some := by
    rw [hcreated, List.map_map]
    refine List.map_congr_left fun name hmem => ?_
    have hother : disk'.stream ≠ some name := by
      rw [hclosed]
      simp only [ne_eq, reduceCtorEq, not_false_eq_true]
    rw [Function.comp_apply, ← hcontents, Disk.contents_other hother]
    cases hfile : disk'.files name with
    | none => exact absurd hfile (hexist name hmem)
    | some content => rfl
  rw [hfiles, h.contents, List.map_map]
  rfl

end

/-! ### A recorded run -/

/-- The answers of a disk without errors; a choice is the time of the clock and bounds what one
`fwrite` takes. -/
def answer (disk : Disk) (c : Call) (choice : Nat) : c.Resp × Disk :=
  match c with
  | .exists _ => (true, disk)
  | .isDirectory _ => (true, disk)
  | .createDirectories _ => (true, disk)
  | .now => (choice, disk)
  | .localTime _ => (lit "20250101-000000", disk)
  | .getpid => (choice, disk)
  | .openAppend name => (true, disk.make name)
  | .fileSize name => ((disk.files name).map List.length, disk)
  | .fwrite data =>
    (min choice data.length, (disk.hold (data.take (min choice data.length))).spill 1)
  | .ferror => (false, disk)
  | .fflush => (true, disk.spill disk.buffered.length)
  | .fsync => (true, disk)
  | .fclose => (true, disk.close)

def admits (disk : Disk) : (c : Call) → c.Resp → Bool
  | .openAppend name, _ => (disk.files name).isNone
  | .fwrite _, count => decide (0 < (count : Nat))
  | _, _ => true

theorem answer_sound (disk : Disk) (c : Call) (choice : Nat)
    (h : admits disk c (answer disk c choice).1 = true) :
    Sound c disk (answer disk c choice).1 (answer disk c choice).2 := by
  cases c with
  | openAppend name => exact ⟨Option.isNone_iff_eq_none.mp h, rfl, rfl⟩
  | fwrite data => exact ⟨of_decide_eq_true h, Nat.min_le_right _ _, 1, rfl⟩
  | «exists» path => rfl
  | isDirectory path => rfl
  | createDirectories path => rfl
  | now => rfl
  | localTime seconds => rfl
  | getpid => rfl
  | _ => exact ⟨rfl, rfl⟩

/-- One `Flush` played from a list of choices. -/
def playFlush (s : RollFileFlush × Disk) (input : Batch × List Nat) :
    Option (Batch × (RollFileFlush × Disk)) :=
  (play answer admits (flush none s.1 input.1) input.2 s.2).1.result.map fun roll =>
    (input.1, (roll, (play answer admits (flush none s.1 input.1) input.2 s.2).2))

theorem playFlush_runs (s : RollFileFlush × Disk) (input : Batch × List Nat) (batch : Batch)
    (s' : RollFileFlush × Disk) (h : playFlush s input = some (batch, s')) :
    Runs Sound (flush none s.1 batch) s.2 s'.1 s'.2 := by
  obtain ⟨roll, hresult, hdone⟩ := Option.map_eq_some_iff.mp h
  cases hdone
  exact play_runs answer_sound hresult

def blank : Disk := ⟨fun _ => none, none, [], []⟩

def sampleRoll : RollFileFlush := ⟨3, lit "log/cloud", 0, 1, none, by decide⟩

/-- Two that fit, one larger than the limit, an empty one and a last one. -/
def sampleBatches : List (Batch × List Nat) :=
  [(⟨lit "ab", by decide⟩, List.replicate 20 1), (⟨lit "c", by decide⟩, List.replicate 20 2),
    (⟨lit "large", by decide⟩, List.replicate 20 2), (⟨[], by decide⟩, List.replicate 20 2),
    (⟨lit "d", by decide⟩, List.replicate 20 2)]

theorem rolling_keeps_stream_sample : ∃ batches roll disk,
    Runs Sound (new (lit "log/cloud") 3) blank (.ok sampleRoll) blank ∧
    FlushRun none (sampleRoll, blank) batches (roll, disk) ∧
    disk.created.map disk.contents = [lit "abc", lit "large", lit "d"] ∧
    disk.created.Nodup ∧
      disk.created.map disk.contents = (rolled 3 batches).map List.flatten ∧
      (rolled 3 batches).flatten = batches.map Batch.data ∧
      (disk.created.map disk.contents).flatten = (batches.map Batch.data).flatten ∧
      (∀ group ∈ rolled 3 batches, group.flatten.length ≤ (3 : UInt64).toNat ∨
        ∃ data ∈ group, group.flatten = data) ∧
      roll.file_ = disk.created.getLast? ∧
      (∀ name, roll.file_ = some name →
        roll.current_size_.toNat = (disk.contents name).length) ∧
      ((rolled 3 batches).length + 1 < 2 ^ 64 → ∀ timestamp micros pid,
        filename (lit "log/cloud") timestamp micros pid roll.sequence_ ∉ disk.created) ∧
      ∀ limit current : UInt64,
        (remaining limit current).toNat + min current.toNat limit.toNat = limit.toNat := by
  have hresult : (play answer admits (new (lit "log/cloud") 3) [1, 1] blank).1.result =
      some (.ok sampleRoll) := by
    decide +kernel
  have hnew : Runs Sound (new (lit "log/cloud") 3) blank (.ok sampleRoll) blank :=
    play_runs answer_sound hresult
  have hplay : (Transition.Run.play playFlush (sampleRoll, blank) sampleBatches).any
      (fun done => decide (done.2.2.created.map done.2.2.contents =
        [lit "abc", lit "large", lit "d"])) = true := by
    decide +kernel
  obtain ⟨⟨batches, roll, disk⟩, hplayed, hdone⟩ := (Option.any_eq_true _ _).mp hplay
  have hrun : FlushRun none (sampleRoll, blank) batches (roll, disk) :=
    Transition.Run.of_play playFlush_runs hplayed
  exact ⟨batches, roll, disk, hnew, hrun, of_decide_eq_true hdone,
    rolling_keeps_stream rfl rfl hnew hrun⟩

end RollFileFlush
end CloudStorage
