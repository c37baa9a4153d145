import CloudStorage.BackupFile
import Mathlib.Data.List.Induction

/-!
# What rotation keeps

The history of a backup file as the sequence of its generations: the messages
of every former file and of the one being written. On disk are the last
`retained_files_` former ones, under their numbers, and the current one.
-/

namespace CloudStorage
open Posix Interact

namespace BackupFileWriter

/-- Former files, oldest first, and the current one, each by its messages. -/
structure Generations where
  former : List (List Bytes)
  current : List Bytes

def recordsOf (messages : List Bytes) : Bytes := messages.flatMap record

/-- A message goes to the current file while it fits, else to a new one. -/
def Generations.next (writer : Writer) (g : Generations) (message : Bytes) : Generations :=
  if writer.fits (recordsOf g.current).length message.length then
    { g with current := g.current ++ [message] }
  else ⟨g.former ++ [g.current], [message]⟩

def generations (writer : Writer) (messages : List Bytes) : Generations :=
  messages.foldl (Generations.next writer) ⟨[], []⟩

theorem generations_snoc (writer : Writer) (messages : List Bytes) (message : Bytes) :
    generations writer (messages ++ [message]) =
      (generations writer messages).next writer message := by
  simp only [generations, List.foldl_append, List.foldl_cons, List.foldl_nil]

/-- Every message is in exactly one of them, in the order of the writes. -/
theorem generations_messages (writer : Writer) (messages : List Bytes) :
    (generations writer messages).former.flatten ++ (generations writer messages).current =
      messages := by
  induction messages using List.reverseRecOn with
  | nil => rfl
  | append_singleton messages message ih =>
    rw [generations_snoc, Generations.next]
    split
    · simp only [← List.append_assoc, ih]
    · simp only [List.flatten_append, List.flatten_cons, List.flatten_nil, List.append_nil, ih]

theorem recordsOf_append (a b : List Bytes) : recordsOf (a ++ b) = recordsOf a ++ recordsOf b :=
  List.flatMap_append ..

/-- A file with these messages; there is none without a message. -/
def fileOf (messages : List Bytes) : Option Bytes :=
  if messages = [] then none else some (recordsOf messages)

theorem fileOf_getD (messages : List Bytes) : (fileOf messages).getD [] = recordsOf messages := by
  unfold fileOf
  split
  · rename_i h
    rw [h]
    rfl
  · rfl

theorem fileOf_snoc (messages : List Bytes) (message : Bytes) :
    fileOf (messages ++ [message]) = some (recordsOf messages ++ record message) := by
  have hne : messages ++ [message] ≠ [] := by simp
  rw [fileOf, if_neg hne, recordsOf_append]
  simp only [recordsOf, List.flatMap_cons, List.flatMap_nil, List.append_nil]

/-- The files on disk are the last generations. -/
structure Stores (writer : Writer) (g : Generations) (files : Files) : Prop where
  current : files writer.filename_ = fileOf g.current
  former : ∀ i, 1 ≤ i → i ≤ writer.retained_files_ →
    files (numbered writer i) = fileOf (g.former.reverse.getD (i - 1) [])

section
variable {writer : Writer} {g : Generations} {files files' : Files} {message : Bytes}

theorem Stores.fileLength (h : Stores writer g files) :
    fileLength writer files = (recordsOf g.current).length := by
  rw [BackupFileWriter.fileLength, h.current, ← fileOf_getD]
  cases fileOf g.current with
  | none => rfl
  | some content => rfl

theorem Stores.rotated (h : Stores writer g files) (hr : Rotated writer files files') :
    Stores writer ⟨g.former ++ [g.current], []⟩ files' := by
  refine ⟨hr.current, fun i h1 h2 => ?_⟩
  simp only [List.reverse_append, List.reverse_cons, List.reverse_nil, List.nil_append,
    List.cons_append]
  cases i with
  | zero => omega
  | succ i =>
    cases i with
    | zero =>
      rw [hr.first (by omega), h.current]
      rfl
    | succ i =>
      rw [hr.moved (i + 1) (by omega) (by omega), h.former (i + 1) (by omega) (by omega)]
      rfl

theorem Stores.appended {mid : Files} (h : Stores writer g mid)
    (hcurrent : files' writer.filename_ =
      some ((mid writer.filename_).getD [] ++ record message))
    (hother : ∀ name, name ≠ writer.filename_ → files' name = mid name) :
    Stores writer { g with current := g.current ++ [message] } files' := by
  constructor
  · rw [hcurrent, h.current, fileOf_getD]
    exact (fileOf_snoc g.current message).symm
  · intro i h1 h2
    rw [hother _ (numbered_ne_filename writer i)]
    exact h.former i h1 h2

theorem Stores.written (h : Stores writer g files) (hw : Written writer message files files') :
    Stores writer (g.next writer message) files' := by
  obtain ⟨mid, hprepared, hcurrent, hother⟩ := hw
  rw [Prepared, h.fileLength] at hprepared
  rw [Generations.next]
  by_cases hfits : writer.fits (recordsOf g.current).length message.length
  · rw [if_pos hfits] at hprepared ⊢
    subst hprepared
    exact h.appended hcurrent hother
  · rw [if_neg hfits] at hprepared ⊢
    exact (h.rotated hprepared).appended hcurrent hother

/-- `filename.N`, …, `filename.1`, `filename`, one after the other. -/
def retained (writer : Writer) (files : Files) : Bytes :=
  ((List.range writer.retained_files_).map fun i =>
    (files (numbered writer (i + 1))).getD []).reverse.flatten ++
    (files writer.filename_).getD []

theorem take_reverse_flatten (groups : List Bytes) (n : Nat) :
    ((List.range n).map fun i => groups.getD i []).reverse.flatten =
      (groups.take n).reverse.flatten := by
  induction n with
  | zero => rfl
  | succ n ih =>
    rw [List.range_succ, List.map_append, List.reverse_append, List.flatten_append, ih,
      List.take_add_one, List.reverse_append, List.flatten_append]
    congr 1
    simp only [List.getD_eq_getElem?_getD, List.map_cons, List.map_nil, List.reverse_singleton]
    cases groups[n]? with
    | none => rfl
    | some group => rfl

theorem Stores.retained (h : Stores writer g files) :
    retained writer files =
      recordsOf ((g.former.drop (g.former.length - writer.retained_files_)).flatten ++
        g.current) := by
  have hfiles : (List.range writer.retained_files_).map
        (fun i => (files (numbered writer (i + 1))).getD []) =
      (List.range writer.retained_files_).map
        (fun i => (g.former.map recordsOf).reverse.getD i []) := by
    refine List.map_congr_left fun i hi => ?_
    rw [h.former (i + 1) (by omega) (List.mem_range.mp hi), fileOf_getD, Nat.add_sub_cancel,
      ← List.map_reverse]
    simp only [List.getD_eq_getElem?_getD, List.getElem?_map]
    cases g.former.reverse[i]? with
    | none => rfl
    | some group => rfl
  have hflatten : ∀ groups : List (List Bytes),
      recordsOf groups.flatten = (groups.map recordsOf).flatten := by
    intro groups
    induction groups with
    | nil => rfl
    | cons group groups ih =>
      rw [List.flatten_cons, recordsOf_append, ih, List.map_cons, List.flatten_cons]
  rw [BackupFileWriter.retained, hfiles, take_reverse_flatten, List.take_reverse,
    List.reverse_reverse, h.current, fileOf_getD, recordsOf_append, hflatten, List.map_drop,
    List.length_map]

end

/-! ### Runs -/

abbrev WriterRun (writer : Writer) := Served Sound (write writer)

/-- Nothing has been written yet. -/
def Disk.Blank (writer : Writer) (disk : Disk) : Prop :=
  disk.files writer.filename_ = none ∧ ∀ i, disk.files (numbered writer i) = none

theorem run_stores {writer : Writer} {disk disk' : Disk} {log : List (Bytes × Bool)}
    (hblank : disk.Blank writer) (hrun : WriterRun writer disk log disk') :
    (∀ e ∈ log, e.2 = true) ∧
      Stores writer (generations writer (log.map Prod.fst)) disk'.files := by
  induction hrun with
  | nil =>
    refine ⟨fun _ h => (nomatch h), hblank.1, fun i _ _ => ?_⟩
    rw [hblank.2 i]
    rfl
  | snoc hlog hstep ih =>
    obtain ⟨htrue, hstores⟩ := ih
    obtain ⟨hanswer, hwritten⟩ := wp_runs (wp_write writer _ _) hstep
    refine ⟨fun e he => ?_, ?_⟩
    · rcases List.mem_append.mp he with he | he
      · exact htrue e he
      · rw [List.mem_singleton.mp he]
        exact hanswer
    · rw [List.map_append, List.map_cons, List.map_nil, generations_snoc]
      exact hstores.written hwritten

/-- What is missing of the records are the oldest former files, as many as there were
rotations beyond `retained_files_`. -/
theorem rotation_keeps_newest {writer : Writer} {disk disk' : Disk} {log : List (Bytes × Bool)}
    (hblank : disk.Blank writer) (hrun : WriterRun writer disk log disk') :
    (∀ e ∈ log, e.2 = true) ∧
      (generations writer (log.map Prod.fst)).former.flatten ++
        (generations writer (log.map Prod.fst)).current = log.map Prod.fst ∧
      Stores writer (generations writer (log.map Prod.fst)) disk'.files ∧
      recordsOf (log.map Prod.fst) =
        recordsOf ((generations writer (log.map Prod.fst)).former.take
          ((generations writer (log.map Prod.fst)).former.length -
            writer.retained_files_)).flatten ++ retained writer disk'.files ∧
      retained writer disk'.files <:+ recordsOf (log.map Prod.fst) ∧
      ((generations writer (log.map Prod.fst)).former.length ≤ writer.retained_files_ →
        retained writer disk'.files = recordsOf (log.map Prod.fst)) := by
  obtain ⟨htrue, hstores⟩ := run_stores hblank hrun
  have hmessages := generations_messages writer (log.map Prod.fst)
  have hsplit : recordsOf (log.map Prod.fst) =
      recordsOf ((generations writer (log.map Prod.fst)).former.take
        ((generations writer (log.map Prod.fst)).former.length -
          writer.retained_files_)).flatten ++ retained writer disk'.files := by
    rw [hstores.retained, ← recordsOf_append, ← List.append_assoc, ← List.flatten_append,
      List.take_append_drop, hmessages]
  refine ⟨htrue, hmessages, hstores, hsplit, ?_, fun hfew => ?_⟩
  · rw [hsplit]
    exact List.suffix_append _ _
  · rw [hsplit, Nat.sub_eq_zero_of_le hfew]
    rfl

/-! ### A recorded run -/

/-- The answers of a disk without errors; `short` bounds what one `fwrite` takes. -/
def answer (disk : Disk) (c : Call) (short : Nat) : c.Resp × Disk :=
  match c with
  | .exists name => (some (disk.files name).isSome, disk)
  | .fileSize name => ((disk.files name).map List.length, disk)
  | .remove name => (true, disk.drop name)
  | .rename old new =>
    match disk.files old with
    | none => (false, disk)
    | some content => (true, disk.move old new content)
  | .openAppend name => (true, Disk.append { disk with stream := name } [])
  | .fwrite data => (min short data.length, disk.append (data.take (min short data.length)))
  | .fputc b => (true, disk.append [b])
  | .fflush => (true, disk)
  | .fsync => (true, disk)
  | .fclose => (true, disk)

/-- Only a write that takes nothing is an error. -/
def admits (_ : Disk) : (c : Call) → c.Resp → Bool
  | .fwrite _, count => decide (0 < (count : Nat))
  | _, _ => true

theorem answer_sound (disk : Disk) (c : Call) (short : Nat)
    (h : admits disk c (answer disk c short).1 = true) :
    Sound c disk (answer disk c short).1 (answer disk c short).2 := by
  cases c with
  | rename old new =>
    simp only [Sound, answer]
    cases disk.files old with
    | none => exact ⟨rfl, rfl⟩
    | some content => exact ⟨rfl, rfl⟩
  | fwrite data => exact ⟨of_decide_eq_true h, Nat.min_le_right _ _, rfl⟩
  | _ => exact ⟨rfl, rfl⟩

def sampleWriter : Writer := ⟨lit "logfile.log", 3, 1⟩

/-- Three messages, each too large for a file with another one. -/
def sampleWrites : List (Bytes × List Nat) :=
  [(lit "ab", List.replicate 20 1), (lit "cd", List.replicate 20 2), (lit "e\n", List.replicate 20 2)]

theorem rotation_keeps_newest_sample : ∃ log disk,
    playAll answer admits (write sampleWriter) sampleWrites ⟨fun _ => none, []⟩ = some (log, disk) ∧
    retained sampleWriter disk.files = lit "cd\ne\n" ∧
    (∀ e ∈ log, e.2 = true) ∧
      (generations sampleWriter (log.map Prod.fst)).former.flatten ++
        (generations sampleWriter (log.map Prod.fst)).current = log.map Prod.fst ∧
      Stores sampleWriter (generations sampleWriter (log.map Prod.fst)) disk.files ∧
      recordsOf (log.map Prod.fst) =
        recordsOf ((generations sampleWriter (log.map Prod.fst)).former.take
          ((generations sampleWriter (log.map Prod.fst)).former.length -
            sampleWriter.retained_files_)).flatten ++ retained sampleWriter disk.files ∧
      retained sampleWriter disk.files <:+ recordsOf (log.map Prod.fst) ∧
      ((generations sampleWriter (log.map Prod.fst)).former.length ≤
          sampleWriter.retained_files_ →
        retained sampleWriter disk.files = recordsOf (log.map Prod.fst)) := by
  have hplay : (playAll answer admits (write sampleWriter) sampleWrites ⟨fun _ => none, []⟩).any
      (fun done => decide (retained sampleWriter done.2.files = lit "cd\ne\n")) = true := by
    decide +kernel
  obtain ⟨⟨log, disk⟩, hrun, hkept⟩ := (Option.any_eq_true _ _).mp hplay
  exact ⟨log, disk, hrun, of_decide_eq_true hkept,
    rotation_keeps_newest ⟨rfl, fun _ => rfl⟩ (playAll_served answer_sound hrun)⟩

/-! ### The size limit -/

/-- After a message is written: within the limit, or the message's record alone. -/
def Within (writer : Writer) (message : Bytes) (files : Files) : Prop :=
  fileLength writer files ≤ writer.max_size_ ∨ files writer.filename_ = some (record message)

/-- There are records already, and either the message fills the file to the last byte and its
newline is still to come, or the sum of the two sizes wraps to one that fits. -/
def Overruns (writer : Writer) (message : Bytes) (files : Files) : Prop :=
  files writer.filename_ ≠ none ∧
    (fileLength writer files + message.length = writer.max_size_ ∧
        message.getLast? ≠ some newline ∨
      writer.max_size_ < fileLength writer files + message.length ∧
        (fileLength writer files + message.length) % 2 ^ 64 ≤ writer.max_size_)

theorem record_length (message : Bytes) :
    (record message).length =
      message.length + if message.getLast? = some newline then 0 else 1 := by
  unfold record
  split
  · rfl
  · exact List.length_append

theorem record_ne_nil (message : Bytes) : record message ≠ [] := by
  unfold record
  split
  · rename_i h
    rintro rfl
    cases h
  · simp only [ne_eq, List.append_eq_nil_iff, reduceCtorEq, and_false, not_false_eq_true]

section
variable {writer : Writer} {message : Bytes} {files files' : Files}

theorem Written.fresh (hw : Written writer message files files')
    (h : ¬writer.fits (fileLength writer files) message.length ∨ files writer.filename_ = none) :
    files' writer.filename_ = some (record message) := by
  obtain ⟨mid, hprepared, hcurrent, -⟩ := hw
  have hempty : mid writer.filename_ = none := by
    unfold Prepared at hprepared
    split at hprepared
    · rename_i hfits
      subst hprepared
      exact h.resolve_left (not_not_intro hfits)
    · exact hprepared.current
  rw [hcurrent, hempty]
  rfl

theorem Written.longer (hw : Written writer message files files')
    (hfits : writer.fits (fileLength writer files) message.length) {content : Bytes}
    (hfile : files writer.filename_ = some content) :
    files' writer.filename_ = some (content ++ record message) := by
  obtain ⟨mid, hprepared, hcurrent, -⟩ := hw
  rw [Prepared, if_pos hfits] at hprepared
  rw [hcurrent, hprepared, hfile]
  rfl

theorem within_iff (hw : Written writer message files files')
    (hfile : files writer.filename_ ≠ some []) :
    Within writer message files' ↔ ¬Overruns writer message files := by
  unfold Within Overruns
  cases hcontent : files writer.filename_ with
  | none =>
    simp only [hw.fresh (.inr hcontent), or_true, ne_eq, not_true_eq_false, false_and,
      not_false_eq_true]
  | some content =>
    have hne : content ≠ [] := fun h => hfile (h ▸ hcontent)
    have hlength : fileLength writer files = content.length := by
      rw [fileLength, hcontent]
      rfl
    by_cases hfits : writer.fits (fileLength writer files) message.length
    · have hlonger := hw.longer hfits hcontent
      have halone : ¬content ++ record message = record message := by
        intro h
        have := congrArg List.length h
        have := List.length_pos_of_ne_nil hne
        rw [List.length_append] at *
        omega
      have hafter : fileLength writer files' = content.length + (record message).length := by
        rw [fileLength, hlonger]
        exact List.length_append
      rw [hafter, hlonger, hlength, record_length]
      rw [Writer.fits, hlength] at hfits
      simp only [Option.some.injEq, halone, or_false, ne_eq, reduceCtorEq, not_false_eq_true,
        true_and]
      split
      · rename_i hline
        simp only [hline, not_true_eq_false, and_false, false_or]
        omega
      · rename_i hline
        simp only [hline, not_false_eq_true, and_true]
        omega
    · have hover : ¬((fileLength writer files + message.length) % 2 ^ 64 ≤ writer.max_size_) := hfits
      have hmod := Nat.mod_le (fileLength writer files + message.length) (2 ^ 64)
      simp only [hw.fresh (.inl hfits), or_true, true_iff]
      rintro ⟨-, ⟨hfull, -⟩ | ⟨-, hwrap⟩⟩
      · omega
      · exact hover hwrap

end

/-- The writes of a run, each with the disk before and after it. -/
abbrev EachWrite (writer : Writer) (P : Disk → Bytes → Disk → Prop) :
    Disk → List (Bytes × Bool) → Prop :=
  Transition.Run.Throughout (fun disk l disk' => Runs Sound (write writer l.1) disk l.2 disk')
    fun disk l disk' => P disk l.1 disk'

theorem size_limited_iff {writer : Writer} {disk : Disk} (hblank : disk.Blank writer)
    (log : List (Bytes × Bool)) :
    EachWrite writer (fun _ message after => Within writer message after.files) disk log ↔
      EachWrite writer (fun before message _ => ¬Overruns writer message before.files) disk log := by
  refine Transition.Run.throughout_congr (fun done l before after hrun hwrite => ?_) log
  obtain ⟨-, hstores⟩ := run_stores hblank hrun
  have hwritten := (wp_runs (wp_write writer l.1 before) hwrite).2
  refine within_iff hwritten fun hempty => ?_
  rw [hstores.current, fileOf] at hempty
  split at hempty
  · cases hempty
  · rename_i hne
    have hrecords := Option.some.inj hempty
    rw [recordsOf, List.flatMap_eq_nil_iff] at hrecords
    obtain ⟨first, hfirst⟩ := List.exists_mem_of_ne_nil _ hne
    exact record_ne_nil first (hrecords first hfirst)

theorem size_limited_iff_sample : ∃ log disk,
    WriterRun sampleWriter ⟨fun _ => none, []⟩ log disk ∧
    log.map Prod.fst = [lit "ab", lit "cd", lit "e\n"] ∧
    (EachWrite sampleWriter (fun _ message after => Within sampleWriter message after.files)
        ⟨fun _ => none, []⟩ log ↔
      EachWrite sampleWriter (fun before message _ => ¬Overruns sampleWriter message before.files)
        ⟨fun _ => none, []⟩ log) := by
  have hplay : (playAll answer admits (write sampleWriter) sampleWrites ⟨fun _ => none, []⟩).any
      (fun done => decide (done.1.map Prod.fst = [lit "ab", lit "cd", lit "e\n"])) = true := by
    decide +kernel
  obtain ⟨⟨log, disk⟩, hrun, hlog⟩ := (Option.any_eq_true _ _).mp hplay
  exact ⟨log, disk, playAll_served answer_sound hrun, of_decide_eq_true hlog,
    size_limited_iff ⟨rfl, fun _ => rfl⟩ log⟩

/-- The second message fits to the byte, and its newline does not. -/
theorem newline_overruns : ∃ log disk,
    WriterRun sampleWriter ⟨fun _ => none, []⟩ log disk ∧
    disk.files sampleWriter.filename_ = some (lit "a\nb\n") ∧
    ¬EachWrite sampleWriter (fun _ message after => Within sampleWriter message after.files)
      ⟨fun _ => none, []⟩ log := by
  have hplay : (playAll answer admits (write sampleWriter)
      [(lit "a", List.replicate 20 1), (lit "b", List.replicate 20 1)] ⟨fun _ => none, []⟩).any
      (fun done => decide (done.1 = [(lit "a", true)] ++ [(lit "b", true)] ∧
        done.2.files sampleWriter.filename_ = some (lit "a\nb\n"))) = true := by
    decide +kernel
  obtain ⟨⟨log, disk⟩, hplayed, hdone⟩ := (Option.any_eq_true _ _).mp hplay
  obtain ⟨hlog, hfile⟩ := of_decide_eq_true hdone
  have hlog : log = [(lit "a", true)] ++ [(lit "b", true)] := hlog
  subst hlog
  have hrun : WriterRun sampleWriter ⟨fun _ => none, []⟩ _ disk := playAll_served answer_sound hplayed
  refine ⟨_, disk, hrun, hfile, fun hwithin => ?_⟩
  obtain ⟨mid, hfirst, hsecond⟩ := hrun.of_snoc
  rcases hwithin _ _ [] mid disk rfl hfirst hsecond with hle | halone
  · have hlength : fileLength sampleWriter disk.files = 4 := by
      rw [fileLength, hfile]
      rfl
    rw [hlength] at hle
    exact absurd hle (by decide)
  · rw [hfile] at halone
    exact absurd halone (by decide)

end BackupFileWriter
end CloudStorage
