import CloudStorage.FileUtil
import CloudStorage.Lib.Transfer

/-!
# The write and read loops of `FileUtil` in machine words

`SetContent`, `GetPosLen` and `GetContent` call by call, with counts that fall
short and calls that are interrupted. `size_t` and `uint64_t` are 64-bit words,
`int64_t` and `off_t` signed ones. The file is the one at `filename_`; nobody
else writes to it.
-/

namespace CloudStorage.FileTransfer
open Posix Interact Transfer

/-- No byte of a regular file lies past the offset maximum. -/
structure File where
  bytes : Bytes
  bounded : bytes.length ≤ offMax
  deriving DecidableEq

/-- `ssize_t` and `errno`. -/
inductive Count (α : Type)
  | done (a : α)
  /-- `EINTR` -/
  | interrupted
  | failed
  deriving DecidableEq

inductive Call
  | stat
  | openRead
  /-- `O_WRONLY | O_CREAT | O_TRUNC` -/
  | openTrunc
  /-- `content->assign(length, '\0')`, which may throw -/
  | assign (length : UInt64)
  | write (data : Bytes)
  | pread (length : UInt64) (offset : Int64)
  | fsync
  | close

abbrev Call.Resp : Call → Type
  | .stat => Option Int64
  | .write _ => Count Nat
  | .pread .. => Count Bytes
  | _ => Bool

abbrev Program := Prog Call.Resp

def perform (c : Call) : Program c.Resp := Prog.perform c

/-! ### The source -/

/-- `const char *content` and `size_t length`. -/
inductive Source
  | null (length : UInt64)
  | bytes (data : Bytes) (bounded : data.length < 2 ^ 64)
  deriving DecidableEq

def Source.isNull : Source → Bool
  | .null _ => true
  | .bytes .. => false

def Source.data : Source → Bytes
  | .null _ => []
  | .bytes data _ => data

def Source.length : Source → UInt64
  | .null length => length
  | .bytes data _ => UInt64.ofNat data.length

def fileSize : Program Int64 := do
  match ← perform .stat with
  | none => return -1
  | some size => return size

def writeLoop (content : Bytes) (length : UInt64) : Nat → UInt64 → Program (Ended UInt64) :=
  loop (fun total => !decide (total < length)) fun total => do
    match ← perform (.write ((content.drop total.toNat).take (length - total).toNat)) with
    | .interrupted => return .interrupted
    | .failed => return .failed
    | .done count =>
      if count = 0 then return .failed else return .advanced (total + UInt64.ofNat count)

/-- Without a result when the rounds did not suffice. -/
def setContent (rounds : Nat) (content : Source) : Program (Option Bool) :=
  if content.isNull ∧ content.length ≠ 0 then return some false
  else do
    if ← perform .openTrunc then
      match ← writeLoop content.data content.length rounds 0 with
      | .unfinished => return none
      | .failed =>
        let _ ← perform .close
        return some false
      | .complete _ =>
        let synced ← perform .fsync
        let closed ← perform .close
        return some (synced && closed)
    else return some false

inductive ReadResult
  | content (bytes : Bytes)
  /-- false -/
  | refused
  | threw
  | unfinished
  deriving DecidableEq

/-- A chunk stored at `content->data() + total`. -/
def fill (content : Bytes) (total : UInt64) (chunk : Bytes) : Bytes :=
  content.take total.toNat ++ chunk ++ content.drop (total.toNat + chunk.length)

def readLoop (position length : UInt64) :
    Nat → UInt64 × Bytes → Program (Ended (UInt64 × Bytes)) :=
  loop (fun s => !decide (s.1 < length)) fun s => do
    match ← perform (.pread (length - s.1) (position + s.1).toInt64) with
    | .interrupted => return .interrupted
    | .failed => return .failed
    | .done chunk =>
      if chunk = [] then return .failed
      else return .advanced (s.1 + UInt64.ofNat chunk.length, fill s.2 s.1 chunk)

/-- `null` is whether the pointer for the content is. -/
def getPosLen (rounds : Nat) (null : Bool) (position length : UInt64) : Program ReadResult := do
  if null then return .refused
  else
    let file_size ← fileSize
    if file_size < 0 ∨ position > file_size.toUInt64 ∨ length > file_size.toUInt64 - position ∨
        position > UInt64.ofNat offMax then return .refused
    else if ← perform .openRead then
      if ← perform (.assign length) then
        match ← readLoop position length rounds (0, List.replicate length.toNat 0) with
        | .unfinished => return .unfinished
        | .failed =>
          let _ ← perform .close
          return .refused
        | .complete s => if ← perform .close then return .content s.2 else return .refused
      else return .threw
    else return .refused

def getContent (rounds : Nat) (null : Bool) : Program ReadResult := do
  let file_size ← fileSize
  if file_size < 0 ∨ file_size.toUInt64 > UInt64.ofNat (2 ^ 64 - 1) then return .refused
  else getPosLen rounds null 0 file_size.toUInt64

/-! ### The file -/

structure Disk where
  file : Option File
  /-- of the descriptor that is open for writing -/
  offset : Nat
  interruptions : Nat
  /-- since a byte was written -/
  synced : Bool
  /-- since the file was truncated -/
  closed : Bool
  deriving DecidableEq

def Disk.Holds (disk : Disk) (bytes : Bytes) : Prop := disk.file.map File.bytes = some bytes

/-- The bytes from the offset on are replaced; a gap before it is filled with zeros. -/
def overwrite (bytes : Bytes) (offset : Nat) (data : Bytes) : Bytes :=
  bytes.take offset ++ List.replicate (offset - bytes.length) 0 ++ data ++
    bytes.drop (offset + data.length)

def part (bytes : Bytes) (position length : Nat) : Bytes := (bytes.drop position).take length

def Disk.truncate (disk : Disk) : Disk :=
  { disk with
    file := some ⟨[], Nat.zero_le _⟩
    offset := 0
    synced := false
    closed := false }

def Disk.interrupt (disk : Disk) : Disk := { disk with interruptions := disk.interruptions + 1 }

structure Disk.Wrote (disk : Disk) (data : Bytes) (disk' : Disk) : Prop where
  bytes : ∃ bytes, disk.Holds bytes ∧ disk'.Holds (overwrite bytes disk.offset data)
  offset : disk'.offset = disk.offset + data.length
  interruptions : disk'.interruptions = disk.interruptions
  synced : disk'.synced = false
  closed : disk'.closed = disk.closed

/-- What the calls may answer. Unless they are `fallible`, they fail only where the file or the
arguments leave them no choice. A failed `write`, `fsync` or `close` may leave anything. -/
def Answers (fallible : Prop) : Env Call.Resp Disk
  | .stat, disk, answer, disk' =>
    disk' = disk ∧
      match answer with
      | some size => ∃ bytes, disk.Holds bytes ∧ size = Int64.ofNat bytes.length
      | none => fallible ∨ disk.file = none
  | .openRead, disk, answer, disk' =>
    disk' = disk ∧ if answer then disk.file ≠ none else fallible ∨ disk.file = none
  | .openTrunc, disk, answer, disk' =>
    if answer then disk' = disk.truncate else disk' = disk ∧ fallible
  | .assign _, disk, answer, disk' => disk' = disk ∧ (answer = true ∨ fallible)
  | .write data, disk, answer, disk' =>
    match answer with
    | .done count =>
      count ≤ data.length ∧ (count = 0 → fallible ∨ data = []) ∧ disk.Wrote (data.take count) disk'
    | .interrupted => disk' = disk.interrupt
    | .failed => fallible
  | .pread length offset, disk, answer, disk' =>
    match answer with
    | .done chunk => disk' = disk ∧ 0 ≤ offset ∧ ∃ bytes, disk.Holds bytes ∧
        chunk <+: part bytes offset.toNatClampNeg length.toNat ∧
        (chunk = [] → fallible ∨ part bytes offset.toNatClampNeg length.toNat = [])
    | .interrupted => disk' = disk.interrupt
    | .failed => disk' = disk ∧ (fallible ∨ offset < 0)
  | .fsync, disk, answer, disk' =>
    if answer then disk' = { disk with synced := true } else fallible
  | .close, disk, answer, disk' =>
    if answer then disk' = { disk with closed := true } else fallible

namespace Disk
variable {disk disk' : Disk} {bytes bytes' data : Bytes}

theorem Holds.bounded (h : disk.Holds bytes) : bytes.length ≤ offMax := by
  obtain ⟨file, _, rfl⟩ := Option.map_eq_some_iff.mp h
  exact file.bounded

theorem Holds.unique (h : disk.Holds bytes) (h' : disk.Holds bytes') : bytes = bytes' :=
  Option.some.inj (h.symm.trans h')

theorem Holds.file (h : disk.Holds bytes) : disk.file ≠ none := by
  obtain ⟨file, hfile, _⟩ := Option.map_eq_some_iff.mp h
  rw [hfile]
  exact Option.some_ne_none file

theorem truncate_holds : disk.truncate.Holds [] := rfl

theorem Wrote.appended (h : disk.Wrote data disk') (hholds : disk.Holds bytes)
    (hend : disk.offset = bytes.length) : disk'.Holds (bytes ++ data) := by
  obtain ⟨before, hbefore, hafter⟩ := h.bytes
  cases hbefore.unique hholds
  have hrest : bytes.drop (bytes.length + data.length) = [] :=
    List.drop_of_length_le (Nat.le_add_right ..)
  rwa [hend, overwrite, List.take_length, Nat.sub_self, List.replicate_zero, List.append_nil,
    hrest, List.append_nil] at hafter

end Disk

/-! ### Parts of a file -/

section
variable {bytes chunk : Bytes} {position length : Nat}

theorem part_length (h : position + length ≤ bytes.length) :
    (part bytes position length).length = length := by
  rw [part, List.length_take, List.length_drop]
  omega

theorem part_append (bytes : Bytes) (position length more : Nat) :
    part bytes position length ++ part bytes (position + length) more =
      part bytes position (length + more) := by
  rw [part, part, part, List.take_add, List.drop_drop]

theorem part_whole (bytes : Bytes) : part bytes 0 bytes.length = bytes := by
  rw [part, List.drop_zero, List.take_length]

theorem prefix_part (h : chunk <+: part bytes position length) :
    chunk = part bytes position chunk.length := by
  have hle : chunk.length ≤ length :=
    h.length_le.trans (List.length_take_le ..)
  have htake := List.prefix_iff_eq_take.mp h
  rwa [part, List.take_take, Nat.min_eq_left hle] at htake

end

theorem word_add {total : UInt64} {count : Nat} (h : total.toNat + count < 2 ^ 64) :
    (total + UInt64.ofNat count).toNat = total.toNat + count := by
  rw [UInt64.toNat_add, UInt64.toNat_ofNat', Nat.mod_eq_of_lt (by omega : count < 2 ^ 64)]
  exact Nat.mod_eq_of_lt h

/-! ### Writing -/

/-- After `total` bytes of the content. -/
structure Written (content : Bytes) (total : UInt64) (disk : Disk) : Prop where
  le : total.toNat ≤ content.length
  offset : disk.offset = total.toNat
  holds : disk.Holds (content.take total.toNat)

section
variable {fallible : Prop} {content : Bytes} {total : UInt64} {disk disk' : Disk}

theorem Written.advanced (h : Written content total disk) (hbounded : content.length < 2 ^ 64)
    {count : Nat} (hcount : count ≤ content.length - total.toNat)
    (hwrote : disk.Wrote ((content.drop total.toNat).take count) disk') :
    (total + UInt64.ofNat count).toNat = total.toNat + count ∧
      Written content (total + UInt64.ofNat count) disk' := by
  have hle := h.le
  have htotal : (total + UInt64.ofNat count).toNat = total.toNat + count := word_add (by omega)
  have hend : disk.offset = (content.take total.toNat).length := by
    rw [h.offset, List.length_take, Nat.min_eq_left hle]
  have hholds := hwrote.appended h.holds hend
  rw [← List.take_add, ← htotal] at hholds
  have hoffset : disk'.offset = (total + UInt64.ofNat count).toNat := by
    rw [hwrote.offset, h.offset, htotal, List.length_take, List.length_drop, Nat.min_eq_left hcount]
  exact ⟨htotal, by omega, hoffset, hholds⟩

/-- Before the end, a `write` is asked for all the rest. -/
theorem write_request (hbounded : content.length < 2 ^ 64)
    (hless : total < UInt64.ofNat content.length) :
    total.toNat < content.length ∧
      (content.drop total.toNat).take (UInt64.ofNat content.length - total).toNat =
        content.drop total.toNat := by
  have hlength : (UInt64.ofNat content.length).toNat = content.length :=
    UInt64.toNat_ofNat_of_lt' hbounded
  have hlt : total.toNat < content.length := by
    rw [← hlength]
    exact UInt64.lt_iff_toNat_lt.mp hless
  have hrest : (UInt64.ofNat content.length - total).toNat = content.length - total.toNat := by
    rw [UInt64.toNat_sub_of_le _ _ (UInt64.le_iff_toNat_le.mpr (by omega)), hlength]
  refine ⟨hlt, ?_⟩
  rw [hrest, ← List.length_drop, List.take_length]

theorem wp_writeLoop (hbounded : content.length < 2 ^ 64) (rounds : Nat)
    (h : Written content total disk) :
    wp (Answers fallible) (writeLoop content (UInt64.ofNat content.length) rounds total)
      (Reached (Written content) (fun _ => fallible) (fun total => content.length - total.toNat)
        Disk.interruptions (fun total => !decide (total < UInt64.ofNat content.length)) rounds total
        disk) (fun _ => True) disk := by
  refine wp_loop (fun total disk hnot h => ?_) rounds h
  obtain ⟨hless, hdata⟩ := write_request hbounded
    (of_decide_eq_true (Bool.not_eq_eq_eq_not.mp hnot))
  rw [hdata]
  refine wp_perform_bind trivial fun (answer : Count Nat) disk' hcall => ?_
  cases answer with
  | interrupted =>
    have hcall : disk' = disk.interrupt := hcall
    subst hcall
    exact ⟨⟨h.le, h.offset, h.holds⟩, rfl⟩
  | failed => exact hcall
  | done count =>
    obtain ⟨hcount, hzero, hwrote⟩ := hcall
    rw [List.length_drop] at hcount
    by_cases hnone : count = 0
    · simp only [if_pos hnone]
      refine (hzero hnone).resolve_right fun hempty => ?_
      have hnil := List.drop_eq_nil_iff.mp hempty
      omega
    · simp only [if_neg hnone]
      obtain ⟨htotal, hwritten⟩ := h.advanced hbounded hcount hwrote
      refine ⟨hwritten, ?_, hwrote.interruptions⟩
      simp only [htotal]
      omega

theorem Source.length_eq {content : Source} (h : ¬(content.isNull ∧ content.length ≠ 0)) :
    content.length = UInt64.ofNat content.data.length := by
  cases content with
  | null length => exact not_not.mp fun hne => h ⟨rfl, hne⟩
  | bytes data bounded => rfl

theorem Source.data_lt (content : Source) : content.data.length < 2 ^ 64 := by
  cases content with
  | null length => exact Nat.two_pow_pos 64
  | bytes data bounded => exact bounded

def SetEnds (fallible : Prop) (rounds : Nat) (content : Source) (disk : Disk) :
    Option Bool → Disk → Prop
  | some true, disk' => disk'.Holds content.data ∧ disk'.synced = true ∧ disk'.closed = true
  | some false, _ => fallible ∨ content.isNull ∧ content.length ≠ 0
  | none, disk' => disk.interruptions + rounds ≤ content.data.length + disk'.interruptions

theorem wp_setContent (rounds : Nat) (content : Source) (disk : Disk) :
    wp (Answers fallible) (setContent rounds content) (SetEnds fallible rounds content disk)
      (fun _ => True) disk := by
  unfold setContent
  split
  · rename_i hnull
    exact Or.inr hnull
  · rename_i hnull
    rw [content.length_eq hnull]
    refine wp_perform_bind trivial fun (opened : Bool) disk₁ hopen => ?_
    cases opened with
    | false => exact Or.inl hopen.2
    | true =>
      have hopen : disk₁ = disk.truncate := hopen
      subst hopen
      have hstart : Written content.data 0 disk.truncate :=
        ⟨Nat.zero_le _, rfl, Disk.truncate_holds⟩
      refine wp_seq (wp_writeLoop content.data_lt rounds hstart) (fun _ h => h) ?_
      intro ended disk₂ hended
      cases ended with
      | unfinished => exact hended
      | failed => exact wp_perform_bind trivial fun _ _ _ => Or.inl hended
      | complete total =>
        obtain ⟨hwritten, hfull⟩ := hended
        have hall : content.data.length ≤ total.toNat := by
          have hnot := of_decide_eq_false ((Bool.not_eq_true' _).mp hfull)
          rw [UInt64.lt_iff_toNat_lt, UInt64.toNat_ofNat_of_lt' content.data_lt] at hnot
          exact Nat.le_of_not_lt hnot
        have hholds := hwritten.holds
        rw [List.take_of_length_le hall] at hholds
        refine wp_perform_bind trivial fun (synced : Bool) disk₃ hsync => ?_
        refine wp_perform_bind trivial fun (closed : Bool) disk₄ hclose => ?_
        cases synced with
        | false =>
          rw [Bool.false_and]
          exact Or.inl hsync
        | true =>
          have hsync : disk₃ = { disk₂ with synced := true } := hsync
          cases closed with
          | false => exact Or.inl hclose
          | true =>
            have hclose : disk₄ = { disk₃ with closed := true } := hclose
            subst hclose hsync
            exact ⟨hholds, rfl, rfl⟩

end

/-! ### Reading -/

/-- A chunk is appended to what was stored before it. -/
theorem fill_chunk {content chunk : Bytes} {total : UInt64}
    (h : total.toNat + chunk.length ≤ content.length) :
    (fill content total chunk).length = content.length ∧
      (fill content total chunk).take (total.toNat + chunk.length) =
        content.take total.toNat ++ chunk := by
  have htake : (content.take total.toNat).length = total.toNat := by
    rw [List.length_take, Nat.min_eq_left (by omega)]
  have hfront : total.toNat + chunk.length = (content.take total.toNat ++ chunk).length := by
    rw [List.length_append, htake]
  constructor
  · rw [fill, List.length_append, ← hfront, List.length_drop]
    omega
  · rw [fill, hfront]
    exact List.take_left

/-- After `s.1` bytes of the part. -/
structure Filled (whole : Bytes) (position length : UInt64) (s : UInt64 × Bytes) (disk : Disk) :
    Prop where
  holds : disk.Holds whole
  le : s.1.toNat ≤ length.toNat
  length : s.2.length = length.toNat
  filled : s.2.take s.1.toNat = part whole position.toNat s.1.toNat

section
variable {fallible : Prop} {whole : Bytes} {position length : UInt64} {s : UInt64 × Bytes}
  {disk : Disk}

theorem Filled.advanced (h : Filled whole position length s disk) {chunk : Bytes}
    (hchunk : chunk <+: part whole (position.toNat + s.1.toNat) (length.toNat - s.1.toNat)) :
    (s.1 + UInt64.ofNat chunk.length).toNat = s.1.toNat + chunk.length ∧
      Filled whole position length (s.1 + UInt64.ofNat chunk.length, fill s.2 s.1 chunk) disk := by
  have hle := h.le
  have hbound : length.toNat < 2 ^ 64 := length.toNat_lt
  have hcount : chunk.length ≤ length.toNat - s.1.toNat :=
    hchunk.length_le.trans (List.length_take_le ..)
  have htotal : (s.1 + UInt64.ofNat chunk.length).toNat = s.1.toNat + chunk.length :=
    word_add (by omega)
  obtain ⟨hlength, hfilled⟩ := fill_chunk (by rw [h.length]; omega :
    s.1.toNat + chunk.length ≤ s.2.length)
  rw [h.filled, prefix_part hchunk, part_append, ← prefix_part hchunk] at hfilled
  refine ⟨htotal, h.holds, ?_, hlength.trans h.length, ?_⟩
  · rw [htotal]
    omega
  · rw [htotal]
    exact hfilled

/-- Inside the file the sum is an offset. -/
theorem offset_exact {total : UInt64} (h : position.toNat + total.toNat ≤ offMax) :
    0 ≤ (position + total).toInt64 ∧
      (position + total).toInt64.toNatClampNeg = position.toNat + total.toNat := by
  have hsum : (position + total).toNat = position.toNat + total.toNat := by
    rw [UInt64.toNat_add]
    exact Nat.mod_eq_of_lt (by unfold offMax at h; omega)
  have hint : (position + total).toInt64 = Int64.ofNat (position.toNat + total.toNat) := by
    rw [← hsum, ← UInt64.toInt64_ofNat', UInt64.ofNat_toNat]
  have hlt : position.toNat + total.toNat < 2 ^ 63 := by
    unfold offMax at h
    omega
  rw [hint]
  refine ⟨?_, Int64.toNatClampNeg_ofNat_of_lt hlt⟩
  rw [Int64.le_iff_toInt_le, Int64.toInt_ofNat_of_lt hlt]
  exact Int.natCast_nonneg _

theorem wp_readLoop (hwithin : position.toNat + length.toNat ≤ whole.length) (rounds : Nat)
    (h : Filled whole position length s disk) :
    wp (Answers fallible) (readLoop position length rounds s)
      (Reached (Filled whole position length) (fun _ => fallible)
        (fun s => length.toNat - s.1.toNat) Disk.interruptions
        (fun s => !decide (s.1 < length)) rounds s disk) (fun _ => True) disk := by
  refine wp_loop (fun s disk hnot h => ?_) rounds h
  have hless : s.1.toNat < length.toNat :=
    UInt64.lt_iff_toNat_lt.mp (of_decide_eq_true (Bool.not_eq_eq_eq_not.mp hnot))
  have hrest : (length - s.1).toNat = length.toNat - s.1.toNat :=
    UInt64.toNat_sub_of_le _ _ (UInt64.le_iff_toNat_le.mpr (Nat.le_of_lt hless))
  have hbounded := h.holds.bounded
  obtain ⟨hnonneg, hoffset⟩ := offset_exact (by omega : position.toNat + s.1.toNat ≤ offMax)
  refine wp_perform_bind trivial fun (answer : Count Bytes) disk' hcall => ?_
  cases answer with
  | interrupted =>
    have hcall : disk' = disk.interrupt := hcall
    subst hcall
    exact ⟨⟨h.holds, h.le, h.length, h.filled⟩, rfl⟩
  | failed => exact hcall.2.resolve_right (Int64.not_lt.mpr hnonneg)
  | done chunk =>
    obtain ⟨rfl, -, bytes, hbytes, hchunk, hempty⟩ := hcall
    cases hbytes.unique h.holds
    rw [hoffset, hrest] at hchunk hempty
    by_cases hnone : chunk = []
    · simp only [if_pos hnone]
      -- inside the file there is something to read
      refine (hempty hnone).resolve_right fun hnil => ?_
      have hlength := part_length (by omega :
        position.toNat + s.1.toNat + (length.toNat - s.1.toNat) ≤ whole.length)
      rw [hnil, List.length_nil] at hlength
      omega
    · simp only [if_neg hnone]
      have hpos := List.length_pos_of_ne_nil hnone
      obtain ⟨htotal, hfilled⟩ := h.advanced hchunk
      refine ⟨hfilled, ?_, rfl⟩
      simp only [htotal]
      omega

theorem wp_fileSize (disk : Disk) :
    wp (Answers fallible) fileSize (fun size disk' => disk' = disk ∧
      (size = -1 ∧ (fallible ∨ disk.file = none) ∨
        ∃ whole, disk.Holds whole ∧ size = Int64.ofNat whole.length)) (fun _ => True) disk := by
  refine wp_perform_bind trivial fun (answer : Option Int64) disk' hcall => ?_
  obtain ⟨rfl, hanswer⟩ := hcall
  cases answer with
  | none => exact ⟨rfl, .inl ⟨rfl, hanswer⟩⟩
  | some size => exact ⟨rfl, .inr hanswer⟩

section
variable {size : Nat} (hsize : size ≤ offMax)
include hsize

theorem size_nonneg : ¬Int64.ofNat size < 0 := by
  rw [Int64.lt_iff_toInt_lt, Int64.toInt_ofNat_of_lt (by unfold offMax at hsize; omega)]
  exact Int.not_lt.mpr (Int.natCast_nonneg _)

theorem size_word : (Int64.ofNat size).toUInt64.toNat = size := by
  rw [← UInt64.toInt64_ofNat', UInt64.toUInt64_toInt64]
  unfold offMax at hsize
  rw [UInt64.toNat_ofNat', Nat.mod_eq_of_lt (by omega)]

theorem refuses_iff : (Int64.ofNat size < 0 ∨ position > (Int64.ofNat size).toUInt64 ∨
      length > (Int64.ofNat size).toUInt64 - position ∨ position > UInt64.ofNat offMax) ↔
    size < position.toNat + length.toNat := by
  have hword := size_word hsize
  have hmax : (UInt64.ofNat offMax).toNat = offMax := by decide +kernel
  simp only [size_nonneg hsize, false_or, gt_iff_lt, UInt64.lt_iff_toNat_lt, hword, hmax]
  by_cases hposition : size < position.toNat
  · exact ⟨fun _ => by omega, fun _ => .inl hposition⟩
  · have hle : position ≤ (Int64.ofNat size).toUInt64 :=
      UInt64.le_iff_toNat_le.mpr (by omega)
    rw [UInt64.toNat_sub_of_le _ _ hle, hword]
    omega

end

def PosLenEnds (fallible : Prop) (rounds : Nat) (null : Bool) (position length : UInt64)
    (disk : Disk) : ReadResult → Disk → Prop
  | .content bytes, _ => ∃ whole, disk.Holds whole ∧
      position.toNat + length.toNat ≤ whole.length ∧
      bytes = part whole position.toNat length.toNat
  | .refused, _ => fallible ∨ null = true ∨
      ∀ whole, disk.Holds whole → whole.length < position.toNat + length.toNat
  | .threw, _ => fallible
  | .unfinished, disk' => disk.interruptions + rounds ≤ length.toNat + disk'.interruptions

theorem not_holds (h : disk.file = none) : ¬disk.Holds whole :=
  fun hholds => hholds.file h

theorem wp_getPosLen (rounds : Nat) (null : Bool) (position length : UInt64) (disk : Disk) :
    wp (Answers fallible) (getPosLen rounds null position length)
      (PosLenEnds fallible rounds null position length disk) (fun _ => True) disk := by
  unfold getPosLen
  cases null with
  | true => exact Or.inr (.inl rfl)
  | false =>
    simp only [Bool.false_eq_true, if_false]
    refine wp_seq (wp_fileSize disk) (fun _ h => h) ?_
    rintro size disk₁ ⟨rfl, ⟨rfl, hfails⟩ | ⟨whole, hholds, rfl⟩⟩
    · rw [if_pos (.inl (by decide))]
      exact hfails.imp_right fun hnone => .inr fun whole hholds => absurd hholds (not_holds hnone)
    · by_cases hrange : whole.length < position.toNat + length.toNat
      · rw [if_pos ((refuses_iff hholds.bounded).mpr hrange)]
        refine Or.inr (.inr fun other hother => ?_)
        rwa [hother.unique hholds]
      · rw [if_neg (mt (refuses_iff hholds.bounded).mp hrange)]
        refine wp_perform_bind trivial fun (opened : Bool) disk₂ hopen => ?_
        obtain ⟨rfl, hopen⟩ := hopen
        cases opened with
        | false => exact Or.inl (hopen.resolve_right hholds.file)
        | true =>
          refine wp_perform_bind trivial fun (assigned : Bool) disk₃ hassign => ?_
          obtain ⟨rfl, hassign⟩ := hassign
          cases assigned with
          | false => exact hassign.resolve_left Bool.false_ne_true
          | true =>
            have hstart : Filled whole position length
                (0, List.replicate length.toNat 0) disk₃ :=
              ⟨hholds, Nat.zero_le _, List.length_replicate, rfl⟩
            refine wp_seq (wp_readLoop (Nat.le_of_not_lt hrange) rounds hstart) (fun _ h => h) ?_
            intro ended disk₄ hended
            cases ended with
            | unfinished => exact hended
            | failed => exact wp_perform_bind trivial fun _ _ _ => Or.inl hended
            | complete s =>
              obtain ⟨hfilled, hfull⟩ := hended
              have hall : s.1.toNat = length.toNat := by
                have hnot := of_decide_eq_false ((Bool.not_eq_true' _).mp hfull)
                rw [UInt64.lt_iff_toNat_lt] at hnot
                exact Nat.le_antisymm hfilled.le (Nat.le_of_not_lt hnot)
              have hbytes := hfilled.filled
              rw [hall, ← hfilled.length, List.take_length, hfilled.length] at hbytes
              refine wp_perform_bind trivial fun (closed : Bool) disk₅ hclose => ?_
              cases closed with
              | false => exact Or.inl hclose
              | true => exact ⟨whole, hholds, Nat.le_of_not_lt hrange, hbytes⟩

def ContentEnds (fallible : Prop) (rounds : Nat) (null : Bool) (disk : Disk) :
    ReadResult → Disk → Prop
  | .content bytes, _ => disk.Holds bytes
  | .refused, _ => fallible ∨ null = true ∨ disk.file = none
  | .threw, _ => fallible
  | .unfinished, disk' => ∃ whole, disk.Holds whole ∧
      disk.interruptions + rounds ≤ whole.length + disk'.interruptions

theorem wp_getContent (rounds : Nat) (null : Bool) (disk : Disk) :
    wp (Answers fallible) (getContent rounds null) (ContentEnds fallible rounds null disk)
      (fun _ => True) disk := by
  unfold getContent
  refine wp_seq (wp_fileSize disk) (fun _ h => h) ?_
  rintro size disk₁ ⟨rfl, ⟨rfl, hfails⟩ | ⟨whole, hholds, rfl⟩⟩
  · rw [if_pos (.inl (by decide))]
    exact hfails.imp_right .inr
  · have hword := size_word hholds.bounded
    have hrange : ¬(Int64.ofNat whole.length < 0 ∨
        (Int64.ofNat whole.length).toUInt64 > UInt64.ofNat (2 ^ 64 - 1)) := by
      refine not_or.mpr ⟨size_nonneg hholds.bounded, fun hlt => ?_⟩
      have hmax : (UInt64.ofNat (2 ^ 64 - 1)).toNat = 2 ^ 64 - 1 := by decide +kernel
      have hbound := hholds.bounded
      unfold offMax at hbound
      rw [gt_iff_lt, UInt64.lt_iff_toNat_lt, hmax, hword] at hlt
      omega
    rw [if_neg hrange]
    refine wp_mono (wp_getPosLen rounds null 0 _ disk₁) ?_ fun _ h => h
    intro result disk₂ hgot
    cases result with
    | content bytes =>
      obtain ⟨other, hother, -, rfl⟩ := hgot
      cases hother.unique hholds
      rw [hword, UInt64.toNat_zero, part_whole]
      exact hholds
    | refused =>
      refine hgot.imp_right fun hrest => hrest.imp_right fun hless => ?_
      have hlt := hless whole hholds
      rw [hword, UInt64.toNat_zero] at hlt
      omega
    | threw => exact hgot
    | unfinished =>
      refine ⟨whole, hholds, ?_⟩
      rw [← hword]
      exact hgot

end

/-! ### Round trip -/

/-- A content that was set is the file, a part that was got is that part of the file, and as
long as nothing fails a content that was set is got, however short the counts fall. -/
theorem transfers_exact :
    (∀ rounds content disk disk',
      Runs (Answers True) (setContent rounds content) disk (some true) disk' →
      disk'.Holds content.data ∧ disk'.synced = true ∧ disk'.closed = true) ∧
    (∀ rounds null position length disk bytes disk',
      Runs (Answers True) (getPosLen rounds null position length) disk (.content bytes) disk' →
      ∃ whole, disk.Holds whole ∧
        (position + length).toNat = position.toNat + length.toNat ∧
        position.toNat + length.toNat ≤ whole.length ∧
        bytes = (whole.drop position.toNat).take length.toNat) ∧
    ∀ rounds content disk disk',
      Runs (Answers True) (setContent rounds content) disk (some true) disk' →
      (∀ rounds null bytes disk'',
        Runs (Answers True) (getContent rounds null) disk' (.content bytes) disk'' →
        bytes = content.data) ∧
      ∀ rounds result disk'', Runs (Answers False) (getContent rounds false) disk' result disk'' →
        content.data.length + disk''.interruptions < disk'.interruptions + rounds →
        result = .content content.data := by
  have hset : ∀ rounds content disk disk',
      Runs (Answers True) (setContent rounds content) disk (some true) disk' →
      disk'.Holds content.data ∧ disk'.synced = true ∧ disk'.closed = true := by
    intro rounds content disk disk' hrun
    have hends : SetEnds True rounds content disk (some true) disk' :=
      wp_runs (wp_setContent rounds content disk) hrun
    exact hends
  refine ⟨hset, ?_, ?_⟩
  · intro rounds null position length disk bytes disk' hrun
    have hends : PosLenEnds True rounds null position length disk (.content bytes) disk' :=
      wp_runs (wp_getPosLen rounds null position length disk) hrun
    obtain ⟨whole, hholds, hle, rfl⟩ := hends
    refine ⟨whole, hholds, ?_, hle, rfl⟩
    have hbound := hholds.bounded
    unfold offMax at hbound
    rw [UInt64.toNat_add]
    exact Nat.mod_eq_of_lt (by omega)
  · intro rounds content disk disk' hrun
    have hholds := (hset rounds content disk disk' hrun).1
    refine ⟨?_, ?_⟩
    · intro rounds null bytes disk'' hget
      have hends : ContentEnds True rounds null disk' (.content bytes) disk'' :=
        wp_runs (wp_getContent rounds null disk') hget
      exact Disk.Holds.unique hends hholds
    · intro rounds result disk'' hget hrounds
      have hends : ContentEnds False rounds false disk' result disk'' :=
        wp_runs (wp_getContent rounds false disk') hget
      cases result with
      | content bytes => rw [Disk.Holds.unique hends hholds]
      | refused =>
        rcases hends with hfalse | hnull | hnone
        · exact hfalse.elim
        · exact absurd hnull Bool.false_ne_true
        · exact absurd hnone hholds.file
      | threw => exact False.elim hends
      | unfinished =>
        obtain ⟨whole, hwhole, hused⟩ := hends
        cases hwhole.unique hholds
        omega

/-! ### A recorded run -/

def Disk.put (disk : Disk) (data : Bytes) : Option Disk :=
  disk.file.bind fun file =>
    if h : (overwrite file.bytes disk.offset data).length ≤ offMax then
      some { disk with
        file := some ⟨_, h⟩
        offset := disk.offset + data.length
        synced := false }
    else none

theorem Disk.put_wrote {disk disk' : Disk} {data : Bytes} (h : disk.put data = some disk') :
    disk.Wrote data disk' := by
  obtain ⟨file, hfile, h⟩ := Option.bind_eq_some_iff.mp h
  split at h
  · cases h
    have hholds : disk.Holds file.bytes := by rw [Disk.Holds, hfile, Option.map_some]
    exact ⟨⟨file.bytes, hholds, rfl⟩, rfl, rfl, rfl, rfl⟩
  · cases h

/-- The answers of a disk without errors; a choice bounds what one call takes, none is an
interruption. -/
def answer (disk : Disk) (c : Call) (choice : Nat) : c.Resp × Disk :=
  match c with
  | .stat => (disk.file.map fun file => Int64.ofNat file.bytes.length, disk)
  | .openRead => (disk.file.isSome, disk)
  | .openTrunc => (true, disk.truncate)
  | .assign _ => (true, disk)
  | .write data =>
    match disk.put (data.take choice) with
    | none => (.interrupted, disk.interrupt)
    | some disk' =>
      if choice = 0 then (.interrupted, disk.interrupt)
      else (.done (min choice data.length), disk')
  | .pread length offset =>
    match disk.file with
    | none => (.interrupted, disk.interrupt)
    | some file =>
      if choice = 0 ∨ offset < 0 then (.interrupted, disk.interrupt)
      else (.done ((part file.bytes offset.toNatClampNeg length.toNat).take choice), disk)
  | .fsync => (true, { disk with synced := true })
  | .close => (true, { disk with closed := true })

theorem answer_sound (fallible : Prop) (disk : Disk) (c : Call) (choice : Nat) :
    Answers fallible c disk (answer disk c choice).1 (answer disk c choice).2 := by
  cases c with
  | stat =>
    refine ⟨rfl, ?_⟩
    cases hfile : disk.file with
    | none => simp only [answer, hfile, Option.map_none, or_true]
    | some file =>
      simp only [answer, hfile, Option.map_some]
      exact ⟨file.bytes, by rw [Disk.Holds, hfile, Option.map_some], rfl⟩
  | openRead =>
    refine ⟨rfl, ?_⟩
    cases hfile : disk.file with
    | none => simp [answer, hfile]
    | some file => simp [answer, hfile]
  | openTrunc => rfl
  | assign length => exact ⟨rfl, .inl rfl⟩
  | write data =>
    simp only [answer]
    split
    · rfl
    · rename_i disk' hput
      split
      · rfl
      · rename_i hchoice
        have hwrote := Disk.put_wrote hput
        refine ⟨Nat.min_le_right .., fun hzero => .inr ?_, ?_⟩
        · exact List.eq_nil_of_length_eq_zero (by omega)
        · rwa [List.take_eq_take_min] at hwrote
  | pread length offset =>
    simp only [answer]
    split
    · rfl
    · rename_i file hfile
      split
      · rfl
      · rename_i hchoice
        obtain ⟨hchoice, hoffset⟩ := not_or.mp hchoice
        refine ⟨rfl, Int64.not_lt.mp hoffset, file.bytes, ?_, List.take_prefix .., ?_⟩
        · rw [Disk.Holds, hfile, Option.map_some]
        · exact fun hnil => .inr ((List.take_eq_nil_iff.mp hnil).resolve_left hchoice)
  | fsync => rfl
  | close => rfl

def sampleContent : Source := .bytes (lit "abcde") (by decide)

def missing : Disk := ⟨none, 0, 0, false, false⟩

/-- Two bytes, an interruption, one byte and the rest. -/
def sampleWrites : List Nat := [1, 2, 0, 1, 9, 1, 1]

/-- One byte, two interruptions, three bytes and the rest. -/
def sampleReads : List Nat := [1, 1, 1, 1, 1, 0, 0, 3, 9, 1]

theorem transfers_exact_sample : ∃ disk result disk',
    Runs (Answers True) (setContent 9 sampleContent) missing (some true) disk ∧
    disk.Holds (lit "abcde") ∧ disk.synced = true ∧ disk.closed = true ∧
    Runs (Answers False) (getContent 9 false) disk result disk' ∧
    result = .content (lit "abcde") ∧
    (∃ bytes disk'', Runs (Answers True) (getPosLen 9 false 1 3) disk (.content bytes) disk'' ∧
      ∃ whole, disk.Holds whole ∧ (1 + 3 : UInt64).toNat = 1 + 3 ∧ 1 + 3 ≤ whole.length ∧
        bytes = (whole.drop 1).take 3) := by
  have hwritten : (play answer (fun _ _ _ => true) (setContent 9 sampleContent) sampleWrites
      missing).1.result = some (some true) := by
    decide +kernel
  have hset := play_runs (fun disk c choice _ => answer_sound True disk c choice) hwritten
  have hread : (play answer (fun _ _ _ => true) (getContent 9 false) sampleReads
      (play answer (fun _ _ _ => true) (setContent 9 sampleContent) sampleWrites
        missing).2).1.result = some (.content (lit "abcde")) := by
    decide +kernel
  have hget := play_runs (fun disk c choice _ => answer_sound False disk c choice) hread
  have hpart : (play answer (fun _ _ _ => true) (getPosLen 9 false 1 3) sampleReads
      (play answer (fun _ _ _ => true) (setContent 9 sampleContent) sampleWrites
        missing).2).1.result = some (.content (lit "bcd")) := by
    decide +kernel
  have hgetPart := play_runs (fun disk c choice _ => answer_sound True disk c choice) hpart
  obtain ⟨hholds, hsynced, hclosed⟩ := transfers_exact.1 _ _ _ _ hset
  refine ⟨_, _, _, hset, hholds, hsynced, hclosed, hget, ?_, _, _, hgetPart, ?_⟩
  · exact (transfers_exact.2.2 _ _ _ _ hset).2 _ _ _ hget (by decide +kernel)
  · exact transfers_exact.2.1 _ _ _ _ _ _ _ hgetPart

end CloudStorage.FileTransfer
