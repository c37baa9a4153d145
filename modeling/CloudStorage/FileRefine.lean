import CloudStorage.FileTransfer
import CloudStorage.Lib.Following

/-!
# The loops in machine words follow the file operations of the server

The operations of `FileUtil` that the requests are made of count in numbers, repeat no
interrupted call and do not run out of memory. What the machine does is one of their
runs: interruptions and the `assign` are not seen, a failed `write` or `pread` is seen
as one that transfers nothing.
-/

namespace CloudStorage.FileTransfer
open Posix Interact Transfer

/-! ### What is seen -/

section
variable (path : Bytes) (fd : Nat) (mtime atime : Int)

def fsEvent (c : FsCall) (r : c.Resp) : Option ((c : CloudStorage.Call) × c.Resp) := some ⟨.fs c, r⟩

/-- `fd` is the descriptor that every `open` of the file gives. -/
def seen : (c : Call) → c.Resp → Option ((c : CloudStorage.Call) × c.Resp)
  | .stat, answer =>
    fsEvent (.stat path) ((answer : Option Int64).map fun size => ⟨size.toInt, mtime, atime⟩)
  | .openRead, answer => fsEvent (.openRead path) (if answer then some fd else none)
  | .openTrunc, answer => fsEvent (.openTrunc path) (if answer then some fd else none)
  | .assign _, _ => none
  | .write data, answer =>
    match answer with
    | .done count => fsEvent (.write fd data) count
    | .interrupted => none
    | .failed => fsEvent (.write fd data) (0 : Nat)
  | .pread length offset, answer =>
    match answer with
    | .done chunk => fsEvent (.pread fd offset.toNatClampNeg length.toNat) chunk
    | .interrupted => none
    | .failed => fsEvent (.pread fd offset.toNatClampNeg length.toNat) ([] : Bytes)
  | .fsync, answer => fsEvent (.fsync fd) answer
  | .close, answer => fsEvent (.close fd) answer

/-- Nothing more is transferred than was asked for. -/
def within : (c : Call) → c.Resp → Prop
  | .write data, answer =>
    match answer with
    | .done count => count ≤ data.length
    | _ => True
  | .pread length _, answer =>
    match answer with
    | .done chunk => chunk.length ≤ length.toNat
    | _ => True
  | _, _ => True

def view : View Call.Resp CloudStorage.Call.Resp := ⟨within, seen path fd mtime atime⟩

end

/-! ### Writing -/

def Unfinished {σ : Type} : Ended σ → Prop
  | .unfinished => True
  | _ => False

def WriteEnds : Ended UInt64 → Bool → Prop
  | .complete _, written => written = true
  | .failed, written => written = false
  | .unfinished, _ => False

section
variable {path : Bytes} {fd : Nat} {mtime atime : Int}

theorem writeAll_rest {rest : Bytes} (hne : rest ≠ []) (k : Nat) :
    writeAll fd (k + 1) rest = (do
      let count ← CloudStorage.write fd rest
      if count = 0 then return false
      else writeAll fd k (rest.drop count)) := by
  cases rest with
  | nil => exact absurd rfl hne
  | cons b rest => rfl

theorem writeLoop_follows {content : Bytes} (hbounded : content.length < 2 ^ 64) (rounds : Nat)
    {total : UInt64} {k : Nat} (hle : total.toNat ≤ content.length)
    (hk : content.length - total.toNat ≤ k) :
    Follows (view path fd mtime atime) Unfinished WriteEnds
      (writeLoop content (UInt64.ofNat content.length) rounds total)
      (writeAll fd k (content.drop total.toNat)) := by
  induction rounds generalizing total k with
  | zero => exact follows_gaveUp trivial _
  | succ rounds ih =>
    rw [writeLoop, loop]
    by_cases hless : total < UInt64.ofNat content.length
    · obtain ⟨hlt, hdata⟩ := write_request hbounded hless
      obtain ⟨k, rfl⟩ : ∃ k', k = k' + 1 := ⟨k - 1, by omega⟩
      have hsome : content.drop total.toNat ≠ [] :=
        List.ne_nil_of_length_pos (by rw [List.length_drop]; omega)
      rw [decide_eq_true hless, Bool.not_true, if_neg Bool.false_ne_true, hdata]
      rintro (answer : Count Nat) hok
      cases answer with
      | interrupted => exact ih hle hk
      | failed =>
        rw [writeAll_rest hsome]
        exact ⟨_, rfl, follows_ret rfl⟩
      | done count =>
        have hcount : count ≤ content.length - total.toNat := by
          rw [← List.length_drop]
          exact hok
        rw [writeAll_rest hsome]
        refine ⟨_, rfl, ?_⟩
        by_cases hzero : count = 0
        · subst hzero
          exact follows_ret rfl
        · have htotal := word_add (by omega : total.toNat + count < 2 ^ 64)
          have hnext := ih (by omega : (total + UInt64.ofNat count).toNat ≤ content.length)
            (by omega : content.length - (total + UInt64.ofNat count).toNat ≤ k)
          rw [htotal, ← List.drop_drop] at hnext
          change Follows _ _ _
            ((if count = 0 then _ else _ : Program (Transfer.Attempt UInt64)) >>= _)
            (if count = 0 then _ else _)
          rw [if_neg hzero, if_neg hzero]
          exact hnext
    · have hend : content.length ≤ total.toNat := by
        rw [UInt64.lt_iff_toNat_lt, UInt64.toNat_ofNat_of_lt' hbounded] at hless
        exact Nat.le_of_not_lt hless
      rw [List.drop_of_length_le hend, decide_eq_false hless, Bool.not_false, if_pos rfl, writeAll]
      exact follows_ret rfl

theorem setContent_follows (rounds : Nat) {content : Source}
    (hnull : ¬(content.isNull ∧ content.length ≠ 0)) :
    Follows (view path fd mtime atime) (fun done => done = none) (fun done ok => done = some ok)
      (setContent rounds content) (CloudStorage.setContent path content.data) := by
  rw [setContent, if_neg hnull, content.length_eq hnull]
  rintro (opened : Bool) -
  refine ⟨_, rfl, ?_⟩
  cases opened with
  | false => exact follows_ret rfl
  | true =>
    have hloop := @writeLoop_follows path fd mtime atime _ content.data_lt rounds 0
      content.data.length (Nat.zero_le _) (Nat.le_refl _)
    rw [UInt64.toNat_zero, List.drop_zero] at hloop
    change Follows _ _ _ (writeLoop content.data _ rounds 0 >>= _)
      (writeAll fd content.data.length content.data >>= _)
    refine follows_bind hloop ?_ ?_
    · intro ended q hunfinished
      cases ended with
      | unfinished => exact Or.inl (rfl : (none : Option Bool) = none)
      | _ => exact hunfinished.elim
    · intro ended written hended
      cases ended with
      | unfinished => exact hended.elim
      | failed =>
        have hwritten : written = false := hended
        subst hwritten
        rintro (closed : Bool) -
        exact ⟨_, rfl, follows_ret rfl⟩
      | complete total =>
        have hwritten : written = true := hended
        subst hwritten
        rintro (synced : Bool) -
        refine ⟨_, rfl, ?_⟩
        rintro (closed : Bool) -
        exact ⟨_, rfl, follows_ret rfl⟩

end

/-! ### Reading -/

def ReadEnds : Ended (UInt64 × Bytes) → Option Bytes → Prop
  | .complete s, content => content = some s.2
  | .failed, content => content = none
  | .unfinished, _ => False

section
variable {path : Bytes} {fd : Nat} {mtime atime : Int} {position length : UInt64}

theorem readLoop_follows (hmax : position.toNat + length.toNat ≤ offMax) (rounds : Nat)
    {s : UInt64 × Bytes} {k : Nat} (hle : s.1.toNat ≤ length.toNat)
    (hlength : s.2.length = length.toNat) (hk : length.toNat - s.1.toNat ≤ k) :
    Follows (view path fd mtime atime) Unfinished ReadEnds (readLoop position length rounds s)
      (readAll fd position.toNat length.toNat k (s.2.take s.1.toNat)) := by
  induction rounds generalizing s k with
  | zero => exact follows_gaveUp trivial _
  | succ rounds ih =>
    have htake : (s.2.take s.1.toNat).length = s.1.toNat := by
      rw [List.length_take, hlength, Nat.min_eq_left hle]
    rw [readLoop, loop]
    by_cases hless : s.1 < length
    · have hlt : s.1.toNat < length.toNat := UInt64.lt_iff_toNat_lt.mp hless
      obtain ⟨k, rfl⟩ : ∃ k', k = k' + 1 := ⟨k - 1, by omega⟩
      have hrest : (length - s.1).toNat = length.toNat - s.1.toNat :=
        UInt64.toNat_sub_of_le _ _ (UInt64.le_iff_toNat_le.mpr hle)
      obtain ⟨-, hoffset⟩ := offset_exact (by omega : position.toNat + s.1.toNat ≤ offMax)
      have hcoarse : readAll fd position.toNat length.toNat (k + 1) (s.2.take s.1.toNat) = (do
          let chunk ← CloudStorage.pread fd (position + s.1).toInt64.toNatClampNeg
            (length - s.1).toNat
          if chunk = [] then return none
          else readAll fd position.toNat length.toNat k (s.2.take s.1.toNat ++ chunk)) := by
        rw [readAll, htake, if_pos hlt, hoffset, hrest]
      rw [decide_eq_true hless, Bool.not_true, if_neg Bool.false_ne_true]
      rintro (answer : Count Bytes) hok
      cases answer with
      | interrupted => exact ih hle hlength hk
      | failed =>
        rw [hcoarse]
        exact ⟨_, rfl, follows_ret rfl⟩
      | done chunk =>
        have hcount : chunk.length ≤ length.toNat - s.1.toNat := by
          rw [← hrest]
          exact hok
        rw [hcoarse]
        refine ⟨_, rfl, ?_⟩
        change Follows _ _ _ ((if chunk = [] then _ else _ : Program (Transfer.Attempt _)) >>= _)
          (if chunk = [] then _ else _)
        by_cases hnone : chunk = []
        · rw [if_pos hnone, if_pos hnone]
          exact follows_ret rfl
        · have hpos := List.length_pos_of_ne_nil hnone
          have htotal := word_add (by have hlt := length.toNat_lt; omega :
            s.1.toNat + chunk.length < 2 ^ 64)
          obtain ⟨hsame, hfilled⟩ := fill_chunk (by omega :
            s.1.toNat + chunk.length ≤ s.2.length)
          have hnext := @ih (s.1 + UInt64.ofNat chunk.length, fill s.2 s.1 chunk) k
            (by rw [htotal]; omega) (hsame.trans hlength) (by rw [htotal]; omega)
          rw [htotal, hfilled] at hnext
          rw [if_neg hnone, if_neg hnone]
          exact hnext
    · have hend : length.toNat ≤ s.1.toNat :=
        Nat.le_of_not_lt (mt UInt64.lt_iff_toNat_lt.mpr hless)
      have hnot : ¬(s.2.take s.1.toNat).length < length.toNat := by omega
      have hall : s.2.take s.1.toNat = s.2 := List.take_of_length_le (by omega)
      rw [decide_eq_false hless, Bool.not_false, if_pos rfl]
      cases k with
      | zero =>
        rw [readAll, if_neg hnot, hall]
        exact follows_ret rfl
      | succ k =>
        rw [readAll, if_neg hnot, hall]
        exact follows_ret rfl

/-- `threw` and `unfinished` have no counterpart. -/
def GaveUp : ReadResult → Prop
  | .threw => True
  | .unfinished => True
  | _ => False

def ReadResult.bytes? : ReadResult → Option Bytes
  | .content bytes => some bytes
  | _ => none

theorem fileSize_follows : Follows (view path fd mtime atime) (fun _ => False)
    (fun size coarse => coarse = size.toInt) fileSize (CloudStorage.fileSize path) := by
  rintro (answer : Option Int64) -
  refine ⟨_, rfl, ?_⟩
  cases answer with
  | none => exact follows_ret (by decide)
  | some size => exact follows_ret rfl

/-- The checks of `GetPosLen`, for whatever `st_size` is. -/
theorem refuses_word (size : Int64) :
    (size < 0 ∨ position > size.toUInt64 ∨ length > size.toUInt64 - position ∨
        position > UInt64.ofNat offMax) ↔
      (size.toInt < 0 ∨ size.toInt < position.toNat ∨ size.toInt - position.toNat < length.toNat ∨
        offMax < position.toNat) := by
  by_cases hneg : size < 0
  · have hint : size.toInt < 0 := Int64.lt_iff_toInt_lt.mp hneg
    exact ⟨fun _ => .inl hint, fun _ => .inl hneg⟩
  · have hnonneg : 0 ≤ size := Int64.not_lt.mp hneg
    have hint : (size.toNatClampNeg : Int) = size.toInt := Int64.cast_toNatClampNeg size hnonneg
    have hbound : size.toNatClampNeg ≤ offMax := Nat.le_of_lt_succ size.toNatClampNeg_lt
    have hrefuses := @refuses_iff position length size.toNatClampNeg hbound
    rw [Int64.ofNat_toNatClampNeg size hnonneg] at hrefuses
    rw [hrefuses, ← hint]
    omega

theorem getPosLen_follows (rounds : Nat) (position length : UInt64) :
    Follows (view path fd mtime atime) GaveUp (fun result coarse => coarse = result.bytes?)
      (getPosLen rounds false position length)
      (CloudStorage.getPosLen path position.toNat length.toNat) := by
  unfold getPosLen CloudStorage.getPosLen
  simp only [Bool.false_eq_true, if_false]
  refine follows_bind fileSize_follows (fun _ _ hfalse => hfalse.elim) ?_
  rintro size _ rfl
  by_cases hrange : size.toInt < 0 ∨ size.toInt < position.toNat ∨
      size.toInt - position.toNat < length.toNat ∨ offMax < position.toNat
  · rw [if_pos ((refuses_word size).mpr hrange), if_pos hrange]
    exact follows_ret rfl
  · rw [if_neg (mt (refuses_word size).mp hrange), if_neg hrange]
    have hmax : position.toNat + length.toNat ≤ offMax := by
      have hlt : size.toInt < 2 ^ 63 := size.toInt_lt
      unfold offMax at hrange ⊢
      omega
    rintro (opened : Bool) -
    refine ⟨_, rfl, ?_⟩
    cases opened with
    | false => exact follows_ret rfl
    | true =>
      rintro (assigned : Bool) -
      cases assigned with
      | false => exact Or.inl (trivial : GaveUp .threw)
      | true =>
        have hloop := @readLoop_follows path fd mtime atime position length hmax rounds
          (0, List.replicate length.toNat 0) length.toNat (Nat.zero_le _) List.length_replicate
          (Nat.sub_le ..)
        change Follows _ _ _
          (readLoop position length rounds (0, List.replicate length.toNat 0) >>= _)
          (readAll fd position.toNat length.toNat length.toNat [] >>= _)
        refine follows_bind hloop ?_ ?_
        · intro ended q hunfinished
          cases ended with
          | unfinished => exact Or.inl (trivial : GaveUp .unfinished)
          | _ => exact hunfinished.elim
        · intro ended content hended
          cases ended with
          | unfinished => exact hended.elim
          | failed =>
            have hcontent : content = none := hended
            subst hcontent
            rintro (closed : Bool) -
            exact ⟨_, rfl, follows_ret rfl⟩
          | complete s =>
            have hcontent : content = some s.2 := hended
            subst hcontent
            rintro (closed : Bool) -
            refine ⟨_, rfl, ?_⟩
            cases closed with
            | false => exact follows_ret rfl
            | true => exact follows_ret rfl

theorem getContent_follows (rounds : Nat) :
    Follows (view path fd mtime atime) GaveUp (fun result coarse => coarse = result.bytes?)
      (getContent rounds false) (CloudStorage.getContent path) := by
  unfold getContent CloudStorage.getContent
  refine follows_bind fileSize_follows (fun _ _ hfalse => hfalse.elim) ?_
  rintro size _ rfl
  by_cases hneg : size < 0
  · rw [if_pos (.inl hneg), if_pos (.inl (Int64.lt_iff_toInt_lt.mp hneg))]
    exact follows_ret rfl
  · have hnonneg : 0 ≤ size := Int64.not_lt.mp hneg
    have hint : (size.toNatClampNeg : Int) = size.toInt := Int64.cast_toNatClampNeg size hnonneg
    have hbound : size.toNatClampNeg ≤ offMax := Nat.le_of_lt_succ size.toNatClampNeg_lt
    have hword : size.toUInt64.toNat = size.toInt.toNat := by
      have hsize := size_word hbound
      rw [Int64.ofNat_toNatClampNeg size hnonneg] at hsize
      omega
    have hmax : (UInt64.ofNat (2 ^ 64 - 1)).toNat = 2 ^ 64 - 1 := by decide +kernel
    have hsmall : ¬size.toUInt64 > UInt64.ofNat (2 ^ 64 - 1) := by
      rw [gt_iff_lt, UInt64.lt_iff_toNat_lt, hmax]
      have hlt := size.toUInt64.toNat_lt
      omega
    have hcoarse : ¬(size.toInt < 0 ∨ 2 ^ 64 - 1 < size.toInt) := by
      unfold offMax at hbound
      omega
    rw [if_neg (not_or.mpr ⟨hneg, hsmall⟩), if_neg hcoarse, ← hword]
    exact getPosLen_follows rounds 0 size.toUInt64

end

/-! ### The two worlds -/

/-- The calls that never change the file. -/
def Reads : Call → Prop
  | .openTrunc => False
  | .write _ => False
  | .fsync => False
  | _ => True

theorem fileSize_only : fileSize.Only Reads := by
  refine only_bind (only_perform trivial) fun answer => ?_
  cases answer with
  | none => exact only_pure _
  | some size => exact only_pure _

theorem readLoop_only (position length : UInt64) (rounds : Nat) (s : UInt64 × Bytes) :
    (readLoop position length rounds s).Only Reads := by
  refine only_loop (fun s => ?_) rounds s
  refine only_bind (only_perform trivial) fun answer => ?_
  cases answer with
  | done chunk =>
    simp only
    split
    · exact only_pure _
    · exact only_pure _
  | _ => exact only_pure _

theorem getPosLen_only (rounds : Nat) (null : Bool) (position length : UInt64) :
    (getPosLen rounds null position length).Only Reads := by
  unfold getPosLen
  split
  · exact only_pure _
  · refine only_bind fileSize_only fun size => ?_
    split
    · exact only_pure _
    · refine only_bind (only_perform trivial) fun opened => ?_
      split
      · refine only_bind (only_perform trivial) fun assigned => ?_
        split
        · refine only_bind (readLoop_only position length rounds _) fun ended => ?_
          cases ended with
          | unfinished => exact only_pure _
          | failed => exact only_bind (only_perform trivial) fun _ => only_pure _
          | complete s =>
            refine only_bind (only_perform trivial) fun closed => ?_
            split
            · exact only_pure _
            · exact only_pure _
        · exact only_pure _
      · exact only_pure _

theorem getContent_only (rounds : Nat) (null : Bool) : (getContent rounds null).Only Reads := by
  refine only_bind fileSize_only fun size => ?_
  split
  · exact only_pure _
  · exact getPosLen_only rounds null 0 _

section
variable {path : Bytes}

def Failed : (c : Call) → c.Resp → Prop
  | .write _, answer => answer = .failed
  | .fsync, answer => answer = false
  | .close, answer => answer = false
  | _, _ => False

/-- A call that fails changes nothing. -/
def Unharmed : Env Call.Resp Disk := fun c disk answer disk' =>
  Answers True c disk answer disk' ∧ (Failed c answer → disk' = disk)

/-- The file is the one at the path. -/
def SameFile (path : Bytes) (disk : Disk) (fs : FileSystem) : Prop :=
  disk.file.map File.bytes = (fs.get (place path)).map Inode.bytes

theorem SameFile.get {disk : Disk} {fs : FileSystem} (h : SameFile path disk fs) {bytes : Bytes}
    (hholds : disk.Holds bytes) :
    ∃ fd, fs.entry (place path) = some fd ∧ (fs.inode fd).bytes = bytes := by
  rw [SameFile, hholds, FileSystem.get, Option.map_map] at h
  obtain ⟨fd, hentry, hbytes⟩ := Option.map_eq_some_iff.mp h.symm
  exact ⟨fd, hentry, hbytes⟩

theorem system_call {c : FsCall} {r : c.Resp} {w : World} {fs : FileSystem} (ch : Choice)
    (h : fsAnswer w.fs w.dirs (max w.clock ch.now) ch c = (r, fs)) :
    ∃ w', System Anything (.fs c) w r w' ∧ w'.fs = fs := by
  have hanswer : (CloudStorage.answer w (.fs c) ch).1 = r := congrArg Prod.fst h
  have hfs : (CloudStorage.answer w (.fs c) ch).2.fs = fs := congrArg Prod.snd h
  exact ⟨_, ⟨trivial, ch, Prod.ext hanswer rfl⟩, hfs⟩

/-- Two answers of calls that read go together. -/
theorem reads_together {fd : Nat} {mtime : Int} {fs : FileSystem}
    (hfd : ∀ i, fs.entry (place path) = some i → i = fd ∧ (fs.inode i).mtime / second = mtime)
    {c : Call} (hc : Reads c) :
    Together (view path fd mtime 0) Unharmed (System Anything)
      (fun disk w => SameFile path disk w.fs ∧ w.fs = fs) c := by
  rintro disk answer disk' w ⟨hsame, hfs⟩ ⟨hanswer, hfailed⟩
  have hkept : ∀ {c : FsCall} {r : c.Resp} (ch : Choice), disk'.file = disk.file →
      (∀ now, fsAnswer fs w.dirs now ch c = (r, fs)) →
      ∃ w', System Anything (.fs c) w r w' ∧ SameFile path disk' w'.fs ∧ w'.fs = fs := by
    intro c r ch hfile h
    obtain ⟨w', hsystem, hfs'⟩ := system_call ch (hfs.symm ▸ h _ :
      fsAnswer w.fs w.dirs (max w.clock ch.now) ch c = (r, fs))
    refine ⟨w', hsystem, ?_, hfs'⟩
    rwa [SameFile, hfile, hfs', ← hfs]
  have hsame' : SameFile path disk fs := hfs ▸ hsame
  cases c with
  | stat =>
    obtain ⟨rfl, hanswer⟩ := hanswer
    refine ⟨trivial, ?_⟩
    cases answer with
    | none => exact hkept { ok := false } rfl fun _ => rfl
    | some size =>
      obtain ⟨bytes, hholds, rfl⟩ := hanswer
      obtain ⟨i, hentry, hbytes⟩ := hsame'.get hholds
      obtain ⟨rfl, hmtime⟩ := hfd i hentry
      refine hkept {} rfl fun now => ?_
      have hbound := hholds.bounded
      unfold offMax at hbound
      simp only [fsAnswer, FileSystem.get, hentry, Option.map_some, hbytes, hmtime, if_true,
        Int64.toInt_ofNat_of_lt (by omega : bytes.length < 2 ^ 63)]
  | openRead =>
    obtain ⟨rfl, hanswer⟩ := hanswer
    refine ⟨trivial, ?_⟩
    cases answer with
    | false => exact hkept { ok := false } rfl fun _ => rfl
    | true =>
      obtain ⟨file, hfile⟩ := Option.ne_none_iff_exists'.mp hanswer
      obtain ⟨i, hentry, -⟩ := hsame'.get (by rw [Disk.Holds, hfile, Option.map_some])
      obtain ⟨rfl, -⟩ := hfd i hentry
      refine hkept {} rfl fun now => ?_
      simp only [fsAnswer, hentry, if_true]
  | openTrunc => exact hc.elim
  | assign length =>
    obtain ⟨rfl, -⟩ := hanswer
    exact ⟨trivial, hsame, hfs⟩
  | write data => exact hc.elim
  | pread length offset =>
    cases answer with
    | interrupted =>
      have hdisk : disk' = disk.interrupt := hanswer
      subst hdisk
      exact ⟨trivial, hsame, hfs⟩
    | failed =>
      obtain ⟨rfl, -⟩ := hanswer
      exact ⟨trivial, hkept { ok := false } rfl fun _ => rfl⟩
    | done chunk =>
      obtain ⟨rfl, -, bytes, hholds, hchunk, -⟩ := hanswer
      have hle : chunk.length ≤ length.toNat := hchunk.length_le.trans (List.length_take_le ..)
      obtain ⟨i, hentry, hbytes⟩ := hsame'.get hholds
      obtain ⟨rfl, -⟩ := hfd i hentry
      refine ⟨hle, hkept { short := length.toNat - chunk.length } rfl fun now => ?_⟩
      have hpart := prefix_part hchunk
      rw [part] at hpart
      simp only [fsAnswer, hbytes, if_true, Nat.sub_sub_self hle, ← hpart]
  | fsync => exact hc.elim
  | close =>
    refine ⟨trivial, ?_⟩
    cases answer with
    | false =>
      have hdisk : disk' = disk := hfailed rfl
      exact hkept { ok := false } (congrArg Disk.file hdisk) fun _ => rfl
    | true =>
      have hdisk : disk' = { disk with closed := true } := hanswer
      have hfile : disk'.file = disk.file := by rw [hdisk]
      exact hkept {} hfile fun _ => rfl

theorem reads_refine {p : Program ReadResult} {q : CloudStorage.Program (Option Bytes)}
    (honly : p.Only Reads)
    (hfollows : ∀ fd mtime, Follows (view path fd mtime 0) GaveUp
      (fun result coarse => coarse = result.bytes?) p q)
    {disk disk' : Disk} {w : World} {result : ReadResult} (hsame : SameFile path disk w.fs)
    (hrun : Runs Unharmed p disk result disk') (hdone : ¬GaveUp result) :
    ∃ w', Runs (System Anything) q w result.bytes? w' ∧ SameFile path disk' w'.fs ∧
      w'.fs = w.fs := by
  obtain ⟨fd, mtime, hfd⟩ : ∃ fd mtime, ∀ i, w.fs.entry (place path) = some i →
      i = fd ∧ (w.fs.inode i).mtime / second = mtime := by
    cases hentry : w.fs.entry (place path) with
    | none => exact ⟨0, 0, nofun⟩
    | some i =>
      refine ⟨i, (w.fs.inode i).mtime / second, ?_⟩
      rintro _ ⟨⟩
      exact ⟨rfl, rfl⟩
  have htogether := only_mono honly fun c => reads_together hfd
  have hruns := (hfollows fd mtime).runs htogether ⟨hsame, rfl⟩ hrun
  rcases hruns with hgave | ⟨bytes, w', hrun', rfl, hW⟩
  · exact absurd hgave hdone
  · exact ⟨w', hrun', hW⟩

/-- A run of `GetPosLen` in machine words is one of the server's. -/
theorem getPosLen_refines {rounds : Nat} {position length : UInt64} {disk disk' : Disk} {w : World}
    {result : ReadResult} (hsame : SameFile path disk w.fs)
    (hrun : Runs Unharmed (getPosLen rounds false position length) disk result disk')
    (hdone : ¬GaveUp result) :
    ∃ w', Runs (System Anything)
        (CloudStorage.getPosLen path position.toNat length.toNat) w result.bytes? w' ∧
      SameFile path disk' w'.fs ∧ w'.fs = w.fs :=
  reads_refine (getPosLen_only rounds false position length)
    (fun _ _ => getPosLen_follows rounds position length) hsame hrun hdone

/-- And so is one of `GetContent`. -/
theorem getContent_refines {rounds : Nat} {disk disk' : Disk} {w : World} {result : ReadResult}
    (hsame : SameFile path disk w.fs)
    (hrun : Runs Unharmed (getContent rounds false) disk result disk') (hdone : ¬GaveUp result) :
    ∃ w', Runs (System Anything) (CloudStorage.getContent path) w result.bytes? w' ∧
      SameFile path disk' w'.fs ∧ w'.fs = w.fs :=
  reads_refine (getContent_only rounds false) (fun _ _ => getContent_follows rounds) hsame hrun
    hdone

/-- The file at the path is open, and the offset is its end. -/
structure Writing (path : Bytes) (fd : Nat) (disk : Disk) (fs : FileSystem) : Prop where
  entry : fs.entry (place path) = some fd
  holds : disk.Holds (fs.inode fd).bytes
  offset : disk.offset = (fs.inode fd).bytes.length

theorem Writing.sameFile {fd : Nat} {disk : Disk} {fs : FileSystem}
    (h : Writing path fd disk fs) : SameFile path disk fs := by
  rw [SameFile, h.holds, FileSystem.get, h.entry]
  rfl

/-- What is called on the descriptor that is open for writing. -/
def Writes : Call → Prop
  | .write _ => True
  | .fsync => True
  | .close => True
  | _ => False

theorem writes_together {fd : Nat} {mtime atime : Int} {c : Call} (hc : Writes c) :
    Together (view path fd mtime atime) Unharmed (System Anything)
      (fun disk w => Writing path fd disk w.fs) c := by
  rintro disk answer disk' w hW ⟨hanswer, hfailed⟩
  have hkept : ∀ {c : FsCall} {r : c.Resp} (ch : Choice), disk'.file = disk.file →
      disk'.offset = disk.offset → (∀ now, fsAnswer w.fs w.dirs now ch c = (r, w.fs)) →
      ∃ w', System Anything (.fs c) w r w' ∧ Writing path fd disk' w'.fs := by
    intro c r ch hfile hoffset h
    obtain ⟨w', hsystem, hfs⟩ := system_call ch (h _)
    have hholds : disk'.Holds (w.fs.inode fd).bytes := by
      rw [Disk.Holds, hfile]
      exact hW.holds
    rw [← hfs] at hholds
    exact ⟨w', hsystem, hfs ▸ hW.entry, hholds, by rw [hoffset, hfs]; exact hW.offset⟩
  cases c with
  | write data =>
    cases answer with
    | interrupted =>
      have hdisk : disk' = disk.interrupt := hanswer
      subst hdisk
      exact ⟨trivial, hW.entry, hW.holds, hW.offset⟩
    | failed =>
      have hdisk : disk' = disk := hfailed rfl
      subst hdisk
      exact ⟨trivial, hkept { ok := false } rfl rfl fun _ => rfl⟩
    | done count =>
      obtain ⟨hcount, -, hwrote⟩ := hanswer
      have hwritten : fsAnswer w.fs w.dirs (max w.clock 0) { short := data.length - count }
          (.write fd data) = (count, w.fs.setInode fd
            ⟨(w.fs.inode fd).bytes ++ data.take count, max w.clock 0⟩) := by
        simp only [fsAnswer, if_true, Nat.sub_sub_self hcount, List.length_take,
          Nat.min_eq_left hcount]
      obtain ⟨w', hsystem, hfs⟩ := @system_call (.write fd data) count w _ _ hwritten
      refine ⟨hcount, w', hsystem, ?_⟩
      change Writing path fd disk' w'.fs
      rw [hfs]
      refine ⟨hW.entry, ?_, ?_⟩
      · rw [FileSystem.inode_setInode]
        exact hwrote.appended hW.holds hW.offset
      · rw [hwrote.offset, hW.offset, FileSystem.inode_setInode, List.length_append]
  | fsync =>
    refine ⟨trivial, ?_⟩
    cases answer with
    | false =>
      have hdisk : disk' = disk := hfailed rfl
      subst hdisk
      exact hkept { ok := false } rfl rfl fun _ => rfl
    | true =>
      have hdisk : disk' = { disk with synced := true } := hanswer
      subst hdisk
      exact hkept {} rfl rfl fun _ => rfl
  | close =>
    refine ⟨trivial, ?_⟩
    cases answer with
    | false =>
      have hdisk : disk' = disk := hfailed rfl
      subst hdisk
      exact hkept { ok := false } rfl rfl fun _ => rfl
    | true =>
      have hdisk : disk' = { disk with closed := true } := hanswer
      subst hdisk
      exact hkept {} rfl rfl fun _ => rfl
  | stat => exact hc.elim
  | openRead => exact hc.elim
  | openTrunc => exact hc.elim
  | assign length => exact hc.elim
  | pread length offset => exact hc.elim

theorem openTrunc_opens {path : Bytes} {w : World} (disk : Disk)
    (hdir : ¬IsDir w.dirs (place path)) : ∃ fd w',
    System Anything (.fs (.openTrunc path)) w (some fd) w' ∧
      Writing path fd disk.truncate w'.fs := by
  cases hentry : w.fs.entry (place path) with
  | some i =>
    obtain ⟨w', hsystem, hfs⟩ := @system_call (.openTrunc path) (some i) w
      (w.fs.setInode i ⟨[], max w.clock 0⟩) {} (by simp only [fsAnswer, hentry, hdir, not_false_eq_true, and_self, if_true])
    refine ⟨i, w', hsystem, ?_⟩
    rw [hfs]
    refine ⟨hentry, ?_, ?_⟩
    · rw [FileSystem.inode_setInode]
      exact Disk.truncate_holds
    · rw [FileSystem.inode_setInode]
      rfl
  | none =>
    obtain ⟨w', hsystem, hfs⟩ := @system_call (.openTrunc path) (some w.fs.next) w
      (w.fs.create (place path) (max w.clock 0)) {} (by simp only [fsAnswer, hentry, hdir, not_false_eq_true, and_self, if_true])
    refine ⟨w.fs.next, w', hsystem, ?_⟩
    rw [hfs]
    refine ⟨(FileSystem.owns_create _).named, ?_, ?_⟩
    · rw [FileSystem.inode_create]
      exact Disk.truncate_holds
    · rw [FileSystem.inode_create]
      rfl

/-- What `SetContent` calls once the file is open. -/
theorem opened_only (rounds : Nat) (content : Source) :
    Prog.Only Writes (do
      match ← writeLoop content.data content.length rounds 0 with
      | .unfinished => return none
      | .failed =>
        let _ ← perform .close
        return some false
      | .complete _ =>
        let synced ← perform .fsync
        let closed ← perform .close
        return some (synced && closed) : Program (Option Bool)) := by
  refine only_bind (only_loop (fun total => ?_) rounds 0) fun ended => ?_
  · refine only_bind (only_perform trivial) fun answer => ?_
    cases answer with
    | done count =>
      simp only
      split <;> exact only_pure _
    | _ => exact only_pure _
  · cases ended with
    | unfinished => exact only_pure _
    | failed => exact only_bind (only_perform trivial) fun _ => only_pure _
    | complete total =>
      exact only_bind (only_perform trivial) fun _ =>
        only_bind (only_perform trivial) fun _ => only_pure _

/-- A run of `SetContent` in machine words is one of the server's. -/
theorem setContent_refines {rounds : Nat} {content : Source} {disk disk' : Disk} {w : World}
    {ok : Bool} (hnull : ¬(content.isNull ∧ content.length ≠ 0)) (hsame : SameFile path disk w.fs)
    (hdir : ¬IsDir w.dirs (place path))
    (hrun : Runs Unharmed (setContent rounds content) disk (some ok) disk') :
    ∃ w', Runs (System Anything) (CloudStorage.setContent path content.data) w ok w' ∧
      SameFile path disk' w'.fs := by
  obtain ⟨fd, w₁, hopen, hwriting⟩ := openTrunc_opens disk hdir
  have hfollows := @setContent_follows path fd 0 0 rounds content hnull
  have honly := only_mono (opened_only rounds content) fun c => @writes_together path fd 0 0 c
  rw [setContent, if_neg hnull] at hrun hfollows
  cases hrun with
  | @head _ _ _ disk₁ _ opened _ hanswer hrest =>
    obtain ⟨next', hcoarse, hnext⟩ := hfollows opened trivial
    rw [hcoarse]
    cases opened with
    | false =>
      obtain ⟨⟨rfl, -⟩, -⟩ := hanswer
      obtain ⟨w', hclosed, hfs⟩ := @system_call (.openTrunc path) none w w.fs { ok := false } rfl
      cases hrest
      rcases hnext with hgave | ⟨b, hb, hok⟩
      · cases hgave
      · cases hok
        exact ⟨w', .head hclosed (hb ▸ .refl ..), hfs ▸ hsame⟩
    | true =>
      obtain ⟨rfl, -⟩ := hanswer
      rcases hnext.runs honly hwriting hrest with hgave | ⟨b, w', hrun', hok, hW⟩
      · cases hgave
      · cases hok
        exact ⟨w', .head hopen hrun', hW.sameFile⟩

/-! ### Operations one after another -/

inductive FileOp
  | set (content : Source)
  | get
  | part (position length : UInt64)

inductive FileResult
  | wrote (ok : Bool)
  | read (bytes : Option Bytes)

/-- An operation in machine words, whatever its rounds; it neither throws nor runs out of them. -/
inductive MachineStep : Disk → FileOp × FileResult → Disk → Prop
  | set {rounds : Nat} {content : Source} {ok : Bool} {disk disk' : Disk} :
      ¬(content.isNull ∧ content.length ≠ 0) →
      Runs Unharmed (setContent rounds content) disk (some ok) disk' →
      MachineStep disk (.set content, .wrote ok) disk'
  | get {rounds : Nat} {result : ReadResult} {disk disk' : Disk} : ¬GaveUp result →
      Runs Unharmed (getContent rounds false) disk result disk' →
      MachineStep disk (.get, .read result.bytes?) disk'
  | part {rounds : Nat} {position length : UInt64} {result : ReadResult} {disk disk' : Disk} :
      ¬GaveUp result →
      Runs Unharmed (getPosLen rounds false position length) disk result disk' →
      MachineStep disk (.part position length, .read result.bytes?) disk'

/-- The operation as the requests have it, on the file at `path`. -/
inductive ServerStep (path : Bytes) : World → FileOp × FileResult → World → Prop
  | set {content : Source} {ok : Bool} {w w' : World} :
      Runs (System Anything) (CloudStorage.setContent path content.data) w ok w' →
      ServerStep path w (.set content, .wrote ok) w'
  | get {bytes : Option Bytes} {w w' : World} :
      Runs (System Anything) (CloudStorage.getContent path) w bytes w' →
      ServerStep path w (.get, .read bytes) w'
  | part {position length : UInt64} {bytes : Option Bytes} {w w' : World} :
      Runs (System Anything) (CloudStorage.getPosLen path position.toNat length.toNat) w bytes w' →
      ServerStep path w (.part position length, .read bytes) w'

/-- The file is the one at the path, where no directory is. -/
structure FileAt (path : Bytes) (disk : Disk) (w : World) : Prop where
  same : SameFile path disk w.fs
  no_dir : ¬IsDir w.dirs (place path)

theorem MachineStep.refines {disk disk' : Disk} {l : FileOp × FileResult} {w : World}
    (h : MachineStep disk l disk') (hat : FileAt path disk w) :
    ∃ w', ServerStep path w l w' ∧ FileAt path disk' w' := by
  cases h with
  | @set rounds content ok _ _ hnull hrun =>
    obtain ⟨w', hrun', hsame'⟩ := setContent_refines hnull hat.same hat.no_dir hrun
    have hdirs := onFiles_dirs (onFiles_setContent path content.data) hrun'
    exact ⟨w', .set hrun', hsame', hdirs ▸ hat.no_dir⟩
  | get hdone hrun =>
    obtain ⟨w', hrun', hsame', -⟩ := getContent_refines hat.same hrun hdone
    have hdirs := onFiles_dirs (onFiles_getContent path) hrun'
    exact ⟨w', .get hrun', hsame', hdirs ▸ hat.no_dir⟩
  | @part rounds position length _ _ _ hdone hrun =>
    obtain ⟨w', hrun', hsame', -⟩ := getPosLen_refines hat.same hrun hdone
    have hdirs := onFiles_dirs (onFiles_getPosLen path position.toNat length.toNat) hrun'
    exact ⟨w', .part hrun', hsame', hdirs ▸ hat.no_dir⟩

/-- What a file goes through in machine words it goes through as the requests have it. -/
theorem transfers_refine {disk disk' : Disk} {log : List (FileOp × FileResult)} {w : World}
    (hat : FileAt path disk w) (hrun : Transition.Run MachineStep disk log disk') :
    ∃ w', Transition.Run (ServerStep path) w log w' ∧ FileAt path disk' w' :=
  Transition.Run.simulates (fun _ _ _ _ hstep hat => hstep.refines hat) hrun hat

end

theorem answer_unharmed (disk : Disk) (c : Call) (choice : Nat) :
    Unharmed c disk (answer disk c choice).1 (answer disk c choice).2 := by
  refine ⟨answer_sound True disk c choice, fun hfailed => ?_⟩
  cases c with
  | write data =>
    simp only [Failed, answer] at hfailed
    repeat' split at hfailed
    all_goals cases hfailed
  | fsync => cases hfailed
  | close => cases hfailed
  | _ => cases hfailed

/-- A file written in three parts, read whole and in part. -/
theorem transfers_refine_sample : ∃ disk w,
    Transition.Run MachineStep missing [(.set sampleContent, .wrote true),
      (.get, .read (some (lit "abcde"))), (.part 1 3, .read (some (lit "bcd")))] disk ∧
    Transition.Run (ServerStep (lit "f")) World.empty [(.set sampleContent, .wrote true),
      (.get, .read (some (lit "abcde"))), (.part 1 3, .read (some (lit "bcd")))] w ∧
    FileAt (lit "f") disk w := by
  have hwritten : (play answer (fun _ _ _ => true) (setContent 9 sampleContent) sampleWrites
      missing).1.result = some (some true) := by
    decide +kernel
  have hset := play_runs (fun disk c choice _ => answer_unharmed disk c choice) hwritten
  have hread : (play answer (fun _ _ _ => true) (getContent 9 false) sampleReads
      (play answer (fun _ _ _ => true) (setContent 9 sampleContent) sampleWrites
        missing).2).1.result = some (.content (lit "abcde")) := by
    decide +kernel
  have hget := play_runs (fun disk c choice _ => answer_unharmed disk c choice) hread
  have hpart : (play answer (fun _ _ _ => true) (getPosLen 9 false 1 3) sampleReads
      (play answer (fun _ _ _ => true) (getContent 9 false) sampleReads
        (play answer (fun _ _ _ => true) (setContent 9 sampleContent) sampleWrites
          missing).2).2).1.result = some (.content (lit "bcd")) := by
    decide +kernel
  have hgetPart := play_runs (fun disk c choice _ => answer_unharmed disk c choice) hpart
  have hrun : Transition.Run MachineStep missing [(.set sampleContent, .wrote true),
      (.get, .read (some (lit "abcde"))), (.part 1 3, .read (some (lit "bcd")))] _ :=
    .snoc (.snoc (.snoc (.nil _) (.set (by decide) hset))
      (@MachineStep.get 9 (.content (lit "abcde")) _ _ (fun h => h) hget))
      (@MachineStep.part 9 1 3 (.content (lit "bcd")) _ _ (fun h => h) hgetPart)
  have hmissing : FileAt (lit "f") missing World.empty := ⟨rfl, by decide⟩
  obtain ⟨w, hserver, hat⟩ := transfers_refine hmissing hrun
  exact ⟨_, w, hrun, hserver, hat⟩

end CloudStorage.FileTransfer
