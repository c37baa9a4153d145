import CloudStorage.Json

/-!
# Configuration of the log system (`Util::JsonData`)
-/

namespace CloudStorage
open Posix

/-- `Value::asString`; `realText` is the text of a number that is no integer. -/
def Json.asText (realText : Option Int → Bytes) : Json → Except Bytes Bytes
  | .null => .ok []
  | .bool b => .ok (if b then lit "true" else lit "false")
  | .int n => .ok (decimalInt n)
  | .real n => .ok (realText n)
  | .str s => .ok s
  | .arr _ => .error (lit "Type is not convertible to string")
  | .obj _ => .error (lit "Type is not convertible to string")

structure JsonData where
  buffer_size : Nat
  threshold : Nat
  linear_growth : Nat
  flush_log : Nat
  backup_addr : Bytes
  backup_port : Nat
  thread_count : Nat
  backup_queue_size : Nat
  backup_connect_timeout_ms : Nat
  backup_send_timeout_ms : Nat
  backup_retries : Nat
  backup_enabled : Bool
  backup_token : Bytes
  deriving DecidableEq, Repr

namespace JsonData

def requireUnsigned (root : Json) (name : Bytes) : Except Bytes Nat :=
  if !root.isMember name || !(root.member name).isUInt64 then
    .error (name ++ lit " must be an unsigned integer")
  else .ok (root.member name).asWhole.toNat

/-- The three members that are positive `int`s. -/
def requirePositive (root : Json) (name : Bytes) : Except Bytes Nat :=
  if !(root.member name).isInt || decide ((root.member name).asWhole ≤ 0) then
    .error (name ++ lit " must be positive")
  else .ok (root.member name).asWhole.toNat

def requireAddress (root : Json) : Except Bytes Bytes :=
  if !(root.member (lit "backup_addr")).isString ||
      (root.member (lit "backup_addr")).asString.isEmpty then
    .error (lit "backup_addr must be a non-empty string")
  else .ok (root.member (lit "backup_addr")).asString

def requirePort (root : Json) : Except Bytes Nat :=
  if !(root.member (lit "backup_port")).isUInt ||
      decide ((root.member (lit "backup_port")).asWhole = 0) ||
      decide ((root.member (lit "backup_port")).asWhole > 65535) then
    .error (lit "backup_port must be in 1..65535")
  else .ok (root.member (lit "backup_port")).asWhole.toNat

def requireEnabled (root : Json) : Except Bytes Bool :=
  if !(root.member (lit "backup_enabled")).isBool then .error (lit "backup_enabled must be boolean")
  else .ok (root.member (lit "backup_enabled")).asBool

/-- `root.get("backup_token", "").asString()`. -/
def readToken (realText : Option Int → Bytes) (root : Json) : Except Bytes Bytes :=
  if root.isMember (lit "backup_token") then (root.member (lit "backup_token")).asText realText
  else .ok []

/-- The checks made once every member is read. -/
def validate (data : JsonData) : Except Bytes JsonData :=
  if data.buffer_size = 0 ∨ data.linear_growth = 0 ∨ data.thread_count = 0 ∨
      data.backup_queue_size = 0 then
    .error (lit "log buffer, thread and queue sizes must be positive")
  else if data.threshold < data.buffer_size then
    .error (lit "threshold must be greater than or equal to buffer_size")
  else if data.flush_log > 2 then .error (lit "flush_log must be 0, 1 or 2")
  else .ok data

def readMembers (realText : Option Int → Bytes) (root : Json) : Except Bytes JsonData := do
  let buffer_size ← requireUnsigned root (lit "buffer_size")
  let threshold ← requireUnsigned root (lit "threshold")
  let linear_growth ← requireUnsigned root (lit "linear_growth")
  let flush_log ← requireUnsigned root (lit "flush_log")
  let thread_count ← requireUnsigned root (lit "thread_count")
  let backup_queue_size ← requireUnsigned root (lit "backup_queue_size")
  let backup_addr ← requireAddress root
  let backup_port ← requirePort root
  let backup_connect_timeout_ms ← requirePositive root (lit "backup_connect_timeout_ms")
  let backup_send_timeout_ms ← requirePositive root (lit "backup_send_timeout_ms")
  let backup_retries ← requirePositive root (lit "backup_retries")
  let backup_enabled ← requireEnabled root
  let backup_token ← readToken realText root
  return {
    buffer_size, threshold, linear_growth, flush_log, backup_addr, backup_port, thread_count
    backup_queue_size, backup_connect_timeout_ms, backup_send_timeout_ms, backup_retries
    backup_enabled, backup_token }

/-- The constructor on the content of the file at `path`. -/
def read (text : JsonText) (realText : Option Int → Bytes) (path : Bytes)
    (content : Option Bytes) : Except Bytes JsonData :=
  match content with
  | none => .error (lit "cannot read log config: " ++ path)
  | some body =>
    match text.parse body with
    | .ok root =>
      if root.isObject then readMembers realText root >>= validate
      else .error (lit "invalid log config: ")
    | .error e => .error (lit "invalid log config: " ++ e)

def Accepted (data : JsonData) : Prop :=
  ∃ text realText path content, read text realText path content = .ok data

/-- What the constructor establishes about the sizes. -/
structure Checked (data : JsonData) : Prop where
  buffer_pos : 0 < data.buffer_size
  buffer_lt : data.buffer_size < 2 ^ 64
  growth_pos : 0 < data.linear_growth
  growth_lt : data.linear_growth < 2 ^ 64
  threshold_ge : data.buffer_size ≤ data.threshold
  threshold_lt : data.threshold < 2 ^ 64
  threads_pos : 0 < data.thread_count
  queue_pos : 0 < data.backup_queue_size
  flush_le : data.flush_log ≤ 2

theorem requireUnsigned_lt {root : Json} {name : Bytes} {n : Nat}
    (h : requireUnsigned root name = .ok n) : n < 2 ^ 64 := by
  unfold requireUnsigned at h
  split at h
  · cases h
  · rename_i hc
    simp only [Bool.or_eq_true, Bool.not_eq_true', not_or, Bool.not_eq_false] at hc
    have hrange := hc.2
    cases h
    unfold Json.isUInt64 Json.isWholeIn at hrange
    unfold Json.asWhole
    cases hw : (root.member name).whole with
    | none => simp [hw] at hrange
    | some k =>
      simp only [hw, decide_eq_true_eq] at hrange
      simp only [Option.getD_some]
      omega

theorem validate_ok {data data' : JsonData} (h : validate data = .ok data') :
    data' = data ∧ 0 < data.buffer_size ∧ 0 < data.linear_growth ∧ 0 < data.thread_count ∧
      0 < data.backup_queue_size ∧ data.buffer_size ≤ data.threshold ∧ data.flush_log ≤ 2 := by
  unfold validate at h
  split at h
  · cases h
  · split at h
    · cases h
    · split at h
      · cases h
      · cases h
        exact ⟨rfl, by omega, by omega, by omega, by omega, by omega, by omega⟩

theorem readMembers_lt {realText : Option Int → Bytes} {root : Json} {data : JsonData}
    (h : readMembers realText root = .ok data) :
    data.buffer_size < 2 ^ 64 ∧ data.threshold < 2 ^ 64 ∧ data.linear_growth < 2 ^ 64 := by
  unfold readMembers at h
  obtain ⟨buffer, hbuffer, h⟩ := bind_ok h
  obtain ⟨threshold, hthreshold, h⟩ := bind_ok h
  obtain ⟨growth, hgrowth, h⟩ := bind_ok h
  obtain ⟨_, -, h⟩ := bind_ok h
  obtain ⟨_, -, h⟩ := bind_ok h
  obtain ⟨_, -, h⟩ := bind_ok h
  obtain ⟨_, -, h⟩ := bind_ok h
  obtain ⟨_, -, h⟩ := bind_ok h
  obtain ⟨_, -, h⟩ := bind_ok h
  obtain ⟨_, -, h⟩ := bind_ok h
  obtain ⟨_, -, h⟩ := bind_ok h
  obtain ⟨_, -, h⟩ := bind_ok h
  obtain ⟨_, -, h⟩ := bind_ok h
  cases h
  exact ⟨requireUnsigned_lt hbuffer, requireUnsigned_lt hthreshold, requireUnsigned_lt hgrowth⟩

theorem Accepted.checked {data : JsonData} (h : data.Accepted) : data.Checked := by
  obtain ⟨text, realText, path, content, h⟩ := h
  unfold read at h
  cases content with
  | none => cases h
  | some body =>
    simp only at h
    split at h
    · split at h
      · obtain ⟨data', hread, h⟩ := bind_ok h
        obtain ⟨rfl, hbuffer, hgrowth, hthreads, hqueue, hthreshold, hflush⟩ := validate_ok h
        obtain ⟨hb, ht, hg⟩ := readMembers_lt hread
        exact ⟨hbuffer, hb, hgrowth, hg, hthreshold, ht, hthreads, hqueue, hflush⟩
      · cases h
    · cases h

/-! ### The shipped file (`config.conf`), with the buffer sizes left open -/

def conf (buffer threshold growth : Nat) : Json := .obj [
  (lit "buffer_size", .int buffer),
  (lit "threshold", .int threshold),
  (lit "linear_growth", .int growth),
  (lit "flush_log", .int 1),
  (lit "backup_enabled", .bool true),
  (lit "backup_addr", .str (lit "127.0.0.1")),
  (lit "backup_port", .int 8080),
  (lit "backup_token", .str []),
  (lit "backup_connect_timeout_ms", .int 500),
  (lit "backup_send_timeout_ms", .int 500),
  (lit "backup_retries", .int 2),
  (lit "backup_queue_size", .int 1024),
  (lit "thread_count", .int 3)]

def shipped (buffer threshold growth : Nat) : JsonData where
  buffer_size := buffer
  threshold := threshold
  linear_growth := growth
  flush_log := 1
  backup_addr := lit "127.0.0.1"
  backup_port := 8080
  thread_count := 3
  backup_queue_size := 1024
  backup_connect_timeout_ms := 500
  backup_send_timeout_ms := 500
  backup_retries := 2
  backup_enabled := true
  backup_token := []

theorem requireUnsigned_int {root : Json} {name : Bytes} {n : Nat}
    (hmember : root.members.lookup name = some (.int n)) (hn : n < 2 ^ 64) :
    requireUnsigned root name = .ok n := by
  have hunsigned := Json.isUInt64_int hn
  unfold requireUnsigned Json.isMember Json.member
  rw [hmember]
  simp only [Option.isSome_some, Option.getD_some, hunsigned, Bool.not_true, Bool.or_self,
    Bool.false_eq_true, if_false]
  rfl

theorem shipped_accepted {buffer threshold growth : Nat}
    (hpos : 0 < buffer ∧ 0 < growth ∧ buffer ≤ threshold)
    (hlt : buffer < 2 ^ 64 ∧ threshold < 2 ^ 64 ∧ growth < 2 ^ 64) :
    Accepted (shipped buffer threshold growth) := by
  have hread : readMembers (fun _ => []) (conf buffer threshold growth) =
      .ok (shipped buffer threshold growth) := by
    rw [readMembers, @requireUnsigned_int _ (lit "buffer_size") buffer rfl hlt.1,
      @requireUnsigned_int _ (lit "threshold") threshold rfl hlt.2.1,
      @requireUnsigned_int _ (lit "linear_growth") growth rfl hlt.2.2]
    rfl
  have hvalid : validate (shipped buffer threshold growth) =
      .ok (shipped buffer threshold growth) := by
    have hsizes : ¬(buffer = 0 ∨ growth = 0 ∨ 3 = 0 ∨ 1024 = 0) := by omega
    have hthreshold : ¬threshold < buffer := by omega
    simp only [validate, shipped, hsizes, hthreshold, if_false]
    rfl
  refine ⟨JsonText.ofPairs [(conf buffer threshold growth, [])], fun _ => [],
    lit "config.conf", some [], ?_⟩
  have hboth : (readMembers (fun _ => []) (conf buffer threshold growth) >>= validate) =
      .ok (shipped buffer threshold growth) := by
    rw [hread]
    exact hvalid
  simpa [read, JsonText.ofPairs, conf, Json.isObject] using hboth

end JsonData
end CloudStorage
