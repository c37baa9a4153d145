import CloudStorage.Backup
import CloudStorage.Lib.Ownership
import Mathlib.Algebra.BigOperators.Group.Finset.Piecewise
import Mathlib.Data.Fintype.Basic

/-!
# `backup::Start` call by call (`CliBackupLog.hpp`)

Threads send messages at the same time, each over connections of its own. The
descriptors of the process are one table: `socket` gives out any that is free, and
those that were there before belong to others. A socket remembers its flags, its
timeout and what went through it.
-/

namespace CloudStorage.BackupClient
open Posix Backup Interact Transfer

inductive Errno
  | EINTR
  | EINPROGRESS
  | ETIMEDOUT
  | other (code : Nat)
  deriving DecidableEq

abbrev Answer := Except Errno

/-- The calls on a descriptor. -/
inductive Operation
  /-- `SO_SNDTIMEO`, with `tv_sec` and `tv_usec` -/
  | setTimeout (sec usec : Nat)
  /-- `F_GETFL` -/
  | getFlags
  /-- `F_SETFL` -/
  | setFlags (flags : UInt32)
  | connect
  /-- for `POLLOUT` -/
  | poll (timeout_ms : Nat)
  /-- `SO_ERROR` -/
  | socketError
  /-- with `MSG_NOSIGNAL` -/
  | send (data : Bytes)
  /-- `SHUT_WR` -/
  | shutdown
  deriving DecidableEq

inductive Call
  | socket
  | on (fd : Int) (operation : Operation)
  | close (fd : Int)
  | cerr (line : Bytes)
  deriving DecidableEq

abbrev Operation.Resp : Operation → Type
  | .getFlags => Answer UInt32
  | .poll _ => Answer Nat
  | .socketError => Answer (Option Errno)
  | .send _ => Answer Nat
  | _ => Answer Unit

abbrev Call.Resp : Call → Type
  | .socket => Answer Int
  | .on _ operation => operation.Resp
  | .close _ => Answer Unit
  | .cerr _ => Unit

abbrev Program := Prog Call.Resp

def perform (c : Call) : Program c.Resp := Prog.perform c

def on (fd : Int) (operation : Operation) : Program operation.Resp := perform (.on fd operation)

/-! ### The source -/

def O_RDWR : UInt32 := 0x2
def O_NONBLOCK : UInt32 := 0x800

/-- `poll` until it is not interrupted. -/
def pollLoop (rounds : Nat) (socket_fd : Int) (timeout_ms : Nat) :
    Program (Ended (Option (Answer Nat))) :=
  loop Option.isSome (fun _ => do
    match ← on socket_fd (.poll timeout_ms) with
    | .error .EINTR => return .interrupted
    | result => return .advanced (some result)) rounds none

/-- The flags as they were, and `errno` as it was. -/
def restore (socket_fd : Int) (old_flags : UInt32) (saved_errno : Errno) :
    Program (Option (Answer Unit)) := do
  let _ ← on socket_fd (.setFlags old_flags)
  return some (.error saved_errno)

/-- What the connection has come to, once `poll` reports the socket. -/
def readError (socket_fd : Int) (old_flags : UInt32) : Program (Option (Answer Unit)) := do
  match ← on socket_fd .socketError with
  | .error e => restore socket_fd old_flags e
  | .ok socket_error =>
    match ← on socket_fd (.setFlags old_flags) with
    | .error e => return some (.error e)
    | .ok _ =>
      match socket_error with
      | some e => return some (.error e)
      | none => return some (.ok ())

/-- False is an error with its `errno`; no result when the rounds did not suffice. -/
def connectWithTimeout (rounds : Nat) (socket_fd : Int) (timeout_ms : Nat) :
    Program (Option (Answer Unit)) := do
  match ← on socket_fd .getFlags with
  | .error e => return some (.error e)
  | .ok old_flags =>
    match ← on socket_fd (.setFlags (old_flags ||| O_NONBLOCK)) with
    | .error e => return some (.error e)
    | .ok _ =>
      match ← on socket_fd .connect with
      | .ok _ => return some (← on socket_fd (.setFlags old_flags))
      | .error .EINPROGRESS =>
        match ← pollLoop rounds socket_fd timeout_ms with
        | .complete (some (.error e)) => restore socket_fd old_flags e
        | .complete (some (.ok 0)) => restore socket_fd old_flags .ETIMEDOUT
        | .complete (some (.ok _)) => readError socket_fd old_flags
        | _ => return none
      | .error e => restore socket_fd old_flags e

def sendLoop (rounds : Nat) (socket_fd : Int) (payload : Bytes) : Program (Ended Nat) :=
  loop (fun total => !decide (total < payload.length)) (fun total => do
    match ← on socket_fd (.send (payload.drop total)) with
    | .error .EINTR => return .interrupted
    | .error _ => return .failed
    | .ok 0 => return .failed
    | .ok sent => return .advanced (total + sent)) rounds 0

/-- How a pass of the loop over the attempts ends. -/
inductive Turn
  | returned (result : Bool)
  | continued
  | unfinished
  deriving DecidableEq

/-- After the loop over `send`. -/
def finish (socket_fd : Int) (success : Bool) : Program Turn := do
  let _ ← on socket_fd .shutdown
  let _ ← perform (.close socket_fd)
  return if success then .returned true else .continued

def attempt (rounds : Nat) (data : JsonData) (payload : Bytes) : Program Turn := do
  match ← perform .socket with
  | .error _ => return .returned false
  | .ok socket_fd =>
    match ← on socket_fd (.setTimeout (data.backup_send_timeout_ms / 1000)
        (data.backup_send_timeout_ms % 1000 * 1000)) with
    | .error _ =>
      let _ ← perform (.close socket_fd)
      return .returned false
    | .ok _ =>
      match ← connectWithTimeout rounds socket_fd data.backup_connect_timeout_ms with
      | none => return .unfinished
      | some (.error _) =>
        let _ ← perform (.close socket_fd)
        return .continued
      | some (.ok _) =>
        match ← sendLoop rounds socket_fd payload with
        | .unfinished => return .unfinished
        | .failed => finish socket_fd false
        | .complete _ => finish socket_fd true

def attempts (rounds : Nat) (data : JsonData) (payload : Bytes) : Nat → Program (Option Bool)
  | 0 => return some false
  | retries + 1 => do
    match ← attempt rounds data payload with
    | .returned result => return some result
    | .continued => attempts rounds data payload retries
    | .unfinished => return none

/-- `address` is whether `inet_pton` takes `backup_addr`. -/
def start (rounds : Nat) (g_conf_data : Option JsonData) (address : Bool) (message : Bytes) :
    Program (Option Bool) :=
  match g_conf_data with
  | none => return some true
  | some data =>
    if !data.backup_enabled then return some true
    else if !address then do
      perform (.cerr (lit "invalid backup address: " ++ data.backup_addr))
      return some false
    else attempts rounds data (payload data.backup_token message) data.backup_retries

/-! ### Sockets -/

structure Socket where
  flags : UInt32
  /-- `SO_SNDTIMEO` -/
  timeout : Option (Nat × Nat)
  /-- `poll` has reported it -/
  ready : Bool
  connected : Bool
  /-- what went through -/
  stream : Bytes
  /-- no more is sent -/
  ended : Bool
  deriving DecidableEq

def Socket.new : Socket := ⟨O_RDWR, none, false, false, [], false⟩

/-- What a call on a socket does to it; one that fails does nothing. -/
def Operation.Does : (operation : Operation) → Socket → operation.Resp → Socket → Prop
  | .setTimeout sec usec, s, .ok _, s' => s' = { s with timeout := some (sec, usec) }
  | .getFlags, s, .ok flags, s' => flags = s.flags ∧ s' = s
  | .setFlags flags, s, .ok _, s' => s' = { s with flags := flags }
  | .connect, s, .ok _, s' => s' = { s with connected := true }
  | .poll _, s, .ok count, s' => s' = { s with ready := s.ready || decide (count ≠ 0) }
  | .socketError, s, .ok none, s' => s' = { s with connected := s.connected || s.ready }
  | .socketError, s, .ok (some _), s' => s' = s
  | .send data, s, .ok count, s' =>
    count ≤ data.length ∧ s' = { s with stream := s.stream ++ data.take count }
  | .shutdown, s, .ok _, s' => s' = { s with ended := true }
  | .setTimeout .., s, .error _, s' => s' = s
  | .getFlags, s, .error _, s' => s' = s
  | .setFlags _, s, .error _, s' => s' = s
  | .connect, s, .error _, s' => s' = s
  | .poll _, s, .error _, s' => s' = s
  | .socketError, s, .error _, s' => s' = s
  | .send _, s, .error _, s' => s' = s
  | .shutdown, s, .error _, s' => s' = s

/-- What a descriptor stands for. -/
inductive Entry
  | socket (s : Socket)
  | other
  deriving DecidableEq

/-- The descriptors of the process, and the sockets it has closed. -/
structure Kernel where
  table : Int → Option Entry
  closed : Multiset Socket

/-- `close` takes the descriptor away whatever it answers. -/
def Answers : Env Call.Resp Kernel
  | .socket, k, .ok fd, k' =>
    0 ≤ fd ∧ k.table fd = none ∧
      k' = { k with table := Function.update k.table fd (some (.socket .new)) }
  | .socket, k, .error _, k' => k' = k
  | .on fd operation, k, answer, k' =>
    match k.table fd with
    | some (.socket s) => ∃ s', operation.Does s answer s' ∧
        k' = { k with table := Function.update k.table fd (some (.socket s')) }
    | _ => k' = k
  | .close fd, k, _, k' =>
    match k.table fd with
    | some (.socket s) => k' = ⟨Function.update k.table fd none, k.closed + {s}⟩
    | some .other => k' = { k with table := Function.update k.table fd none }
    | none => k' = k
  | .cerr _, k, _, k' => k' = k

/-! ### What one call has -/

structure Part where
  held : Option (Int × Socket)
  closed : List Socket
  interruptions : Nat

def Part.new : Part := ⟨none, [], 0⟩

def Operation.interrupted : (operation : Operation) → operation.Resp → Bool
  | .poll _, .error .EINTR => true
  | .send _, .error .EINTR => true
  | _, _ => false

/-- The answers to a call on the one socket that is held. -/
def Alone : Env Call.Resp Part
  | .socket, v, .ok fd, v' => 0 ≤ fd ∧ v' = { v with held := some (fd, .new) }
  | .socket, v, .error _, v' => v' = v
  | .on fd operation, v, answer, v' =>
    ∃ s s', v.held = some (fd, s) ∧ operation.Does s answer s' ∧
      v' = { v with
        held := some (fd, s')
        interruptions := v.interruptions + (operation.interrupted answer).toNat }
  | .close fd, v, _, v' =>
    ∃ s, v.held = some (fd, s) ∧ v' = { v with held := none, closed := v.closed ++ [s] }
  | .cerr _, v, _, v' => v' = v

def sendTimeout (data : JsonData) : Nat × Nat :=
  (data.backup_send_timeout_ms / 1000, data.backup_send_timeout_ms % 1000 * 1000)

/-- A connection is made without blocking and waited for, and then written to with
the flags as they were; every wait has its timeout. -/
def Operation.Proper (data : JsonData) (payload : Bytes) : Operation → Socket → Prop
  | .connect, s => s.flags = O_RDWR ||| O_NONBLOCK ∧ s.timeout = some (sendTimeout data)
  | .poll timeout_ms, s =>
    s.flags = O_RDWR ||| O_NONBLOCK ∧ timeout_ms = data.backup_connect_timeout_ms
  | .send rest, s =>
    s.connected = true ∧ s.flags = O_RDWR ∧ s.timeout = some (sendTimeout data) ∧
      s.ended = false ∧ s.stream ++ rest = payload ∧ rest ≠ []
  | _, _ => True

/-- Nothing but the payload from its beginning is written. -/
structure Part.Well (payload : Bytes) (v : Part) : Prop where
  held : ∀ fd s, v.held = some (fd, s) → s.stream <+: payload
  closed : ∀ s ∈ v.closed, s.stream <+: payload

def Allowed (data : JsonData) (payload : Bytes) (c : Call) (v : Part) : Prop :=
  v.Well payload ∧
    match c with
    | .socket => v.held = none
    | .on fd operation => ∃ s, v.held = some (fd, s) ∧ operation.Proper data payload s
    | .close fd => ∃ s, v.held = some (fd, s)
    | .cerr _ => True

instance (c : Call) : Nonempty c.Resp := by
  cases c with
  | socket => exact ⟨.error .EINTR⟩
  | on fd operation => cases operation <;> exact ⟨.error .EINTR⟩
  | close fd => exact ⟨.error .EINTR⟩
  | cerr line => exact ⟨()⟩

/-! ### Connecting -/

/-- Nothing was written yet, and the timeout is set. -/
structure Fresh (data : JsonData) (flags : UInt32) (s : Socket) : Prop where
  flags : s.flags = flags
  timeout : s.timeout = some (sendTimeout data)
  stream : s.stream = []
  ended : s.ended = false

/-- The part of a call that holds a socket with the property. -/
def Holding (P : Socket → Prop) (fd : Int) (closed : List Socket) (v : Part) : Prop :=
  ∃ s interruptions, v = ⟨some (fd, s), closed, interruptions⟩ ∧ P s

section
variable {α : Type} {data : JsonData} {payload : Bytes} {fd : Int} {s : Socket}
  {closed : List Socket} {interruptions rounds : Nat} {Q : α → Part → Prop}

/-- The sockets that were closed had the beginning of the payload. -/
abbrev Closed (payload : Bytes) (closed : List Socket) : Prop := ∀ s ∈ closed, s.stream <+: payload

theorem well_holding (hclosed : Closed payload closed) (hstream : s.stream <+: payload) :
    Part.Well payload ⟨some (fd, s), closed, interruptions⟩ where
  held fd' s' h := by
    cases h
    exact hstream
  closed := hclosed

theorem keeps_on {operation : Operation} {f : operation.Resp → Program α}
    (hclosed : Closed payload closed) (hstream : s.stream <+: payload)
    (hproper : operation.Proper data payload s)
    (h : ∀ r s', operation.Does s r s' → Keeps (Allowed data payload) Alone (f r) Q
      ⟨some (fd, s'), closed, interruptions + (operation.interrupted r).toNat⟩) :
    Keeps (Allowed data payload) Alone (on fd operation >>= f) Q
      ⟨some (fd, s), closed, interruptions⟩ := by
  apply keeps_perform_bind ⟨well_holding hclosed hstream, s, rfl, hproper⟩
  intro r v' hr
  obtain ⟨s₁, s', hheld, hdoes, rfl⟩ := hr
  cases hheld
  exact h r s' hdoes

theorem Fresh.begins {flags : UInt32} (h : Fresh data flags s) : s.stream <+: payload := by
  rw [h.stream]
  exact List.nil_prefix

theorem Fresh.setFlags {old flags : UInt32} (h : Fresh data old s) :
    Fresh data flags { s with flags := flags } :=
  ⟨rfl, h.timeout, h.stream, h.ended⟩

/-- How `connectWithTimeout` ends. -/
def ConnectEnds (data : JsonData) (rounds : Nat) (fd : Int) (closed : List Socket) :
    Option (Answer Unit) → Part → Prop
  | some (.ok _) => Holding (fun s => Fresh data O_RDWR s ∧ s.connected = true) fd closed
  | some (.error _) => Holding (fun s => ∃ flags, Fresh data flags s) fd closed
  | none => fun v => rounds ≤ v.interruptions + 1

theorem keeps_restore {flags : UInt32} {e : Errno} (hclosed : Closed payload closed)
    (hfresh : Fresh data flags s) :
    Keeps (Allowed data payload) Alone (restore fd O_RDWR e) (ConnectEnds data rounds fd closed)
      ⟨some (fd, s), closed, interruptions⟩ := by
  apply keeps_on hclosed hfresh.begins
  · exact trivial
  intro r s' hdoes
  cases r with
  | error e =>
    cases hdoes
    exact keeps_pure ⟨s, _, rfl, flags, hfresh⟩
  | ok _ =>
    cases hdoes
    exact keeps_pure ⟨_, _, rfl, _, hfresh.setFlags⟩

theorem keeps_pollLoop (hclosed : Closed payload closed)
    (hfresh : Fresh data (O_RDWR ||| O_NONBLOCK) s) :
    Keeps (Allowed data payload) Alone (pollLoop rounds fd data.backup_connect_timeout_ms)
      (Reached (fun result => Holding (fun s => Fresh data (O_RDWR ||| O_NONBLOCK) s ∧
          ∀ n, result = some (.ok (n + 1)) → s.ready = true) fd closed)
        (fun _ => False) (fun result => if result.isSome then 0 else 1) Part.interruptions
        Option.isSome rounds none ⟨some (fd, s), closed, interruptions⟩)
      ⟨some (fd, s), closed, interruptions⟩ := by
  refine keeps_loop ?_ rounds ⟨s, interruptions, rfl, hfresh, fun n hn => nomatch hn⟩
  intro result v hnone hv
  obtain ⟨s, interruptions, rfl, hfresh, -⟩ := hv
  cases result with
  | some result => cases hnone
  | none =>
    apply keeps_on hclosed hfresh.begins
    · exact ⟨hfresh.flags, rfl⟩
    intro r s' hdoes
    cases r with
    | ok count =>
      cases hdoes
      refine keeps_pure ⟨⟨_, _, rfl, ⟨hfresh.flags, hfresh.timeout, hfresh.stream, hfresh.ended⟩,
        fun n hn => ?_⟩, Nat.one_pos, rfl⟩
      cases hn
      exact Bool.or_true _
    | error e =>
      cases hdoes
      cases e with
      | EINTR => exact keeps_pure ⟨⟨s, _, rfl, hfresh, fun n hn => nomatch hn⟩, rfl⟩
      | EINPROGRESS =>
        exact keeps_pure ⟨⟨s, _, rfl, hfresh, fun n hn => nomatch hn⟩, Nat.one_pos, rfl⟩
      | ETIMEDOUT =>
        exact keeps_pure ⟨⟨s, _, rfl, hfresh, fun n hn => nomatch hn⟩, Nat.one_pos, rfl⟩
      | other code =>
        exact keeps_pure ⟨⟨s, _, rfl, hfresh, fun n hn => nomatch hn⟩, Nat.one_pos, rfl⟩

/-- The flags go back, and the socket is connected. -/
theorem keeps_last {flags : UInt32} (hclosed : Closed payload closed)
    (hfresh : Fresh data flags s) (hconnected : s.connected = true) :
    Keeps (Allowed data payload) Alone
      (on fd (.setFlags O_RDWR) >>= fun answer => pure (some answer))
      (ConnectEnds data rounds fd closed) ⟨some (fd, s), closed, interruptions⟩ := by
  apply keeps_on hclosed hfresh.begins
  · exact trivial
  intro answer s' hdoes
  cases answer with
  | error e =>
    cases hdoes
    exact keeps_pure ⟨s, _, rfl, flags, hfresh⟩
  | ok _ =>
    cases hdoes
    exact keeps_pure ⟨_, _, rfl, hfresh.setFlags, hconnected⟩

theorem keeps_readError {flags : UInt32} (hclosed : Closed payload closed)
    (hfresh : Fresh data flags s) (hready : s.ready = true) :
    Keeps (Allowed data payload) Alone (readError fd O_RDWR)
      (ConnectEnds data rounds fd closed) ⟨some (fd, s), closed, interruptions⟩ := by
  apply keeps_on hclosed hfresh.begins
  · exact trivial
  intro answer s₁ hdoes
  cases answer with
  | error e =>
    cases hdoes
    exact keeps_restore hclosed hfresh
  | ok socket_error =>
    have hfresh₁ : Fresh data flags s₁ ∧ (socket_error = none → s₁.connected = true) := by
      cases socket_error with
      | some e =>
        cases hdoes
        exact ⟨hfresh, fun hnone => nomatch hnone⟩
      | none =>
        cases hdoes
        refine ⟨⟨hfresh.flags, hfresh.timeout, hfresh.stream, hfresh.ended⟩, fun _ => ?_⟩
        show (s.connected || s.ready) = true
        rw [hready, Bool.or_true]
    apply keeps_on hclosed hfresh₁.1.begins
    · exact trivial
    intro answer s₂ hdoes
    cases answer with
    | error e =>
      cases hdoes
      exact keeps_pure ⟨_, _, rfl, _, hfresh₁.1⟩
    | ok _ =>
      cases hdoes
      cases socket_error with
      | some e => exact keeps_pure ⟨_, _, rfl, _, hfresh₁.1.setFlags⟩
      | none => exact keeps_pure ⟨_, _, rfl, hfresh₁.1.setFlags, hfresh₁.2 rfl⟩

theorem keeps_connectWithTimeout (hclosed : Closed payload closed)
    (hfresh : Fresh data O_RDWR s) :
    Keeps (Allowed data payload) Alone
      (connectWithTimeout rounds fd data.backup_connect_timeout_ms)
      (ConnectEnds data rounds fd closed) ⟨some (fd, s), closed, interruptions⟩ := by
  unfold connectWithTimeout
  apply keeps_on hclosed hfresh.begins
  · exact trivial
  intro answer s₁ hdoes
  cases answer with
  | error e =>
    cases hdoes
    exact keeps_pure ⟨s, _, rfl, _, hfresh⟩
  | ok old_flags =>
    obtain ⟨hold, rfl⟩ := hdoes
    rw [hfresh.flags] at hold
    subst hold
    apply keeps_on hclosed hfresh.begins
    · exact trivial
    intro answer s₂ hdoes
    cases answer with
    | error e =>
      cases hdoes
      exact keeps_pure ⟨_, _, rfl, _, hfresh⟩
    | ok _ =>
      have hfresh₂ : Fresh data (O_RDWR ||| O_NONBLOCK) s₂ := by
        cases hdoes
        exact hfresh.setFlags
      apply keeps_on hclosed hfresh₂.begins
      · exact ⟨hfresh₂.flags, hfresh₂.timeout⟩
      intro answer s₃ hdoes
      cases answer with
      | ok _ =>
        have hfresh₃ : Fresh data (O_RDWR ||| O_NONBLOCK) s₃ ∧ s₃.connected = true := by
          cases hdoes
          exact ⟨⟨hfresh₂.flags, hfresh₂.timeout, hfresh₂.stream, hfresh₂.ended⟩, rfl⟩
        exact keeps_last hclosed hfresh₃.1 hfresh₃.2
      | error e =>
        cases hdoes
        cases e with
        | EINPROGRESS =>
          apply keeps_seq (keeps_pollLoop hclosed hfresh₂)
          intro ended v hended
          cases ended with
          | failed => exact hended.elim
          | unfinished =>
            have hmore : _ + rounds ≤ 1 + v.interruptions := hended
            refine keeps_pure ?_
            show rounds ≤ v.interruptions + 1
            omega
          | complete result =>
            obtain ⟨⟨s₄, interruptions, rfl, hfresh₄, hready⟩, hsome⟩ := hended
            cases result with
            | none => cases hsome
            | some result =>
              cases result with
              | error e => exact keeps_restore hclosed hfresh₄
              | ok count =>
                cases count with
                | zero => exact keeps_restore hclosed hfresh₄
                | succ n => exact keeps_readError hclosed hfresh₄ (hready n rfl)
        | EINTR => exact keeps_restore hclosed hfresh₂
        | ETIMEDOUT => exact keeps_restore hclosed hfresh₂
        | other code => exact keeps_restore hclosed hfresh₂

/-! ### Sending -/

/-- The first `total` bytes are through, and the answers so far are those of a run of the loop. -/
structure Sending (data : JsonData) (payload : Bytes) (total : Nat) (s : Socket) : Prop where
  connected : s.connected = true
  flags : s.flags = O_RDWR
  timeout : s.timeout = some (sendTimeout data)
  ended : s.ended = false
  le : total ≤ payload.length
  stream : s.stream = payload.take total
  run : ∃ results, ∀ more, Backup.sendLoop (results ++ more) payload [] =
    Backup.sendLoop more (payload.drop total) (payload.take total)

/-- The loop has ended with this result, and what is through stays. -/
structure Sent (payload : Bytes) (result : Bool) (s : Socket) : Prop where
  timeout : s.timeout ≠ none
  stream : s.stream <+: payload
  run : ∃ results, Backup.sendLoop results payload [] = some (result, s.stream)

theorem Fresh.sending (h : Fresh data O_RDWR s) (hconnected : s.connected = true) :
    Sending data payload 0 s :=
  ⟨hconnected, h.flags, h.timeout, h.ended, Nat.zero_le _, h.stream, [], fun _ => rfl⟩

theorem Sending.begins {total : Nat} (h : Sending data payload total s) :
    s.stream <+: payload := by
  rw [h.stream]
  exact List.take_prefix _ _

theorem Sending.rest {total : Nat} (h : Sending data payload total s)
    (hless : total < payload.length) : ∃ b rest, payload.drop total = b :: rest ∧
      s.stream ++ payload.drop total = payload := by
  cases hrest : payload.drop total with
  | nil =>
    have hle := List.drop_eq_nil_iff.mp hrest
    omega
  | cons b rest =>
    refine ⟨b, rest, rfl, ?_⟩
    rw [← hrest, h.stream, List.take_append_drop]

theorem Sending.advance {total sent : Nat} (h : Sending data payload total s)
    (hless : total < payload.length) (hsent : sent + 1 ≤ (payload.drop total).length) :
    Sending data payload (total + (sent + 1))
      { s with stream := s.stream ++ (payload.drop total).take (sent + 1) } := by
  obtain ⟨b, rest, hrest, -⟩ := h.rest hless
  obtain ⟨results, hrun⟩ := h.run
  have hstream : payload.take total ++ (payload.drop total).take (sent + 1) =
      payload.take (total + (sent + 1)) := List.take_add.symm
  refine ⟨h.connected, h.flags, h.timeout, h.ended, ?_, ?_, results ++ [.sent (sent + 1)],
    fun more => ?_⟩
  · rw [List.length_drop] at hsent
    omega
  · show s.stream ++ _ = _
    rw [h.stream, hstream]
  · rw [List.append_assoc, hrun, List.singleton_append, hrest, Backup.sendLoop, ← hrest,
      List.drop_drop, hstream]

/-- An interrupted `send` is made again. -/
theorem Sending.stopped {total : Nat} (h : Sending data payload total s)
    (hless : total < payload.length) {r : SendResult} (hr : r = .failed ∨ r = .sent 0) :
    Sent payload false s := by
  obtain ⟨b, rest, hrest, -⟩ := h.rest hless
  obtain ⟨results, hrun⟩ := h.run
  refine ⟨?_, h.begins, results ++ [r], ?_⟩
  · rw [h.timeout]
    exact Option.some_ne_none _
  · rw [hrun, hrest, h.stream]
    rcases hr with rfl | rfl
    · rfl
    · rfl

theorem Sending.complete {total : Nat} (h : Sending data payload total s)
    (hall : ¬total < payload.length) : Sent payload true s ∧ s.stream = payload := by
  obtain ⟨results, hrun⟩ := h.run
  have htotal : payload.length ≤ total := Nat.le_of_not_lt hall
  have hstream : s.stream = payload := by
    rw [h.stream, List.take_of_length_le htotal]
  refine ⟨⟨?_, h.begins, results ++ [], ?_⟩, hstream⟩
  · rw [h.timeout]
    exact Option.some_ne_none _
  · rw [hrun, List.drop_of_length_le htotal, List.take_of_length_le htotal, hstream]
    rfl

theorem keeps_sendLoop (hclosed : Closed payload closed) (hsending : Sending data payload 0 s) :
    Keeps (Allowed data payload) Alone (sendLoop rounds fd payload)
      (Reached (fun total => Holding (Sending data payload total) fd closed)
        (Holding (Sent payload false) fd closed) (fun total => payload.length - total)
        Part.interruptions (fun total => !decide (total < payload.length)) rounds 0
        ⟨some (fd, s), closed, interruptions⟩) ⟨some (fd, s), closed, interruptions⟩ := by
  refine keeps_loop ?_ rounds ⟨s, interruptions, rfl, hsending⟩
  intro total v hnot hv
  obtain ⟨s, interruptions, rfl, hsending⟩ := hv
  have hless : total < payload.length :=
    of_decide_eq_true (Bool.not_eq_eq_eq_not.mp hnot)
  obtain ⟨b, rest, hrest, hwhole⟩ := hsending.rest hless
  apply keeps_on hclosed hsending.begins
  · refine ⟨hsending.connected, hsending.flags, hsending.timeout, hsending.ended, hwhole, ?_⟩
    rw [hrest]
    exact List.cons_ne_nil b rest
  intro answer s' hdoes
  cases answer with
  | error e =>
    cases hdoes
    cases e with
    | EINTR => exact keeps_pure ⟨⟨s, _, rfl, hsending⟩, rfl⟩
    | EINPROGRESS => exact keeps_pure ⟨s, _, rfl, hsending.stopped hless (.inl rfl)⟩
    | ETIMEDOUT => exact keeps_pure ⟨s, _, rfl, hsending.stopped hless (.inl rfl)⟩
    | other code => exact keeps_pure ⟨s, _, rfl, hsending.stopped hless (.inl rfl)⟩
  | ok sent =>
    obtain ⟨hsent, rfl⟩ := hdoes
    cases sent with
    | zero =>
      refine keeps_pure ⟨_, _, rfl, ?_⟩
      rw [List.take_zero, List.append_nil]
      exact hsending.stopped hless (.inr rfl)
    | succ sent =>
      refine keeps_pure ⟨⟨_, _, rfl, hsending.advance hless hsent⟩, ?_, rfl⟩
      show payload.length - (total + (sent + 1)) < payload.length - total
      omega

/-! ### Attempts -/

/-- What went through the sockets, without one that could not be given its timeout. -/
def streams (sockets : List Socket) : List Bytes :=
  (sockets.filter fun s => s.timeout.isSome).map Socket.stream

theorem streams_append (sockets more : List Socket) :
    streams (sockets ++ more) = streams sockets ++ streams more := by
  rw [streams, List.filter_append, List.map_append]
  rfl

theorem streams_single (htimeout : s.timeout ≠ none) : streams [s] = [s.stream] := by
  have hsome : s.timeout.isSome = true := Option.isSome_iff_ne_none.mpr htimeout
  simp only [streams, List.filter_cons, hsome, if_true, List.filter_nil, List.map_cons,
    List.map_nil]

/-- An attempt has closed these sockets, and `P` holds of what it was. -/
def Tried (payload : Bytes) (closed : List Socket) (P : Attempt → List Bytes → Prop)
    (v : Part) : Prop :=
  v.held = none ∧ ∃ a added, v.closed = closed ++ added ∧ Closed payload added ∧ P a (streams added)

def AttemptEnds (payload : Bytes) (rounds : Nat) (closed : List Socket) : Turn → Part → Prop
  | .returned result => Tried payload closed fun a went => ∀ retries rest,
      attemptLoop payload (retries + 1) (a :: rest) = some (result, went)
  | .continued => Tried payload closed fun a went => ∀ retries rest,
      attemptLoop payload (retries + 1) (a :: rest) =
        (attemptLoop payload retries rest).map fun out => (out.1, went ++ out.2)
  | .unfinished => fun v => rounds ≤ payload.length + 1 + v.interruptions

/-- The socket is closed, and the attempt is over. -/
theorem keeps_close {turn : Turn} (hclosed : Closed payload closed)
    (hstream : s.stream <+: payload)
    (hends : ∀ interruptions, AttemptEnds payload rounds closed turn
      ⟨none, closed ++ [s], interruptions⟩) :
    Keeps (Allowed data payload) Alone
      (perform (.close fd) >>= fun _ => pure turn) (AttemptEnds payload rounds closed)
      ⟨some (fd, s), closed, interruptions⟩ := by
  apply keeps_perform_bind ⟨well_holding hclosed hstream, s, rfl⟩
  intro r v' hr
  obtain ⟨s', hheld, rfl⟩ := hr
  cases hheld
  exact keeps_pure (hends _)

theorem closed_single (hstream : s.stream <+: payload) : Closed payload [s] := by
  intro s' hs'
  rw [List.mem_singleton.mp hs']
  exact hstream

theorem returned_single {a : Attempt} {result : Bool} (hstream : s.stream <+: payload)
    (h : ∀ retries rest,
      attemptLoop payload (retries + 1) (a :: rest) = some (result, streams [s])) :
    AttemptEnds payload rounds closed (.returned result) ⟨none, closed ++ [s], interruptions⟩ :=
  ⟨rfl, a, [s], rfl, closed_single hstream, h⟩

theorem continued_single {a : Attempt} (hstream : s.stream <+: payload)
    (h : ∀ retries rest, attemptLoop payload (retries + 1) (a :: rest) =
      (attemptLoop payload retries rest).map fun out => (out.1, streams [s] ++ out.2)) :
    AttemptEnds payload rounds closed .continued ⟨none, closed ++ [s], interruptions⟩ :=
  ⟨rfl, a, [s], rfl, closed_single hstream, h⟩

/-- The loop over the attempts, for an attempt that has connected. -/
theorem attempt_sent {results : List SendResult} {result : Bool} {stream : Bytes}
    (hrun : Backup.sendLoop results payload [] = some (result, stream)) (retries : Nat)
    (rest : List Attempt) :
    attemptLoop payload (retries + 1) ({ sends := results } :: rest) =
      if result then some (true, [stream])
      else (attemptLoop payload retries rest).map fun out => (out.1, stream :: out.2) := by
  rw [attemptLoop]
  simp only [Bool.not_true, Bool.or_self, Bool.false_eq_true, if_false, hrun]
  cases result with
  | true => rfl
  | false => rfl

/-- The connection is ended once the loop over `send` is. -/
theorem keeps_sent {result : Bool} (hclosed : Closed payload closed)
    (hsent : Sent payload result s) :
    Keeps (Allowed data payload) Alone (finish fd result) (AttemptEnds payload rounds closed)
      ⟨some (fd, s), closed, interruptions⟩ := by
  unfold finish
  apply keeps_on hclosed hsent.stream
  · exact trivial
  intro answer s' hdoes
  have hsame : s'.stream = s.stream ∧ s'.timeout = s.timeout := by
    cases answer with
    | error e =>
      cases hdoes
      exact ⟨rfl, rfl⟩
    | ok _ =>
      cases hdoes
      exact ⟨rfl, rfl⟩
  have hstreams : streams [s'] = [s.stream] := by
    rw [streams_single (hsame.2 ▸ hsent.timeout), hsame.1]
  have hbegins : s'.stream <+: payload := hsame.1 ▸ hsent.stream
  obtain ⟨results, hrun⟩ := hsent.run
  cases result with
  | true =>
    apply keeps_close hclosed hbegins
    intro interruptions
    apply returned_single hbegins
    intro retries rest
    rw [hstreams]
    exact attempt_sent hrun retries rest
  | false =>
    apply keeps_close hclosed hbegins
    intro interruptions
    apply continued_single hbegins
    intro retries rest
    rw [hstreams]
    exact attempt_sent hrun retries rest

theorem keeps_attempt (hclosed : Closed payload closed) :
    Keeps (Allowed data payload) Alone (attempt rounds data payload)
      (AttemptEnds payload rounds closed) ⟨none, closed, interruptions⟩ := by
  unfold attempt
  apply keeps_perform_bind ⟨⟨nofun, hclosed⟩, rfl⟩
  intro answer v hcall
  cases answer with
  | error e =>
    cases hcall
    exact keeps_pure ⟨rfl, { socket := false, sends := [] }, [], (List.append_nil _).symm,
      nofun, fun _ _ => rfl⟩
  | ok fd =>
    obtain ⟨-, rfl⟩ := hcall
    apply keeps_on hclosed List.nil_prefix
    · exact trivial
    intro answer s₁ hdoes
    cases answer with
    | error e =>
      cases hdoes
      apply keeps_close hclosed List.nil_prefix
      intro interruptions
      apply returned_single List.nil_prefix
      exact fun retries rest => (rfl : attemptLoop payload (retries + 1)
        ({ setTimeout := false, sends := [] } :: rest) = some (false, []))
    | ok _ =>
      have hfresh : Fresh data O_RDWR s₁ := by
        cases hdoes
        exact ⟨rfl, rfl, rfl, rfl⟩
      apply keeps_seq (keeps_connectWithTimeout hclosed hfresh)
      intro connected v hconnected
      cases connected with
      | none =>
        have hmore : rounds ≤ v.interruptions + 1 := hconnected
        apply keeps_pure
        show rounds ≤ payload.length + 1 + v.interruptions
        omega
      | some answer =>
        cases answer with
        | error e =>
          obtain ⟨s₂, interruptions₂, rfl, flags, hfresh₂⟩ := hconnected
          have htimeout : s₂.timeout ≠ none := by
            rw [hfresh₂.timeout]
            exact Option.some_ne_none _
          apply keeps_close hclosed hfresh₂.begins
          intro interruptions
          apply continued_single hfresh₂.begins
          rw [streams_single htimeout, hfresh₂.stream]
          exact fun retries rest => (rfl : attemptLoop payload (retries + 1)
            ({ connect := false, sends := [] } :: rest) = _)
        | ok _ =>
          obtain ⟨s₂, interruptions₂, rfl, hfresh₂, hconnected₂⟩ := hconnected
          apply keeps_seq (keeps_sendLoop hclosed (hfresh₂.sending hconnected₂))
          intro ended v hended
          cases ended with
          | unfinished =>
            have hmore : interruptions₂ + rounds ≤ payload.length - 0 + v.interruptions := hended
            apply keeps_pure
            show rounds ≤ payload.length + 1 + v.interruptions
            omega
          | failed =>
            obtain ⟨s₃, interruptions₃, rfl, hsent⟩ := hended
            exact keeps_sent hclosed hsent
          | complete total =>
            obtain ⟨⟨s₃, interruptions₃, rfl, hsending⟩, hall⟩ := hended
            have hnot := of_decide_eq_false ((Bool.not_eq_true' _).mp hall)
            exact keeps_sent hclosed (hsending.complete hnot).1

theorem Closed.append {more : List Socket} (h : Closed payload closed)
    (hmore : Closed payload more) : Closed payload (closed ++ more) := by
  intro s hs
  rcases List.mem_append.mp hs with hs | hs
  · exact h s hs
  · exact hmore s hs

def AttemptsEnd (payload : Bytes) (rounds retries : Nat) (closed : List Socket) :
    Option Bool → Part → Prop
  | some result => fun v => v.held = none ∧ ∃ attempts added, v.closed = closed ++ added ∧
      Closed payload added ∧ attemptLoop payload retries attempts = some (result, streams added)
  | none => fun v => rounds ≤ payload.length + 1 + v.interruptions

theorem keeps_attempts (retries : Nat) (hclosed : Closed payload closed) :
    Keeps (Allowed data payload) Alone (attempts rounds data payload retries)
      (AttemptsEnd payload rounds retries closed) ⟨none, closed, interruptions⟩ := by
  induction retries generalizing closed interruptions with
  | zero => exact keeps_pure ⟨rfl, [], [], (List.append_nil _).symm, nofun, rfl⟩
  | succ retries ih =>
    apply keeps_seq (keeps_attempt hclosed)
    intro turn v hturn
    cases turn with
    | unfinished => exact keeps_pure hturn
    | returned result =>
      obtain ⟨hheld, a, added, hadded, hbegins, hrun⟩ := hturn
      exact keeps_pure ⟨hheld, [a], added, hadded, hbegins, hrun retries []⟩
    | continued =>
      obtain ⟨hheld, a, added, hadded, hbegins, hrun⟩ := hturn
      obtain ⟨held, closed₁, interruptions₁⟩ := v
      have hheld : held = none := hheld
      have hadded : closed₁ = closed ++ added := hadded
      subst hheld hadded
      apply keeps_mono (ih (hclosed.append hbegins))
      intro result v hv
      cases result with
      | none => exact hv
      | some result =>
        obtain ⟨hheld, as, more, hmore, hbegins', hrest⟩ := hv
        refine ⟨hheld, a :: as, added ++ more, ?_, hbegins.append hbegins', ?_⟩
        · rw [hmore, List.append_assoc]
        · rw [hrun, hrest, streams_append]
          rfl

end

theorem closed_nil (payload : Bytes) : Closed payload [] := nofun

theorem well_new (payload : Bytes) : Part.new.Well payload := ⟨nofun, closed_nil payload⟩

/-- How a call of `Start` ends: as the loop over attempts with these answers would. -/
def CallEnds (data : JsonData) (address : Bool) (rounds : Nat) (message : Bytes) :
    Option Bool → Part → Prop
  | some result => fun v => v.held = none ∧ Closed (payload data.backup_token message) v.closed ∧
      ∃ attempts, Backup.start (some data) message address attempts =
        some (result, streams v.closed)
  | none => fun v => rounds ≤ (payload data.backup_token message).length + 1 + v.interruptions

theorem keeps_start (data : JsonData) (address : Bool) (rounds : Nat) (message : Bytes) :
    Keeps (Allowed data (payload data.backup_token message)) Alone
      (start rounds (some data) address message) (CallEnds data address rounds message)
      Part.new := by
  simp only [start]
  cases henabled : data.backup_enabled with
  | false =>
    simp only [Bool.not_false, if_true]
    refine keeps_pure ⟨rfl, closed_nil _, [], ?_⟩
    simp only [Backup.start, henabled, Bool.not_false, if_true]
    rfl
  | true =>
    simp only [Bool.not_true, Bool.false_eq_true, if_false]
    cases address with
    | false =>
      simp only [Bool.not_false, if_true]
      apply keeps_perform_bind ⟨well_new _, trivial⟩
      intro _ v hcall
      cases hcall
      refine keeps_pure ⟨rfl, closed_nil _, [], ?_⟩
      simp only [Backup.start, henabled, Bool.not_true, Bool.not_false, Bool.false_eq_true, if_true,
        if_false]
      rfl
    | true =>
      simp only [Bool.not_true, Bool.false_eq_true, if_false]
      have hrun := @keeps_attempts data (payload data.backup_token message) [] 0 rounds
        data.backup_retries (closed_nil _)
      apply keeps_mono hrun
      intro result v hv
      cases result with
      | none => exact hv
      | some result =>
        obtain ⟨hheld, as, added, hadded, hbegins, hattempts⟩ := hv
        have hall : v.closed = added := hadded
        rw [← hall] at hbegins hattempts
        refine ⟨hheld, hbegins, as, ?_⟩
        simp only [Backup.start, henabled, Bool.not_true, Bool.false_eq_true, if_false]
        exact hattempts

/-! ### Threads -/

section
variable {T : Type} [DecidableEq T] [Fintype T] {k₀ k k' : Kernel} {own : T → Part}
  {past : List ((Bytes × Option Bool) × Part)} {t : T} {fd : Int} {v : Part}

/-- How the parts make up the descriptors: what no call holds is as it was in `k₀`. -/
structure Shares (k₀ : Kernel) (own : T → Part) (past : List ((Bytes × Option Bool) × Part))
    (k : Kernel) : Prop where
  held : ∀ t fd s, (own t).held = some (fd, s) →
    k.table fd = some (.socket s) ∧ k₀.table fd = none
  apart : ∀ t t' fd s s', (own t).held = some (fd, s) → (own t').held = some (fd, s') → t = t'
  others : ∀ fd, (∀ t s, (own t).held ≠ some (fd, s)) → k.table fd = k₀.table fd
  closed : k.closed = k₀.closed + (past.map fun e => (e.2.closed : Multiset Socket)).sum +
    ∑ t, ((own t).closed : Multiset Socket)

theorem sum_closed_update (own : T → Part) (t : T) (v : Part) :
    ∑ t', ((Function.update own t v t').closed : Multiset Socket) + (own t).closed =
      ∑ t', ((own t').closed : Multiset Socket) + v.closed := by
  have hupdate : (fun t' => ((Function.update own t v t').closed : Multiset Socket)) =
      Function.update (fun t' => ((own t').closed : Multiset Socket)) t v.closed :=
    Function.comp_update (fun v : Part => (v.closed : Multiset Socket)) own t v
  rw [hupdate, Finset.sum_update_of_mem (Finset.mem_univ t),
    ← Finset.add_sum_erase _ _ (Finset.mem_univ t), Finset.sdiff_singleton_eq_erase]
  ac_rfl

/-- A call changes what its descriptor stands for. -/
theorem Shares.change (h : Shares k₀ own past k) (entry : Option Socket)
    (hold : ∀ fd' s, (own t).held = some (fd', s) → fd' = fd) (hfree : k₀.table fd = none)
    (hothers : ∀ t' s, t' ≠ t → (own t').held ≠ some (fd, s))
    (hheld : v.held = entry.map fun s => (fd, s))
    (htable : k'.table = Function.update k.table fd (entry.map .socket))
    (hclosed : k'.closed + (own t).closed = k.closed + v.closed) :
    Shares k₀ (Function.update own t v) past k' := by
  constructor
  · intro t' fd' s hs
    by_cases ht : t' = t
    · subst ht
      rw [Function.update_self, hheld] at hs
      obtain ⟨s', hentry, hpair⟩ := Option.map_eq_some_iff.mp hs
      cases hpair
      rw [htable, Function.update_self, hentry]
      exact ⟨rfl, hfree⟩
    · rw [Function.update_of_ne ht] at hs
      have hfd : fd' ≠ fd := by
        rintro rfl
        exact hothers t' s ht hs
      rw [htable, Function.update_of_ne hfd]
      exact h.held t' fd' s hs
  · intro t₁ t₂ fd' s₁ s₂ h₁ h₂
    have hmine : ∀ t' s, (Function.update own t v t').held = some (fd', s) →
        (t' = t ∧ fd' = fd) ∨ (t' ≠ t ∧ (own t').held = some (fd', s)) := by
      intro t' s hs
      by_cases ht : t' = t
      · subst ht
        rw [Function.update_self, hheld] at hs
        obtain ⟨s', _, hpair⟩ := Option.map_eq_some_iff.mp hs
        cases hpair
        exact .inl ⟨rfl, rfl⟩
      · rw [Function.update_of_ne ht] at hs
        exact .inr ⟨ht, hs⟩
    rcases hmine t₁ s₁ h₁ with ⟨rfl, rfl⟩ | ⟨hne₁, hown₁⟩
    · rcases hmine t₂ s₂ h₂ with ⟨rfl, -⟩ | ⟨hne₂, hown₂⟩
      · rfl
      · exact absurd hown₂ (hothers t₂ s₂ hne₂)
    · rcases hmine t₂ s₂ h₂ with ⟨rfl, rfl⟩ | ⟨hne₂, hown₂⟩
      · exact absurd hown₁ (hothers t₁ s₁ hne₁)
      · exact h.apart t₁ t₂ fd' s₁ s₂ hown₁ hown₂
  · intro fd' hnone
    by_cases hfd : fd' = fd
    · subst hfd
      have hentry : entry = none := by
        cases hs : entry with
        | none => rfl
        | some s =>
          refine absurd ?_ (hnone t s)
          rw [Function.update_self, hheld, hs]
          rfl
      rw [htable, Function.update_self, hentry, hfree]
      rfl
    · rw [htable, Function.update_of_ne hfd]
      apply h.others
      intro t' s hs
      by_cases ht : t' = t
      · subst ht
        exact hfd (hold fd' s hs)
      · apply hnone t' s
        rw [Function.update_of_ne ht]
        exact hs
  · have hsum := sum_closed_update own t v
    have hall := h.closed
    rw [hall] at hclosed
    apply add_right_cancel (_ : k'.closed + ((own t).closed : Multiset Socket) = _)
    rw [hclosed, add_assoc, ← hsum, ← add_assoc]

theorem Shares.call {payload : Bytes} {data : JsonData} {c : Call} {r : c.Resp}
    (h : Shares k₀ own past k) (hallowed : Allowed data payload c (own t))
    (hcall : Answers c k r k') :
    ∃ v, Alone c (own t) r v ∧ Shares k₀ (Function.update own t v) past k' := by
  cases c with
  | socket =>
    have hnone : (own t).held = none := hallowed.2
    cases r with
    | error e =>
      cases hcall
      exact ⟨own t, rfl, by rwa [Function.update_eq_self]⟩
    | ok fd =>
      obtain ⟨hfd, hfree, rfl⟩ := hcall
      have hunheld : ∀ t' s, (own t').held ≠ some (fd, s) := by
        intro t' s hs
        rw [(h.held t' fd s hs).1] at hfree
        cases hfree
      refine ⟨_, ⟨hfd, rfl⟩, ?_⟩
      apply h.change (some .new)
      · intro fd' s hs
        rw [hnone] at hs
        cases hs
      · rw [← h.others fd hunheld]
        exact hfree
      · exact fun t' s _ => hunheld t' s
      · rfl
      · rfl
      · rfl
  | on fd operation =>
    obtain ⟨-, s, hheld, -⟩ := hallowed
    obtain ⟨htable, hfree⟩ := h.held t fd s hheld
    have hcall : match k.table fd with
      | some (.socket s) => ∃ s', operation.Does s r s' ∧
          k' = { k with table := Function.update k.table fd (some (.socket s')) }
      | _ => k' = k := hcall
    rw [htable] at hcall
    obtain ⟨s', hdoes, rfl⟩ := hcall
    refine ⟨_, ⟨s, s', hheld, hdoes, rfl⟩, ?_⟩
    apply h.change (some s')
    · intro fd' s₁ hs
      rw [hheld] at hs
      cases hs
      rfl
    · exact hfree
    · exact fun t' s₁ hne hs => hne (h.apart t' t fd s₁ s hs hheld)
    · rfl
    · rfl
    · rfl
  | close fd =>
    obtain ⟨-, s, hheld⟩ := hallowed
    obtain ⟨htable, hfree⟩ := h.held t fd s hheld
    have hcall : match k.table fd with
      | some (.socket s) => k' = ⟨Function.update k.table fd none, k.closed + {s}⟩
      | some .other => k' = { k with table := Function.update k.table fd none }
      | none => k' = k := hcall
    rw [htable] at hcall
    have hcall : k' = ⟨Function.update k.table fd none, k.closed + {s}⟩ := hcall
    subst hcall
    refine ⟨_, ⟨s, hheld, rfl⟩, ?_⟩
    apply h.change none
    · intro fd' s₁ hs
      rw [hheld] at hs
      cases hs
      rfl
    · exact hfree
    · exact fun t' s₁ hne hs => hne (h.apart t' t fd s₁ s hs hheld)
    · rfl
    · rfl
    · show k.closed + {s} + ((own t).closed : Multiset Socket) =
        k.closed + (((own t).closed ++ [s] : List Socket) : Multiset Socket)
      rw [← Multiset.coe_add, Multiset.coe_singleton]
      ac_rfl
  | cerr line =>
    cases hcall
    exact ⟨own t, rfl, by rwa [Function.update_eq_self]⟩

theorem Shares.leave {e : Bytes × Option Bool} (h : Shares k₀ own past k)
    (hnone : (own t).held = none) :
    Shares k₀ (Function.update own t .new) (past ++ [(e, own t)]) k := by
  have hheld : ∀ t', (Function.update own t Part.new t').held = (own t').held := by
    intro t'
    by_cases ht : t' = t
    · subst ht
      rw [Function.update_self, hnone]
      rfl
    · rw [Function.update_of_ne ht]
  constructor
  · intro t' fd s hs
    rw [hheld] at hs
    exact h.held t' fd s hs
  · intro t₁ t₂ fd s₁ s₂ h₁ h₂
    rw [hheld] at h₁ h₂
    exact h.apart t₁ t₂ fd s₁ s₂ h₁ h₂
  · intro fd hunheld
    apply h.others
    intro t' s hs
    apply hunheld t' s
    rw [hheld]
    exact hs
  · have hsum := sum_closed_update own t .new
    have hsum : ∑ t', ((Function.update own t .new t').closed : Multiset Socket) + (own t).closed =
      ∑ t', ((own t').closed : Multiset Socket) := hsum.trans (add_zero _)
    rw [h.closed, ← hsum, List.map_append, List.sum_append, List.map_singleton, List.sum_singleton]
    ac_rfl

theorem start_owned (data : JsonData) (address : Bool) (rounds : Nat) (k₀ : Kernel) :
    OwnRule (start rounds (some data) address) Answers
      (fun message => Allowed data (payload data.backup_token message)) Alone Part.new
      (fun result => result ≠ none) (CallEnds data address rounds)
      fun own : T → Part => Shares k₀ own where
  verified := keeps_start data address rounds
  call own past t message c k r k' h hallowed hcall := h.call hallowed hcall
  leave own past t message result k h hsome hends := by
    cases result with
    | none => exact absurd rfl hsome
    | some result => exact h.leave hends.1

/-- A call that is over sent what the loop over attempts sends, over these sockets. -/
def Went (data : JsonData) (address : Bool) (e : Bytes × Option Bool) (sockets : List Socket) :
    Prop :=
  ∃ result attempts, e.2 = some result ∧
    Backup.start (some data) e.1 address attempts = some (result, streams sockets)

/-- One of the messages sent, or being sent. -/
def Sends (log : List (Label Call.Resp T Bytes (Option Bool)))
    (s : Threads Call.Resp Kernel T Bytes (Option Bool)) (message : Bytes) : Prop :=
  (∃ result, (message, result) ∈ returns log) ∨ ∃ t p, s.phase t = .running message p

variable {data : JsonData} {address : Bool} {rounds : Nat}
  {s₀ s : Threads Call.Resp Kernel T Bytes (Option Bool)}
  {log : List (Label Call.Resp T Bytes (Option Bool))}

/-- No call has used its rounds up. -/
structure Ended (log : List (Label Call.Resp T Bytes (Option Bool)))
    (s : Threads Call.Resp Kernel T Bytes (Option Bool)) : Prop where
  returned : ∀ e ∈ returns log, e.2 ≠ none
  running : ∀ t message, s.phase t ≠ .running message (.ret none)

theorem sum_closed (past : List ((Bytes × Option Bool) × Part)) :
    (past.map fun e => (e.2.closed : Multiset Socket)).sum =
      ((past.map fun e => e.2.closed).flatten : Multiset Socket) := by
  induction past with
  | nil => rfl
  | cons e past ih =>
    rw [List.map_cons, List.sum_cons, ih, List.map_cons, List.flatten_cons, Multiset.coe_add]

section
variable (h : Owned (fun message => Allowed data (payload data.backup_token message)) Alone
  Part.new (CallEnds data address rounds) (fun own => Shares k₀ own) log s own past)
include h
omit [DecidableEq T]

/-- What a thread that sends has written so far. -/
theorem owned_well (hended : Ended log s) {message : Bytes} {p : Program (Option Bool)}
    (hp : s.phase t = .running message p) :
    (own t).Well (payload data.backup_token message) := by
  have hkeeps := h.running t message p hp
  cases p with
  | call c next => exact (keeps_call_iff.mp hkeeps).1.1
  | ret result =>
    cases result with
    | none => exact absurd hp (hended.running t message)
    | some result =>
      have hends : CallEnds data address rounds message (some result) (own t) := hkeeps
      refine ⟨fun fd x hx => ?_, hends.2.1⟩
      rw [hends.1] at hx
      cases hx

theorem owned_running (hnew : own t ≠ Part.new) : ∃ message p, s.phase t = .running message p := by
  by_contra hnot
  exact hnew (h.rest t fun message p hp => hnot ⟨message, p, hp⟩)

theorem owned_went (hended : Ended log s) :
    List.Forall₂ (Went data address) (returns log) (past.map fun e => e.2.closed) := by
  rw [← h.returned, List.forall₂_map_left_iff, List.forall₂_map_right_iff, List.forall₂_same]
  intro e he
  have hends := h.ended e he
  have hsome := hended.returned e.1 (h.returned ▸ List.mem_map_of_mem he)
  cases hresult : e.1.2 with
  | none => exact absurd hresult hsome
  | some result =>
    rw [hresult] at hends
    obtain ⟨-, -, attempts, hrun⟩ := hends
    exact ⟨result, attempts, hresult, hrun⟩

theorem owned_closed_prefix (hended : Ended log s) (hzero : k₀.closed = 0) {x : Socket}
    (hx : x ∈ s.world.closed) :
    ∃ message, Sends log s message ∧ x.stream <+: payload data.backup_token message := by
  rw [h.parts.closed, hzero, zero_add, sum_closed, Multiset.mem_add, Multiset.mem_sum] at hx
  rcases hx with hx | ⟨t, -, hx⟩
  · obtain ⟨sockets, hsockets, hmem⟩ := List.mem_flatten.mp (Multiset.mem_coe.mp hx)
    obtain ⟨e, he, rfl⟩ := List.mem_map.mp hsockets
    have hends := h.ended e he
    have hreturned : e.1 ∈ returns log := h.returned ▸ List.mem_map_of_mem he
    have hsome := hended.returned e.1 hreturned
    cases hresult : e.1.2 with
    | none => exact absurd hresult hsome
    | some result =>
      rw [hresult] at hends
      exact ⟨e.1.1, .inl ⟨_, hreturned⟩, hends.2.1 x hmem⟩
  · have hnew : own t ≠ Part.new := by
      intro hnew
      rw [hnew] at hx
      exact Multiset.notMem_zero x hx
    obtain ⟨message, p, hp⟩ := owned_running h hnew
    exact ⟨message, .inr ⟨t, p, hp⟩, (owned_well h hended hp).closed x (Multiset.mem_coe.mp hx)⟩

theorem owned_held_prefix (hended : Ended log s) (hothers : ∀ fd x, k₀.table fd ≠ some (.socket x))
    {x : Socket} (hx : s.world.table fd = some (.socket x)) :
    ∃ message, Sends log s message ∧ x.stream <+: payload data.backup_token message := by
  by_cases hheld : ∃ t y, (own t).held = some (fd, y)
  · obtain ⟨t, y, hy⟩ := hheld
    have hsame := (h.parts.held t fd y hy).1
    rw [hx] at hsame
    cases hsame
    have hnew : own t ≠ Part.new := by
      intro hnew
      rw [hnew] at hy
      cases hy
    obtain ⟨message, p, hp⟩ := owned_running h hnew
    exact ⟨message, .inr ⟨t, p, hp⟩, (owned_well h hended hp).held fd x hy⟩
  · have hsame := h.parts.others fd fun t y hy => hheld ⟨t, y, hy⟩
    rw [hx] at hsame
    exact absurd hsame.symm (hothers fd x)

theorem owned_idle (hidle : ∀ t message p, s.phase t ≠ .running message p) :
    ∑ t, ((own t).closed : Multiset Socket) = 0 ∧ s.world.table = k₀.table := by
  have hnew : ∀ t, own t = Part.new := fun t => h.rest t (hidle t)
  constructor
  · apply Finset.sum_eq_zero
    intro t _
    rw [hnew t]
    rfl
  · funext fd
    apply h.parts.others fd
    intro t y hy
    rw [hnew t] at hy
    cases hy

theorem owned_call {message : Bytes} {operation : Operation}
    {next : operation.Resp → Program (Option Bool)}
    (hp : s.phase t = .running message (.call (.on fd operation) next)) :
    ∃ x, (own t).held = some (fd, x) ∧
      operation.Proper data (payload data.backup_token message) x :=
  (keeps_call_iff.mp (h.running t message _ hp)).1.2

end

/-- While threads call `Start` as they like and any call may fail, a descriptor that was there
before is left alone, no two threads use one socket, a socket is written to only when it is
connected, blocking and has its timeout, each has the beginning of one payload, and a call that
has returned did what the loop over its attempts does and has closed all it opened. -/
theorem connections_kept_apart (hidle : ∀ t, s₀.phase t = .idle) (hclosed : s₀.world.closed = 0)
    (hothers : ∀ fd x, s₀.world.table fd ≠ some (.socket x)) (hended : Ended log s)
    (hrun : ThreadRun (start rounds (some data) address) (fun _ => false) Answers s₀ log s) :
    (∃ parts more, List.Forall₂ (Went data address) (returns log) parts ∧
      s.world.closed = parts.flatten + more ∧
      ((∀ t message p, s.phase t ≠ .running message p) →
        more = 0 ∧ s.world.table = s₀.world.table)) ∧
    (∀ x, (x ∈ s.world.closed ∨ ∃ fd, s.world.table fd = some (.socket x)) →
      ∃ message, Sends log s message ∧ x.stream <+: payload data.backup_token message) ∧
    (∀ fd x, s₀.world.table fd = some x → s.world.table fd = some x) ∧
    ∀ t message fd operation next,
      s.phase t = .running message (.call (.on fd operation) next) →
      (∃ x, s.world.table fd = some (.socket x) ∧
        operation.Proper data (payload data.backup_token message) x) ∧
      ∀ t' message' operation' next',
        s.phase t' = .running message' (.call (.on fd operation') next') → t' = t := by
  have hstart : Shares s₀.world (fun _ : T => Part.new) [] s₀.world := by
    refine ⟨nofun, nofun, fun fd _ => rfl, ?_⟩
    rw [List.map_nil, List.sum_nil, add_zero]
    exact (add_zero _).symm.trans (congrArg _ (Finset.sum_eq_zero fun _ _ => rfl).symm)
  obtain ⟨own, past, h⟩ := run_owned (start_owned data address rounds s₀.world) hidle hstart
    hended.returned hrun
  refine ⟨⟨past.map fun e => e.2.closed, ∑ t, ((own t).closed : Multiset Socket),
    owned_went h hended, ?_, owned_idle h⟩, ?_, ?_, ?_⟩
  · rw [h.parts.closed, hclosed, zero_add, sum_closed]
  · intro x hx
    rcases hx with hx | ⟨fd, hx⟩
    · exact owned_closed_prefix h hended hclosed hx
    · exact owned_held_prefix h hended hothers hx
  · intro fd x hx
    rw [h.parts.others fd fun t y hy => ?_]
    · exact hx
    · rw [(h.parts.held t fd y hy).2] at hx
      cases hx
  · intro t message fd operation next hp
    obtain ⟨x, hx, hproper⟩ := owned_call h hp
    refine ⟨⟨x, (h.parts.held t fd x hx).1, hproper⟩, ?_⟩
    intro t' message' operation' next' hp'
    obtain ⟨x', hx', -⟩ := owned_call h hp'
    exact h.parts.apart t' t fd x' x hx' hx

end

/-! ### A recorded run -/

/-- A call succeeds with a number or fails with an `errno`. -/
def Operation.answer (operation : Operation) (s : Socket) (choice : Answer Nat) :
    operation.Resp × Socket :=
  match operation with
  | .setTimeout sec usec =>
    match choice with
    | .ok _ => (.ok (), { s with timeout := some (sec, usec) })
    | .error e => (.error e, s)
  | .getFlags =>
    match choice with
    | .ok _ => (.ok s.flags, s)
    | .error e => (.error e, s)
  | .setFlags flags =>
    match choice with
    | .ok _ => (.ok (), { s with flags := flags })
    | .error e => (.error e, s)
  | .connect =>
    match choice with
    | .ok _ => (.ok (), { s with connected := true })
    | .error e => (.error e, s)
  | .poll _ =>
    match choice with
    | .ok count => (.ok count, { s with ready := s.ready || decide (count ≠ 0) })
    | .error e => (.error e, s)
  | .socketError =>
    match choice with
    | .ok 0 => (.ok none, { s with connected := s.connected || s.ready })
    | .ok code => (.ok (some (.other code)), s)
    | .error e => (.error e, s)
  | .send data =>
    match choice with
    | .ok count => (.ok (min count data.length),
        { s with stream := s.stream ++ data.take (min count data.length) })
    | .error e => (.error e, s)
  | .shutdown =>
    match choice with
    | .ok _ => (.ok (), { s with ended := true })
    | .error e => (.error e, s)

def clientAnswer (k : Kernel) (c : Call) (choice : Answer Nat) : c.Resp × Kernel :=
  match c with
  | .socket =>
    match choice with
    | .ok fd =>
      if k.table fd = none then
        (.ok fd, { k with table := Function.update k.table fd (some (.socket .new)) })
      else (.error .EINTR, k)
    | .error e => (.error e, k)
  | .on fd operation =>
    match k.table fd with
    | some (.socket s) => ((operation.answer s choice).1,
        { k with
          table := Function.update k.table fd (some (.socket (operation.answer s choice).2)) })
    | _ => ((operation.answer .new choice).1, k)
  | .close fd =>
    match k.table fd with
    | some (.socket s) => (.ok (), ⟨Function.update k.table fd none, k.closed + {s}⟩)
    | some .other => (.ok (), { k with table := Function.update k.table fd none })
    | none => (.error .EINTR, k)
  | .cerr _ => ((), k)

theorem answer_does (operation : Operation) (s : Socket) (choice : Answer Nat) :
    operation.Does s (operation.answer s choice).1 (operation.answer s choice).2 := by
  cases operation with
  | getFlags =>
    cases choice with
    | error e => rfl
    | ok n => exact ⟨rfl, rfl⟩
  | send data =>
    cases choice with
    | error e => rfl
    | ok n => exact ⟨Nat.min_le_right .., rfl⟩
  | socketError =>
    cases choice with
    | error e => rfl
    | ok n => cases n <;> rfl
  | _ => cases choice <;> rfl

theorem clientAnswer_answers (k : Kernel) (c : Call) (choice : Answer Nat) :
    Answers c k (clientAnswer k c choice).1 (clientAnswer k c choice).2 := by
  cases c with
  | socket =>
    cases choice with
    | error e => rfl
    | ok fd =>
      simp only [clientAnswer]
      split
      · rename_i hfree
        exact ⟨Int.natCast_nonneg fd, hfree, rfl⟩
      · rfl
  | on fd operation =>
    simp only [clientAnswer, Answers]
    cases k.table fd with
    | none => rfl
    | some entry =>
      cases entry with
      | other => rfl
      | socket s => exact ⟨_, answer_does operation s choice, rfl⟩
  | close fd =>
    simp only [clientAnswer, Answers]
    cases k.table fd with
    | none => rfl
    | some entry => cases entry <;> rfl
  | cerr line => rfl

/-- The standard streams are open. -/
def standardStreams : Kernel := ⟨fun fd => if 0 ≤ fd ∧ fd < 3 then some .other else none, 0⟩

/-- One thread loses its first connection while the other sends over its own, and uses the
descriptor again. -/
def clientMoves : List (Move Bool Bytes (Answer Nat)) :=
  [.invoke false (lit "ab"), .enter false, .invoke true (lit "c"), .enter true,
    .call false (.ok 3), .call true (.ok 4), .call false (.ok 0), .call false (.ok 0),
    .call false (.ok 0), .call false (.error .EINPROGRESS), .call true (.ok 0),
    .call false (.error .EINTR), .call false (.ok 1), .call false (.ok 0), .call false (.ok 0),
    .call false (.ok 2), .call false (.error .EINTR), .call false (.error (.other 104)),
    .call false (.ok 0), .call false (.ok 0)] ++
    List.replicate 5 (.call true (.ok 1)) ++ [.call false (.ok 3)] ++
    List.replicate 8 (.call false (.ok 9)) ++ [.leave false]

/-- The rounds are used up. -/
def spent : Phase Call.Resp Bytes (Option Bool) → Bool
  | .running _ (.ret none) => true
  | _ => false

theorem connections_kept_apart_sample : ∃ log s,
    Transition.Run.play (advance (start 9 (some tokenConfig) true) (fun _ => false) clientAnswer
      fun _ _ _ => true) ⟨standardStreams, fun _ => .idle, none⟩ clientMoves = some (log, s) ∧
    returns log = [(lit "ab", some true)] ∧
    s.world.closed.map Socket.stream = {lit "t\n", lit "t\nab"} ∧
    ((∃ parts more, List.Forall₂ (Went tokenConfig true) (returns log) parts ∧
      s.world.closed = parts.flatten + more ∧
      ((∀ t message p, s.phase t ≠ .running message p) →
        more = 0 ∧ s.world.table = standardStreams.table)) ∧
    (∀ x, (x ∈ s.world.closed ∨ ∃ fd, s.world.table fd = some (.socket x)) →
      ∃ message, Sends log s message ∧
        x.stream <+: payload tokenConfig.backup_token message) ∧
    (∀ fd x, standardStreams.table fd = some x → s.world.table fd = some x) ∧
    ∀ t message fd operation next,
      s.phase t = .running message (.call (.on fd operation) next) →
      (∃ x, s.world.table fd = some (.socket x) ∧
        operation.Proper tokenConfig (payload tokenConfig.backup_token message) x) ∧
      ∀ t' message' operation' next',
        s.phase t' = .running message' (.call (.on fd operation') next') → t' = t) := by
  have hplay : (Transition.Run.play (advance (start 9 (some tokenConfig) true) (fun _ => false)
      clientAnswer fun _ _ _ => true) ⟨standardStreams, fun _ => .idle, none⟩ clientMoves).any
        (fun played =>
          decide (returns played.1 = [(lit "ab", some true)]) &&
          decide (played.2.world.closed.map Socket.stream = {lit "t\n", lit "t\nab"}) &&
          decide (∀ t, spent (played.2.phase t) = false)) = true := by decide +kernel
  obtain ⟨⟨log, s⟩, hplayed, hcheck⟩ := (Option.any_eq_true _ _).mp hplay
  simp only [Bool.and_eq_true, decide_eq_true_eq] at hcheck
  obtain ⟨⟨hreturns, hclosed⟩, hspent⟩ := hcheck
  have hrun := threadRun_of_play (fun k c choice _ => clientAnswer_answers k c choice) hplayed
  have hothers : ∀ fd x, standardStreams.table fd ≠ some (.socket x) := by
    intro fd x hx
    simp only [standardStreams] at hx
    split at hx <;> cases hx
  have hended : Ended log s := by
    refine ⟨fun e he => ?_, fun t message hp => ?_⟩
    · rw [hreturns, List.mem_singleton] at he
      rw [he]
      exact Option.some_ne_none true
    · have hnot := hspent t
      rw [hp] at hnot
      cases hnot
  exact ⟨log, s, hplayed, hreturns, hclosed,
    connections_kept_apart (fun _ => rfl) rfl hothers hended hrun⟩

end CloudStorage.BackupClient
