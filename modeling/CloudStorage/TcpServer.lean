import CloudStorage.Backup
import CloudStorage.Lib.Descriptors
import CloudStorage.Lib.Transition

/-!
# The threads of the backup server (`ServerBackupLog.cpp`)

The accept loop and any number of handlers share `active_connections_`. Every
atomic operation and every call is a step of its own, and a descriptor may be
given out again as soon as it is closed. The callback returns, and memory is taken
not to run out.
-/

namespace CloudStorage.TcpServer
open Posix Backup

/-- The members that the threads read. -/
structure Config where
  expected_token_ : Bytes
  max_connections_ : UInt64
  positive : max_connections_ ≠ 0

/-- The constructor; `callback` is whether there is one. -/
def construct (callback : Bool) (expected_token : Bytes) (max_connections : UInt64)
    (receive_timeout_seconds : Int) : Except Bytes Config :=
  if h : callback = false ∨ max_connections = 0 ∨ receive_timeout_seconds ≤ 0 then
    .error (lit "invalid backup server configuration")
  else .ok ⟨expected_token, max_connections, fun hzero => h (.inr (.inl hzero))⟩

/-- The constructor takes what the server needs. -/
theorem construct_ok {callback : Bool} {expected_token : Bytes} {max_connections : UInt64}
    {receive_timeout_seconds : Int} {config : Config} :
    construct callback expected_token max_connections receive_timeout_seconds = .ok config ↔
      callback = true ∧ 0 < receive_timeout_seconds ∧ config.expected_token_ = expected_token ∧
        config.max_connections_ = max_connections := by
  obtain ⟨token, limit, positive⟩ := config
  unfold construct
  split
  · rename_i hbad
    simp only [reduceCtorEq, false_iff]
    rintro ⟨hcallback, htimeout, -, rfl⟩
    rcases hbad with hnone | hzero | hshort
    · exact absurd hcallback (Bool.eq_false_iff.mp hnone)
    · exact positive hzero
    · omega
  · rename_i hgood
    simp only [not_or, Bool.not_eq_false, Int.not_le] at hgood
    simp only [Except.ok.injEq, Config.mk.injEq, hgood.1, hgood.2.2, true_and, eq_comm]

/-! ### The threads -/

/-- `sizeof(buffer)` in `HandleConnection`. -/
def bufferSize : Nat := 4096

/-- What a call answers. -/
inductive Answer
  | ok
  /-- `EINTR` -/
  | interrupted
  | failed
  /-- of `accept`: the descriptor and `ntohs(client_address.sin_port)` -/
  | connection (fd : Int) (port : UInt16)
  /-- of `inet_ntop` -/
  | address (text : Bytes)
  /-- of `recv`, empty for 0 -/
  | data (bytes : Bytes)
  deriving DecidableEq

/-- What a step does to what the threads share. -/
inductive Effect
  /-- nothing: the call is made again -/
  | again
  /-- nothing: the thread goes on -/
  | internal
  | accepted (connection : Int)
  | raised
  | lowered
  | closed (connection : Int)
  | started (connection : Int) (client_info : Bytes)
  | called (message : Bytes)
  deriving DecidableEq

/-- Before which call or operation the accept loop is. -/
inductive LoopPc
  | accept
  | fetch_add (connection : Int) (port : UInt16)
  | inet_ntop (connection : Int) (port : UInt16)
  | thread (connection : Int) (client_info : Bytes)
  | fetch_sub (connection : Int)
  | close (connection : Int)
  deriving DecidableEq

def colon : Byte := 58

/-- The accept loop; each of its three ways out lowers the counter and closes the connection. -/
def Run (config : Config) (active_connections_ : UInt64) :
    LoopPc → Answer → Option (Effect × LoopPc)
  | .accept, .interrupted => some (.again, .accept)
  | .accept, .failed => some (.again, .accept)
  | .accept, .connection fd port =>
    if fd < 0 then none else some (.accepted fd, .fetch_add fd port)
  | .fetch_add connection port, .ok =>
    if active_connections_ ≥ config.max_connections_ then some (.raised, .fetch_sub connection)
    else some (.raised, .inet_ntop connection port)
  | .inet_ntop connection _, .failed => some (.internal, .fetch_sub connection)
  | .inet_ntop connection port, .address text =>
    some (.internal, .thread connection (text ++ colon :: decimal port.toNat))
  | .thread connection client_info, .ok => some (.started connection client_info, .accept)
  | .thread connection _, .failed => some (.internal, .fetch_sub connection)
  | .fetch_sub connection, .ok => some (.lowered, .close connection)
  | .close connection, .ok => some (.closed connection, .accept)
  | .close connection, .failed => some (.closed connection, .accept)
  | _, _ => none

/-- The last two are those of the guard's destructor. -/
inductive HandlerPc
  | setsockopt
  | recv (message : Bytes)
  | callback_ (message : Bytes)
  | close
  | fetch_sub
  deriving DecidableEq

/-- Behind the loop over `recv`. -/
def afterRecv (expected_token_ client_info message : Bytes) : HandlerPc :=
  match checkToken expected_token_ message with
  | none => .close
  | some message => if message = [] then .close else .callback_ (client_info ++ space :: message)

/-- Without a next place, the thread is over. -/
def HandleConnection (expected_token_ : Bytes) (socket_fd : Int) (client_info : Bytes) :
    HandlerPc → Answer → Option (Effect × Option HandlerPc)
  | .setsockopt, .ok => some (.internal, some (.recv []))
  | .setsockopt, .failed => some (.internal, some .close)
  | .recv message, .interrupted => some (.again, some (.recv message))
  | .recv _, .failed => some (.internal, some .close)
  | .recv message, .data bytes =>
    if bytes.length > bufferSize then none
    else if bytes = [] then
      some (.internal, some (afterRecv expected_token_ client_info message))
    else if message.length + bytes.length > kMaxMessageSize then some (.internal, some .close)
    else some (.internal, some (.recv (message ++ bytes)))
  | .callback_ message, .ok => some (.called message, some .close)
  | .close, .ok => some (if 0 ≤ socket_fd then .closed socket_fd else .internal, some .fetch_sub)
  | .close, .failed =>
    some (if 0 ≤ socket_fd then .closed socket_fd else .internal, some .fetch_sub)
  | .fetch_sub, .ok => some (.lowered, none)
  | _, _ => none

/-! ### The server -/

structure Handler where
  socket_fd : Int
  client_info : Bytes
  pc : HandlerPc

/-- `handlers` are the threads that were started and are not over. -/
structure Server where
  active_connections_ : UInt64
  loop : LoopPc
  handlers : List Handler
  sockets : Descriptors.Table Int

def initial : Server := ⟨0, .accept, [], .new⟩

inductive Actor
  | loop
  | handler (k : Nat)
  deriving DecidableEq

/-- Accepted connections are numbered; `closed none` is a `close` of a descriptor that is not
open. -/
inductive Label
  | again
  | internal
  | accepted (c : Nat)
  | raised
  | lowered
  | closed (c : Option Nat)
  | started
  | called (message : Bytes)
  deriving DecidableEq

/-- Every thread has its buffer in an address space of 2 ^ 64 bytes. -/
def Fits (threads : Nat) : Prop := threads * bufferSize ≤ 2 ^ 64

instance (threads : Nat) : Decidable (Fits threads) := inferInstanceAs (Decidable (_ ≤ _))

def Server.apply (s : Server) : Effect → Option (Label × Server)
  | .again => some (.again, s)
  | .internal => some (.internal, s)
  | .accepted connection =>
    if s.sockets.entry connection = none then
      some (.accepted s.sockets.opened, { s with sockets := s.sockets.open connection })
    else none
  | .raised => some (.raised, { s with active_connections_ := s.active_connections_ + 1 })
  | .lowered => some (.lowered, { s with active_connections_ := s.active_connections_ - 1 })
  | .closed connection =>
    some (.closed (s.sockets.entry connection), { s with sockets := s.sockets.close connection })
  | .started connection client_info =>
    if Fits (s.handlers.length + 1) then
      some (.started, { s with handlers := s.handlers ++ [⟨connection, client_info, .setsockopt⟩] })
    else none
  | .called message => some (.called message, s)

/-- The handlers once the one in place `k` has gone on. -/
def goOn (handlers : List Handler) (k : Nat) (handler : Handler) : Option HandlerPc → List Handler
  | some pc => handlers.set k { handler with pc := pc }
  | none => handlers.eraseIdx k

def Server.next (config : Config) (s : Server) : Actor × Answer → Option (Label × Server)
  | (.loop, answer) =>
    (Run config s.active_connections_ s.loop answer).bind fun done =>
      Server.apply { s with loop := done.2 } done.1
  | (.handler k, answer) =>
    s.handlers[k]?.bind fun handler =>
      (HandleConnection config.expected_token_ handler.socket_fd handler.client_info handler.pc
        answer).bind fun done =>
        Server.apply { s with handlers := goOn s.handlers k handler done.2 } done.1

/-- Any thread takes its next step, with any answer. -/
def Step (config : Config) (s : Server) (l : Label) (s' : Server) : Prop :=
  ∃ input, s.next config input = some (l, s')

/-! ### A handler on its own -/

section
variable (expected_token_ : Bytes) (socket_fd : Int) (client_info : Bytes)

def Effect.message : Effect → List Bytes
  | .called message => [message]
  | _ => []

/-- What a handler gives to the callback, as long as the answers are those of its calls. -/
def calledAlone : HandlerPc → List Answer → List Bytes
  | _, [] => []
  | pc, answer :: answers =>
    match HandleConnection expected_token_ socket_fd client_info pc answer with
    | none => []
    | some (effect, none) => effect.message
    | some (effect, some pc) => effect.message ++ calledAlone pc answers

def recvAnswer : Option Bytes → Answer
  | none => .interrupted
  | some chunk => .data chunk

def endAnswer : Ending → Answer
  | .ended => .data []
  | .failed => .failed

/-- Of the calls of a connection, and of a callback. -/
def answers (c : Connection) : List Answer :=
  (if c.setTimeout then .ok else .failed) ::
    (c.chunks.map recvAnswer ++ [endAnswer c.ending, .ok])

theorem calledAlone_fetch_sub (answers : List Answer) :
    calledAlone expected_token_ socket_fd client_info .fetch_sub answers = [] := by
  cases answers with
  | nil => rfl
  | cons answer answers => cases answer <;> rfl

theorem calledAlone_close (answers : List Answer) :
    calledAlone expected_token_ socket_fd client_info .close answers = [] := by
  have hclosed : (if 0 ≤ socket_fd then Effect.closed socket_fd else .internal).message = [] := by
    split <;> rfl
  cases answers with
  | nil => rfl
  | cons answer answers =>
    cases answer with
    | ok =>
      simp only [calledAlone, HandleConnection, hclosed, calledAlone_fetch_sub, List.append_nil]
    | failed =>
      simp only [calledAlone, HandleConnection, hclosed, calledAlone_fetch_sub, List.append_nil]
    | _ => rfl

/-- What is recorded of a message that was received whole. -/
def recorded (message : Bytes) : List Bytes :=
  match checkToken expected_token_ message with
  | none => []
  | some message => if message = [] then [] else [client_info ++ space :: message]

theorem calledAlone_afterRecv (message : Bytes) :
    calledAlone expected_token_ socket_fd client_info
      (afterRecv expected_token_ client_info message) [.ok] =
      recorded expected_token_ client_info message := by
  unfold afterRecv recorded
  split
  · exact calledAlone_close expected_token_ socket_fd client_info [.ok]
  · split
    · exact calledAlone_close expected_token_ socket_fd client_info [.ok]
    · rfl

theorem calledAlone_recv {chunks : List (Option Bytes)}
    (hsizes : ∀ chunk ∈ chunks, ∀ data ∈ chunk, 0 < data.length ∧ data.length ≤ bufferSize)
    (ending : Ending) (message : Bytes) :
    calledAlone expected_token_ socket_fd client_info (.recv message)
        (chunks.map recvAnswer ++ [endAnswer ending, .ok]) =
      (receiveLoop chunks ending message).elim [] (recorded expected_token_ client_info) := by
  induction chunks generalizing message with
  | nil =>
    cases ending with
    | ended => exact calledAlone_afterRecv expected_token_ socket_fd client_info message
    | failed => exact calledAlone_close expected_token_ socket_fd client_info [.ok]
  | cons chunk chunks ih =>
    have hrest := fun chunk hmem => hsizes chunk (List.mem_cons_of_mem _ hmem)
    cases chunk with
    | none => exact ih hrest message
    | some data =>
      obtain ⟨hpos, hle⟩ := hsizes (some data) List.mem_cons_self data rfl
      have hnot : ¬data.length > bufferSize := Nat.not_lt.mpr hle
      have hne : data ≠ [] := List.ne_nil_of_length_pos hpos
      rw [List.map_cons, List.cons_append, recvAnswer, calledAlone, receiveLoop]
      simp only [HandleConnection, if_neg hnot, if_neg hne]
      by_cases hlarge : message.length + data.length > kMaxMessageSize
      · rw [if_pos hlarge, if_pos hlarge]
        exact calledAlone_close expected_token_ socket_fd client_info _
      · rw [if_neg hlarge, if_neg hlarge]
        exact ih hrest (message ++ data)

end

/-- On its own, a handler gives to the callback what the server records of its connection. -/
theorem calledAlone_record (expected_token_ : Bytes) (socket_fd : Int) {c : Connection}
    (hc : c.Delivered) :
    calledAlone expected_token_ socket_fd c.clientInfo .setsockopt (answers c) =
      (c.record expected_token_).toList := by
  rw [answers, Connection.record]
  cases hset : c.setTimeout with
  | false =>
    exact calledAlone_close expected_token_ socket_fd c.clientInfo _
  | true =>
    refine (calledAlone_recv expected_token_ socket_fd c.clientInfo hc.sizes c.ending []).trans ?_
    rw [Bool.not_true, if_neg Bool.false_ne_true]
    cases receiveLoop c.chunks c.ending [] with
    | none => rfl
    | some message =>
      simp only [Option.elim_some, recorded]
      cases checkToken expected_token_ message with
      | none => rfl
      | some message =>
        simp only
        split
        · rfl
        · rfl

end CloudStorage.TcpServer
