import CloudStorage.LogConfig
import Mathlib.Data.List.Basic

/-!
# Remote backup: `backup::Start` and `TcpServer::HandleConnection`

One call of the client opens a connection for every attempt and writes the
payload until it is through or a `send` fails; then it shuts the connection
down and closes it, so the server comes to the end of the stream either way.
The answers of the socket calls are arguments.
-/

namespace CloudStorage
open Posix

namespace Backup

/-! ### Client -/

inductive SendResult
  | sent (count : Nat)
  /-- `EINTR` -/
  | interrupted
  /-- another error or a timeout -/
  | failed
  deriving DecidableEq, Repr

/-- How the calls of one attempt end. -/
structure Attempt where
  socket : Bool := true
  setTimeout : Bool := true
  connect : Bool := true
  sends : List SendResult
  deriving DecidableEq, Repr

def newline : Byte := 10

/-- The line before the message, when there is a token. -/
def header (token : Bytes) : Bytes := if token = [] then [] else token ++ [newline]

def payload (token message : Bytes) : Bytes := header token ++ message

/-- The loop over `send`: whether everything went through, and what did. Without an answer
the call does not return. -/
def sendLoop : List SendResult → Bytes → Bytes → Option (Bool × Bytes)
  | _, [], stream => some (true, stream)
  | [], _ :: _, _ => none
  | .interrupted :: results, b :: rest, stream => sendLoop results (b :: rest) stream
  | .failed :: _, _ :: _, stream => some (false, stream)
  | .sent 0 :: _, _ :: _, stream => some (false, stream)
  | .sent (n + 1) :: results, b :: rest, stream =>
    sendLoop results ((b :: rest).drop (n + 1)) (stream ++ (b :: rest).take (n + 1))

/-- The loop over the attempts: the result, and what went through on each connection. -/
def attemptLoop (payload : Bytes) : Nat → List Attempt → Option (Bool × List Bytes)
  | 0, _ => some (false, [])
  | _ + 1, [] => none
  | retries + 1, attempt :: rest =>
    if !attempt.socket || !attempt.setTimeout then some (false, [])
    else if !attempt.connect then
      (attemptLoop payload retries rest).map fun out => (out.1, [] :: out.2)
    else
      match sendLoop attempt.sends payload [] with
      | none => none
      | some (true, stream) => some (true, [stream])
      | some (false, stream) =>
        (attemptLoop payload retries rest).map fun out => (out.1, stream :: out.2)

/-- `backup::Start`; `address` is whether `inet_pton` takes `backup_addr`. -/
def start (data : Option JsonData) (message : Bytes) (address : Bool) (attempts : List Attempt) :
    Option (Bool × List Bytes) :=
  match data with
  | none => some (true, [])
  | some data =>
    if !data.backup_enabled then some (true, [])
    else if !address then some (false, [])
    else attemptLoop (payload data.backup_token message) data.backup_retries attempts

/-! ### Server -/

def kMaxMessageSize : Nat := 1024 * 1024

inductive Ending
  /-- `recv` returns 0 -/
  | ended
  /-- an error or a timeout -/
  | failed
  deriving DecidableEq, Repr

/-- The loop over `recv`; `none` is an `EINTR`. -/
def receiveLoop : List (Option Bytes) → Ending → Bytes → Option Bytes
  | [], .ended, message => some message
  | [], .failed, _ => none
  | none :: rest, ending, message => receiveLoop rest ending message
  | some chunk :: rest, ending, message =>
    if message.length + chunk.length > kMaxMessageSize then none
    else receiveLoop rest ending (message ++ chunk)

/-- The message without the token's line. -/
def checkToken (expected message : Bytes) : Option Bytes :=
  if expected = [] then some message
  else
    match message.dropWhile fun b => decide (b ≠ newline) with
    | [] => none
    | _ :: rest =>
      if (message.takeWhile fun b => decide (b ≠ newline)) ≠ expected then none else some rest

def space : Byte := 32

/-- A connection as the server sees it. -/
structure Connection where
  /-- what the client wrote -/
  stream : Bytes
  clientInfo : Bytes
  setTimeout : Bool := true
  chunks : List (Option Bytes)
  ending : Ending
  deriving DecidableEq, Repr

/-- `HandleConnection`: what it gives to the callback. -/
def Connection.record (expected : Bytes) (c : Connection) : Option Bytes :=
  if !c.setTimeout then none
  else
    match receiveLoop c.chunks c.ending [] with
    | none => none
    | some message =>
      match checkToken expected message with
      | none => none
      | some message => if message = [] then none else some (c.clientInfo ++ space :: message)

def received (chunks : List (Option Bytes)) : Bytes := chunks.flatMap fun chunk => chunk.getD []

/-- The stream arrives in order, and its end after all of it. -/
structure Connection.Delivered (c : Connection) : Prop where
  sizes : ∀ chunk ∈ c.chunks, ∀ data ∈ chunk, 0 < data.length ∧ data.length ≤ 4096
  inOrder : received c.chunks <+: c.stream
  whole : c.ending = .ended → received c.chunks = c.stream

instance (c : Connection) : Decidable c.Delivered :=
  decidable_of_iff
    ((∀ chunk ∈ c.chunks, ∀ data ∈ chunk, 0 < data.length ∧ data.length ≤ 4096) ∧
      received c.chunks <+: c.stream ∧ (c.ending = .ended → received c.chunks = c.stream))
    ⟨fun h => ⟨h.1, h.2.1, h.2.2⟩, fun h => ⟨h.sizes, h.inOrder, h.whole⟩⟩

/-! ### What the server records of a stream -/

theorem received_cons (chunk : Option Bytes) (chunks : List (Option Bytes)) :
    received (chunk :: chunks) = chunk.getD [] ++ received chunks :=
  List.flatMap_cons ..

/-- The message is taken as it was sent, up to the largest size. -/
theorem receiveLoop_eq (chunks : List (Option Bytes)) (ending : Ending) (message : Bytes)
    (hle : message.length ≤ kMaxMessageSize) :
    receiveLoop chunks ending message =
      if ending = .ended ∧ (message ++ received chunks).length ≤ kMaxMessageSize then
        some (message ++ received chunks)
      else none := by
  induction chunks generalizing message with
  | nil =>
    simp only [received, List.flatMap_nil, List.append_nil]
    cases ending with
    | ended => simp only [receiveLoop, hle, and_self, if_true]
    | failed => simp only [receiveLoop, reduceCtorEq, false_and, if_false]
  | cons chunk chunks ih =>
    rw [received_cons]
    cases chunk with
    | none =>
      rw [receiveLoop, ih message hle]
      rfl
    | some chunk =>
      rw [receiveLoop]
      simp only [Option.getD_some]
      by_cases hlarge : message.length + chunk.length > kMaxMessageSize
      · have hnot : ¬(ending = .ended ∧
            (message ++ (chunk ++ received chunks)).length ≤ kMaxMessageSize) := by
          rintro ⟨-, h⟩
          simp only [List.length_append] at h
          omega
        rw [if_pos hlarge, if_neg hnot]
      · have hfits : (message ++ chunk).length ≤ kMaxMessageSize := by
          rw [List.length_append]
          omega
        rw [if_neg hlarge, ih _ hfits, List.append_assoc]

theorem checkToken_some {expected message rest : Bytes} (hne : expected ≠ []) :
    checkToken expected message = some rest ↔
      newline ∉ expected ∧ message = expected ++ newline :: rest := by
  rw [checkToken, if_neg hne]
  constructor
  · intro h
    split at h
    · cases h
    · rename_i b rest' hdrop
      split at h
      · cases h
      · rename_i htoken
        cases h
        rw [ne_eq, not_not] at htoken
        have hmessage := eq_of_dropWhile_mark hdrop
        rw [htoken] at hmessage
        exact ⟨htoken ▸ mark_not_mem_takeWhile message, hmessage⟩
  · rintro ⟨hline, rfl⟩
    rw [dropWhile_mark hline, takeWhile_mark hline]
    simp only [ne_eq, not_true_eq_false, if_false]

theorem header_eq {token : Bytes} (h : token ≠ []) : header token = token ++ [newline] := if_neg h

/-- The stream itself when there is no token, else what follows the token's line. -/
def Unwrapped (token stream rest : Bytes) : Prop :=
  if token = [] then stream = rest else stream = token ++ newline :: rest

theorem checkToken_unwrapped {token : Bytes} (hline : newline ∉ token) (stream rest : Bytes) :
    checkToken token stream = some rest ↔ Unwrapped token stream rest := by
  unfold Unwrapped
  by_cases htoken : token = []
  · subst htoken
    rw [if_pos rfl]
    exact Option.some_inj
  · rw [if_neg htoken, checkToken_some htoken]
    exact and_iff_right hline

theorem unwrapped_payload (token message : Bytes) :
    Unwrapped token (payload token message) message := by
  unfold Unwrapped payload header
  by_cases htoken : token = []
  · simp only [htoken, if_true, List.nil_append]
  · simp only [htoken, if_false, List.append_assoc, List.singleton_append]

theorem Connection.Delivered.receiveLoop_eq {c : Connection} (hc : c.Delivered) :
    receiveLoop c.chunks c.ending [] =
      if c.ending = .ended ∧ c.stream.length ≤ kMaxMessageSize then some c.stream else none := by
  rw [Backup.receiveLoop_eq _ _ _ (Nat.zero_le _), List.nil_append]
  by_cases hend : c.ending = .ended
  · rw [hc.whole hend]
  · rw [if_neg fun h => hend h.1, if_neg fun h => hend h.1]

theorem record_some {token out : Bytes} {c : Connection} (hc : c.Delivered) :
    c.record token = some out ↔
      c.setTimeout = true ∧ c.ending = .ended ∧ c.stream.length ≤ kMaxMessageSize ∧
        ∃ rest, (checkToken token c.stream = some rest ∧ rest ≠ []) ∧
          out = c.clientInfo ++ space :: rest := by
  unfold Connection.record
  rw [hc.receiveLoop_eq]
  by_cases hset : c.setTimeout = true
  · by_cases hwhole : c.ending = .ended ∧ c.stream.length ≤ kMaxMessageSize
    · obtain ⟨hend, hsize⟩ := hwhole
      simp only [hset, hend, hsize, Bool.not_true, Bool.false_eq_true, if_false, and_self,
        if_true, true_and]
      cases hcheck : checkToken token c.stream with
      | none => simp only [reduceCtorEq, false_and, exists_false]
      | some rest =>
        by_cases hne : rest = []
        · simp only [hne, if_true, reduceCtorEq, Option.some.injEq, false_iff]
          rintro ⟨rest', ⟨rfl, hrest⟩, -⟩
          exact hrest rfl
        · simp only [hne, if_false, Option.some.injEq]
          constructor
          · rintro rfl
            exact ⟨rest, ⟨rfl, hne⟩, rfl⟩
          · rintro ⟨rest', ⟨rfl, -⟩, rfl⟩
            rfl
    · simp only [hset, Bool.not_true, Bool.false_eq_true, if_false, if_neg hwhole, reduceCtorEq,
        false_iff]
      rintro ⟨-, hend, hsize, -⟩
      exact hwhole ⟨hend, hsize⟩
  · simp only [hset, Bool.not_false, if_true, reduceCtorEq, false_and, Bool.false_eq_true]

/-- The record depends on the stream alone, not on how it is cut. -/
theorem framing_uncut {token : Bytes} {c : Connection} (hline : newline ∉ token)
    (hc : c.Delivered) (hset : c.setTimeout = true) (hend : c.ending = .ended) :
    (∀ out, c.record token = some out ↔
      ∃ rest, c.stream.length ≤ kMaxMessageSize ∧ Unwrapped token c.stream rest ∧ rest ≠ [] ∧
        out = c.clientInfo ++ space :: rest) ∧
      ∀ message, message ≠ [] → c.stream = payload token message →
        (c.record token = some (c.clientInfo ++ space :: message) ↔
          c.stream.length ≤ kMaxMessageSize) := by
  have hrecord : ∀ out, c.record token = some out ↔
      ∃ rest, c.stream.length ≤ kMaxMessageSize ∧ Unwrapped token c.stream rest ∧ rest ≠ [] ∧
        out = c.clientInfo ++ space :: rest := by
    intro out
    rw [record_some hc]
    constructor
    · rintro ⟨-, -, hsize, rest, ⟨hrest, hne⟩, hout⟩
      exact ⟨rest, hsize, (checkToken_unwrapped hline _ _).mp hrest, hne, hout⟩
    · rintro ⟨rest, hsize, hrest, hne, hout⟩
      exact ⟨hset, hend, hsize, rest, ⟨(checkToken_unwrapped hline _ _).mpr hrest, hne⟩, hout⟩
  refine ⟨hrecord, fun message hne hstream => ?_⟩
  constructor
  · intro h
    obtain ⟨-, hsize, -⟩ := (hrecord _).mp h
    exact hsize
  · intro hsize
    have hunwrapped : Unwrapped token c.stream message := hstream ▸ unwrapped_payload token message
    exact (hrecord _).mpr ⟨message, hsize, hunwrapped, hne, rfl⟩

/-- The token's line is cut in two, and the message begins with the token once more. -/
def cutInToken : Connection :=
  ⟨lit "tok\ntok\nhe", lit "10.0.0.7:4000", true,
    [some (lit "to"), none, some (lit "k"), some (lit "\nto"), none, some (lit "k\nhe")], .ended⟩

theorem framing_uncut_sample :
    (∀ out, cutInToken.record (lit "tok") = some out ↔
      ∃ rest, cutInToken.stream.length ≤ kMaxMessageSize ∧
        Unwrapped (lit "tok") cutInToken.stream rest ∧ rest ≠ [] ∧
        out = cutInToken.clientInfo ++ space :: rest) ∧
      ∀ message, message ≠ [] → cutInToken.stream = payload (lit "tok") message →
        (cutInToken.record (lit "tok") = some (cutInToken.clientInfo ++ space :: message) ↔
          cutInToken.stream.length ≤ kMaxMessageSize) :=
  framing_uncut (by decide) (by decide) rfl rfl

/-- A stream that goes beyond the header holds a part of the message. -/
theorem cut_payload {token message stream : Bytes} (hcut : stream <+: payload token message)
    (hbeyond : (header token).length < stream.length) :
    stream = header token ++ message.take (stream.length - (header token).length) ∧
      message.take (stream.length - (header token).length) ≠ [] := by
  have hle := hcut.length_le
  have hstream : stream = (payload token message).take stream.length :=
    List.prefix_iff_eq_take.mp hcut
  constructor
  · calc stream = (header token ++ message).take stream.length := hstream
      _ = header token ++ message.take (stream.length - (header token).length) := by
        rw [List.take_append, List.take_of_length_le (by omega)]
  · intro hnil
    have hzero := congrArg List.length hnil
    rw [List.length_take, List.length_nil] at hzero
    rw [payload, List.length_append] at hle
    omega

/-- What is left of such a stream is that part, unless the token has a newline. -/
theorem checkToken_cut {token message stream rest : Bytes}
    (hcut : stream <+: payload token message) :
    checkToken token stream = some rest ∧ rest ≠ [] ↔
      newline ∉ token ∧ (header token).length < stream.length ∧
        rest = message.take (stream.length - (header token).length) := by
  by_cases htoken : token = []
  · subst htoken
    have hwhole : checkToken [] stream = some stream := rfl
    rw [hwhole]
    constructor
    · rintro ⟨heq, hne⟩
      cases heq
      have hbeyond : (header []).length < stream.length := List.length_pos_of_ne_nil hne
      exact ⟨List.not_mem_nil, hbeyond, (cut_payload hcut hbeyond).1⟩
    · rintro ⟨-, hbeyond, rfl⟩
      obtain ⟨hstream, hne⟩ := cut_payload hcut hbeyond
      exact ⟨congrArg some hstream, hne⟩
  · rw [checkToken_some htoken]
    constructor
    · rintro ⟨⟨hline, rfl⟩, hne⟩
      have hbeyond : (header token).length < (token ++ newline :: rest).length := by
        have := List.length_pos_of_ne_nil hne
        simp only [header_eq htoken, List.length_append, List.length_cons, List.length_nil]
        omega
      have hstream := (cut_payload hcut hbeyond).1
      rw [header_eq htoken] at hstream
      refine ⟨hline, hbeyond, ?_⟩
      rw [header_eq htoken]
      simpa only [List.append_assoc, List.singleton_append, List.append_cancel_left_eq,
        List.cons.injEq, true_and] using hstream
    · rintro ⟨hline, hbeyond, rfl⟩
      obtain ⟨hstream, hne⟩ := cut_payload hcut hbeyond
      refine ⟨⟨hline, ?_⟩, hne⟩
      rw [header_eq htoken, List.append_assoc, List.singleton_append] at hstream
      rwa [header_eq htoken]

/-- The server sees the end of what the client wrote on the connection, and takes the token. -/
def Connection.Recognised (token : Bytes) (c : Connection) : Prop :=
  c.setTimeout = true ∧ c.ending = .ended ∧ newline ∉ token

theorem record_eq {token message : Bytes} {c : Connection} (hc : c.Delivered)
    (hcut : c.stream <+: payload token message)
    (hsize : (payload token message).length ≤ kMaxMessageSize) (out : Bytes) :
    c.record token = some out ↔
      c.Recognised token ∧ (header token).length < c.stream.length ∧
        out = c.clientInfo ++ space ::
          message.take (c.stream.length - (header token).length) := by
  have hle := hcut.length_le
  have hcheck := fun rest => @checkToken_cut token message c.stream rest hcut
  rw [record_some hc]
  constructor
  · rintro ⟨hset, hend, -, rest, hrest, hout⟩
    obtain ⟨hline, hbeyond, rfl⟩ := (hcheck rest).mp hrest
    exact ⟨⟨hset, hend, hline⟩, hbeyond, hout⟩
  · rintro ⟨⟨hset, hend, hline⟩, hbeyond, hout⟩
    exact ⟨hset, hend, by omega, _, (hcheck _).mpr ⟨hline, hbeyond, rfl⟩, hout⟩

/-! ### What a call writes -/

theorem sendLoop_stream {results : List SendResult} {rest stream out : Bytes} {ok : Bool}
    (h : sendLoop results rest stream = some (ok, out)) :
    out <+: stream ++ rest ∧
      (if ok then out = stream ++ rest else out.length < (stream ++ rest).length) := by
  have hcut : ∀ {b : Byte} {bs : Bytes}, stream <+: stream ++ b :: bs ∧
      stream.length < (stream ++ b :: bs).length := by
    intro b bs
    refine ⟨List.prefix_append .., ?_⟩
    simp only [List.length_append, List.length_cons]
    omega
  induction results, rest, stream using sendLoop.induct with
  | case1 results stream =>
    rw [sendLoop] at h
    cases h
    rw [List.append_nil]
    exact ⟨List.prefix_refl _, rfl⟩
  | case2 => cases h
  | case3 results b rest stream ih =>
    rw [sendLoop] at h
    exact ih h hcut
  | case4 results b rest stream =>
    cases h
    exact hcut
  | case5 results b rest stream =>
    cases h
    exact hcut
  | case6 n results b rest stream ih =>
    rw [sendLoop] at h
    have hsplit : stream ++ (b :: rest).take (n + 1) ++ (b :: rest).drop (n + 1) =
        stream ++ b :: rest := by
      rw [List.append_assoc, List.take_append_drop]
    rw [← hsplit]
    refine ih h ?_
    intro b' bs
    refine ⟨List.prefix_append .., ?_⟩
    simp only [List.length_append, List.length_cons]
    omega

/-- Every stream is a beginning of the payload, and one at most is all of it. -/
structure BegunStreams (payload : Bytes) (streams : List Bytes) : Prop where
  begun : ∀ stream ∈ streams, stream <+: payload
  one : payload ≠ [] →
    (streams.filter fun stream => decide (stream.length = payload.length)).length ≤ 1

theorem BegunStreams.nil (payload : Bytes) : BegunStreams payload [] :=
  ⟨fun _ h => (nomatch h), fun _ => Nat.zero_le _⟩

theorem BegunStreams.cons {payload stream : Bytes} {rest : List Bytes}
    (h : BegunStreams payload rest) (hcut : stream <+: payload)
    (hlt : payload ≠ [] → stream.length < payload.length) :
    BegunStreams payload (stream :: rest) := by
  constructor
  · intro s hs
    rcases List.mem_cons.mp hs with rfl | hs
    · exact hcut
    · exact h.begun s hs
  · intro hne
    have hnot : ¬stream.length = payload.length := by
      have := hlt hne
      omega
    simpa only [List.filter_cons, hnot, decide_false, Bool.false_eq_true, if_false] using h.one hne

theorem attemptLoop_streams {payload : Bytes} {retries : Nat} {attempts : List Attempt}
    {ok : Bool} {streams : List Bytes}
    (h : attemptLoop payload retries attempts = some (ok, streams)) :
    BegunStreams payload streams := by
  induction retries, attempts using attemptLoop.induct payload generalizing ok streams with
  | case1 attempts =>
    cases h
    exact .nil _
  | case2 => cases h
  | case3 retries attempt rest hfail =>
    rw [attemptLoop, if_pos hfail] at h
    cases h
    exact .nil _
  | case4 retries attempt rest hok hconnect ih =>
    rw [attemptLoop, if_neg hok, if_pos hconnect] at h
    obtain ⟨⟨ok', streams'⟩, hrest, heq⟩ := Option.map_eq_some_iff.mp h
    cases heq
    exact (ih hrest).cons List.nil_prefix List.length_pos_of_ne_nil
  | case5 retries attempt rest hok hconnect hsend =>
    rw [attemptLoop, if_neg hok, if_neg hconnect, hsend] at h
    cases h
  | case6 retries attempt rest hok hconnect stream hsend =>
    rw [attemptLoop, if_neg hok, if_neg hconnect, hsend] at h
    cases h
    obtain ⟨hcut, -⟩ := sendLoop_stream hsend
    rw [List.nil_append] at hcut
    constructor
    · intro s hs
      rw [List.mem_singleton.mp hs]
      exact hcut
    · intro _
      exact List.length_filter_le ..
  | case7 retries attempt rest hok hconnect stream hsend ih =>
    rw [attemptLoop, if_neg hok, if_neg hconnect, hsend] at h
    obtain ⟨⟨ok', streams'⟩, hrest, heq⟩ := Option.map_eq_some_iff.mp h
    cases heq
    obtain ⟨hcut, hlt⟩ := sendLoop_stream hsend
    rw [List.nil_append] at hcut hlt
    exact (ih hrest).cons hcut fun _ => hlt

/-! ### One call and its records -/

/-- Every record is the whole message, and there is at most one. -/
def WholeOnce (token message : Bytes) (connections : List Connection) : Prop :=
  (∀ c ∈ connections, ∀ out, c.record token = some out →
      out = c.clientInfo ++ space :: message) ∧
    (connections.filterMap (Connection.record token)).length ≤ 1

/-- An attempt that fails within the message, on a connection whose end the server sees. -/
def CutShort (token message : Bytes) (c : Connection) : Prop :=
  c.Recognised token ∧ (header token).length < c.stream.length ∧
    c.stream.length < (payload token message).length

theorem start_streams {data : JsonData} {message : Bytes} {address : Bool}
    {attempts : List Attempt} {ok : Bool} {streams : List Bytes}
    (h : start (some data) message address attempts = some (ok, streams)) :
    BegunStreams (payload data.backup_token message) streams := by
  simp only [start] at h
  split at h
  · cases h
    exact .nil _
  · split at h
    · cases h
      exact .nil _
    · exact attemptLoop_streams h

theorem length_filterMap_le_filter {α β : Type} {f : α → Option β} {p : α → Bool} {l : List α}
    (h : ∀ a ∈ l, ∀ b, f a = some b → p a = true) : (l.filterMap f).length ≤ (l.filter p).length := by
  induction l with
  | nil => exact Nat.le_refl _
  | cons a l ih =>
    have htail := ih fun a ha => h a (List.mem_cons_of_mem _ ha)
    rw [List.filterMap_cons, List.filter_cons]
    cases hf : f a with
    | none =>
      simp only
      split
      · rw [List.length_cons]
        omega
      · exact htail
    | some b =>
      rw [h a (List.mem_cons_self ..) b hf]
      simp only [if_true, List.length_cons]
      omega

theorem take_beyond_header {token message stream : Bytes}
    (hfull : stream.length = (payload token message).length) :
    message.take (stream.length - (header token).length) = message := by
  rw [hfull, payload, List.length_append, Nat.add_sub_cancel_left, List.take_length]

theorem wholeOnce_of_streams {token message : Bytes} {connections : List Connection}
    (hsize : (payload token message).length ≤ kMaxMessageSize)
    (hdelivered : ∀ c ∈ connections, c.Delivered)
    (hbegun : BegunStreams (payload token message) (connections.map Connection.stream)) :
    WholeOnce token message connections ↔ ∀ c ∈ connections, ¬CutShort token message c := by
  have hcut : ∀ c ∈ connections, c.stream <+: payload token message :=
    fun c hc => hbegun.begun _ (List.mem_map_of_mem hc)
  have hrecord := fun c hc => record_eq (hdelivered c hc) (hcut c hc) hsize
  constructor
  · rintro ⟨hwhole, -⟩ c hc ⟨hrecognised, hbeyond, hshort⟩
    have hout := hwhole c hc _ ((hrecord c hc _).mpr ⟨hrecognised, hbeyond, rfl⟩)
    have hlength := congrArg List.length hout
    simp only [List.length_append, List.length_cons, List.length_take] at hlength
    rw [payload, List.length_append] at hshort
    omega
  · intro hnone
    -- only a stream that is all of the payload makes a record
    have hfull : ∀ c ∈ connections, ∀ out, c.record token = some out →
        c.stream.length = (payload token message).length := by
      intro c hc out hout
      obtain ⟨hrecognised, hbeyond, -⟩ := (hrecord c hc out).mp hout
      have hle := (hcut c hc).length_le
      by_contra hne
      exact hnone c hc ⟨hrecognised, hbeyond, by omega⟩
    constructor
    · intro c hc out hout
      obtain ⟨-, -, heq⟩ := (hrecord c hc out).mp hout
      rw [take_beyond_header (hfull c hc out hout)] at heq
      exact heq
    · by_cases hempty : payload token message = []
      · have hnil : connections.filterMap (Connection.record token) = [] := by
          rw [List.filterMap_eq_nil_iff]
          intro c hc
          by_contra hsome
          obtain ⟨out, hout⟩ := Option.ne_none_iff_exists'.mp hsome
          have hbeyond := ((hrecord c hc out).mp hout).2.1
          rw [hfull c hc out hout, hempty] at hbeyond
          exact absurd hbeyond (Nat.not_lt_zero _)
        rw [hnil]
        exact Nat.zero_le _
      · have hle := length_filterMap_le_filter fun c hc out hout =>
          decide_eq_true (hfull c hc out hout)
        have hone := hbegun.one hempty
        rw [List.filter_map, List.length_map] at hone
        exact Nat.le_trans hle hone

/-- Whole and once, exactly when no attempt is cut short within the message where the server
takes the cut for the end. -/
theorem backup_whole_once_iff {data : JsonData} {message : Bytes} {address : Bool}
    {attempts : List Attempt} {ok : Bool} {connections : List Connection}
    (hsize : (payload data.backup_token message).length ≤ kMaxMessageSize)
    (hstart : start (some data) message address attempts =
      some (ok, connections.map Connection.stream))
    (hdelivered : ∀ c ∈ connections, c.Delivered) :
    WholeOnce data.backup_token message connections ↔
      ∀ c ∈ connections, ¬CutShort data.backup_token message c :=
  wholeOnce_of_streams hsize hdelivered (start_streams hstart)

/-- The shipped configuration with a token. -/
def tokenConfig : JsonData := { JsonData.shipped 1048576 16777216 1048576 with
  backup_token := lit "t" }

/-- An attempt that fails within the token, then one that succeeds. -/
def earlyAttempts : List Attempt := [⟨true, true, true, [.sent 1, .failed]⟩,
  ⟨true, true, true, [.sent 3, .interrupted, .sent 4]⟩]

def earlyConnections : List Connection := [
  ⟨lit "t", lit "10.0.0.7:4000", true, [some (lit "t")], .ended⟩,
  ⟨lit "t\nhello", lit "10.0.0.7:4001", true, [some (lit "t\nh"), none, some (lit "ello")],
    .ended⟩]

theorem backup_whole_once_early :
    WholeOnce tokenConfig.backup_token (lit "hello") earlyConnections ↔
      ∀ c ∈ earlyConnections, ¬CutShort tokenConfig.backup_token (lit "hello") c :=
  @backup_whole_once_iff tokenConfig (lit "hello") true earlyAttempts true earlyConnections
    (by decide) (by decide) (by decide)

/-- The first attempt fails within the message, the second one succeeds. -/
def cutAttempts : List Attempt := [⟨true, true, true, [.sent 4, .failed]⟩,
  ⟨true, true, true, [.sent 7]⟩]

def cutConnections : List Connection := [
  ⟨lit "t\nhe", lit "10.0.0.7:4000", true, [some (lit "t\nh"), none, some (lit "e")], .ended⟩,
  ⟨lit "t\nhello", lit "10.0.0.7:4001", true, [some (lit "t\nhello")], .ended⟩]

theorem backup_cut_twice :
    start (some tokenConfig) (lit "hello") true cutAttempts =
        some (true, cutConnections.map Connection.stream) ∧
      (∀ c ∈ cutConnections, c.Delivered) ∧
      cutConnections.filterMap (Connection.record tokenConfig.backup_token) =
        [lit "10.0.0.7:4000 he", lit "10.0.0.7:4001 hello"] ∧
      ¬WholeOnce tokenConfig.backup_token (lit "hello") cutConnections := by
  have hrecords : cutConnections.filterMap (Connection.record tokenConfig.backup_token) =
      [lit "10.0.0.7:4000 he", lit "10.0.0.7:4001 hello"] := by decide
  refine ⟨by decide, by decide, hrecords, fun h => ?_⟩
  have hone := h.2
  rw [hrecords] at hone
  exact absurd hone (by decide)

end Backup
end CloudStorage
