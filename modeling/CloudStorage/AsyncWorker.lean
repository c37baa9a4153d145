import CloudStorage.AsyncBuffer
import CloudStorage.Lib.Monitor
import Mathlib.Data.Fintype.Option

/-!
# The asynchronous worker (`AsyncWorker.hpp`)

The consumer is `thread_`; clients call `Push` and `Stop` as they like. What a
thread does from taking the mutex to the first notification or to giving it back
is one step, a notification is part of the step that ends the section or a step
of its own where the source makes it outside.
-/

namespace CloudStorage.AsyncWorker
open Monitor

inductive AsyncType
  | ASYNC_SAFE
  | ASYNC_UNSAFE
  deriving DecidableEq

inductive Thread (π : Type)
  | consumer
  | client (p : π)
  deriving DecidableEq

def Thread.ofOption {π : Type} : Option π → Thread π
  | none => .consumer
  | some p => .client p

instance {π : Type} [Fintype π] : Fintype (Thread π) :=
  .ofBijective Thread.ofOption ⟨fun x y h => by cases x <;> cases y <;> cases h <;> rfl,
    fun t => by cases t with
      | consumer => exact ⟨none, rfl⟩
      | client p => exact ⟨some p, rfl⟩⟩

inductive CondVar
  | producer_ready_
  | consumer_ready_
  deriving DecidableEq

/-- Where a thread stands: `push`, `stop` and `loop` before the mutex; `pushed`,
`returning`, `stopSet`, `swapped` and `leaving` before giving it back. -/
inductive Pc (α : Type)
  | idle
  | push (data : Source α)
  | pushed
  | returning
  | stop
  | stopSet
  | notifyConsumer
  | notifyProducer
  | join
  | loop
  | swapped
  | callback
  | reset
  | leaving
  | ended
  deriving DecidableEq

/-- `ended` and `joined` are the state of `thread_`. -/
structure Shared (α : Type) where
  buffer_producer_ : Buffer α
  buffer_consumer_ : Buffer α
  stopping_ : Bool
  ended : Bool
  joined : Bool

/-- What a client calls next, and what `resize` throws in the course of a push. -/
inductive Choice (α : Type)
  | push (data : Source α)
  | stop
  | go (resizing : Option Thrown)
  deriving DecidableEq

inductive Result
  | returned (b : Bool)
  | threw (e : Thrown)
  deriving DecidableEq

/-- How a push ends is known in its section; `given` is a call of `callback_`. -/
inductive Label (π α : Type)
  | pushed (p : π) (data : Source α) (result : Result)
  | given (batch : List α)
  deriving DecidableEq

variable {π α : Type} [Inhabited α]

abbrev Acts (π α : Type) := Move CondVar (Pc α) (Shared α) (Label π α)
abbrev Worker (π α : Type) := State (Thread π) CondVar (Pc α) (Shared α)

/-- The predicate that a wait at this point checks. -/
def ready (sh : Shared α) : Pc α → Bool
  | .push data => sh.stopping_ || sh.buffer_producer_.IsEmpty ||
      decide (data.len ≤ sh.buffer_producer_.WriteableSize)
  | .loop => sh.stopping_ || !sh.buffer_producer_.IsEmpty
  | _ => true

def Push (conf : LogConf) (async_type_ : AsyncType) (p : π) (data : Source α)
    (resizing : Option Thrown) (sh : Shared α) : Acts π α :=
  if async_type_ = .ASYNC_SAFE ∧ ready sh (.push data) = false then .wait .producer_ready_
  else if sh.stopping_ then
    .act .enter { shared := sh, pc := .returning, label := some (.pushed p data (.returned false)) }
  else
    match sh.buffer_producer_.Push conf data resizing with
    | .ok b =>
      .act .enter { shared := { sh with buffer_producer_ := b }, pc := .pushed,
                    label := some (.pushed p data (.returned true)) }
    | .error e =>
      .act .enter { shared := sh, pc := .returning, label := some (.pushed p data (.threw e)) }

def Stop (sh : Shared α) : Acts π α :=
  if sh.stopping_ then .act .enter { shared := sh, pc := .returning }
  else .act .enter { shared := { sh with stopping_ := true }, pc := .stopSet }

/-- `if (thread_.joinable()) thread_.join()`. -/
def joinThread (sh : Shared α) : Option (Acts π α) :=
  if sh.joined then some (.act .free { shared := sh, pc := .idle })
  else if sh.ended then some (.act .free { shared := { sh with joined := true }, pc := .idle })
  else none

def client (conf : LogConf) (async_type_ : AsyncType) (p : π) (pc : Pc α) (choice : Choice α)
    (sh : Shared α) : Option (Acts π α) :=
  match pc, choice with
  | .idle, .push data => some (.act .free { shared := sh, pc := .push data })
  | .idle, .stop => some (.act .free { shared := sh, pc := .stop })
  | .push data, .go resizing => some (Push conf async_type_ p data resizing sh)
  | .pushed, _ =>
    some (.act .leave { shared := sh, pc := .idle, note := some (.one .consumer_ready_) })
  | .returning, _ => some (.act .leave { shared := sh, pc := .idle })
  | .stop, _ => some (Stop sh)
  | .stopSet, _ => some (.act .leave { shared := sh, pc := .notifyConsumer })
  | .notifyConsumer, _ =>
    some (.act .free { shared := sh, pc := .notifyProducer,
                       note := some (.all .consumer_ready_) })
  | .notifyProducer, _ =>
    some (.act .free { shared := sh, pc := .join, note := some (.all .producer_ready_) })
  | .join, _ => joinThread sh
  | _, _ => none

def ThreadEntry (pc : Pc α) (sh : Shared α) : Option (Acts π α) :=
  match pc with
  | .loop =>
    if ready sh .loop = false then some (.wait .consumer_ready_)
    else if sh.stopping_ && sh.buffer_producer_.IsEmpty then
      some (.act .enter { shared := sh, pc := .leaving })
    else
      some (.act .enter { shared := { sh with buffer_producer_ := sh.buffer_consumer_,
                                              buffer_consumer_ := sh.buffer_producer_ },
                          pc := .swapped })
  | .swapped =>
    some (.act .leave { shared := sh, pc := .callback, note := some (.all .producer_ready_) })
  | .callback =>
    some (.act .free { shared := sh, pc := .reset,
                       label := if sh.buffer_consumer_.IsEmpty then none
                                else some (.given sh.buffer_consumer_.readable) })
  | .reset =>
    some (.act .free { shared := { sh with buffer_consumer_ := sh.buffer_consumer_.Reset },
                       pc := .loop })
  | .leaving => some (.act .leave { shared := { sh with ended := true }, pc := .ended })
  | _ => none

def program (conf : LogConf) (async_type_ : AsyncType) :
    Program (Thread π) CondVar (Pc α) (Shared α) (Choice α) (Label π α)
  | .consumer, pc, _, sh => ThreadEntry pc sh
  | .client p, pc, choice, sh => client conf async_type_ p pc choice sh

def start (conf : LogConf) : Worker π α where
  shared := { buffer_producer_ := .fresh conf, buffer_consumer_ := .fresh conf,
              stopping_ := false, ended := false, joined := false }
  mutex := none
  phase
    | .consumer => .running .loop
    | .client _ => .running .idle

/-- What every step of the worker does to the shared state, and where it leads. -/
inductive Does (conf : LogConf) (async_type_ : AsyncType) (sh : Shared α) :
    Thread π → Pc α → Kind → Act CondVar (Pc α) (Shared α) (Label π α) → Prop
  | call (p : π) (pc' : Pc α) (hpc : (∃ data, pc' = .push data) ∨ pc' = .stop) :
      Does conf async_type_ sh (.client p) .idle .free ⟨sh, pc', none, none⟩
  | refuse (p : π) (data : Source α) (result : Result) (hresult : result ≠ .returned true)
      (hstopping : result = .returned false → sh.stopping_ = true) :
      Does conf async_type_ sh (.client p) (.push data) .enter
        ⟨sh, .returning, none, some (.pushed p data result)⟩
  | append (p : π) (data : Source α) (resizing : Option Thrown) (b : Buffer α)
      (hready : async_type_ = .ASYNC_SAFE → ready sh (.push data) = true)
      (hstopping : sh.stopping_ = false)
      (hpush : sh.buffer_producer_.Push conf data resizing = .ok b) :
      Does conf async_type_ sh (.client p) (.push data) .enter
        ⟨{ sh with buffer_producer_ := b }, .pushed, none,
          some (.pushed p data (.returned true))⟩
  | notified (p : π) :
      Does conf async_type_ sh (.client p) .pushed .leave ⟨sh, .idle, some (.one .consumer_ready_), none⟩
  | back (p : π) : Does conf async_type_ sh (.client p) .returning .leave ⟨sh, .idle, none, none⟩
  | stopped (p : π) : Does conf async_type_ sh (.client p) .stop .enter ⟨sh, .returning, none, none⟩
  | stop (p : π) (hstopping : sh.stopping_ = false) :
      Does conf async_type_ sh (.client p) .stop .enter
        ⟨{ sh with stopping_ := true }, .stopSet, none, none⟩
  | stopSet (p : π) :
      Does conf async_type_ sh (.client p) .stopSet .leave ⟨sh, .notifyConsumer, none, none⟩
  | notifyConsumer (p : π) :
      Does conf async_type_ sh (.client p) .notifyConsumer .free
        ⟨sh, .notifyProducer, some (.all .consumer_ready_), none⟩
  | notifyProducer (p : π) :
      Does conf async_type_ sh (.client p) .notifyProducer .free
        ⟨sh, .join, some (.all .producer_ready_), none⟩
  | join (p : π) (joined : Bool) :
      Does conf async_type_ sh (.client p) .join .free ⟨{ sh with joined := joined }, .idle, none, none⟩
  | leave (hstopping : sh.stopping_ = true) (hempty : sh.buffer_producer_.IsEmpty = true) :
      Does conf async_type_ sh .consumer .loop .enter ⟨sh, .leaving, none, none⟩
  | swap (hready : ready sh .loop = true) :
      Does conf async_type_ sh .consumer .loop .enter
        ⟨{ sh with buffer_producer_ := sh.buffer_consumer_,
                   buffer_consumer_ := sh.buffer_producer_ }, .swapped, none, none⟩
  | swapped :
      Does conf async_type_ sh .consumer .swapped .leave
        ⟨sh, .callback, some (.all .producer_ready_), none⟩
  | skip (hempty : sh.buffer_consumer_.IsEmpty = true) :
      Does conf async_type_ sh .consumer .callback .free ⟨sh, .reset, none, none⟩
  | give :
      Does conf async_type_ sh .consumer .callback .free
        ⟨sh, .reset, none, some (.given sh.buffer_consumer_.readable)⟩
  | reset :
      Does conf async_type_ sh .consumer .reset .free
        ⟨{ sh with buffer_consumer_ := sh.buffer_consumer_.Reset }, .loop, none, none⟩
  | ended :
      Does conf async_type_ sh .consumer .leaving .leave ⟨{ sh with ended := true }, .ended, none, none⟩

theorem Push_does {conf : LogConf} {async_type_ : AsyncType} {p : π} {data : Source α}
    {resizing : Option Thrown} {sh : Shared α} {kind : Kind}
    {a : Act CondVar (Pc α) (Shared α) (Label π α)}
    (h : Push conf async_type_ p data resizing sh = .act kind a) :
    Does conf async_type_ sh (.client p) (.push data) kind a := by
  unfold Push at h
  split at h
  · cases h
  · rename_i hwait
    split at h
    · rename_i hstopping
      cases h
      exact .refuse p data _ (by simp) (fun _ => hstopping)
    · rename_i hstopping
      split at h
      · rename_i b hpush
        cases h
        exact .append p data resizing b (fun hsafe => by simpa [hsafe] using hwait)
          (by simpa using hstopping) hpush
      · cases h
        exact .refuse p data _ (by simp) (by simp)

theorem ThreadEntry_does {conf : LogConf} {async_type_ : AsyncType} {pc : Pc α} {sh : Shared α}
    {kind : Kind} {a : Act CondVar (Pc α) (Shared α) (Label π α)}
    (h : ThreadEntry pc sh = some (.act kind a)) :
    Does conf async_type_ sh .consumer pc kind a := by
  cases pc with
  | loop =>
    simp only [ThreadEntry] at h
    split at h
    · cases h
    · rename_i hready
      split at h
      · rename_i hend
        cases h
        simp only [Bool.and_eq_true] at hend
        exact .leave hend.1 hend.2
      · cases h
        exact .swap (by simpa using hready)
  | swapped =>
    cases h
    exact .swapped
  | callback =>
    cases h
    cases hempty : sh.buffer_consumer_.IsEmpty with
    | true => exact .skip hempty
    | false => exact .give
  | reset =>
    cases h
    exact .reset
  | leaving =>
    cases h
    exact .ended
  | _ => cases h

theorem client_does {conf : LogConf} {async_type_ : AsyncType} {p : π} {pc : Pc α}
    {choice : Choice α} {sh : Shared α} {kind : Kind}
    {a : Act CondVar (Pc α) (Shared α) (Label π α)}
    (h : client conf async_type_ p pc choice sh = some (.act kind a)) :
    Does conf async_type_ sh (.client p) pc kind a := by
  cases pc with
  | idle =>
    cases choice with
    | push data =>
      cases h
      exact .call p _ (.inl ⟨data, rfl⟩)
    | stop =>
      cases h
      exact .call p _ (.inr rfl)
    | go resizing => cases h
  | push data =>
    cases choice with
    | go resizing => exact Push_does (Option.some.inj h)
    | _ => cases h
  | pushed =>
    cases h
    exact .notified p
  | returning =>
    cases h
    exact .back p
  | stop =>
    simp only [client, Stop, Option.some.injEq] at h
    split at h
    · cases h
      exact .stopped p
    · rename_i hstopping
      cases h
      exact .stop p (by simpa using hstopping)
  | stopSet =>
    cases h
    exact .stopSet p
  | notifyConsumer =>
    cases h
    exact .notifyConsumer p
  | notifyProducer =>
    cases h
    exact .notifyProducer p
  | join =>
    simp only [client, joinThread] at h
    split at h
    · cases h
      exact .join p sh.joined
    · split at h
      · cases h
        exact .join p true
      · cases h
  | _ => cases h

theorem program_does {conf : LogConf} {async_type_ : AsyncType} {i : Thread π} {pc : Pc α}
    {choice : Choice α} {sh : Shared α} {kind : Kind}
    {a : Act CondVar (Pc α) (Shared α) (Label π α)}
    (h : program conf async_type_ i pc choice sh = some (.act kind a)) :
    Does conf async_type_ sh i pc kind a := by
  cases i with
  | consumer => exact ThreadEntry_does h
  | client p => exact client_does h

theorem program_wait {conf : LogConf} {async_type_ : AsyncType} {i : Thread π} {pc : Pc α}
    {choice : Choice α} {sh : Shared α} {c : CondVar}
    (h : program conf async_type_ i pc choice sh = some (.wait c)) :
    ready sh pc = false ∧ (i = .consumer ∧ c = .consumer_ready_ ∧ pc = .loop ∨
      ∃ p data, i = .client p ∧ c = .producer_ready_ ∧ pc = .push data ∧
        async_type_ = .ASYNC_SAFE) := by
  cases i with
  | consumer =>
    cases pc with
    | loop =>
      simp only [program, ThreadEntry] at h
      split at h
      · rename_i hready
        cases h
        exact ⟨hready, .inl ⟨rfl, rfl, rfl⟩⟩
      · split at h <;> cases h
    | _ => cases h
  | client p =>
    cases pc with
    | push data =>
      cases choice with
      | go resizing =>
        have hpush := Option.some.inj h
        unfold Push at hpush
        split at hpush
        · rename_i hwait
          cases hpush
          exact ⟨hwait.2, .inr ⟨p, data, rfl, rfl, rfl, hwait.1⟩⟩
        · split at hpush
          · cases hpush
          · split at hpush <;> cases hpush
      | _ => cases h
    | idle => cases choice <;> cases h
    | stop =>
      simp only [program, client, Stop] at h
      split at h <;> cases h
    | join =>
      simp only [program, client, joinThread] at h
      split at h
      · cases h
      · split at h <;> cases h
    | _ => cases h

end CloudStorage.AsyncWorker
