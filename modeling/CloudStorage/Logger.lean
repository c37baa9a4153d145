import CloudStorage.Backup
import CloudStorage.Lib.Projection
import CloudStorage.ThreadPoolRun

/-!
# `AsyncLogger::Serialize` and the pool

The threads that log and the workers of the pool, with the two counters of the
logger. A call of `Log` begins here when its text is there; what `Push` returns
is left open, and so are the socket calls of `backup::Start`. Between the steps
of a thread any other thread may go on. The pool has other callers too, whose
tasks do not touch the counters.
-/

namespace CloudStorage.AsyncLogger
open Posix Monitor Transition
open ThreadPool (Thread CondVar)

/-- `LogLevel::value` -/
inductive Level
  | DEBUG
  | INFO
  | WARN
  | ERROR
  | FATAL
  deriving DecidableEq

/-- A message with its formatted text. -/
structure Message where
  level : Level
  data : Bytes
  deriving DecidableEq

inductive Task
  | backup (message : Message)
  | other
  deriving DecidableEq

/-- `push` and `pushed` stand around `Push`, `enqueue` and `refusing` before the mutex of
`TryEnqueue` and before giving it back, `failed` and `refused` before a counter; `submit` and
`offer` are another caller's `Enqueue` and `TryEnqueue`. -/
inductive Pc (n : Nat)
  | pool (pc : ThreadPool.Pc n Task)
  | push (message : Message)
  | pushed (message : Message)
  | enqueue (message : Message)
  | refusing (message : Message)
  | refused (message : Message)
  | failed (message : Message)
  | submit
  | offer
  deriving DecidableEq

/-- `tp` is whether the pointer is not null, `alive` whether there is the logger still. -/
structure Shared (n : Nat) where
  pool : ThreadPool.Shared n Task
  tp : Bool
  alive : Bool
  remote_backup_failures_ : UInt64
  remote_backup_drops_ : UInt64

/-- What a thread does next where that is open. -/
inductive Choice
  | log (message : Message)
  | push (ok : Bool)
  | start (address : Bool) (attempts : List Backup.Attempt)
  | submit
  | offer
  | destroy
  | assign (tp : Bool)
  | release
  | go

/-- `sent` is a `backup::Start` that returns true, `failed` and `dropped` are the counters. -/
inductive Label (n : Nat) (π : Type)
  | pushed (message : Message)
  | rejected (message : Message)
  | sent (i : Thread n π) (message : Message)
  | failed (i : Thread n π) (message : Message)
  | dropped (message : Message)
  | pool (l : ThreadPool.Label n π Task)
  deriving DecidableEq

variable {n : Nat} {π : Type}

abbrev Acts (n : Nat) (π : Type) := Move CondVar (Pc n) (Shared n) (Label n π)
abbrev System (n : Nat) (π : Type) := State (Thread n π) CondVar (Pc n) (Shared n)

/-- A move of the pool. -/
def inPool (sh : Shared n) (point : ThreadPool.Pc n Task → Pc n) :
    ThreadPool.Acts n π Task → Acts n π
  | .wait c => .wait c
  | .act kind a =>
    .act kind { shared := { sh with pool := a.shared }, pc := point a.pc, note := a.note,
                label := a.label.map .pool }

/-- What `backup::Start` returns, when it does. -/
def started (g_conf_data : Option JsonData) (message : Message) : Choice → Option Bool
  | .start address attempts =>
    (Backup.start g_conf_data message.data address attempts).map Prod.fst
  | _ => none

def enabled (g_conf_data : Option JsonData) : Bool := g_conf_data.any JsonData.backup_enabled

/-- `backup::Start`, and where the thread goes on. -/
def Start (g_conf_data : Option JsonData) (i : Thread n π) (message : Message)
    (next : ThreadPool.Pc n Task) (choice : Choice) (sh : Shared n) : Option (Acts n π) :=
  (started g_conf_data message choice).map fun ok =>
    if ok then .act .free { shared := sh, pc := .pool next, label := some (.sent i message) }
    else .act .free { shared := sh, pc := .failed message }

def countFailure (i : Thread n π) (message : Message) (next : ThreadPool.Pc n Task)
    (sh : Shared n) : Acts n π :=
  .act .free { shared := { sh with remote_backup_failures_ := sh.remote_backup_failures_ + 1 }
               pc := .pool next, label := some (.failed i message) }

/-- What follows a `Push` that returned true. -/
def Serialize (g_conf_data : Option JsonData) (p : π) (message : Message) (choice : Choice)
    (sh : Shared n) : Option (Acts n π) :=
  match message.level with
  | .FATAL => Start g_conf_data (.inr p) message .idle choice sh
  | .ERROR =>
    if enabled g_conf_data then
      if sh.tp then some (.act .free { shared := sh, pc := .enqueue message })
      else some (.act .free { shared := sh, pc := .refused message })
    else some (.act .free { shared := sh, pc := .pool .idle })
  | _ => some (.act .free { shared := sh, pc := .pool .idle })

/-- The pool's worker; a backup task is `backup::Start` and, after a failure, the counter. -/
def worker (g_conf_data : Option JsonData) (k : Fin n) (pc : Pc n) (choice : Choice)
    (sh : Shared n) : Option (Acts n π) :=
  match pc with
  | .pool (.run (.backup message)) => Start g_conf_data (.inl k) message .loop choice sh
  | .failed message => some (countFailure (.inl k) message .loop sh)
  | .pool pc => (ThreadPool.WorkerLoop k pc sh.pool).map (inPool sh .pool)
  | _ => none

section
variable [DecidableEq π]

/-- A caller between two calls. -/
def begin (owner p : π) (choice : Choice) (sh : Shared n) : Option (Acts n π) :=
  match choice with
  | .log message =>
    if sh.alive then some (.act .free { shared := sh, pc := .push message }) else none
  | .submit => some (.act .free { shared := sh, pc := .submit })
  | .offer => some (.act .free { shared := sh, pc := .offer })
  | .destroy =>
    if p = owner then some (.act .free { shared := sh, pc := .pool .destroy }) else none
  | .assign tp => some (.act .free { shared := { sh with tp := tp }, pc := .pool .idle })
  | .release => some (.act .free { shared := { sh with alive := false }, pc := .pool .idle })
  | _ => none

def caller (g_conf_data : Option JsonData) (max_pending_tasks_ : Nat) (owner p : π) (pc : Pc n)
    (choice : Choice) (sh : Shared n) : Option (Acts n π) :=
  match pc with
  | .pool .idle => begin owner p choice sh
  | .push message =>
    match choice with
    | .push true =>
      some (.act .free { shared := sh, pc := .pushed message, label := some (.pushed message) })
    | .push false =>
      some (.act .free { shared := sh, pc := .pool .idle, label := some (.rejected message) })
    | _ => none
  | .pushed message => Serialize g_conf_data p message choice sh
  | .enqueue message =>
    some (inPool sh (fun pc => if pc = .refused then .refusing message else .pool pc)
      (ThreadPool.TryEnqueue max_pending_tasks_ p (.backup message) sh.pool))
  | .refusing message => some (.act .leave { shared := sh, pc := .refused message })
  | .refused message =>
    some (.act .free { shared := { sh with remote_backup_drops_ := sh.remote_backup_drops_ + 1 }
                       pc := .pool .idle, label := some (.dropped message) })
  | .failed message => some (countFailure (.inr p) message .idle sh)
  | .submit => some (inPool sh .pool (ThreadPool.Enqueue max_pending_tasks_ p .other sh.pool))
  | .offer => some (inPool sh .pool (ThreadPool.TryEnqueue max_pending_tasks_ p .other sh.pool))
  -- the two calls stand at points of their own
  | .pool (.enqueue _) => none
  | .pool (.tryEnqueue _) => none
  | .pool pc => (ThreadPool.caller max_pending_tasks_ owner p pc .go sh.pool).map (inPool sh .pool)

def program (g_conf_data : Option JsonData) (max_pending_tasks_ : Nat) (owner : π) :
    Program (Thread n π) CondVar (Pc n) (Shared n) Choice (Label n π)
  | .inl k, pc, choice, sh => worker g_conf_data k pc choice sh
  | .inr p, pc, choice, sh => caller g_conf_data max_pending_tasks_ owner p pc choice sh

end

/-- A logger beside a new pool. -/
def create (thread_count max_pending_tasks : Nat) (tp : Bool) :
    Except Bytes (System thread_count π) :=
  (ThreadPool.construct thread_count max_pending_tasks).map fun pool =>
    { shared := { pool := pool.shared, tp := tp, alive := true, remote_backup_failures_ := 0
                  remote_backup_drops_ := 0 }
      mutex := pool.mutex
      phase := fun i => (pool.phase i).map .pool }

/-! ### The pool in it -/

def poolLabel : Label n π → Option (ThreadPool.Label n π Task)
  | .sent (.inl k) message => some (.ran k (.backup message))
  | .failed (.inl k) message => some (.ran k (.backup message))
  | .pool l => some l
  | _ => none

/-- Where a thread stands in the pool's code. -/
def poolPoint : Thread n π → Pc n → ThreadPool.Pc n Task
  | _, .pool pc => pc
  | _, .enqueue message => .tryEnqueue (.backup message)
  | _, .refusing _ => .refused
  | _, .submit => .enqueue .other
  | _, .offer => .tryEnqueue .other
  | .inl _, .failed message => .run (.backup message)
  | _, _ => .idle

def poolView (n : Nat) (π : Type) : Projection (Thread n π) (Pc n) (ThreadPool.Pc n Task) (Shared n)
    (ThreadPool.Shared n Task) (Label n π) (ThreadPool.Label n π Task) where
  point := poolPoint
  shared sh := sh.pool
  label := poolLabel

theorem inPool_wait {sh : Shared n} {point : ThreadPool.Pc n Task → Pc n}
    {move : ThreadPool.Acts n π Task} {c : CondVar} (h : inPool sh point move = .wait c) :
    move = .wait c := by
  cases move with
  | wait c' =>
    cases h
    rfl
  | act kind a => cases h

theorem inPool_act {sh : Shared n} {point : ThreadPool.Pc n Task → Pc n}
    {move : ThreadPool.Acts n π Task} {kind : Kind}
    {a : Act CondVar (Pc n) (Shared n) (Label n π)} (h : inPool sh point move = .act kind a) :
    ∃ b, move = .act kind b ∧ a = ⟨{ sh with pool := b.shared }, point b.pc, b.note,
      b.label.map .pool⟩ := by
  cases move with
  | wait c => cases h
  | act kind' b =>
    cases h
    exact ⟨b, rfl, rfl⟩

theorem poolView_act {sh : Shared n} {i : Thread n π} {pc : Pc n}
    {b : Act CondVar (ThreadPool.Pc n Task) (ThreadPool.Shared n Task) (ThreadPool.Label n π Task)}
    (hpoint : poolPoint i pc = b.pc) :
    (poolView n π).act i ⟨{ sh with pool := b.shared }, pc, b.note, b.label.map .pool⟩ = b := by
  simp only [Projection.act, poolView, hpoint]
  cases hlabel : b.label with
  | none => rw [Option.map_none, Option.bind_none, ← hlabel]
  | some l => rw [Option.map_some, Option.bind_some, poolLabel, ← hlabel]

theorem Start_no_wait {g_conf_data : Option JsonData} {i : Thread n π} {message : Message}
    {next : ThreadPool.Pc n Task} {choice : Choice} {sh : Shared n} {c : CondVar} :
    Start g_conf_data i message next choice sh ≠ some (.wait c) := by
  intro h
  obtain ⟨ok, -, hwait⟩ := Option.map_eq_some_iff.mp h
  split at hwait
  · cases hwait
  · cases hwait

/-! ### The moves of the threads -/

/-- Where a thread goes on after `backup::Start`. -/
def resume : Thread n π → ThreadPool.Pc n Task
  | .inl _ => .loop
  | .inr _ => .idle

/-- Where `backup::Start` is called. -/
inductive Starts : Thread n π → Pc n → Message → Prop
  | task (k : Fin n) (message : Message) : Starts (.inl k) (.pool (.run (.backup message))) message
  | fatal (p : π) (message : Message) (hlevel : message.level = .FATAL) :
      Starts (.inr p) (.pushed message) message

theorem Starts.pool {k : Fin n} {pc : Pc n} {message : Message}
    (h : Starts (.inl k : Thread n π) pc message) :
    poolPoint (.inl k : Thread n π) pc = .run (.backup message) := by
  cases h
  rfl

theorem Starts.caller {p : π} {pc : Pc n} {message : Message}
    (h : Starts (.inr p : Thread n π) pc message) : poolPoint (.inr p : Thread n π) pc = .idle := by
  cases h
  rfl

/-- The thread is in the pool's code, but for what the logger does there itself. -/
inductive InPool : Pc n → ThreadPool.Pc n Task → Prop
  | submit : InPool .submit (.enqueue .other)
  | offer : InPool .offer (.tryEnqueue .other)
  | pool (pc : ThreadPool.Pc n Task) (hcall : ∀ task, pc ≠ .enqueue task ∧ pc ≠ .tryEnqueue task)
      (hbackup : ∀ message, pc ≠ .run (.backup message)) : InPool (.pool pc) pc

section
variable [DecidableEq π]

/-- What every step of a thread does to the shared state, and where it leads. -/
inductive Does (g_conf_data : Option JsonData) (max_pending_tasks_ : Nat) (owner : π)
    (sh : Shared n) : Thread n π → Pc n → Kind → Act CondVar (Pc n) (Shared n) (Label n π) → Prop
  | log (p : π) (message : Message) :
      Does g_conf_data max_pending_tasks_ owner sh (.inr p) (.pool .idle) .free
        ⟨sh, .push message, none, none⟩
  | call (p : π) (pc' : Pc n)
      (hpc : pc' = .submit ∨ pc' = .offer ∨ pc' = .pool .destroy ∧ p = owner) :
      Does g_conf_data max_pending_tasks_ owner sh (.inr p) (.pool .idle) .free
        ⟨sh, pc', none, none⟩
  | set (p : π) (tp alive : Bool) :
      Does g_conf_data max_pending_tasks_ owner sh (.inr p) (.pool .idle) .free
        ⟨{ sh with tp := tp, alive := alive }, .pool .idle, none, none⟩
  | pushed (p : π) (message : Message) :
      Does g_conf_data max_pending_tasks_ owner sh (.inr p) (.push message) .free
        ⟨sh, .pushed message, none, some (.pushed message)⟩
  | rejected (p : π) (message : Message) :
      Does g_conf_data max_pending_tasks_ owner sh (.inr p) (.push message) .free
        ⟨sh, .pool .idle, none, some (.rejected message)⟩
  | pass (p : π) (message : Message)
      (hfatal : message.level ≠ .FATAL)
      (herror : message.level = .ERROR → enabled g_conf_data = false) :
      Does g_conf_data max_pending_tasks_ owner sh (.inr p) (.pushed message) .free
        ⟨sh, .pool .idle, none, none⟩
  | hand (p : π) (message : Message) (pc' : Pc n) (hlevel : message.level = .ERROR)
      (hpc : pc' = .enqueue message ∨ pc' = .refused message) :
      Does g_conf_data max_pending_tasks_ owner sh (.inr p) (.pushed message) .free
        ⟨sh, pc', none, none⟩
  | sent (i : Thread n π) (pc : Pc n) (message : Message) (hstart : Starts i pc message) :
      Does g_conf_data max_pending_tasks_ owner sh i pc .free
        ⟨sh, .pool (resume i), none, some (.sent i message)⟩
  | unsent (i : Thread n π) (pc : Pc n) (message : Message) (hstart : Starts i pc message) :
      Does g_conf_data max_pending_tasks_ owner sh i pc .free ⟨sh, .failed message, none, none⟩
  | count (i : Thread n π) (message : Message) :
      Does g_conf_data max_pending_tasks_ owner sh i (.failed message) .free
        ⟨{ sh with remote_backup_failures_ := sh.remote_backup_failures_ + 1 }, .pool (resume i),
          none, some (.failed i message)⟩
  | refusing (p : π) (message : Message) :
      Does g_conf_data max_pending_tasks_ owner sh (.inr p) (.refusing message) .leave
        ⟨sh, .refused message, none, none⟩
  | drop (p : π) (message : Message) :
      Does g_conf_data max_pending_tasks_ owner sh (.inr p) (.refused message) .free
        ⟨{ sh with remote_backup_drops_ := sh.remote_backup_drops_ + 1 }, .pool .idle,
          none, some (.dropped message)⟩
  | enqueue (p : π) (message : Message) (kind : Kind)
      (b : Act CondVar (ThreadPool.Pc n Task) (ThreadPool.Shared n Task)
        (ThreadPool.Label n π Task))
      (hmove : ThreadPool.TryEnqueue max_pending_tasks_ p (.backup message) sh.pool =
        .act kind b) :
      Does g_conf_data max_pending_tasks_ owner sh (.inr p) (.enqueue message) kind
        ⟨{ sh with pool := b.shared }, if b.pc = .refused then .refusing message else .pool b.pc,
          b.note, b.label.map .pool⟩
  | pool (i : Thread n π) (pc : Pc n) (at_pool : ThreadPool.Pc n Task) (kind : Kind)
      (b : Act CondVar (ThreadPool.Pc n Task) (ThreadPool.Shared n Task)
        (ThreadPool.Label n π Task)) (hpc : InPool pc at_pool)
      (hmove : ThreadPool.program max_pending_tasks_ owner i at_pool .go sh.pool =
        some (.act kind b)) :
      Does g_conf_data max_pending_tasks_ owner sh i pc kind
        ⟨{ sh with pool := b.shared }, .pool b.pc, b.note, b.label.map .pool⟩

variable {g_conf_data : Option JsonData} {max_pending_tasks_ : Nat} {owner : π}

theorem Start_does {i : Thread n π} {pc : Pc n} {message : Message} (hstart : Starts i pc message)
    {choice : Choice} {sh : Shared n} {kind : Kind}
    {a : Act CondVar (Pc n) (Shared n) (Label n π)}
    (h : Start g_conf_data i message (resume i) choice sh = some (.act kind a)) :
    Does g_conf_data max_pending_tasks_ owner sh i pc kind a := by
  obtain ⟨ok, -, hact⟩ := Option.map_eq_some_iff.mp h
  split at hact
  · cases hact
    exact .sent i pc message hstart
  · cases hact
    exact .unsent i pc message hstart

theorem worker_does {k : Fin n} {pc : Pc n} {choice : Choice} {sh : Shared n} {kind : Kind}
    {a : Act CondVar (Pc n) (Shared n) (Label n π)}
    (h : worker g_conf_data k pc choice sh = some (.act kind a)) :
    Does g_conf_data max_pending_tasks_ owner sh (.inl k) pc kind a := by
  cases pc with
  | failed message =>
    cases h
    exact .count (.inl k) message
  | pool pc =>
    by_cases hbackup : ∃ message, pc = .run (.backup message)
    · obtain ⟨message, rfl⟩ := hbackup
      exact Start_does (.task k message) h
    · have hbackup : ∀ message, pc ≠ .run (.backup message) :=
        fun message hpc => hbackup ⟨message, hpc⟩
      rw [worker] at h
      · obtain ⟨move, hmove, hact⟩ := Option.map_eq_some_iff.mp h
        obtain ⟨b, rfl, rfl⟩ := inPool_act hact
        refine .pool (.inl k) _ pc kind b (.pool pc (fun task => ⟨?_, ?_⟩) hbackup) hmove
        · rintro rfl
          cases hmove
        · rintro rfl
          cases hmove
      · exact hbackup
  | _ => cases h

theorem Serialize_does {p : π} {message : Message} {choice : Choice} {sh : Shared n} {kind : Kind}
    {a : Act CondVar (Pc n) (Shared n) (Label n π)}
    (h : Serialize g_conf_data p message choice sh = some (.act kind a)) :
    Does g_conf_data max_pending_tasks_ owner sh (.inr p) (.pushed message) kind a := by
  unfold Serialize at h
  split at h
  · rename_i hlevel
    exact Start_does (.fatal p message hlevel) h
  · rename_i hlevel
    split at h
    · split at h
      · cases h
        exact .hand p message _ hlevel (.inl rfl)
      · cases h
        exact .hand p message _ hlevel (.inr rfl)
    · rename_i hdisabled
      have hfatal : message.level ≠ .FATAL := by
        rw [hlevel]
        decide
      cases h
      exact .pass p message hfatal fun _ => Bool.eq_false_of_not_eq_true hdisabled
  · rename_i hfatal herror
    cases h
    exact .pass p message hfatal fun hlevel => absurd hlevel herror

theorem begin_does {p : π} {choice : Choice} {sh : Shared n} {kind : Kind}
    {a : Act CondVar (Pc n) (Shared n) (Label n π)}
    (h : begin owner p choice sh = some (.act kind a)) :
    Does g_conf_data max_pending_tasks_ owner sh (.inr p) (.pool .idle) kind a := by
  cases choice with
  | log message =>
    simp only [begin, Option.ite_none_right_eq_some] at h
    cases h.2
    exact .log p message
  | submit =>
    cases h
    exact .call p _ (.inl rfl)
  | offer =>
    cases h
    exact .call p _ (.inr (.inl rfl))
  | destroy =>
    simp only [begin, Option.ite_none_right_eq_some] at h
    obtain ⟨howner, hact⟩ := h
    cases hact
    exact .call p _ (.inr (.inr ⟨rfl, howner⟩))
  | assign tp =>
    cases h
    exact .set p tp sh.alive
  | release =>
    cases h
    exact .set p sh.tp false
  | _ => cases h

/-- Between the calls and their beginnings a caller stands in the pool's code. -/
theorem caller_pool {p : π} {pc : ThreadPool.Pc n Task} (hidle : pc ≠ .idle)
    (hcall : ∀ task, pc ≠ .enqueue task ∧ pc ≠ .tryEnqueue task) (choice : Choice)
    (sh : Shared n) :
    caller g_conf_data max_pending_tasks_ owner p (.pool pc) choice sh =
      (ThreadPool.caller max_pending_tasks_ owner p pc .go sh.pool).map (inPool sh .pool) := by
  rw [caller]
  · exact hidle
  · exact fun task => (hcall task).1
  · exact fun task => (hcall task).2

theorem caller_does {p : π} {pc : Pc n} {choice : Choice} {sh : Shared n} {kind : Kind}
    {a : Act CondVar (Pc n) (Shared n) (Label n π)}
    (h : caller g_conf_data max_pending_tasks_ owner p pc choice sh = some (.act kind a)) :
    Does g_conf_data max_pending_tasks_ owner sh (.inr p) pc kind a := by
  cases pc with
  | pool pc =>
    cases pc with
    | idle => exact begin_does h
    | enqueue task => cases h
    | tryEnqueue task => cases h
    | run task => cases h
    | _ =>
      rw [caller_pool (by simp) (by simp)] at h
      obtain ⟨move, hmove, hact⟩ := Option.map_eq_some_iff.mp h
      obtain ⟨b, rfl, rfl⟩ := inPool_act hact
      exact .pool (.inr p) _ _ kind b (.pool _ (by simp) (by simp)) hmove
  | push message =>
    cases choice with
    | push ok =>
      cases ok with
      | false =>
        cases h
        exact .rejected p message
      | true =>
        cases h
        exact .pushed p message
    | _ => cases h
  | pushed message => exact Serialize_does h
  | enqueue message =>
    obtain ⟨b, hmove, rfl⟩ := inPool_act (Option.some.inj h)
    exact .enqueue p message kind b hmove
  | refusing message =>
    cases h
    exact .refusing p message
  | refused message =>
    cases h
    exact .drop p message
  | failed message =>
    cases h
    exact .count (.inr p) message
  | submit =>
    obtain ⟨b, hmove, rfl⟩ := inPool_act (Option.some.inj h)
    exact .pool (.inr p) _ _ kind b .submit (congrArg some hmove)
  | offer =>
    obtain ⟨b, hmove, rfl⟩ := inPool_act (Option.some.inj h)
    exact .pool (.inr p) _ _ kind b .offer (congrArg some hmove)

theorem program_does {i : Thread n π} {pc : Pc n} {choice : Choice} {sh : Shared n} {kind : Kind}
    {a : Act CondVar (Pc n) (Shared n) (Label n π)}
    (h : program g_conf_data max_pending_tasks_ owner i pc choice sh = some (.act kind a)) :
    Does g_conf_data max_pending_tasks_ owner sh i pc kind a := by
  cases i with
  | inl k => exact worker_does h
  | inr p => exact caller_does h

/-! ### The pool's run -/

/-- Every step is one of the pool, or none that the pool knows of. -/
theorem Does.projects {sh : Shared n} {i : Thread n π} {pc : Pc n} {kind : Kind}
    {a : Act CondVar (Pc n) (Shared n) (Label n π)}
    (h : Does g_conf_data max_pending_tasks_ owner sh i pc kind a) :
    (∃ e, ThreadPool.program max_pending_tasks_ owner i (poolPoint i pc) e sh.pool =
        some (.act kind ((poolView n π).act i a))) ∨
      kind = .free ∧ a.note = none ∧ a.shared.pool = sh.pool ∧
        poolPoint i a.pc = poolPoint i pc ∧ a.label.bind poolLabel = none := by
  cases h with
  | call p pc' hpc =>
    left
    obtain rfl | rfl | ⟨rfl, howner⟩ := hpc
    · exact ⟨.enqueue .other, rfl⟩
    · exact ⟨.tryEnqueue .other, rfl⟩
    · exact ⟨.destroy, if_pos howner⟩
  | hand p message pc' hlevel hpc =>
    obtain rfl | rfl := hpc
    · exact .inl ⟨.tryEnqueue (.backup message), rfl⟩
    · exact .inr ⟨rfl, rfl, rfl, rfl, rfl⟩
  | sent _ _ message hstart =>
    cases i with
    | inl k =>
      rw [hstart.pool]
      exact .inl ⟨.go, rfl⟩
    | inr p => exact .inr ⟨rfl, rfl, rfl, hstart.caller.symm, rfl⟩
  | unsent _ _ message hstart =>
    right
    cases i with
    | inl k => exact ⟨rfl, rfl, rfl, hstart.pool.symm, rfl⟩
    | inr p => exact ⟨rfl, rfl, rfl, hstart.caller.symm, rfl⟩
  | count _ message =>
    cases i with
    | inl k => exact .inl ⟨.go, rfl⟩
    | inr p => exact .inr ⟨rfl, rfl, rfl, rfl, rfl⟩
  | refusing p message => exact .inl ⟨.go, rfl⟩
  | enqueue p message _ b hmove =>
    have hpoint : poolPoint (.inr p : Thread n π)
        (if b.pc = .refused then .refusing message else .pool b.pc) = b.pc := by
      split
      · rename_i hpc
        exact hpc.symm
      · rfl
    refine .inl ⟨.go, ?_⟩
    rw [poolView_act hpoint, ← hmove]
    rfl
  | pool _ _ at_pool _ b hpc hmove =>
    refine .inl ⟨.go, ?_⟩
    rw [poolView_act rfl, ← hmove]
    cases hpc <;> rfl
  | _ => exact .inr ⟨rfl, rfl, rfl, rfl, rfl⟩

theorem program_waits {i : Thread n π} {pc : Pc n} {choice : Choice} {sh : Shared n} {c : CondVar}
    (h : program g_conf_data max_pending_tasks_ owner i pc choice sh = some (.wait c)) :
    ∃ e, ThreadPool.program max_pending_tasks_ owner i (poolPoint i pc) e sh.pool =
      some (.wait c) := by
  refine ⟨.go, ?_⟩
  cases i with
  | inl k =>
    cases pc with
    | pool pc =>
      by_cases hbackup : ∃ message, pc = .run (.backup message)
      · obtain ⟨message, rfl⟩ := hbackup
        exact absurd h Start_no_wait
      · rw [program, worker] at h
        · obtain ⟨move, hmove, hwait⟩ := Option.map_eq_some_iff.mp h
          rw [inPool_wait hwait] at hmove
          exact hmove
        · rintro message rfl
          exact hbackup ⟨message, rfl⟩
    | _ => cases h
  | inr p =>
    cases pc with
    | pool pc =>
      cases pc with
      | idle =>
        cases choice with
        | log message =>
          simp only [program, caller, begin, Option.ite_none_right_eq_some] at h
          cases h.2
        | destroy =>
          simp only [program, caller, begin, Option.ite_none_right_eq_some] at h
          cases h.2
        | _ => cases h
      | enqueue task => cases h
      | tryEnqueue task => cases h
      | _ =>
        rw [program, caller_pool (by simp) (by simp)] at h
        obtain ⟨move, hmove, hwait⟩ := Option.map_eq_some_iff.mp h
        rw [inPool_wait hwait] at hmove
        exact hmove
    | push message =>
      cases choice with
      | push ok => cases ok <;> cases h
      | _ => cases h
    | pushed message =>
      simp only [program, caller, Serialize] at h
      split at h
      · exact absurd h Start_no_wait
      · split at h
        · split at h <;> cases h
        · cases h
      · cases h
    | enqueue message => exact congrArg some (inPool_wait (Option.some.inj h))
    | submit => exact congrArg some (inPool_wait (Option.some.inj h))
    | offer => exact congrArg some (inPool_wait (Option.some.inj h))
    | _ => cases h

theorem program_projects (g_conf_data : Option JsonData) (max_pending_tasks_ : Nat) (owner : π) :
    (poolView n π).Projects (program g_conf_data max_pending_tasks_ owner)
      (ThreadPool.program max_pending_tasks_ owner) where
  wait _ _ _ _ _ h := program_waits h
  act _ _ _ _ _ _ h := (program_does h).projects

/-- What the threads do to the pool is a run of the pool. -/
theorem run_pool [Fintype π] {s₀ s : System n π} {log : List (Option (Label n π))}
    (hrun : Run (Step (program g_conf_data max_pending_tasks_ owner)) s₀ log s) :
    ∃ log', Run (Step (ThreadPool.program max_pending_tasks_ owner)) ((poolView n π).state s₀) log'
        ((poolView n π).state s) ∧
      log'.filterMap id = log.filterMap fun l => l.bind poolLabel :=
  (poolView n π).run (program_projects g_conf_data max_pending_tasks_ owner) hrun

end

/-- The state that `create` leaves. -/
structure Fresh (s : System n π) : Prop where
  queue : s.shared.pool.tasks_ = []
  failures : s.shared.remote_backup_failures_ = 0
  drops : s.shared.remote_backup_drops_ = 0
  workers : ∀ k, s.phase (.inl k) = .running (.pool .loop)
  callers : ∀ p, s.phase (.inr p) = .running (.pool .idle)

theorem create_ok {thread_count max_pending_tasks : Nat} {tp : Bool} {s : System thread_count π}
    (h : create thread_count max_pending_tasks tp = .ok s) :
    ThreadPool.construct thread_count max_pending_tasks =
        .ok ((poolView thread_count π).state s) ∧ Fresh s := by
  unfold create at h
  cases hpool : (ThreadPool.construct thread_count max_pending_tasks :
      Except Bytes (ThreadPool.Pool thread_count π Task)) with
  | error e =>
    rw [hpool] at h
    cases h
  | ok pool =>
    rw [hpool] at h
    cases h
    have hfresh := (ThreadPool.construct_ok hpool).2
    refine ⟨?_, hfresh.tasks, rfl, rfl, fun k => ?_, fun p => ?_⟩
    · congr 1
      have hphase : (fun i => ((pool.phase i).map Pc.pool).map (poolPoint i)) = pool.phase := by
        funext i
        cases pool.phase i <;> rfl
      simp only [Projection.state, poolView, hphase]
    · simp only [hfresh.workers k]
      rfl
    · simp only [hfresh.callers p]
      rfl

end CloudStorage.AsyncLogger
