import CloudStorage.Lib.Bytes
import CloudStorage.Lib.Monitor
import Mathlib.Data.Fintype.Sum

/-!
# The thread pool (`ThreadPool.hpp`)

The threads are the workers and the callers; the caller `owner` is the one that
destroys the pool. A task is a value of any type `τ`: what it does is not looked
at, it neither throws nor blocks for ever. Memory is taken not to run out. The
sections of the mutex are single steps, and each notification, which the source
makes after the mutex is free again, is one too.
-/

namespace CloudStorage.ThreadPool
open Monitor

/-- `inl` is a worker, `inr` a caller. -/
abbrev Thread (n : Nat) (π : Type) := Fin n ⊕ π

inductive CondVar
  | task_available_
  | space_available_
  deriving DecidableEq

/-- Where a thread stands: `enqueue`, `tryEnqueue`, `destroy` and `loop` before the
mutex; `queued`, `refused`, `stopSet`, `taken` and `leaving` before giving it back. -/
inductive Pc (n : Nat) (τ : Type)
  | idle
  | enqueue (task : τ)
  | tryEnqueue (task : τ)
  | queued
  | notifyTask
  | refused
  | destroy
  | stopSet
  | notifyTasks
  | notifySpaces
  | joining (rest : List (Fin n))
  | destroyed
  | loop
  | taken (task : τ)
  | notifySpace (task : τ)
  | run (task : τ)
  | leaving
  | exited
  deriving DecidableEq

/-- `exited` is the state of the threads in `workers_`. -/
structure Shared (n : Nat) (τ : Type) where
  tasks_ : List τ
  stopping_ : Bool
  exited : Fin n → Bool

/-- What a caller calls next; `go` is on with what it does. -/
inductive Choice (τ : Type)
  | enqueue (task : τ)
  | tryEnqueue (task : τ)
  | destroy
  | go
  deriving DecidableEq

/-- `refused` is an `Enqueue` that throws or a `TryEnqueue` that returns false. -/
inductive Label (n : Nat) (π τ : Type)
  | accepted (p : π) (task : τ)
  | refused (p : π) (task : τ)
  | dequeued (k : Fin n) (task : τ)
  | ran (k : Fin n) (task : τ)
  | stopping
  | destroyed
  deriving DecidableEq

variable {n : Nat} {π τ : Type}

abbrev Acts (n : Nat) (π τ : Type) := Move CondVar (Pc n τ) (Shared n τ) (Label n π τ)
abbrev Pool (n : Nat) (π τ : Type) := State (Thread n π) CondVar (Pc n τ) (Shared n τ)

def Enqueue (max_pending_tasks_ : Nat) (p : π) (task : τ) (sh : Shared n τ) : Acts n π τ :=
  if sh.stopping_ = false ∧ max_pending_tasks_ ≤ sh.tasks_.length then .wait .space_available_
  else if sh.stopping_ then
    .act .enter { shared := sh, pc := .refused, label := some (.refused p task) }
  else
    .act .enter { shared := { sh with tasks_ := sh.tasks_ ++ [task] }, pc := .queued,
                  label := some (.accepted p task) }

def TryEnqueue (max_pending_tasks_ : Nat) (p : π) (task : τ) (sh : Shared n τ) : Acts n π τ :=
  if sh.stopping_ = true ∨ max_pending_tasks_ ≤ sh.tasks_.length then
    .act .enter { shared := sh, pc := .refused, label := some (.refused p task) }
  else
    .act .enter { shared := { sh with tasks_ := sh.tasks_ ++ [task] }, pc := .queued,
                  label := some (.accepted p task) }

/-- The loop over `workers_` in the destructor. -/
def joinWorkers (sh : Shared n τ) : List (Fin n) → Option (Acts n π τ)
  | [] => some (.act .free { shared := sh, pc := .destroyed, label := some .destroyed })
  | k :: rest => if sh.exited k then some (.act .free { shared := sh, pc := .joining rest }) else none

def WorkerLoop (k : Fin n) (pc : Pc n τ) (sh : Shared n τ) : Option (Acts n π τ) :=
  match pc with
  | .loop =>
    match sh.tasks_ with
    | [] =>
      if sh.stopping_ then some (.act .enter { shared := sh, pc := .leaving })
      else some (.wait .task_available_)
    | task :: rest =>
      some (.act .enter { shared := { sh with tasks_ := rest }, pc := .taken task,
                          label := some (.dequeued k task) })
  | .taken task => some (.act .leave { shared := sh, pc := .notifySpace task })
  | .notifySpace task =>
    some (.act .free { shared := sh, pc := .run task, note := some (.one .space_available_) })
  | .run task => some (.act .free { shared := sh, pc := .loop, label := some (.ran k task) })
  | .leaving =>
    some (.act .leave { shared := { sh with exited := Function.update sh.exited k true },
                        pc := .exited })
  | _ => none

/-- The constructor. -/
def construct (thread_count max_pending_tasks : Nat) :
    Except Posix.Bytes (Pool thread_count π τ) :=
  if thread_count = 0 then .error (Posix.lit "ThreadPool requires at least one worker")
  else if max_pending_tasks = 0 then
    .error (Posix.lit "ThreadPool queue size must be greater than zero")
  else
    .ok { shared := { tasks_ := [], stopping_ := false, exited := fun _ => false }
          mutex := none
          phase := fun i => match i with
            | .inl _ => .running .loop
            | .inr _ => .running .idle }

section
variable [DecidableEq π]

def caller (max_pending_tasks_ : Nat) (owner p : π) (pc : Pc n τ) (choice : Choice τ)
    (sh : Shared n τ) : Option (Acts n π τ) :=
  match pc with
  | .idle =>
    match choice with
    | .enqueue task => some (.act .free { shared := sh, pc := .enqueue task })
    | .tryEnqueue task => some (.act .free { shared := sh, pc := .tryEnqueue task })
    | .destroy => if p = owner then some (.act .free { shared := sh, pc := .destroy }) else none
    | .go => none
  | .enqueue task => some (Enqueue max_pending_tasks_ p task sh)
  | .tryEnqueue task => some (TryEnqueue max_pending_tasks_ p task sh)
  | .queued => some (.act .leave { shared := sh, pc := .notifyTask })
  | .notifyTask =>
    some (.act .free { shared := sh, pc := .idle, note := some (.one .task_available_) })
  | .refused => some (.act .leave { shared := sh, pc := .idle })
  | .destroy =>
    some (.act .enter { shared := { sh with stopping_ := true }, pc := .stopSet,
                        label := some .stopping })
  | .stopSet => some (.act .leave { shared := sh, pc := .notifyTasks })
  | .notifyTasks =>
    some (.act .free { shared := sh, pc := .notifySpaces, note := some (.all .task_available_) })
  | .notifySpaces =>
    some (.act .free { shared := sh, pc := .joining (List.finRange n),
                       note := some (.all .space_available_) })
  | .joining rest => joinWorkers sh rest
  | _ => none

def program (max_pending_tasks_ : Nat) (owner : π) :
    Program (Thread n π) CondVar (Pc n τ) (Shared n τ) (Choice τ) (Label n π τ)
  | .inl k, pc, _, sh => WorkerLoop k pc sh
  | .inr p, pc, choice, sh => caller max_pending_tasks_ owner p pc choice sh

end

/-- What every step of the pool does to the shared state, and where it leads. -/
inductive Does (max_pending_tasks_ : Nat) (sh : Shared n τ) :
    Thread n π → Pc n τ → Kind → Act CondVar (Pc n τ) (Shared n τ) (Label n π τ) → Prop
  | call (p : π) (pc' : Pc n τ) (hpc : (∃ task, pc' = .enqueue task ∨ pc' = .tryEnqueue task) ∨
      pc' = .destroy) :
      Does max_pending_tasks_ sh (.inr p) .idle .free ⟨sh, pc', none, none⟩
  | accept (p : π) (task : τ) (pc : Pc n τ) (hpc : pc = .enqueue task ∨ pc = .tryEnqueue task)
      (hstopping : sh.stopping_ = false) (hroom : sh.tasks_.length < max_pending_tasks_) :
      Does max_pending_tasks_ sh (.inr p) pc .enter
        ⟨{ sh with tasks_ := sh.tasks_ ++ [task] }, .queued, none, some (.accepted p task)⟩
  | refuse (p : π) (task : τ) (pc : Pc n τ)
      (hpc : pc = .enqueue task ∧ sh.stopping_ = true ∨ pc = .tryEnqueue task) :
      Does max_pending_tasks_ sh (.inr p) pc .enter
        ⟨sh, .refused, none, some (.refused p task)⟩
  | queued (p : π) :
      Does max_pending_tasks_ sh (.inr p) .queued .leave ⟨sh, .notifyTask, none, none⟩
  | notifyTask (p : π) :
      Does max_pending_tasks_ sh (.inr p) .notifyTask .free
        ⟨sh, .idle, some (.one .task_available_), none⟩
  | refused (p : π) :
      Does max_pending_tasks_ sh (.inr p) .refused .leave ⟨sh, .idle, none, none⟩
  | stop (p : π) :
      Does max_pending_tasks_ sh (.inr p) .destroy .enter
        ⟨{ sh with stopping_ := true }, .stopSet, none, some .stopping⟩
  | stopSet (p : π) :
      Does max_pending_tasks_ sh (.inr p) .stopSet .leave ⟨sh, .notifyTasks, none, none⟩
  | notifyTasks (p : π) :
      Does max_pending_tasks_ sh (.inr p) .notifyTasks .free
        ⟨sh, .notifySpaces, some (.all .task_available_), none⟩
  | notifySpaces (p : π) :
      Does max_pending_tasks_ sh (.inr p) .notifySpaces .free
        ⟨sh, .joining (List.finRange n), some (.all .space_available_), none⟩
  | join (p : π) (k : Fin n) (rest : List (Fin n)) (hexited : sh.exited k = true) :
      Does max_pending_tasks_ sh (.inr p) (.joining (k :: rest)) .free
        ⟨sh, .joining rest, none, none⟩
  | joined (p : π) :
      Does max_pending_tasks_ sh (.inr p) (.joining []) .free
        ⟨sh, .destroyed, none, some .destroyed⟩
  | take (k : Fin n) (task : τ) (rest : List τ) (htasks : sh.tasks_ = task :: rest) :
      Does max_pending_tasks_ sh (.inl k) .loop .enter
        ⟨{ sh with tasks_ := rest }, .taken task, none, some (.dequeued k task)⟩
  | leave (k : Fin n) (htasks : sh.tasks_ = []) (hstopping : sh.stopping_ = true) :
      Does max_pending_tasks_ sh (.inl k) .loop .enter ⟨sh, .leaving, none, none⟩
  | taken (k : Fin n) (task : τ) :
      Does max_pending_tasks_ sh (.inl k) (.taken task) .leave ⟨sh, .notifySpace task, none, none⟩
  | notifySpace (k : Fin n) (task : τ) :
      Does max_pending_tasks_ sh (.inl k) (.notifySpace task) .free
        ⟨sh, .run task, some (.one .space_available_), none⟩
  | run (k : Fin n) (task : τ) :
      Does max_pending_tasks_ sh (.inl k) (.run task) .free ⟨sh, .loop, none, some (.ran k task)⟩
  | exit (k : Fin n) :
      Does max_pending_tasks_ sh (.inl k) .leaving .leave
        ⟨{ sh with exited := Function.update sh.exited k true }, .exited, none, none⟩

theorem WorkerLoop_does {max_pending_tasks_ : Nat} {k : Fin n} {pc : Pc n τ} {sh : Shared n τ}
    {kind : Kind} {a : Act CondVar (Pc n τ) (Shared n τ) (Label n π τ)}
    (h : WorkerLoop k pc sh = some (.act kind a)) :
    Does max_pending_tasks_ sh (.inl k) pc kind a := by
  cases pc with
  | loop =>
    simp only [WorkerLoop] at h
    split at h
    · rename_i htasks
      split at h
      · rename_i hstopping
        cases h
        exact .leave k htasks hstopping
      · cases h
    · rename_i task rest htasks
      cases h
      exact .take k task rest htasks
  | taken task =>
    cases h
    exact .taken k task
  | notifySpace task =>
    cases h
    exact .notifySpace k task
  | run task =>
    cases h
    exact .run k task
  | leaving =>
    cases h
    exact .exit k
  | _ => cases h

/-- Where a thread can sleep. -/
def Waits (i : Thread n π) (c : CondVar) (pc : Pc n τ) : Prop :=
  (∃ k, i = .inl k ∧ c = .task_available_ ∧ pc = .loop) ∨
    ∃ p task, i = .inr p ∧ c = .space_available_ ∧ pc = .enqueue task

variable [DecidableEq π]

theorem caller_does {max_pending_tasks_ : Nat} {owner p : π} {pc : Pc n τ} {choice : Choice τ}
    {sh : Shared n τ} {kind : Kind} {a : Act CondVar (Pc n τ) (Shared n τ) (Label n π τ)}
    (h : caller max_pending_tasks_ owner p pc choice sh = some (.act kind a)) :
    Does max_pending_tasks_ sh (.inr p) pc kind a := by
  cases pc with
  | idle =>
    cases choice with
    | enqueue task =>
      cases h
      exact .call p _ (.inl ⟨task, .inl rfl⟩)
    | tryEnqueue task =>
      cases h
      exact .call p _ (.inl ⟨task, .inr rfl⟩)
    | destroy =>
      simp only [caller] at h
      split at h
      · cases h
        exact .call p _ (.inr rfl)
      · cases h
    | go => cases h
  | enqueue task =>
    simp only [caller, Enqueue, Option.some.injEq] at h
    split at h
    · cases h
    · rename_i hwait
      split at h
      · rename_i hstopping
        cases h
        exact .refuse p task _ (.inl ⟨rfl, hstopping⟩)
      · rename_i hrunning
        have hstopping : sh.stopping_ = false := by simpa using hrunning
        have hroom : ¬max_pending_tasks_ ≤ sh.tasks_.length := fun hfull => hwait ⟨hstopping, hfull⟩
        cases h
        exact .accept p task _ (.inl rfl) hstopping (by omega)
  | tryEnqueue task =>
    simp only [caller, TryEnqueue, Option.some.injEq] at h
    split at h
    · cases h
      exact .refuse p task _ (.inr rfl)
    · rename_i hopen
      have hroom := not_or.mp hopen
      cases h
      exact .accept p task _ (.inr rfl) (by simpa using hroom.1) (by omega)
  | queued =>
    cases h
    exact .queued p
  | notifyTask =>
    cases h
    exact .notifyTask p
  | refused =>
    cases h
    exact .refused p
  | destroy =>
    cases h
    exact .stop p
  | stopSet =>
    cases h
    exact .stopSet p
  | notifyTasks =>
    cases h
    exact .notifyTasks p
  | notifySpaces =>
    cases h
    exact .notifySpaces p
  | joining rest =>
    cases rest with
    | nil =>
      cases h
      exact .joined p
    | cons k rest =>
      simp only [caller, joinWorkers] at h
      split at h
      · rename_i hexited
        cases h
        exact .join p k rest hexited
      · cases h
  | _ => cases h

theorem program_does {max_pending_tasks_ : Nat} {owner : π} {i : Thread n π} {pc : Pc n τ}
    {choice : Choice τ} {sh : Shared n τ} {kind : Kind}
    {a : Act CondVar (Pc n τ) (Shared n τ) (Label n π τ)}
    (h : program max_pending_tasks_ owner i pc choice sh = some (.act kind a)) :
    Does max_pending_tasks_ sh i pc kind a := by
  cases i with
  | inl k => exact WorkerLoop_does h
  | inr p => exact caller_does h

/-- The two waits, and what was found when they began. -/
theorem program_wait {max_pending_tasks_ : Nat} {owner : π} {i : Thread n π} {pc : Pc n τ}
    {choice : Choice τ} {sh : Shared n τ} {c : CondVar}
    (h : program max_pending_tasks_ owner i pc choice sh = some (.wait c)) :
    sh.stopping_ = false ∧
      ((∃ k, i = .inl k ∧ c = .task_available_ ∧ pc = .loop ∧ sh.tasks_ = []) ∨
        ∃ p task, i = .inr p ∧ c = .space_available_ ∧ pc = .enqueue task ∧
          max_pending_tasks_ ≤ sh.tasks_.length) := by
  cases i with
  | inl k =>
    cases pc with
    | loop =>
      simp only [program, WorkerLoop] at h
      split at h
      · rename_i htasks
        split at h
        · cases h
        · rename_i hrunning
          cases h
          exact ⟨by simpa using hrunning, .inl ⟨k, rfl, rfl, rfl, htasks⟩⟩
      · cases h
    | _ => cases h
  | inr p =>
    cases pc with
    | enqueue task =>
      simp only [program, caller, Enqueue, Option.some.injEq] at h
      split at h
      · rename_i hwait
        cases h
        exact ⟨hwait.1, .inr ⟨p, task, rfl, rfl, rfl, hwait.2⟩⟩
      · split at h <;> cases h
    | idle =>
      cases choice with
      | destroy =>
        simp only [program, caller] at h
        split at h <;> cases h
      | _ => cases h
    | tryEnqueue task =>
      simp only [program, caller, TryEnqueue, Option.some.injEq] at h
      split at h <;> cases h
    | joining rest =>
      cases rest with
      | nil => cases h
      | cons k rest =>
        simp only [program, caller, joinWorkers] at h
        split at h <;> cases h
    | _ => cases h

theorem waitsAt (max_pending_tasks_ : Nat) (owner : π) :
    WaitsAt (program max_pending_tasks_ owner : Program (Thread n π) CondVar (Pc n τ) _ _ _)
      Waits := by
  intro i pc e sh c h
  obtain ⟨-, ⟨k, rfl, rfl, rfl, -⟩ | ⟨p, task, rfl, rfl, rfl, -⟩⟩ := program_wait h
  · exact .inl ⟨k, rfl, rfl, rfl⟩
  · exact .inr ⟨p, task, rfl, rfl, rfl⟩

end CloudStorage.ThreadPool
