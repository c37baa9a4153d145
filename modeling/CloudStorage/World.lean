import CloudStorage.Lib.FileSystem
import CloudStorage.Lib.Interact
import Mathlib.Algebra.Group.Int.Defs
import Mathlib.Algebra.Group.Nat.Defs
import Mathlib.Data.List.AList
import Mathlib.Data.Set.Basic

/-!
# The server's world

Everything a request handler touches: the files, the directories, the memory of the process
(`table_`, the session store, the login limiter), the HTML templates, the clock,
and a trace of the calls made so far with their answers. Each critical section
of `table_mutex_` is one call. The environment chooses the answers through
`Choice`; `System A` admits the answers that satisfy the assumption `A`.
-/

namespace CloudStorage
open Posix Interact

/-- `storage::StorageInfo`. -/
structure StorageInfo where
  mtime_ : Int
  atime_ : Int
  fsize_ : Nat
  storage_path_ : Bytes
  url_ : Bytes
  storage_type_ : Bytes
  deriving DecidableEq, Repr

/-- `std::unordered_map<std::string, StorageInfo>`, in some iteration order. -/
abbrev Table := AList fun _ : Bytes => StorageInfo

theorem mem_entries_iff {table : Table} {e : Sigma fun _ : Bytes => StorageInfo} :
    e ∈ table.entries ↔ table.lookup e.1 = some e.2 :=
  (List.mem_dlookup_iff table.nodupKeys).symm

structure SessionRecord where
  csrf_token : Bytes
  expires_at : Int
  deriving DecidableEq, Repr

abbrev Sessions := AList fun _ : Bytes => SessionRecord

/-- `LoginRateLimiter::Attempt`. -/
structure Attempt where
  window_started : Int := 0
  blocked_until : Int := 0
  failures : Nat := 0
  deriving DecidableEq, Repr

abbrev Attempts := AList fun _ : Bytes => Attempt

/-- How a low-level codec operation ends. -/
inductive Outcome
  | ok
  | failed
  | threw
  deriving DecidableEq, Repr

inductive Call
  | fs (c : FsCall)
  /-- copy of `table_` under the shared lock -/
  | loadTable
  /-- the order in which a copy of `table_` is gone through -/
  | iteration
  /-- `table_.swap(next)` under the unique lock -/
  | swapTable (next : Table)
  /-- `Clock::now()` -/
  | now
  /-- `RAND_bytes`, 32 bytes -/
  | randBytes
  | loadSessions
  | storeSessions (sessions : Sessions)
  | loadAttempts
  | storeAttempts (attempts : Attempts)
  /-- an HTML template read through `std::ifstream` -/
  | template (name : Bytes)
  /-- a low-level `bundle` operation -/
  | codec
  /-- `evbuffer_copyout` of the whole request body -/
  | copyOut
  /-- `evbuffer_add_file` -/
  | addFile (fd offset length : Nat)

abbrev Call.Resp : Call → Type
  | .fs c => c.Resp
  | .loadTable => Table
  | .iteration => List Nat
  | .swapTable _ => Unit
  | .now => Int
  | .randBytes => Option Bytes
  | .loadSessions => Sessions
  | .storeSessions _ => Unit
  | .loadAttempts => Attempts
  | .storeAttempts _ => Unit
  | .template _ => Option Bytes
  | .codec => Outcome
  | .copyOut => Bool
  | .addFile .. => Option Bytes

abbrev Program := Prog Call.Resp

/-- A call that was answered. -/
structure Event where
  call : Call
  answer : call.Resp

structure World where
  fs : FileSystem
  dirs : List Key
  table : Table
  sessions : Sessions
  attempts : Attempts
  templates : Bytes → Option Bytes
  clock : Int
  trace : List Event

/-- Answer and effect of a call at the present clock reading. -/
def effect (w : World) (ch : Choice) : (c : Call) → c.Resp × World
  | .fs c =>
    ((fsAnswer w.fs w.dirs w.clock ch c).1,
      { w with fs := (fsAnswer w.fs w.dirs w.clock ch c).2, dirs := fsDirs w.fs w.dirs ch c })
  | .loadTable => (w.table, w)
  | .iteration => (ch.order, w)
  | .swapTable next => ((), { w with table := next })
  | .now => (w.clock, w)
  | .randBytes => (if ch.ok = true ∧ ch.name.length = 32 then some ch.name else none, w)
  | .loadSessions => (w.sessions, w)
  | .storeSessions sessions => ((), { w with sessions })
  | .loadAttempts => (w.attempts, w)
  | .storeAttempts attempts => ((), { w with attempts })
  | .template name => (w.templates name, w)
  | .codec => (if ch.ok then .ok else if ch.short = 0 then .failed else .threw, w)
  | .copyOut => (ch.ok, w)
  | .addFile fd offset length =>
    (if ch.ok then some (((w.fs.inode fd).bytes.drop offset).take length) else none, w)

/-- One call: the clock moves on, the call has its effect and enters the trace. -/
def answer (w : World) (c : Call) (ch : Choice) : c.Resp × World :=
  let w₁ := { w with clock := max w.clock ch.now }
  let out := effect w₁ ch c
  (out.1, { out.2 with trace := w.trace ++ [⟨c, out.1⟩] })

/-- An assumption on the environment: which answers it may give in which world. -/
abbrev Assumption := World → (c : Call) → c.Resp → Prop

def System (A : Assumption) : Env Call.Resp World :=
  fun c w r w' => A w c r ∧ ∃ ch, answer w c ch = (r, w')

/-- Any answer the calls can give, failures included. -/
def Anything : Assumption := fun _ _ _ => True

instance (w : World) (c : Call) (r : c.Resp) : Decidable (Anything w c r) := isTrue trivial

/-- Both assumptions. -/
def Assumption.and (A B : Assumption) : Assumption := fun w c r => A w c r ∧ B w c r

instance (A B : Assumption) [∀ w c r, Decidable (A w c r)] [∀ w c r, Decidable (B w c r)]
    (w : World) (c : Call) (r : c.Resp) : Decidable (A.and B w c r) :=
  inferInstanceAs (Decidable (_ ∧ _))

/-- The test of an assumption on an answer. -/
def Assumption.test (A : Assumption) [∀ w c r, Decidable (A w c r)] (w : World) (c : Call)
    (r : c.Resp) : Bool := decide (A w c r)

theorem Assumption.test_answer (A : Assumption) [∀ w c r, Decidable (A w c r)] (w : World)
    (c : Call) (ch : Choice) (h : A.test w c (answer w c ch).1 = true) :
    System A c w (answer w c ch).1 (answer w c ch).2 :=
  ⟨of_decide_eq_true h, ch, rfl⟩

/-- A program played with answers the assumption admits. -/
def playUnder (A : Assumption) [∀ w c r, Decidable (A w c r)] {α : Type} (p : Program α)
    (choices : List Choice) (w : World) : Program α × World :=
  play answer A.test p choices w

theorem playUnder_runs (A : Assumption) [∀ w c r, Decidable (A w c r)] {α : Type}
    {p : Program α} {choices : List Choice} {w : World} {a : α}
    (h : (playUnder A p choices w).1.result = some a) :
    Runs (System A) p w a (playUnder A p choices w).2 :=
  play_runs A.test_answer h

/-- No file, no directory, an empty table, and the clock at the epoch. -/
def World.empty : World := ⟨FileSystem.empty, [], ∅, ∅, ∅, fun _ => none, 0, []⟩

/-- A new process on the same files. -/
def World.restart (w : World) : World := { w with table := ∅, sessions := ∅, attempts := ∅ }

/-! ### What a call leaves unchanged -/

/-- `w'` follows `w` after call `c` answered `r`; memory is as before. -/
structure Did (w : World) (c : Call) (r : c.Resp) (w' : World) : Prop where
  table : w'.table = w.table
  sessions : w'.sessions = w.sessions
  attempts : w'.attempts = w.attempts
  templates : w'.templates = w.templates
  trace : w'.trace = w.trace ++ [⟨c, r⟩]
  clock : w.clock ≤ w'.clock

/-- Only the files of `S` differ, and nothing of the memory. -/
structure Frame (S : Set Key) (w w' : World) : Prop where
  files : ∀ k, k ∉ S → w'.fs.get k = w.fs.get k
  table : w'.table = w.table
  sessions : w'.sessions = w.sessions
  attempts : w'.attempts = w.attempts
  templates : w'.templates = w.templates
  trace : w.trace <+: w'.trace
  clock : w.clock ≤ w'.clock

theorem Frame.refl (S : Set Key) (w : World) : Frame S w w :=
  ⟨fun _ _ => rfl, rfl, rfl, rfl, rfl, List.prefix_refl _, Int.le_refl _⟩

theorem Frame.trans {S : Set Key} {a b c : World} (h : Frame S a b) (h' : Frame S b c) :
    Frame S a c :=
  ⟨fun k hk => (h'.files k hk).trans (h.files k hk), h'.table.trans h.table,
    h'.sessions.trans h.sessions, h'.attempts.trans h.attempts,
    h'.templates.trans h.templates, h.trace.trans h'.trace, Int.le_trans h.clock h'.clock⟩

theorem Frame.mono {S T : Set Key} {a b : World} (h : Frame S a b) (hST : S ⊆ T) : Frame T a b :=
  { h with files := fun k hk => h.files k (fun hs => hk (hST hs)) }

theorem Did.frame {w w' : World} {c : Call} {r : c.Resp} (h : Did w c r w') {S : Set Key}
    (hfs : ∀ k, k ∉ S → w'.fs.get k = w.fs.get k) : Frame S w w' :=
  ⟨hfs, h.table, h.sessions, h.attempts, h.templates, h.trace ▸ List.prefix_append .., h.clock⟩

theorem Did.quiet {w w' : World} {c : Call} {r : c.Resp} (h : Did w c r w')
    (hfs : w'.fs = w.fs) (S : Set Key) : Frame S w w' :=
  h.frame fun k _ => by rw [hfs]

theorem Did.mem {w w' : World} {c : Call} {r : c.Resp} (h : Did w c r w') :
    (⟨c, r⟩ : Event) ∈ w'.trace := by
  rw [h.trace]
  simp

/-! ### Rules for the calls -/

variable {A : Assumption} {C : World → Prop}

def perform (c : Call) : Program c.Resp := @Prog.perform Call Call.Resp c

def fsCall (c : FsCall) : Program c.Resp := perform (.fs c)

theorem wp_perform {c : Call} {w : World} {Q : c.Resp → World → Prop} (hC : C w)
    (hQ : ∀ r w' ch, A w c r → answer w c ch = (r, w') → Q r w') :
    wp (System A) (perform c) Q C w := by
  rw [perform, Prog.perform, wp_call]
  refine ⟨hC, ?_⟩
  rintro r w' ⟨hA, ch, h⟩
  exact hQ r w' ch hA h

theorem clock_answer (w : World) (c : Call) (ch : Choice) :
    w.clock ≤ (answer w c ch).2.clock := by
  cases c <;> exact Int.le_max_left ..

theorem clock_steps {α : Type} {p q : Program α} {w w' : World}
    (h : Steps (System A) p w q w') : w.clock ≤ w'.clock := by
  induction h with
  | refl => exact Int.le_refl _
  | @head c _ v _ _ _ _ hanswer _ ih =>
    obtain ⟨-, ch, hch⟩ := hanswer
    have hstep := clock_answer v c ch
    rw [hch] at hstep
    exact Int.le_trans hstep ih

theorem wp_fsCall {c : FsCall} {w : World} {Q : c.Resp → World → Prop} (hC : C w)
    (hQ : ∀ r w' now ch, A w (.fs c) r → Did w (.fs c) r w' → w.clock ≤ now → w'.clock = now →
      fsAnswer w.fs w.dirs now ch c = (r, w'.fs) → Q r w') :
    wp (System A) (fsCall c) Q C w := by
  refine wp_perform hC fun r w' ch hA h => ?_
  obtain ⟨rfl, rfl⟩ := Prod.mk.injEq .. ▸ h
  exact hQ _ _ (max w.clock ch.now) ch hA
    ⟨rfl, rfl, rfl, rfl, rfl, Int.le_max_left ..⟩ (Int.le_max_left ..) rfl rfl

end CloudStorage
