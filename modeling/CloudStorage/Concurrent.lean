import CloudStorage.Restart
import CloudStorage.Lib.Threads

/-!
# Threads on the metadata (`DataManager.cpp`)

Any number of threads call `Insert`, `Delete`, `GetOneByURL` and `GetAll`. A mutation
holds `mutation_mutex_` from before its first call to its return; every call of
`Persist` and every critical section of `table_mutex_` is one step, and any of them
may fail. The mutations behave as if run one after the other on `Saved`: the table
in memory and the content of the metadata file.
-/

namespace CloudStorage
open Posix Interact

inductive Mutation
  | insert (info : StorageInfo)
  | delete (url : Bytes)

inductive Query
  | getOneByUrl (url : Bytes)
  | getAll

inductive DataOp
  | mutate (m : Mutation)
  | query (q : Query)

inductive Answer
  | result (r : DataResult)
  | found (info : Option StorageInfo)
  | items (infos : List StorageInfo)
  deriving DecidableEq

def Mutation.run (cfg : Config) (text : JsonText) : Mutation → Program DataResult
  | .insert info => DataManager.insert cfg text info
  | .delete url => DataManager.delete cfg text url

def Query.run : Query → Program Answer
  | .getOneByUrl url => CloudStorage.getOneByUrl url >>= fun info => return .found info
  | .getAll => CloudStorage.getAll >>= fun infos => return .items infos

def DataOp.run (cfg : Config) (text : JsonText) : DataOp → Program Answer
  | .mutate m => m.run cfg text >>= fun r => return .result r
  | .query q => q.run

/-- `std::lock_guard<std::mutex> mutation_lock(mutation_mutex_)`. -/
def DataOp.locks : DataOp → Bool
  | .mutate _ => true
  | .query _ => false

abbrev DataThreads (T : Type) := Threads Call.Resp World T DataOp Answer

abbrev DataLog (T : Type) := List (Label Call.Resp T DataOp Answer)

abbrev DataStep {T : Type} [DecidableEq T] (cfg : Config) (text : JsonText) :
    DataThreads T → Label Call.Resp T DataOp Answer → DataThreads T → Prop :=
  ThreadStep (DataOp.run cfg text) DataOp.locks (System Anything)

abbrev DataRun {T : Type} [DecidableEq T] (cfg : Config) (text : JsonText) :
    DataThreads T → DataLog T → DataThreads T → Prop :=
  ThreadRun (DataOp.run cfg text) DataOp.locks (System Anything)

/-- What a query makes of the table. -/
def Query.answer : Query → Table → Answer
  | .getOneByUrl url, table => .found (table.lookup url)
  | .getAll, table => .items (table.entries.map fun entry => entry.2)

theorem Query.run_eq (q : Query) :
    q.run = .call .loadTable fun table => .ret (q.answer table) := by
  cases q <;> rfl

/-! ### The mutations, one after the other -/

/-- The next table, or why there is none. -/
def Mutation.next : Mutation → Table → Except DataResult Table
  | .insert info, table =>
    if info.url_ ∈ table then .error .alreadyExists else .ok (table.insert info.url_ info)
  | .delete url, table => if url ∈ table then .ok (table.erase url) else .error .notFound

/-- A mutation with its result, if it can have that result: a refused or failed one
keeps everything, one that succeeds saves its next table. -/
def execute (text : JsonText) (saved : Saved) : DataOp × Answer → Option Saved
  | (.mutate m, .result r) =>
    match m.next saved.table with
    | .error refusal => if r = refusal then some saved else none
    | .ok next =>
      match r with
      | .persistFailed => some saved
      | .ok => (text.write (tableJson next)).map fun body => ⟨next, some body⟩
      | _ => none
  | _ => none

def history (text : JsonText) (saved : Saved) (done : List (DataOp × Answer)) : Option Saved :=
  done.foldlM (execute text) saved

variable {cfg : Config} {text : JsonText} {saved next : Saved} {op : DataOp} {a : Answer}

theorem history_snoc {done : List (DataOp × Answer)} {last : Saved}
    (h : history text saved done = some last) :
    history text saved (done ++ [(op, a)]) = execute text last (op, a) := by
  rw [history, List.foldlM_append]
  rw [history] at h
  rw [h]
  simp

theorem execute_refused {m : Mutation} {refusal : DataResult}
    (h : m.next saved.table = .error refusal) :
    execute text saved (.mutate m, .result refusal) = some saved := by
  simp [execute, h]

theorem execute_failed {m : Mutation} {table : Table} (h : m.next saved.table = .ok table) :
    execute text saved (.mutate m, .result .persistFailed) = some saved := by
  simp [execute, h]

theorem execute_done {m : Mutation} {table : Table} {body : Bytes}
    (h : m.next saved.table = .ok table) (hbody : text.write (tableJson table) = some body) :
    execute text saved (.mutate m, .result .ok) = some ⟨table, some body⟩ := by
  simp [execute, h, hbody]

theorem Mutation.next_error {m : Mutation} {table : Table} {refusal : DataResult}
    (h : m.next table = .error refusal) : refusal ≠ .ok := by
  cases m with
  | insert info =>
    simp only [Mutation.next] at h
    split at h <;> cases h
    simp
  | delete url =>
    simp only [Mutation.next] at h
    split at h <;> cases h
    simp

/-- What a mutation and its result can have done. -/
theorem execute_cases (h : execute text saved (op, a) = some next) :
    ∃ m r, op = .mutate m ∧ a = .result r ∧
      (next = saved ∧ r ≠ .ok ∨
        ∃ table body, m.next saved.table = .ok table ∧ r = .ok ∧
          text.write (tableJson table) = some body ∧ next = ⟨table, some body⟩) := by
  cases op with
  | query => simp [execute] at h
  | mutate m =>
    cases a with
    | found => simp [execute] at h
    | items => simp [execute] at h
    | result r =>
      refine ⟨m, r, rfl, rfl, ?_⟩
      simp only [execute] at h
      split at h
      · rename_i refusal hnext
        split at h
        · rename_i hr
          cases h
          exact Or.inl ⟨rfl, hr ▸ Mutation.next_error hnext⟩
        · cases h
      · rename_i table hnext
        cases r with
        | persistFailed =>
          cases h
          exact Or.inl ⟨rfl, by simp⟩
        | ok =>
          obtain ⟨body, hbody, rfl⟩ := Option.map_eq_some_iff.mp h
          exact Or.inr ⟨table, body, hnext, rfl, hbody, rfl⟩
        | notFound => cases h
        | alreadyExists => cases h

theorem history_cons {x : DataOp × Answer} {rest : List (DataOp × Answer)} {last : Saved}
    (h : history text saved (x :: rest) = some last) :
    ∃ next, execute text saved x = some next ∧ history text next rest = some last := by
  rw [history, List.foldlM_cons] at h
  exact Option.bind_eq_some_iff.mp h

theorem history_append {before after : List (DataOp × Answer)} {last : Saved}
    (h : history text saved (before ++ after) = some last) :
    ∃ next, history text saved before = some next ∧ history text next after = some last := by
  rw [history, List.foldlM_append] at h
  exact Option.bind_eq_some_iff.mp h

def Mutation.url : Mutation → Bytes
  | .insert info => info.url_
  | .delete url => url

/-- The record a mutation leaves under its URL. -/
def Mutation.record : Mutation → Option StorageInfo
  | .insert info => some info
  | .delete _ => none

theorem Mutation.next_lookup {m : Mutation} {table table' : Table} (h : m.next table = .ok table')
    (url : Bytes) :
    table'.lookup url = if url = m.url then m.record else table.lookup url := by
  cases m with
  | insert info =>
    simp only [Mutation.next] at h
    split at h <;> cases h
    by_cases hurl : url = info.url_
    · subst hurl
      simp [Mutation.url, Mutation.record]
    · simp [Mutation.url, hurl]
  | delete gone =>
    simp only [Mutation.next] at h
    split at h <;> cases h
    by_cases hurl : url = gone
    · subst hurl
      simp [Mutation.url, Mutation.record]
    · simp [Mutation.url, hurl]

/-- No update is lost: a successful mutation has the last word on its URL until another
one of that URL succeeds. -/
theorem history_lasts {before after : List (DataOp × Answer)} {m : Mutation} {last : Saved}
    (h : history text saved (before ++ (.mutate m, .result .ok) :: after) = some last)
    (hafter : ∀ m', (DataOp.mutate m', Answer.result .ok) ∈ after → m'.url ≠ m.url) :
    last.table.lookup m.url = m.record := by
  have hkept : ∀ start : Saved, history text start after = some last →
      last.table.lookup m.url = start.table.lookup m.url := by
    clear h
    induction after with
    | nil =>
      intro start h
      cases h
      rfl
    | cons x after ih =>
      intro start h
      obtain ⟨next, hx, hrest⟩ := history_cons h
      rw [ih (fun m' hm' => hafter m' (List.mem_cons_of_mem _ hm')) next hrest]
      obtain ⟨m', r, hop, ha, ⟨rfl, -⟩ | ⟨table, body, hnext, rfl, -, rfl⟩⟩ := execute_cases hx
      · rfl
      · obtain ⟨op, a⟩ := x
        cases hop
        cases ha
        have hne := hafter m' (List.mem_cons_self ..)
        rw [Mutation.next_lookup hnext, if_neg (Ne.symm hne)]
  obtain ⟨middle, -, hmiddle⟩ := history_append h
  obtain ⟨next, hm, hrest⟩ := history_cons hmiddle
  rw [hkept next hrest]
  obtain ⟨m', r, hop, ha, ⟨-, hne⟩ | ⟨table, body, hnext, -, -, rfl⟩⟩ := execute_cases hm
  · cases ha
    exact absurd rfl hne
  · cases hop
    rw [Mutation.next_lookup hnext, if_pos rfl]

/-- No name `mkstemp` can make for `Persist` is that of the metadata file, which is
there or not. -/
def NameClear (cfg : Config) (file : Option Bytes) : Prop :=
  file ≠ none ∨ ∀ p, TempName (parentPath cfg.storageInfo) storagePrefix p →
    place p ≠ place cfg.storageInfo

theorem history_nameClear {done : List (DataOp × Answer)} {last : Saved}
    (h : history text saved done = some last) (hname : NameClear cfg saved.file) :
    NameClear cfg last.file := by
  induction done generalizing saved with
  | nil =>
    cases h
    exact hname
  | cons x done ih =>
    obtain ⟨next, hx, hrest⟩ := history_cons h
    refine ih hrest ?_
    obtain ⟨m, r, -, -, ⟨rfl, -⟩ | ⟨table, body, -, -, -, rfl⟩⟩ := execute_cases hx
    · exact hname
    · exact Or.inl (by simp)

/-! ### One mutation -/

theorem Same.saved_eq {w w' : World} (h : Same w w') (cfg : Config) : w'.saved cfg = w.saved cfg := by
  rw [World.saved, World.saved, h.fs, h.frame.table]

/-- A temporary of `Persist` is not the metadata file. -/
theorem touches_saved {A : Assumption} {w w' : World} {table : Table}
    (h : Touches (SnapshotTemp A cfg table) w w') (hname : NameClear cfg (w.saved cfg).file) :
    w'.saved cfg = w.saved cfg := by
  have hfile : w'.fs.get (place cfg.storageInfo) = w.fs.get (place cfg.storageInfo) := by
    by_contra hne
    obtain ⟨p, hp, hplace, hnew⟩ := h.changed hne
    rcases hname with hthere | hclear
    · simp [World.saved, hnew] at hthere
    · exact hclear p hp.shape hplace
  rw [World.saved, World.saved, h.frame.table, hfile]

/-- Between the rename and the swap towards `table`. -/
def SwapPending (cfg : Config) (text : JsonText) (saved : Saved) (table : Table) (w : World) :
    Prop :=
  ∃ body, text.write (tableJson table) = some body ∧ w.saved cfg = ⟨saved.table, some body⟩

/-- After the swap. -/
def Swapped (cfg : Config) (text : JsonText) (table : Table) (w : World) : Prop :=
  ∃ body, text.write (tableJson table) = some body ∧ w.saved cfg = ⟨table, some body⟩

theorem Persisted.pending {w w' : World} {table : Table} (h : Persisted cfg text table w w') :
    SwapPending cfg text (w.saved cfg) table w' := by
  obtain ⟨body, t, hbody, hget⟩ := h.written
  refine ⟨body, hbody, ?_⟩
  rw [World.saved, hget, h.frame.table]
  rfl

theorem Committed.swapped {w w' : World} {table : Table} (h : Committed cfg text table w w') :
    Swapped cfg text table w' := by
  obtain ⟨body, t, hbody, hget⟩ := h.written
  refine ⟨body, hbody, ?_⟩
  rw [World.saved, hget, h.table]
  rfl

/-- A program past its rename: it swaps and returns `OK`. -/
def PastRename (cfg : Config) (text : JsonText) {α : Type} (saved : Saved) (m : Mutation) (ok : α)
    (p : Program α) (w : World) : Prop :=
  ∃ table, m.next saved.table = .ok table ∧
    wp (System Anything) p (fun r w' => r = ok ∧ Swapped cfg text table w')
      (SwapPending cfg text saved table) w

/-- What follows the copy of the table. -/
def Mutation.finish (cfg : Config) (text : JsonText) (m : Mutation) (table : Table) :
    Program DataResult :=
  match m.next table with
  | .error refusal => return refusal
  | .ok next => commit cfg text next

theorem Mutation.run_eq (m : Mutation) :
    m.run cfg text = loadTable >>= m.finish cfg text := by
  cases m with
  | insert info =>
    refine congrArg (loadTable >>= ·) (funext fun table => ?_)
    simp only [Mutation.finish, Mutation.next]
    split <;> rfl
  | delete url =>
    refine congrArg (loadTable >>= ·) (funext fun table => ?_)
    simp only [Mutation.finish, Mutation.next]
    by_cases hmem : url ∈ table
    · simp only [hmem, not_true_eq_false, ite_true, ite_false]
      rfl
    · simp only [hmem, not_false_eq_true, ite_true, ite_false]

/-- A mutation keeps both sides until the rename, and for good if it is refused or fails. -/
theorem committing_mutation {w : World} (m : Mutation) (hname : NameClear cfg (w.saved cfg).file) :
    committing (System Anything) (PastRename cfg text (w.saved cfg) m DataResult.ok) (m.run cfg text)
      (fun r w' => execute text (w.saved cfg) (.mutate m, .result r) = some (w.saved cfg) ∧
        r ≠ .ok ∧ w'.saved cfg = w.saved cfg)
      (fun w' => w'.saved cfg = w.saved cfg) w := by
  rw [Mutation.run_eq]
  have hload : wp (System Anything) loadTable (fun table w' => table = w.table ∧ Same w w')
      (Same w) w := wp_loadTable (Same.refl w) fun w₁ hD hfs => ⟨rfl, hD.same hfs⟩
  refine committing_seq hload (fun w' h => h.saved_eq cfg) ?_
  rintro table w₁ ⟨rfl, h₁⟩
  have hsaved := h₁.saved_eq cfg
  simp only [Mutation.finish]
  cases hnext : m.next w.table with
  | error refusal =>
    exact ⟨execute_refused hnext, Mutation.next_error hnext, hsaved⟩
  | ok next =>
    refine committing_mono committing_commit ?_ ?_ ?_
    · rintro r w' ⟨rfl, hl⟩
      refine ⟨execute_failed hnext, by simp, ?_⟩
      rw [touches_saved (hl.mono fun _ hp => hp.1) (hsaved ▸ hname), hsaved]
    · intro w' ht
      rw [touches_saved ht (hsaved ▸ hname), hsaved]
    · intro p w' hp
      refine ⟨next, hnext, ?_⟩
      refine wp_mono hp (fun r w'' hr => ⟨hr.1, hr.2.swapped⟩) fun w'' hp => ?_
      rw [← hsaved]
      exact hp.pending

/-! ### The calls of the readers -/

/-- Only the clock and the trace differ. -/
structure Later (w w₁ : World) : Prop where
  fs : w₁.fs = w.fs
  dirs : w₁.dirs = w.dirs
  table : w₁.table = w.table
  sessions : w₁.sessions = w.sessions
  attempts : w₁.attempts = w.attempts
  templates : w₁.templates = w.templates
  clock : w.clock ≤ w₁.clock

theorem Later.saved_eq {w w₁ : World} (h : Later w w₁) (cfg : Config) : w₁.saved cfg = w.saved cfg := by
  rw [World.saved, World.saved, h.fs, h.table]

theorem effect_now (w : World) (ch : Choice) (now : Int) (c : Call) :
    effect w { ch with now } c = effect w ch c := by
  cases c with
  | fs c => cases c <;> rfl
  | _ => rfl

theorem effect_trace (w : World) (ch : Choice) (trace : List Event) (c : Call) :
    effect { w with trace } ch c =
      ((effect w ch c).1, { (effect w ch c).2 with trace }) := by
  cases c <;> rfl

/-- The same answer, at the same time, can be given in the other world. -/
theorem Later.simulated {w w₁ : World} (h : Later w w₁) (c : Call) (ch : Choice) :
    ∃ ch', (answer w c ch').1 = (answer w₁ c ch).1 ∧
      Later (answer w c ch').2 (answer w₁ c ch).2 := by
  generalize hnow : max w₁.clock ch.now = now
  have hclock : max w.clock now = now := by
    have hle := h.clock
    omega
  have hworld : { w with clock := max w.clock now } =
      { { w₁ with clock := now } with trace := w.trace } := by
    rw [hclock]
    simp only [h.fs, h.dirs, h.table, h.sessions, h.attempts, h.templates]
  have heffect : effect { w with clock := max w.clock now } { ch with now } c =
      ((effect { w₁ with clock := now } ch c).1,
        { (effect { w₁ with clock := now } ch c).2 with trace := w.trace }) := by
    rw [hworld, effect_now, effect_trace]
  refine ⟨{ ch with now }, ?_, ?_⟩
  · simp only [answer]
    rw [heffect, hnow]
  · simp only [answer]
    rw [heffect, hnow]
    exact ⟨rfl, rfl, rfl, rfl, rfl, rfl, Int.le_refl _⟩

theorem simulates_later : Simulates (System Anything) Later := by
  rintro c w w₁ r w₁' h ⟨-, ch, hr⟩
  obtain ⟨ch', hanswer, hlater⟩ := h.simulated c ch
  rw [hr] at hanswer hlater
  exact ⟨(answer w c ch').2, ⟨trivial, ch', Prod.ext hanswer rfl⟩, hlater⟩

theorem respects_saved (P : Saved → Prop) : Respects Later fun w => P (w.saved cfg) := by
  intro w w₁ h hP
  rw [h.saved_eq cfg]
  exact hP

theorem later_of_loadTable {c : Call} {r : c.Resp} {w w' : World} (hc : c = .loadTable)
    (h : System Anything c w r w') : Later w w' := by
  subst hc
  obtain ⟨-, ch, hr⟩ := h
  obtain ⟨rfl, rfl⟩ := Prod.mk.injEq .. ▸ hr
  exact ⟨rfl, rfl, rfl, rfl, rfl, rfl, Int.le_max_left ..⟩

/-! ### Sections of the mutation lock -/

/-- What a mutation that has not committed may return. -/
def Keeps (cfg : Config) (text : JsonText) (saved : Saved) (op : DataOp) (a : Answer) (w : World) :
    Prop :=
  execute text saved (op, a) = some saved ∧ a ≠ .result .ok ∧ w.saved cfg = saved

/-- Inside a section everything is as the earlier sections left it until the commit. -/
def Inside (cfg : Config) (text : JsonText) (start : Saved) (done : List (DataOp × Answer))
    (op : DataOp) (p : Program Answer) (w : World) : Prop :=
  ∃ saved m, history text start done = some saved ∧ op = .mutate m ∧
    (committing (System Anything) (PastRename cfg text saved m (.result .ok)) p (Keeps cfg text saved op)
        (fun w' => w'.saved cfg = saved) w ∨
      PastRename cfg text saved m (.result .ok) p w)

theorem pastRename_respects (saved : Saved) (m : Mutation) (a : Answer) (p : Program Answer) :
    Respects Later (PastRename cfg text saved m a p) := by
  rintro w w₁ h ⟨table, hnext, hwp⟩
  refine ⟨table, hnext, wp_respects simulates_later ?_ ?_ w w₁ h hwp⟩
  · intro r w w₁ h ⟨hr, hs⟩
    exact ⟨hr, respects_saved (fun s => ∃ body, text.write (tableJson table) = some body ∧
      s = ⟨table, some body⟩) w w₁ h hs⟩
  · exact respects_saved fun s => ∃ body, text.write (tableJson table) = some body ∧
      s = ⟨saved.table, some body⟩

theorem committing_run {w : World} (m : Mutation) (hname : NameClear cfg (w.saved cfg).file) :
    committing (System Anything) (PastRename cfg text (w.saved cfg) m (Answer.result .ok))
      (DataOp.run cfg text (.mutate m)) (Keeps cfg text (w.saved cfg) (.mutate m))
      (fun w' => w'.saved cfg = w.saved cfg) w := by
  refine committing_bind (committing_mutation m hname) (fun _ h => h) ?_ ?_
  · rintro p w' ⟨table, hnext, hwp⟩
    refine ⟨table, hnext, wp_seq hwp (fun _ h => h) ?_⟩
    rintro r w'' ⟨rfl, hs⟩
    exact ⟨rfl, hs⟩
  · rintro r w' ⟨hexec, hr, hs⟩
    exact ⟨hexec, fun he => hr (Answer.result.inj he), hs⟩

theorem data_rule {start : Saved} (hname : NameClear cfg start.file) :
    SectionRule (DataOp.run cfg text) DataOp.locks (System Anything)
      (fun done w => history text start done = some (w.saved cfg))
      (Inside cfg text start) (fun c => c = .loadTable) where
  enter done op w hlocks h := by
    cases op with
    | mutate m =>
      exact ⟨_, m, h, rfl, Or.inl (committing_run m (history_nameClear h hname))⟩
    | query => cases hlocks
  call done op c next w r w' h hanswer := by
    obtain ⟨saved, m, hdone, hop, hearly | ⟨table, hnext, hlate⟩⟩ := h
    · exact ⟨saved, m, hdone, hop, hearly.2 r w' hanswer⟩
    · exact ⟨saved, m, hdone, hop, Or.inr ⟨table, hnext, hlate.2 r w' hanswer⟩⟩
  leave done op a w h := by
    obtain ⟨saved, m, hdone, rfl, hearly | ⟨table, hnext, rfl, body, hbody, hs⟩⟩ := h
    · obtain ⟨hexec, -, rfl⟩ := hearly
      rw [history_snoc hdone, hexec]
    · rw [history_snoc hdone, execute_done hnext hbody, hs]
  free op hlocks := by
    cases op with
    | mutate => cases hlocks
    | query q =>
      rw [DataOp.run, Query.run_eq]
      exact ⟨rfl, fun _ => trivial⟩
  quiet done c w r w' hc hanswer h := by
    rw [(later_of_loadTable hc hanswer).saved_eq cfg]
    exact h
  quiet_section done op p c w r w' hc hanswer h := by
    have hlater := later_of_loadTable hc hanswer
    obtain ⟨saved, m, hdone, hop, hearly | hlate⟩ := h
    · refine ⟨saved, m, hdone, hop, Or.inl ?_⟩
      refine committing_respects simulates_later ?_ (respects_saved fun s => s = saved)
        (pastRename_respects saved m _) w w' hlater hearly
      exact fun a => respects_saved fun s =>
        execute text saved (op, a) = some saved ∧ a ≠ .result .ok ∧ s = saved
    · exact ⟨saved, m, hdone, hop, Or.inr (pastRename_respects saved m _ p w w' hlater hlate)⟩

/-! ### What every run keeps -/

/-- The file holds the text of the table, or both are as they were at the start. -/
def Matched (text : JsonText) (start saved : Saved) : Prop :=
  saved = start ∨ ∃ body, text.write (tableJson saved.table) = some body ∧ saved.file = some body

theorem history_matched {start : Saved} {done : List (DataOp × Answer)}
    (h : history text start done = some saved) : Matched text start saved := by
  induction done using List.reverseRecOn generalizing saved with
  | nil =>
    cases h
    exact Or.inl rfl
  | append_singleton done x ih =>
    obtain ⟨before, hbefore, hx⟩ := history_append h
    obtain ⟨next, hnext, hnil⟩ := history_cons hx
    cases hnil
    obtain ⟨m, r, -, -, ⟨rfl, -⟩ | ⟨table, body, -, -, hbody, rfl⟩⟩ := execute_cases hnext
    · exact ih hbefore
    · exact Or.inr ⟨body, hbody, rfl⟩

variable {T : Type}

/-- A state, compared with what the sections that are over have left. -/
inductive Consistent (cfg : Config) (text : JsonText) (saved : Saved) (log : DataLog T)
    (s : DataThreads T) : Prop
  | settled : s.owner = none →
      begun DataOp.locks log = (sections DataOp.locks log).map Prod.fst →
      s.world.saved cfg = saved → Consistent cfg text saved log s
  /-- a mutator that has not renamed -/
  | early {t : T} {m : Mutation} {p : Program Answer} : s.owner = some t →
      s.phase t = .running (.mutate m) p →
      begun DataOp.locks log = (sections DataOp.locks log).map Prod.fst ++ [.mutate m] →
      s.world.saved cfg = saved →
      (∀ a, p = .ret a → execute text saved (.mutate m, a) = some saved) →
      Consistent cfg text saved log s
  /-- a mutator between its rename and its swap, with nothing else to come -/
  | pending {t : T} {m : Mutation} {p : Program Answer} {table : Table} {body : Bytes} :
      s.owner = some t → s.phase t = .running (.mutate m) p →
      begun DataOp.locks log = (sections DataOp.locks log).map Prod.fst ++ [.mutate m] →
      m.next saved.table = .ok table → text.write (tableJson table) = some body →
      s.world.saved cfg = ⟨saved.table, some body⟩ →
      (∀ a w', Runs (System Anything) p s.world a w' →
        a = .result .ok ∧ w'.saved cfg = ⟨table, some body⟩) →
      Consistent cfg text saved log s
  | swapped {t : T} {m : Mutation} {table : Table} {body : Bytes} :
      s.owner = some t → s.phase t = .running (.mutate m) (.ret (.result .ok)) →
      begun DataOp.locks log = (sections DataOp.locks log).map Prod.fst ++ [.mutate m] →
      m.next saved.table = .ok table → text.write (tableJson table) = some body →
      s.world.saved cfg = ⟨table, some body⟩ → Consistent cfg text saved log s

abbrev DataSectioned (cfg : Config) (text : JsonText) (start : Saved) (log : DataLog T)
    (s : DataThreads T) : Prop :=
  Sectioned DataOp.locks (fun done w => history text start done = some (w.saved cfg))
    (Inside cfg text start) (fun c => c = .loadTable) log s

theorem consistent_of_sectioned {start : Saved} {log : DataLog T} {s : DataThreads T}
    (h : DataSectioned cfg text start log s) :
    ∃ saved, history text start (sections DataOp.locks log) = some saved ∧
      Consistent cfg text saved log s := by
  cases h.locked with
  | free howner horder hdone => exact ⟨_, hdone, .settled howner horder rfl⟩
  | @held t op p howner hphase _ horder hinside =>
    obtain ⟨saved, m, hdone, rfl, hearly | ⟨table, hnext, hlate⟩⟩ := hinside
    · refine ⟨saved, hdone, .early howner hphase horder ?_ ?_⟩
      · cases p with
        | ret a => exact hearly.2.2
        | call => exact hearly.1
      · rintro a rfl
        exact hearly.1
    · cases p with
      | ret a =>
        obtain ⟨rfl, body, hbody, hs⟩ := hlate
        exact ⟨saved, hdone, .swapped howner hphase horder hnext hbody hs⟩
      | call c next =>
        obtain ⟨body, hbody, hs⟩ := hlate.1
        refine ⟨saved, hdone, .pending howner hphase horder hnext hbody hs ?_⟩
        intro a w' hrun
        obtain ⟨ha, body', hbody', hs'⟩ := wp_runs hlate hrun
        rw [hbody] at hbody'
        cases hbody'
        exact ⟨ha, hs'⟩

/-- A process that has loaded its metadata, before any call. -/
structure Started (cfg : Config) (text : JsonText) (s₀ : DataThreads T) : Prop where
  loaded : ∃ w, Runs (System Probed) (initLoad cfg text) (World.restart w) true s₀.world
  idle : ∀ t, s₀.phase t = .idle
  unlocked : s₀.owner = none

theorem Started.accepted {s₀ : DataThreads T} (h : Started cfg text s₀) :
    Loaded cfg text (s₀.world.saved cfg) := by
  obtain ⟨w, hrun⟩ := h.loaded
  have hempty : w.restart.table = ∅ := rfl
  have hend := wp_runs (wp_initLoad_probed hempty) hrun
  exact hend.2 rfl

section
variable [DecidableEq T]

/-- Durability of the metadata and no lost update, over every run from `s₀`. -/
structure Durable (cfg : Config) (text : JsonText) (s₀ : DataThreads T) : Prop where
  accepted : Loaded cfg text (s₀.world.saved cfg)
  /-- File and table are those of the mutations run one after the other in the order of
  their sections, but for a mutator between its rename and its return. -/
  serial : ∀ log s, DataRun cfg text s₀ log s →
    ∃ saved, history text (s₀.world.saved cfg) (sections DataOp.locks log) = some saved ∧
      Matched text (s₀.world.saved cfg) saved ∧ Consistent cfg text saved log s
  /-- A successful mutation is not overwritten. -/
  lasting : ∀ log s saved before m after, DataRun cfg text s₀ log s →
    history text (s₀.world.saved cfg) (sections DataOp.locks log) = some saved →
    sections DataOp.locks log = before ++ (.mutate m, .result .ok) :: after →
    (∀ m', (.mutate m', .result .ok) ∈ after → m'.url ≠ m.url) →
    saved.table.lookup m.url = m.record
  /-- A refused or failed one has changed neither side between its entry and its return. -/
  refused : ∀ log s₁ t m s₂ inside s₃ r s₄, DataRun cfg text s₀ log s₁ →
    DataStep cfg text s₁ (.entered t (.mutate m)) s₂ → DataRun cfg text s₂ inside s₃ →
    (∀ op a, .returned t op a ∉ inside) →
    DataStep cfg text s₃ (.returned t (.mutate m) (.result r)) s₄ → r ≠ .ok →
    s₄.world.saved cfg = s₁.world.saved cfg
  /-- A query is answered from `table_` as it is at one moment inside the call. -/
  answered : ∀ log s t q a s', DataRun cfg text s₀ log s →
    DataStep cfg text s (.returned t (.query q) a) s' →
    ∃ before after s₁, DataRun cfg text s₀ before s₁ ∧
      log = before ++ .called t .loadTable s₁.world.table :: after ∧
      s₁.phase t = .running (.query q) q.run ∧ (∀ l ∈ after, l.thread ≠ t) ∧
      a = q.answer s₁.world.table

theorem data_sectioned {s₀ s : DataThreads T} {log : DataLog T} (hstart : Started cfg text s₀)
    (hname : NameClear cfg (s₀.world.saved cfg).file) (hrun : DataRun cfg text s₀ log s) :
    DataSectioned cfg text (s₀.world.saved cfg) log s :=
  run_sections (data_rule hname) hstart.idle hstart.unlocked rfl hrun

theorem refused_keeps {s₀ s₁ s₂ s₃ s₄ : DataThreads T} {log inside : DataLog T} {t : T}
    {m : Mutation} {r : DataResult} (hstart : Started cfg text s₀)
    (hname : NameClear cfg (s₀.world.saved cfg).file) (hrun : DataRun cfg text s₀ log s₁)
    (henter : DataStep cfg text s₁ (.entered t (.mutate m)) s₂)
    (hinside : DataRun cfg text s₂ inside s₃) (hmid : ∀ op a, .returned t op a ∉ inside)
    (hreturn : DataStep cfg text s₃ (.returned t (.mutate m) (.result r)) s₄) (hr : r ≠ .ok) :
    s₄.world.saved cfg = s₁.world.saved cfg := by
  have h₁ := data_sectioned hstart hname hrun
  have h₂ := h₁.step (data_rule hname) henter
  have hentry : history text (s₀.world.saved cfg) (sections DataOp.locks log) =
      some (s₁.world.saved cfg) := by
    cases henter with
    | enter _ hfree =>
      cases h₁.locked with
      | free _ _ hdone => exact hdone
      | held howner =>
        rw [hfree rfl] at howner
        cases howner
  have howner₂ : s₂.owner = some t := by
    cases henter
    rfl
  obtain ⟨h₃, -, hnone⟩ := h₂.alone (data_rule hname) howner₂ hinside hmid
  have hsections : sections DataOp.locks (log ++ [.entered t (.mutate m)] ++ inside) =
      sections DataOp.locks log := by
    have happend : ∀ l l' : DataLog T, sections DataOp.locks (l ++ l') =
        sections DataOp.locks l ++ sections DataOp.locks l' := fun _ _ => List.filterMap_append
    rw [happend, happend, hnone]
    simp [sections]
  cases hreturn with
  | «return» hphase =>
    obtain ⟨-, -, saved, m', hdone, hop, hearly | ⟨table, -, he, -⟩⟩ := h₃.section hphase rfl
    · rw [hsections, hentry] at hdone
      cases hdone
      exact hearly.2.2
    · cases he
      exact absurd rfl hr

theorem query_answered {s₀ s s' : DataThreads T} {log : DataLog T} {t : T} {q : Query} {a : Answer}
    (hstart : Started cfg text s₀) (hrun : DataRun cfg text s₀ log s)
    (hreturn : DataStep cfg text s (.returned t (.query q) a) s') :
    ∃ before after s₁, DataRun cfg text s₀ before s₁ ∧
      log = before ++ .called t .loadTable s₁.world.table :: after ∧
      s₁.phase t = .running (.query q) q.run ∧ (∀ l ∈ after, l.thread ≠ t) ∧
      a = q.answer s₁.world.table := by
  cases hreturn with
  | «return» hphase =>
    have hop : DataOp.run cfg text (.query q) = .call .loadTable fun table => .ret (q.answer table) :=
      q.run_eq
    rcases run_one_call hop hstart.idle hrun hphase with hbegin | ⟨table, hret, hlast⟩
    · rw [hop] at hbegin
      cases hbegin
    · cases hret
      obtain ⟨before, after, s₁, w', hlog, hbefore, hphase₁, ⟨-, ch, hr⟩, hafter⟩ := hlast
      have htable : s₁.world.table = table := congrArg Prod.fst hr
      subst htable
      exact ⟨before, after, s₁, hbefore, hlog, hphase₁, hafter, rfl⟩

/-- Any number of threads, any interleaving of their calls and any failures of them. -/
theorem data_durable {s₀ : DataThreads T} (hstart : Started cfg text s₀)
    (hname : NameClear cfg (s₀.world.saved cfg).file) : Durable cfg text s₀ where
  accepted := hstart.accepted
  serial log s hrun := by
    obtain ⟨saved, hdone, hconsistent⟩ :=
      consistent_of_sectioned (data_sectioned hstart hname hrun)
    exact ⟨saved, hdone, history_matched hdone, hconsistent⟩
  lasting log s saved before m after _ hdone hsections hafter := by
    rw [hsections] at hdone
    exact history_lasts hdone hafter
  refused _ _ _ _ _ _ _ _ _ hrun henter hinside hmid hreturn hr :=
    refused_keeps hstart hname hrun henter hinside hmid hreturn hr
  answered _ _ _ _ _ _ hrun hreturn := query_answered hstart hrun hreturn

end

/-- Threads at rest on the memory that `InitLoad` leaves. -/
def startThreads (cfg : Config) (text : JsonText) (w : World) : DataThreads Nat where
  world := (playUnder Probed (initLoad cfg text) loadChoices w.restart).2
  phase _ := .idle
  owner := none

theorem startThreads_started {w : World}
    (h : (playUnder Probed (initLoad cfg text) loadChoices w.restart).1.result = some true) :
    Started cfg text (startThreads cfg text w) :=
  ⟨⟨w, playUnder_runs Probed h⟩, fun _ => rfl, rfl⟩

def playThreads (cfg : Config) (text : JsonText) (s₀ : DataThreads Nat)
    (moves : List (Move Nat DataOp Choice)) : Option (DataLog Nat × DataThreads Nat) :=
  Transition.Run.play (advance (DataOp.run cfg text) DataOp.locks answer Anything.test) s₀ moves

theorem playThreads_run {s₀ s : DataThreads Nat} {moves : List (Move Nat DataOp Choice)}
    {log : DataLog Nat} (h : playThreads cfg text s₀ moves = some (log, s)) :
    DataRun cfg text s₀ log s :=
  threadRun_of_play Anything.test_answer h

/-- The metadata file of one uploaded record. -/
def World.sampleSaved (cfg : Config) : World where
  fs := (FileSystem.empty.create (place cfg.storageInfo) 0).setInode 0
    ⟨tableText (sampleTable cfg), 0⟩
  dirs := []
  table := ∅
  sessions := ∅
  attempts := ∅
  templates := fun _ => none
  clock := 0
  trace := []

def emptyText (cfg : Config) : JsonText := textsOf [sampleTable cfg, ∅]

/-- A thread erases the record; another reads it between the rename and the swap. -/
def eraseMoves (cfg : Config) : List (Move Nat DataOp Choice) :=
  [.invoke 0 (.mutate (.delete (sampleRecord cfg).url_)), .invoke 1 (.query .getAll), .enter 0,
    .call 0 {}, .call 0 {}, .call 0 {}, .call 0 { name := lit "abcdef" }, .call 0 {}, .call 0 {},
    .call 0 {}, .call 0 {}, .call 0 {}, .call 0 {}, .enter 1, .call 1 {}, .call 0 {}, .call 0 {},
    .leave 1, .leave 0]

theorem data_durable_erase :
    ∃ s₀ : DataThreads Nat, Started settledConfig (emptyText settledConfig) s₀ ∧
      (∃ log s, DataRun settledConfig (emptyText settledConfig) s₀ log s ∧
        s.world.table.entries = [] ∧ (s.world.saved settledConfig).file = some (lit "[]")) ∧
      Durable settledConfig (emptyText settledConfig) s₀ := by
  let s₀ := startThreads settledConfig (emptyText settledConfig) (World.sampleSaved settledConfig)
  have hstart : Started settledConfig (emptyText settledConfig) s₀ :=
    startThreads_started (by decide +kernel)
  have hplay : (playThreads settledConfig (emptyText settledConfig) s₀
      (eraseMoves settledConfig)).any (fun out => decide (out.2.world.table.entries = [] ∧
        (out.2.world.saved settledConfig).file = some (lit "[]"))) = true := by decide +kernel
  obtain ⟨out, hout, hend⟩ := (Option.any_eq_true _ _).mp hplay
  refine ⟨s₀, hstart, ⟨out.1, out.2, playThreads_run hout, of_decide_eq_true hend⟩, ?_⟩
  exact data_durable hstart (Or.inl (by decide +kernel))

/-- A metadata file that is not there yet, with a name `mkstemp` can make. -/
def namedConfig : Config :=
  .shipped (lit "deep_storage") (lit "low_storage") (lit "tmp") (lit ".storage-AAAAAA")

def insertMoves : List (Move Nat DataOp Choice) :=
  [.invoke 0 (.mutate (.insert (sampleRecord namedConfig))), .enter 0, .call 0 {}, .call 0 {},
    .call 0 {}, .call 0 { name := lit "AAAAAA" }]

theorem tableText_ne_nil (table : Table) : tableText table ≠ [] := by
  unfold tableText
  split
  · decide
  · exact List.append_ne_nil_of_right_ne_nil _ (by decide)

theorem textsOf_write_ne_nil {tables : List Table} {v : Json} {body : Bytes}
    (h : (textsOf tables).write v = some body) : body ≠ [] := by
  obtain ⟨p, hp, rfl⟩ := Option.map_eq_some_iff.mp (Option.filter_eq_some_iff.mp h).1
  obtain ⟨table, -, rfl⟩ := List.mem_map.mp (List.mem_of_find?_eq_some hp)
  exact tableText_ne_nil table

/-- The temporary that becomes the metadata file as soon as it is made: it is there,
with nothing in it. -/
theorem temporary_named_as_metadata : ¬∀ (cfg : Config) (text : JsonText) (s₀ : DataThreads Nat),
    Config.Accepted cfg → text.RoundTrips → Started cfg text s₀ → Durable cfg text s₀ := by
  intro h
  let s₀ := startThreads namedConfig (sampleText namedConfig) World.empty
  have hstart : Started namedConfig (sampleText namedConfig) s₀ :=
    startThreads_started (by decide +kernel)
  have hfile : (s₀.world.saved namedConfig).file = none := by decide +kernel
  have hplay : (playThreads namedConfig (sampleText namedConfig) s₀ insertMoves).any (fun out =>
      decide (out.2.owner ≠ none ∧ (out.2.world.saved namedConfig).file = some [] ∧
        (sections DataOp.locks out.1).isEmpty = true)) = true := by decide +kernel
  obtain ⟨out, hout, hend⟩ := (Option.any_eq_true _ _).mp hplay
  obtain ⟨howner, hempty, hnone⟩ := of_decide_eq_true hend
  have haccepted : namedConfig.Accepted := Config.shipped_accepted (by decide) (by decide)
  have hdurable := h namedConfig (sampleText namedConfig) s₀ haccepted
    (JsonText.ofPairs_roundTrips (by simp)) hstart
  obtain ⟨saved, hdone, -, hconsistent⟩ := hdurable.serial _ _ (playThreads_run hout)
  rw [List.isEmpty_iff.mp hnone] at hdone
  cases hdone
  cases hconsistent with
  | settled hunlocked => exact howner hunlocked
  | early _ _ _ hs =>
    rw [hs, hfile] at hempty
    cases hempty
  | pending _ _ _ _ hbody hs =>
    rw [hs, Option.some.injEq] at hempty
    exact textsOf_write_ne_nil hbody hempty
  | swapped _ _ _ _ hbody hs =>
    rw [hs, Option.some.injEq] at hempty
    exact textsOf_write_ne_nil hbody hempty

end CloudStorage
