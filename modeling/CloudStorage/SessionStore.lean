import CloudStorage.Request

/-!
# `SessionStore`

Each method under its lock, with the clock readings it makes. Expired sessions
are erased where one is met: by `Validate`, and by the sweep of `Create`. The
ideal store never erases one.
-/

namespace CloudStorage
open Posix Transition

namespace SessionStore

/-- `RandomToken` from the answer of `RAND_bytes`. -/
def randomToken (bytes : Option Bytes) : Option Bytes := bytes.map hexDigits

/-- `RemoveExpiredLocked`, from an iterator position on. -/
def removeExpiredFrom (now : Int) :
    List (Sigma fun _ : Bytes => SessionRecord) → Sessions → Sessions
  | [], sessions => sessions
  | e :: rest, sessions =>
    removeExpiredFrom now rest
      (if e.2.expires_at ≤ now then sessions.erase e.1 else sessions)

def removeExpired (sessions : Sessions) (now : Int) : Sessions :=
  removeExpiredFrom now sessions.entries sessions

/-- The new tokens; `swept` and `now` are the clock of the sweep and of the expiry. -/
def create (sessions : Sessions) (ttl : Int) (session csrf : Option Bytes) (swept now : Int) :
    Option (Bytes × Bytes) × Sessions :=
  match randomToken session with
  | none => (none, sessions)
  | some session =>
    match randomToken csrf with
    | none => (none, sessions)
    | some csrf =>
      (some (session, csrf),
        (removeExpired sessions swept).insert session ⟨csrf, now + ttl * second⟩)

def validate (sessions : Sessions) (token : Bytes) (now : Int) : Option SessionRecord × Sessions :=
  match sessions.lookup token with
  | none => (none, sessions)
  | some record =>
    if record.expires_at ≤ now then (none, sessions.erase token) else (some record, sessions)

def remove (sessions : Sessions) (token : Bytes) : Sessions := sessions.erase token

/-! ### Runs -/

inductive Op
  | create (ttl : Int) (session csrf : Option Bytes) (swept now : Int)
  | validate (token : Bytes) (now : Int)
  | remove (token : Bytes)
  deriving DecidableEq, Repr

/-- What the caller gets. -/
inductive Answer
  | created (tokens : Option (Bytes × Bytes))
  | validated (record : Option SessionRecord)
  | removed
  deriving DecidableEq, Repr

def perform (sessions : Sessions) : Op → Answer × Sessions
  | .create ttl session csrf swept now =>
    let out := create sessions ttl session csrf swept now
    (.created out.1, out.2)
  | .validate token now =>
    let out := validate sessions token now
    (.validated out.1, out.2)
  | .remove token => (.removed, remove sessions token)

/-- The clock does not run back, within a call or between calls. -/
def Op.Timed (op : Op) (clock clock' : Int) : Prop :=
  match op with
  | .create _ _ _ swept now => clock ≤ swept ∧ swept ≤ now ∧ clock' = now
  | .validate _ now => clock ≤ now ∧ clock' = now
  | .remove _ => clock' = clock

structure State where
  sessions : Sessions
  clock : Int

structure Step (s : State) (e : Op × Answer) (s' : State) : Prop where
  timed : e.1.Timed s.clock s'.clock
  answer : (perform s.sessions e.1).1 = e.2
  sessions : s'.sessions = (perform s.sessions e.1).2

abbrev SessionRun := Run Step

/-! ### Sweeping -/

section
variable {sessions : Sessions} {token : Bytes} {now : Int}

theorem removeExpiredFrom_lookup {entries : List (Sigma fun _ : Bytes => SessionRecord)}
    (hnodup : entries.NodupKeys) :
    (removeExpiredFrom now entries sessions).lookup token =
      if (entries.dlookup token).any (fun record => decide (record.expires_at ≤ now)) then none
      else sessions.lookup token := by
  induction entries generalizing sessions with
  | nil => simp [removeExpiredFrom]
  | cons e rest ih =>
    obtain ⟨key, record⟩ := e
    have hrest := List.nodupKeys_cons.mp hnodup
    rw [removeExpiredFrom, ih hrest.2]
    by_cases hkey : key = token
    · subst hkey
      have hnone : rest.dlookup key = none := by
        rw [List.dlookup_eq_none]
        exact hrest.1
      rw [hnone, List.dlookup_cons_eq]
      simp only [Option.any_none, Bool.false_eq_true, if_false, Option.any_some, decide_eq_true_eq]
      split
      · rw [AList.lookup_erase]
      · rfl
    · have hne : token ≠ key := fun h => hkey h.symm
      rw [List.dlookup_cons_ne _ _ hne]
      have hlookup : (if record.expires_at ≤ now then sessions.erase key else sessions).lookup token =
          sessions.lookup token := by
        split
        · rw [AList.lookup_erase_ne hne]
        · rfl
      rw [hlookup]

theorem removeExpired_lookup :
    (removeExpired sessions now).lookup token =
      (sessions.lookup token).filter fun record => decide (now < record.expires_at) := by
  rw [removeExpired, removeExpiredFrom_lookup sessions.nodupKeys]
  cases h : sessions.lookup token with
  | none =>
    split
    · rfl
    · rfl
  | some record =>
    have h' : sessions.entries.dlookup token = some record := h
    rw [h', Option.any_some, Option.filter_some]
    by_cases hlive : now < record.expires_at
    · have hnot : ¬record.expires_at ≤ now := by omega
      simp only [hlive, hnot, decide_true, decide_false, Bool.false_eq_true, if_false, if_true]
    · have hdead : record.expires_at ≤ now := by omega
      simp only [hlive, hdead, decide_true, decide_false, Bool.false_eq_true, if_false, if_true]

end

/-! ### The ideal store -/

/-- Sessions are kept until they are removed. -/
abbrev Ideal := Bytes → Option SessionRecord

/-- The record, while it is not expired. -/
def liveAt (now : Int) (record : Option SessionRecord) : Option SessionRecord :=
  record.filter fun record => decide (now < record.expires_at)

def Ideal.perform (ideal : Ideal) : Op → Answer × Ideal
  | .create ttl session csrf _ now =>
    match randomToken session, randomToken csrf with
    | some session, some csrf =>
      (.created (some (session, csrf)),
        Function.update ideal session (some ⟨csrf, now + ttl * second⟩))
    | _, _ => (.created none, ideal)
  | .validate token now => (.validated (liveAt now (ideal token)), ideal)
  | .remove token => (.removed, Function.update ideal token none)

structure IdealState where
  ideal : Ideal
  clock : Int

structure IdealStep (s : IdealState) (e : Op × Answer) (s' : IdealState) : Prop where
  timed : e.1.Timed s.clock s'.clock
  answer : (s.ideal.perform e.1).1 = e.2
  ideal : s'.ideal = (s.ideal.perform e.1).2

/-- From now on the same sessions are live. -/
def Agree (s : State) (i : IdealState) : Prop :=
  s.clock = i.clock ∧ ∀ token t, s.clock ≤ t →
    liveAt t (s.sessions.lookup token) = liveAt t (i.ideal token)

theorem liveAt_later {record : Option SessionRecord} {now t : Int} (h : now ≤ t) :
    liveAt t (liveAt now record) = liveAt t record := by
  cases record with
  | none => rfl
  | some record =>
    simp only [liveAt, Option.filter_some]
    by_cases hlive : now < record.expires_at
    · simp only [hlive, decide_true, if_true, Option.filter_some]
    · have hdead : ¬t < record.expires_at := by omega
      simp only [hlive, hdead, decide_false, Bool.false_eq_true, if_false, Option.filter_none]

theorem validate_answer (sessions : Sessions) (token : Bytes) (now : Int) :
    (validate sessions token now).1 = liveAt now (sessions.lookup token) := by
  unfold validate
  cases sessions.lookup token with
  | none => rfl
  | some record =>
    simp only [liveAt, Option.filter_some]
    by_cases hdead : record.expires_at ≤ now
    · have hnot : ¬now < record.expires_at := by omega
      simp only [hdead, hnot, decide_false, Bool.false_eq_true, if_true, if_false]
    · have hlive : now < record.expires_at := by omega
      simp only [hdead, hlive, decide_true, if_true, if_false]

/-- What `Validate` erases is not live any more. -/
theorem validate_lookup (sessions : Sessions) (token other : Bytes) {now t : Int} (h : now ≤ t) :
    liveAt t ((validate sessions token now).2.lookup other) = liveAt t (sessions.lookup other) := by
  unfold validate
  cases hrecord : sessions.lookup token with
  | none => rfl
  | some record =>
    simp only
    split
    · rename_i hdead
      by_cases hother : other = token
      · subst hother
        have hnot : ¬t < record.expires_at := by omega
        simp only [AList.lookup_erase, hrecord, liveAt, Option.filter_some, Option.filter_none, hnot,
          decide_false, Bool.false_eq_true, if_false]
      · rw [AList.lookup_erase_ne hother]
    · rfl

theorem perform_agrees {s : State} {i : IdealState} {op : Op} {clock : Int} (h : Agree s i)
    (ht : op.Timed s.clock clock) :
    (perform s.sessions op).1 = (i.ideal.perform op).1 ∧
      Agree ⟨(perform s.sessions op).2, clock⟩ ⟨(i.ideal.perform op).2, clock⟩ := by
  obtain ⟨-, hlive⟩ := h
  cases op with
  | create ttl session csrf swept now =>
    obtain ⟨hswept, hnow, rfl⟩ := ht
    simp only [perform, create, Ideal.perform]
    cases randomToken session with
    | none => exact ⟨rfl, rfl, fun token t hle => hlive token t (by simp only at hle; omega)⟩
    | some session =>
      cases randomToken csrf with
      | none => exact ⟨rfl, rfl, fun token t hle => hlive token t (by simp only at hle; omega)⟩
      | some csrf =>
        refine ⟨rfl, rfl, fun token t hle => ?_⟩
        simp only at hle ⊢
        by_cases htoken : token = session
        · subst htoken
          rw [AList.lookup_insert, Function.update_self]
        · rw [AList.lookup_insert_ne htoken, Function.update_of_ne htoken, removeExpired_lookup]
          have hlater : liveAt t (liveAt swept (s.sessions.lookup token)) =
              liveAt t (s.sessions.lookup token) := liveAt_later (by omega)
          exact hlater.trans (hlive token t (by omega))
  | validate token now =>
    obtain ⟨hnow, rfl⟩ := ht
    refine ⟨?_, rfl, fun other t hle => ?_⟩
    · simp only [perform, Ideal.perform, validate_answer, hlive token _ hnow]
    · simp only [perform, Ideal.perform] at hle ⊢
      rw [validate_lookup _ _ _ hle]
      exact hlive other t (by omega)
  | remove token =>
    have hclock : clock = s.clock := ht
    refine ⟨rfl, rfl, fun other t hle => ?_⟩
    simp only [perform, Ideal.perform, remove] at hle ⊢
    by_cases hother : other = token
    · subst hother
      rw [AList.lookup_erase, Function.update_self]
    · rw [AList.lookup_erase_ne hother, Function.update_of_ne hother]
      exact hlive other t (by omega)

theorem step_agrees {s s' : State} {i : IdealState} {e : Op × Answer} (h : Step s e s')
    (hi : Agree s i) : ∃ i', IdealStep i e i' ∧ Agree s' i' := by
  obtain ⟨hanswer, hagree⟩ := perform_agrees hi h.timed
  refine ⟨⟨(i.ideal.perform e.1).2, s'.clock⟩, ⟨?_, ?_, rfl⟩, ?_⟩
  · rw [← hi.1]
    exact h.timed
  · rw [← hanswer, h.answer]
  · rw [← h.sessions] at hagree
    exact hagree

/-! ### Histories -/

def issuedToken (e : Op × Answer) : Option Bytes :=
  match e.2 with
  | .created (some tokens) => some tokens.1
  | _ => none

/-- No token is issued twice. -/
def Fresh (log : List (Op × Answer)) : Prop := (log.filterMap issuedToken).Nodup

instance (log : List (Op × Answer)) : Decidable (Fresh log) :=
  inferInstanceAs (Decidable (List.Nodup _))

/-- The operation issues the token with the record. -/
def Issues (e : Op × Answer) (token : Bytes) (record : SessionRecord) : Prop :=
  ∃ ttl session csrf swept now, e.1 = .create ttl session csrf swept now ∧
    e.2 = .created (some (token, record.csrf_token)) ∧ record.expires_at = now + ttl * second

/-- The token was issued with the record and not removed since. -/
def Held (log : List (Op × Answer)) (token : Bytes) (record : SessionRecord) : Prop :=
  ∃ log₁ e log₂, log = log₁ ++ e :: log₂ ∧ Issues e token record ∧
    ∀ e' ∈ log₂, e'.1 ≠ .remove token

theorem held_snoc {log : List (Op × Answer)} {e : Op × Answer} {token : Bytes}
    {record : SessionRecord} :
    Held (log ++ [e]) token record ↔
      Issues e token record ∨ (Held log token record ∧ e.1 ≠ .remove token) := by
  constructor
  · rintro ⟨log₁, e₁, log₂, hlog, hissues, hkept⟩
    cases log₂ using List.reverseRecOn with
    | nil =>
      have hlast := (List.append_inj' hlog rfl).2
      rw [List.cons.inj hlast |>.1]
      exact Or.inl hissues
    | append_singleton log₂ e₂ =>
      rw [← List.cons_append, ← List.append_assoc] at hlog
      obtain ⟨hlog', hlast⟩ := List.append_inj' hlog rfl
      have he : e = e₂ := (List.cons.inj hlast).1
      refine Or.inr ⟨⟨log₁, e₁, log₂, hlog', hissues, fun e' he' => ?_⟩, ?_⟩
      · exact hkept e' (List.mem_append_left _ he')
      · rw [he]
        exact hkept e₂ (List.mem_append_right _ (List.mem_singleton_self _))
  · rintro (hissues | ⟨⟨log₁, e₁, log₂, rfl, hissues, hkept⟩, hne⟩)
    · exact ⟨log, e, [], rfl, hissues, fun _ h => nomatch h⟩
    · refine ⟨log₁, e₁, log₂ ++ [e], by simp, hissues, fun e' he' => ?_⟩
      rcases List.mem_append.mp he' with he' | he'
      · exact hkept e' he'
      · rw [List.mem_singleton.mp he']
        exact hne

theorem held_issued {log : List (Op × Answer)} {token : Bytes} {record : SessionRecord}
    (h : Held log token record) : token ∈ log.filterMap issuedToken := by
  obtain ⟨log₁, e, log₂, rfl, ⟨_, _, _, _, _, _, hanswer, _⟩, -⟩ := h
  rw [List.mem_filterMap]
  refine ⟨e, List.mem_append_right _ (List.mem_cons_self ..), ?_⟩
  rw [issuedToken, hanswer]

theorem Fresh.init {log : List (Op × Answer)} {e : Op × Answer} (h : Fresh (log ++ [e])) :
    Fresh log := by
  unfold Fresh at h ⊢
  rw [List.filterMap_append] at h
  exact (List.nodup_append.mp h).1

theorem Fresh.last {log : List (Op × Answer)} {e : Op × Answer} (h : Fresh (log ++ [e]))
    {token : Bytes} (he : issuedToken e = some token) : token ∉ log.filterMap issuedToken := by
  unfold Fresh at h
  rw [List.filterMap_append] at h
  intro hmem
  refine (List.nodup_append.mp h).2.2 token hmem token ?_ rfl
  rw [List.mem_filterMap]
  exact ⟨e, List.mem_singleton_self _, he⟩

/-- The ideal store holds what the history does. -/
theorem ideal_step_held {i i' : IdealState} {log : List (Op × Answer)} {e : Op × Answer}
    (h : IdealStep i e i') (hfresh : Fresh (log ++ [e]))
    (hheld : ∀ token record, i.ideal token = some record ↔ Held log token record)
    (token : Bytes) (record : SessionRecord) :
    i'.ideal token = some record ↔ Held (log ++ [e]) token record := by
  obtain ⟨op, answer⟩ := e
  have hanswer : answer = (i.ideal.perform op).1 := h.answer.symm
  rw [held_snoc, h.ideal, ← hheld]
  cases op with
  | create ttl session csrf swept now =>
    have hkept : (Op.create ttl session csrf swept now) ≠ .remove token := fun h => nomatch h
    simp only [Ideal.perform] at hanswer ⊢
    split at hanswer
    · rename_i session' csrf' _ _
      simp only
      by_cases htoken : token = session'
      · subst htoken
        have hnone : ¬i.ideal token = some record := by
          rw [hheld]
          intro hold
          refine hfresh.last ?_ (held_issued hold)
          rw [issuedToken, hanswer]
        simp only [Function.update_self, hnone, false_and, or_false, Option.some.injEq]
        constructor
        · rintro rfl
          exact ⟨ttl, session, csrf, swept, now, rfl, hanswer, rfl⟩
        · rintro ⟨_, _, _, _, _, hop, hans, hexp⟩
          cases hop
          rw [hanswer] at hans
          obtain ⟨token', expires⟩ := record
          simp only [Answer.created.injEq, Option.some.injEq, Prod.mk.injEq, true_and] at hans
          simp only at hexp
          rw [hans, hexp]
      · have hno : ¬Issues (Op.create ttl session csrf swept now, answer) token record := by
          rintro ⟨_, _, _, _, _, -, hans, -⟩
          simp only [hanswer, Answer.created.injEq, Option.some.injEq, Prod.mk.injEq] at hans
          exact htoken hans.1.symm
        simp only [Function.update_of_ne htoken, hno, hkept, ne_eq, not_false_eq_true, and_true,
          false_or]
    · have hno : ¬Issues (Op.create ttl session csrf swept now, answer) token record := by
        rintro ⟨_, _, _, _, _, -, hans, -⟩
        simp only [hanswer, Answer.created.injEq, reduceCtorEq] at hans
      simp only [hno, hkept, ne_eq, not_false_eq_true, and_true, false_or]
  | validate other now =>
    have hkept : (Op.validate other now) ≠ .remove token := fun h => nomatch h
    have hno : ¬Issues (Op.validate other now, answer) token record := by
      rintro ⟨_, _, _, _, _, hop, -, -⟩
      cases hop
    simp only [Ideal.perform, hno, hkept, ne_eq, not_false_eq_true, and_true, false_or]
  | remove other =>
    have hno : ¬Issues (Op.remove other, answer) token record := by
      rintro ⟨_, _, _, _, _, hop, -, -⟩
      cases hop
    simp only [Ideal.perform, hno, false_or, ne_eq, Op.remove.injEq]
    by_cases hother : token = other
    · subst hother
      simp only [Function.update_self, reduceCtorEq, not_true_eq_false, and_false]
    · have hne : ¬other = token := fun h => hother h.symm
      simp only [Function.update_of_ne hother, hne, not_false_eq_true, and_true]

theorem ideal_run_held {i : IdealState} {log : List (Op × Answer)} {c : Int}
    (h : Run IdealStep ⟨fun _ => none, c⟩ log i) (hfresh : Fresh log) (token : Bytes)
    (record : SessionRecord) : i.ideal token = some record ↔ Held log token record := by
  induction h generalizing token record with
  | nil =>
    simp only [reduceCtorEq, false_iff]
    rintro ⟨log₁, e, log₂, hlog, -⟩
    simp at hlog
  | snoc _ hstep ih => exact ideal_step_held hstep hfresh (ih hfresh.init) token record

/-- The store answers as the ideal one, and a token is valid exactly while the session it was
issued for is neither removed nor over. -/
theorem sessions_ideal {s : State} {log : List (Op × Answer)} {c : Int}
    (hrun : SessionRun ⟨∅, c⟩ log s) (hfresh : Fresh log) :
    (∃ ideal, Run IdealStep ⟨fun _ => none, c⟩ log ⟨ideal, s.clock⟩) ∧
      ∀ token now csrf, s.clock ≤ now →
        ((∃ record, (validate s.sessions token now).1 = some record ∧
            record.csrf_token = csrf) ↔
          ∃ log₁ log₂ ttl session csrf' swept issued,
            log = log₁ ++ (.create ttl session csrf' swept issued,
              .created (some (token, csrf))) :: log₂ ∧
            (∀ e ∈ log₂, e.1 ≠ .remove token) ∧ now < issued + ttl * second) := by
  have hstart : Agree ⟨∅, c⟩ ⟨fun _ => none, c⟩ := by
    refine ⟨rfl, fun token t _ => ?_⟩
    rw [AList.lookup_empty]
  have hstep : ∀ s e s' i, Step s e s' → Agree s i → ∃ i', IdealStep i e i' ∧ Agree s' i' :=
    fun _ _ _ _ => step_agrees
  obtain ⟨i, hideal, hclock, hagree⟩ := hrun.simulates hstep hstart
  have hheld := ideal_run_held hideal hfresh
  refine ⟨⟨i.ideal, ?_⟩, ?_⟩
  · rw [hclock]
    exact hideal
  · intro token now csrf hnow
    rw [validate_answer, hagree token now hnow]
    constructor
    · rintro ⟨record, hlive, rfl⟩
      obtain ⟨hrecord, hlt⟩ := Option.filter_eq_some_iff.mp hlive
      obtain ⟨log₁, e, log₂, hlog, ⟨ttl, session, csrf', swept, issued, hop, hans, hexp⟩, hkept⟩ :=
        (hheld token record).mp hrecord
      obtain ⟨op, answer⟩ := e
      cases hop
      cases hans
      refine ⟨log₁, log₂, ttl, session, csrf', swept, issued, hlog, hkept, ?_⟩
      rw [← hexp]
      exact of_decide_eq_true hlt
    · rintro ⟨log₁, log₂, ttl, session, csrf', swept, issued, hlog, hkept, hlt⟩
      refine ⟨⟨csrf, issued + ttl * second⟩, ?_, rfl⟩
      rw [liveAt, Option.filter_eq_some_iff]
      refine ⟨(hheld _ _).mpr ⟨log₁, _, log₂, hlog, ?_, hkept⟩, decide_eq_true hlt⟩
      exact ⟨ttl, session, csrf', swept, issued, rfl, rfl, rfl⟩

/-! ### A recorded run -/

instance (op : Op) (clock clock' : Int) : Decidable (op.Timed clock clock') :=
  match op with
  | .create .. => inferInstanceAs (Decidable (_ ∧ _))
  | .validate .. => inferInstanceAs (Decidable (_ ∧ _))
  | .remove _ => inferInstanceAs (Decidable (_ = _))

/-- One operation after which the clock reads `i.2`. -/
def next (s : State) (i : Op × Int) : Option ((Op × Answer) × State) :=
  if i.1.Timed s.clock i.2 then
    some ((i.1, (perform s.sessions i.1).1), ⟨(perform s.sessions i.1).2, i.2⟩)
  else none

theorem next_step {s s' : State} {i : Op × Int} {e : Op × Answer} (h : next s i = some (e, s')) :
    Step s e s' := by
  unfold next at h
  split at h
  · rename_i htimed
    cases h
    exact ⟨htimed, rfl, rfl⟩
  · cases h

/-- A session of a minute that is used, then a logout of another one. -/
def sampleOps : List (Op × Int) := [
  (.create 60 (some (List.replicate 32 1)) (some (List.replicate 32 2)) 0 0, 0),
  (.validate (hexDigits (List.replicate 32 1)) second, second),
  (.remove (hexDigits (List.replicate 32 3)), second)]

theorem sessions_ideal_sample : ∃ log s, Run.play next ⟨∅, 0⟩ sampleOps = some (log, s) ∧
    (∃ ideal, Run IdealStep ⟨fun _ => none, 0⟩ log ⟨ideal, s.clock⟩) ∧
      ∀ token now csrf, s.clock ≤ now →
        ((∃ record, (validate s.sessions token now).1 = some record ∧
            record.csrf_token = csrf) ↔
          ∃ log₁ log₂ ttl session csrf' swept issued,
            log = log₁ ++ (.create ttl session csrf' swept issued,
              .created (some (token, csrf))) :: log₂ ∧
            (∀ e ∈ log₂, e.1 ≠ .remove token) ∧ now < issued + ttl * second) := by
  have hplay : (Run.play next ⟨∅, 0⟩ sampleOps).any
      (fun done => decide (Fresh done.1)) = true := by decide +kernel
  obtain ⟨⟨log, s⟩, hrun, hfresh⟩ := (Option.any_eq_true _ _).mp hplay
  have hnext : ∀ s i e s', next s i = some (e, s') → Step s e s' := fun _ _ _ _ => next_step
  exact ⟨log, s, hrun, sessions_ideal (Run.of_play hnext hrun) (of_decide_eq_true hfresh)⟩

end SessionStore
end CloudStorage
