import CloudStorage.Lib.Transition
import Mathlib.Algebra.BigOperators.Group.Finset.Basic
import Mathlib.Algebra.Order.BigOperators.Group.Finset
import Mathlib.Data.Fintype.Basic

/-!
# Threads with one mutex and condition variables

A thread stands at a point of its code, sleeps on a condition variable, or has
been woken and has to take the mutex again before it goes on. Sleeping releases
the mutex in the same step; a sleeper may be woken for no reason. Two rules are
proved of every run: the one for sleepers whose predicate becomes true only
under the hand of a thread that notifies afterwards, and the one that counts
notifications against what they announce.
-/

namespace Monitor

/-- `asleep` and `woken` threads come back to `pc`, where the wait was called. -/
inductive Phase (C P : Type)
  | running (pc : P)
  | asleep (c : C) (pc : P)
  | woken (c : C) (pc : P)
  deriving DecidableEq

inductive Note (C : Type)
  | one (c : C)
  | all (c : C)
  deriving DecidableEq

/-- `enter` takes the mutex and keeps it, `leave` gives it back. -/
inductive Kind
  | enter
  | leave
  | free
  deriving DecidableEq

structure Act (C P σ L : Type) where
  shared : σ
  pc : P
  note : Option (Note C) := none
  label : Option L := none

/-- `wait` is a wait whose predicate is false; it gives the mutex back. -/
inductive Move (C P σ L : Type)
  | wait (c : C)
  | act (kind : Kind) (a : Act C P σ L)

/-- What thread `i` does next at a point of its code; `E` is what the outside
decides. -/
abbrev Program (ι C P σ E L : Type) := ι → P → E → σ → Option (Move C P σ L)

structure State (ι C P σ : Type) where
  shared : σ
  mutex : Option ι
  phase : ι → Phase C P

/-- `target` is the sleeper that a `notify_one` of this step wakes. -/
inductive Event (ι E : Type)
  | run (i : ι) (e : E) (target : Option ι)
  | spurious (i : ι)

variable {ι C P σ E L : Type}

namespace Phase

def asleepOn [DecidableEq C] (c : C) : Phase C P → Bool
  | .asleep c' _ => c' = c
  | _ => false

def wokenOn [DecidableEq C] (c : C) : Phase C P → Bool
  | .woken c' _ => c' = c
  | _ => false

def wake [DecidableEq C] (c : C) : Phase C P → Phase C P
  | .asleep c' pc => if c' = c then .woken c' pc else .asleep c' pc
  | ph => ph

/-- Where a thread that is not asleep goes on. -/
def point : Phase C P → Option P
  | .running pc => some pc
  | .asleep _ _ => none
  | .woken _ pc => some pc

/-- Where a thread that goes on by itself stands. -/
def standing : Phase C P → Option P
  | .running pc => some pc
  | _ => none

theorem standing_of_point {ph : Phase C P} {pc : P} (h : ph.point = some pc) :
    ph.standing = none ∨ ph.standing = some pc := by
  cases ph with
  | running pc' => exact .inr h
  | asleep c pc' => exact .inl rfl
  | woken c pc' => exact .inl rfl

theorem standing_eq_some {ph : Phase C P} {pc : P} :
    ph.standing = some pc ↔ ph = .running pc := by
  cases ph <;> simp [standing]

theorem wake_cases [DecidableEq C] (c : C) (ph : Phase C P) :
    (∃ pc, ph = .asleep c pc ∧ ph.wake c = .woken c pc) ∨
      ph.asleepOn c = false ∧ ph.wake c = ph := by
  cases ph with
  | running pc => exact .inr ⟨rfl, rfl⟩
  | woken c' pc => exact .inr ⟨rfl, rfl⟩
  | asleep c' pc =>
    by_cases h : c' = c
    · subst h
      exact .inl ⟨pc, rfl, by simp [wake]⟩
    · exact .inr ⟨by simp [asleepOn, h], by simp [wake, h]⟩

end Phase

section Step
variable [Fintype ι] [DecidableEq ι] [DecidableEq C]

/-- `notify_one` wakes some sleeper; only where there is none it does nothing. -/
def notify (phase : ι → Phase C P) (target : Option ι) :
    Option (Note C) → Option (ι → Phase C P)
  | none => some phase
  | some (.all c) => some fun j => (phase j).wake c
  | some (.one c) =>
    match target with
    | some j =>
      if (phase j).asleepOn c then some (Function.update phase j ((phase j).wake c)) else none
    | none => if ∀ j, (phase j).asleepOn c = false then some phase else none

def Kind.allowed (kind : Kind) (s : State ι C P σ) (i : ι) : Bool :=
  match kind with
  | .enter => s.mutex.isNone
  | .leave => (s.phase i).standing.isSome && s.mutex == some i
  | .free => (s.phase i).standing.isSome

def Kind.mutexAfter (kind : Kind) (mutex : Option ι) (i : ι) : Option ι :=
  match kind with
  | .enter => some i
  | .leave => none
  | .free => mutex

def exec (prog : Program ι C P σ E L) (s : State ι C P σ) :
    Event ι E → Option (Option L × State ι C P σ)
  | .spurious i =>
    match s.phase i with
    | .asleep c pc => some (none, { s with phase := Function.update s.phase i (.woken c pc) })
    | _ => none
  | .run i e target =>
    match (s.phase i).point with
    | none => none
    | some pc =>
      match prog i pc e s.shared with
      | none => none
      | some (.wait c) =>
        if s.mutex.isNone then
          some (none, { s with phase := Function.update s.phase i (.asleep c pc) })
        else none
      | some (.act kind a) =>
        if kind.allowed s i then
          (notify (Function.update s.phase i (.running a.pc)) target a.note).map fun phase =>
            (a.label, ⟨a.shared, kind.mutexAfter s.mutex i, phase⟩)
        else none

def Step (prog : Program ι C P σ E L) (s : State ι C P σ) (l : Option L)
    (s' : State ι C P σ) : Prop :=
  ∃ event, exec prog s event = some (l, s')

theorem run_of_play {prog : Program ι C P σ E L} {s s' : State ι C P σ}
    {events : List (Event ι E)} {log : List (Option L)}
    (h : Transition.Run.play (exec prog) s events = some (log, s')) :
    Transition.Run (Step prog) s log s' := by
  have hnext : ∀ s event l s', exec prog s event = some (l, s') → Step prog s l s' := by
    intro s event l s' h
    exact ⟨event, h⟩
  exact Transition.Run.of_play hnext h

/-- A thread at `pc` that is to go on there, fresh or back from a wait; what is
done without taking the mutex is not done by one that is back. -/
def Goes (ph : Phase C P) (pc : P) (kind : Kind) : Prop :=
  ph.point = some pc ∧ (ph = .running pc ∨ kind = .enter)

/-- The ways a step can go. -/
inductive Effect (prog : Program ι C P σ E L) (s : State ι C P σ) :
    Option L → State ι C P σ → Prop
  | wait (i : ι) (pc : P) (e : E) (c : C) (hpoint : (s.phase i).point = some pc)
      (hmove : prog i pc e s.shared = some (.wait c)) :
      Effect prog s none { s with phase := Function.update s.phase i (.asleep c pc) }
  | act (i : ι) (pc : P) (e : E) (kind : Kind) (a : Act C P σ L) (target : Option ι)
      (phase : ι → Phase C P) (hgoes : Goes (s.phase i) pc kind)
      (hmove : prog i pc e s.shared = some (.act kind a))
      (hnotify : notify (Function.update s.phase i (.running a.pc)) target a.note = some phase) :
      Effect prog s a.label ⟨a.shared, kind.mutexAfter s.mutex i, phase⟩
  | spurious (i : ι) (c : C) (pc : P) (hphase : s.phase i = .asleep c pc) :
      Effect prog s none { s with phase := Function.update s.phase i (.woken c pc) }

omit [Fintype ι] [DecidableEq C] in
theorem Kind.goes_of_allowed {kind : Kind} {s : State ι C P σ} {i : ι} {pc : P}
    (hpoint : (s.phase i).point = some pc) (hallowed : kind.allowed s i = true) :
    Goes (s.phase i) pc kind := by
  constructor
  · exact hpoint
  · cases hph : s.phase i with
    | running pc' =>
      rw [hph] at hpoint
      cases hpoint
      exact .inl rfl
    | asleep c pc' =>
      rw [hph] at hpoint
      cases hpoint
    | woken c pc' =>
      cases kind with
      | enter => exact .inr rfl
      | leave => simp [Kind.allowed, hph, Phase.standing] at hallowed
      | free => simp [Kind.allowed, hph, Phase.standing] at hallowed

omit [Fintype ι] [DecidableEq ι] [DecidableEq C] in
theorem Goes.standing {ph : Phase C P} {pc : P} {kind : Kind} (h : Goes ph pc kind)
    (hkind : kind ≠ .enter) : ph.standing = some pc := by
  obtain ⟨-, hph | henter⟩ := h
  · rw [hph]
    rfl
  · exact absurd henter hkind

theorem Step.effect {prog : Program ι C P σ E L} {s s' : State ι C P σ} {l : Option L}
    (h : Step prog s l s') : Effect prog s l s' := by
  obtain ⟨event, h⟩ := h
  cases event with
  | spurious i =>
    simp only [exec] at h
    split at h
    · rename_i c pc hphase
      cases h
      exact .spurious i c pc hphase
    · cases h
  | run i e target =>
    simp only [exec] at h
    split at h
    · cases h
    · rename_i pc hpoint
      split at h
      · cases h
      · rename_i c hmove
        split at h
        · cases h
          exact .wait i pc e c hpoint hmove
        · cases h
      · rename_i kind a hmove
        split at h
        · rename_i hallowed
          simp only [Option.map_eq_some_iff, Prod.mk.injEq] at h
          obtain ⟨phase, hnotify, rfl, rfl⟩ := h
          exact .act i pc e kind a target phase (Kind.goes_of_allowed hpoint hallowed) hmove
            hnotify
        · cases h

/-! ### What a notification does to the threads -/

theorem notify_phase {phase phase' : ι → Phase C P} {target : Option ι} {note : Option (Note C)}
    (h : notify phase target note = some phase') (j : ι) :
    phase' j = phase j ∨ ∃ c pc, phase j = .asleep c pc ∧ phase' j = .woken c pc := by
  cases note with
  | none =>
    cases h
    exact .inl rfl
  | some note =>
    cases note with
    | all c =>
      cases h
      obtain ⟨pc, hasleep, hwoken⟩ | ⟨-, hsame⟩ := (phase j).wake_cases c
      · exact .inr ⟨c, pc, hasleep, hwoken⟩
      · exact .inl hsame
    | one c =>
      cases target with
      | none =>
        simp only [notify, Option.ite_none_right_eq_some, Option.some.injEq] at h
        obtain ⟨-, rfl⟩ := h
        exact .inl rfl
      | some k =>
        simp only [notify, Option.ite_none_right_eq_some, Option.some.injEq] at h
        obtain ⟨-, rfl⟩ := h
        by_cases hj : j = k
        · subst hj
          rw [Function.update_self]
          obtain ⟨pc, hasleep, hwoken⟩ | ⟨-, hsame⟩ := (phase j).wake_cases c
          · exact .inr ⟨c, pc, hasleep, hwoken⟩
          · exact .inl hsame
        · rw [Function.update_of_ne hj]
          exact .inl rfl

theorem notify_standing {phase phase' : ι → Phase C P} {target : Option ι}
    {note : Option (Note C)} (h : notify phase target note = some phase') (j : ι) :
    (phase' j).standing = (phase j).standing := by
  obtain hsame | ⟨c, pc, hasleep, hwoken⟩ := notify_phase h j
  · rw [hsame]
  · rw [hasleep, hwoken]
    rfl

theorem notify_running {phase phase' : ι → Phase C P} {target : Option ι}
    {note : Option (Note C)} (h : notify phase target note = some phase') {j : ι} {pc : P} :
    phase' j = .running pc ↔ phase j = .running pc := by
  rw [← Phase.standing_eq_some, notify_standing h j, Phase.standing_eq_some]

theorem notify_asleep {phase phase' : ι → Phase C P} {target : Option ι}
    {note : Option (Note C)} (h : notify phase target note = some phase') {j : ι} {c : C} {pc : P}
    (hj : phase' j = .asleep c pc) : phase j = .asleep c pc := by
  obtain hsame | ⟨c', pc', hasleep, hwoken⟩ := notify_phase h j
  · rwa [← hsame]
  · rw [hwoken] at hj
    cases hj

theorem not_asleep_of_notify_all {phase phase' : ι → Phase C P} {target : Option ι} {c : C}
    (h : notify phase target (some (.all c)) = some phase') {j : ι} {pc : P} :
    phase' j ≠ .asleep c pc := by
  intro hj
  have hbefore := notify_asleep h hj
  cases h
  simp [hbefore, Phase.wake] at hj

/-- After `notify_one` a sleeper is left only beside one that was woken. -/
theorem notify_one_target {phase phase' : ι → Phase C P} {target : Option ι} {c : C}
    (h : notify phase target (some (.one c)) = some phase') {j : ι} {pc : P}
    (hj : phase' j = .asleep c pc) :
    ∃ k pck, k ≠ j ∧ phase k = .asleep c pck ∧ phase' = Function.update phase k (.woken c pck) := by
  have hbefore := notify_asleep h hj
  cases target with
  | none =>
    simp only [notify, Option.ite_none_right_eq_some] at h
    have hnobody := h.1 j
    simp [hbefore, Phase.asleepOn] at hnobody
  | some k =>
    simp only [notify, Option.ite_none_right_eq_some, Option.some.injEq] at h
    obtain ⟨htarget, rfl⟩ := h
    obtain ⟨pck, hasleep, hwoken⟩ | ⟨hnot, -⟩ := (phase k).wake_cases c
    · have hne : k ≠ j := by
        intro hkj
        subst hkj
        rw [Function.update_self, hwoken] at hj
        cases hj
      exact ⟨k, pck, hne, hasleep, by rw [hwoken]⟩
    · rw [hnot] at htarget
      cases htarget

/-- What invariants need that do not speak of sleepers: a step is the act of one
thread, or one thread is put to sleep or woken. -/
theorem Step.view {prog : Program ι C P σ E L} {s s' : State ι C P σ} {l : Option L}
    (h : Step prog s l s') :
    (∃ i, l = none ∧ s'.shared = s.shared ∧ (s'.phase i).standing = none ∧
      (∀ pc, (s.phase i).standing = some pc → ∃ e c, prog i pc e s.shared = some (.wait c)) ∧
      ∀ j, j ≠ i → (s'.phase j).standing = (s.phase j).standing) ∨
    ∃ i pc e kind a, Goes (s.phase i) pc kind ∧ prog i pc e s.shared = some (.act kind a) ∧
      l = a.label ∧ s'.shared = a.shared ∧ (s'.phase i).standing = some a.pc ∧
      ∀ j, j ≠ i → (s'.phase j).standing = (s.phase j).standing := by
  cases h.effect with
  | wait i pc e c hpoint hmove =>
    left
    refine ⟨i, rfl, rfl, ?_, ?_, ?_⟩
    · simp only [Function.update_self]
      rfl
    · intro pc' hpc'
      rw [Phase.standing_eq_some] at hpc'
      rw [hpc'] at hpoint
      cases hpoint
      exact ⟨e, c, hmove⟩
    · intro j hj
      simp only [Function.update_of_ne hj]
  | act i pc e kind a target phase hgoes hmove hnotify =>
    right
    refine ⟨i, pc, e, kind, a, hgoes, hmove, rfl, rfl, ?_, ?_⟩
    · rw [notify_standing hnotify, Function.update_self]
      rfl
    · intro j hj
      rw [notify_standing hnotify, Function.update_of_ne hj]
  | spurious i c pc hphase =>
    left
    refine ⟨i, rfl, rfl, ?_, ?_, ?_⟩
    · simp only [Function.update_self]
      rfl
    · intro pc' hpc'
      rw [hphase] at hpc'
      cases hpc'
    · intro j hj
      simp only [Function.update_of_ne hj]

/-! ### Where a thread can sleep -/

/-- Every wait of the program is one that `Waits` knows. -/
def WaitsAt (prog : Program ι C P σ E L) (Waits : ι → C → P → Prop) : Prop :=
  ∀ i pc e sh c, prog i pc e sh = some (.wait c) → Waits i c pc

def Placed (Waits : ι → C → P → Prop) (s : State ι C P σ) : Prop :=
  ∀ i c pc, s.phase i = .asleep c pc ∨ s.phase i = .woken c pc → Waits i c pc

theorem Placed.step {prog : Program ι C P σ E L} {Waits : ι → C → P → Prop}
    (hwaits : WaitsAt prog Waits) {s s' : State ι C P σ} {l : Option L}
    (h : Placed Waits s) (hstep : Step prog s l s') : Placed Waits s' := by
  intro j c pc hj
  cases hstep.effect with
  | wait i pci e ci hpoint hmove =>
    by_cases hji : j = i
    · subst hji
      simp only [Function.update_self] at hj
      obtain hj | hj := hj
      · cases hj
        exact hwaits _ _ _ _ _ hmove
      · cases hj
    · simp only [Function.update_of_ne hji] at hj
      exact h j c pc hj
  | act i pci e kind a target phase hgoes hmove hnotify =>
    by_cases hji : j = i
    · have hrun : phase j = .running a.pc := by
        rw [notify_running hnotify, hji, Function.update_self]
      simp only [hrun] at hj
      obtain hj | hj := hj <;> cases hj
    · have hbefore := notify_phase hnotify j
      rw [Function.update_of_ne hji] at hbefore
      obtain hsame | ⟨c', pc', hasleep, hwoken⟩ := hbefore
      · simp only [hsame] at hj
        exact h j c pc hj
      · simp only [hwoken] at hj
        obtain hj | hj := hj
        · cases hj
        · cases hj
          exact h j c pc (.inl hasleep)
  | spurious i ci pci hphase =>
    by_cases hji : j = i
    · subst hji
      simp only [Function.update_self] at hj
      obtain hj | hj := hj
      · cases hj
      · cases hj
        exact h j c pc (.inl hphase)
    · simp only [Function.update_of_ne hji] at hj
      exact h j c pc hj

/-! ### No lost wake-up -/

/-- A thread at a point that `Owes` names has yet to notify the sleepers of `c`. -/
def Pending (Owes : P → C → Prop) (s : State ι C P σ) (c : C) : Prop :=
  ∃ k pc, s.phase k = .running pc ∧ Owes pc c

/-- A step makes a sleeper's predicate true only where it leaves a notification
pending, and pays a pending one only by making it; a `notify_one` is enough where
only one thread can sleep. -/
structure Announced (prog : Program ι C P σ E L) (Waits : ι → C → P → Prop)
    (Ready : P → σ → Prop) (Owes : P → C → Prop) : Prop where
  waits : WaitsAt prog Waits
  wait : ∀ i pc e sh c, prog i pc e sh = some (.wait c) →
    ¬Ready pc sh ∧ ∀ c', ¬Owes pc c'
  act : ∀ i pc e sh kind a, prog i pc e sh = some (.act kind a) → ∀ c,
    a.note = some (.all c) ∨
      (a.note = some (.one c) ∧ ∀ j k pcj pck, Waits j c pcj → Waits k c pck → j = k) ∨
      Owes a.pc c ∨
      ¬Owes pc c ∧ ∀ j pcj, j ≠ i → Waits j c pcj → Ready pcj a.shared → Ready pcj sh

/-- Who sleeps has a false predicate, or a notification is pending. -/
def NoLostWakeUp (Ready : P → σ → Prop) (Owes : P → C → Prop) (s : State ι C P σ) : Prop :=
  ∀ j c pc, s.phase j = .asleep c pc → ¬Ready pc s.shared ∨ Pending Owes s c

theorem NoLostWakeUp.step {prog : Program ι C P σ E L} {Waits : ι → C → P → Prop}
    {Ready : P → σ → Prop} {Owes : P → C → Prop} (hann : Announced prog Waits Ready Owes)
    {s s' : State ι C P σ} {l : Option L} (hplaced : Placed Waits s)
    (h : NoLostWakeUp Ready Owes s) (hstep : Step prog s l s') : NoLostWakeUp Ready Owes s' := by
  intro j c pcj hj
  cases hstep.effect with
  | wait i pc e ci hpoint hmove =>
    obtain ⟨hready, howes⟩ := hann.wait _ _ _ _ _ hmove
    by_cases hji : j = i
    · subst hji
      simp only [Function.update_self] at hj
      cases hj
      exact .inl hready
    · simp only [Function.update_of_ne hji] at hj
      obtain hfalse | ⟨k, pck, hk, hpays⟩ := h j c pcj hj
      · exact .inl hfalse
      · have hki : k ≠ i := by
          intro hki
          subst hki
          simp only [hk, Phase.point, Option.some.injEq] at hpoint
          subst hpoint
          exact howes c hpays
        exact .inr ⟨k, pck, by simp only [Function.update_of_ne hki, hk], hpays⟩
  | act i pc e kind a target phase hgoes hmove hnotify =>
    have hi : phase i = .running a.pc := by
      rw [notify_running hnotify, Function.update_self]
    have hji : j ≠ i := by
      intro hji
      subst hji
      simp only [hi] at hj
      cases hj
    have hbefore : s.phase j = .asleep c pcj := by
      have hj' := notify_asleep hnotify hj
      rwa [Function.update_of_ne hji] at hj'
    obtain hall | ⟨hone, hsole⟩ | howes | ⟨hnot, hready⟩ := hann.act _ _ _ _ _ _ hmove c
    · rw [hall] at hnotify
      exact absurd hj (not_asleep_of_notify_all hnotify)
    · -- the only thread that can sleep here is the one that is woken
      rw [hone] at hnotify
      obtain ⟨k, pck, hkj, hk, -⟩ := notify_one_target hnotify hj
      have hki : k ≠ i := by
        intro hki
        rw [hki, Function.update_self] at hk
        cases hk
      rw [Function.update_of_ne hki] at hk
      exact absurd (hsole k j pck pcj (hplaced k c pck (.inl hk)) (hplaced j c pcj (.inl hbefore)))
        hkj
    · exact .inr ⟨i, a.pc, hi, howes⟩
    · obtain hfalse | ⟨k, pck, hk, hpays⟩ := h j c pcj hbefore
      · left
        intro htrue
        exact hfalse (hready j pcj hji (hplaced j c pcj (.inl hbefore)) htrue)
      · have hki : k ≠ i := by
          intro hki
          subst hki
          have hpoint := hgoes.1
          simp only [hk, Phase.point, Option.some.injEq] at hpoint
          subst hpoint
          exact hnot hpays
        have hk' : phase k = .running pck := by
          rw [notify_running hnotify, Function.update_of_ne hki, hk]
        exact .inr ⟨k, pck, hk', hpays⟩
  | spurious i ci pci hphase =>
    by_cases hji : j = i
    · subst hji
      simp only [Function.update_self] at hj
      cases hj
    · simp only [Function.update_of_ne hji] at hj
      obtain hfalse | ⟨k, pck, hk, hpays⟩ := h j c pcj hj
      · exact .inl hfalse
      · have hki : k ≠ i := by
          intro hki
          subst hki
          rw [hk] at hphase
          cases hphase
        exact .inr ⟨k, pck, by simp only [Function.update_of_ne hki, hk], hpays⟩

theorem Announced.run {prog : Program ι C P σ E L} {Waits : ι → C → P → Prop}
    {Ready : P → σ → Prop} {Owes : P → C → Prop} (hann : Announced prog Waits Ready Owes)
    {s s' : State ι C P σ} {log : List (Option L)} (hrun : Transition.Run (Step prog) s log s')
    (h0 : ∀ i c pc, s.phase i ≠ .asleep c pc ∧ s.phase i ≠ .woken c pc) :
    Placed Waits s' ∧ NoLostWakeUp Ready Owes s' := by
  induction hrun with
  | nil =>
    constructor
    · intro i c pc hi
      obtain hi | hi := hi
      · exact absurd hi (h0 i c pc).1
      · exact absurd hi (h0 i c pc).2
    · intro i c pc hi
      exact absurd hi (h0 i c pc).1
  | snoc _ hstep ih => exact ⟨ih.1.step hann.waits hstep, ih.2.step hann ih.1 hstep⟩

/-! ### Notifications that announce one thing each -/

omit [DecidableEq C] in
theorem sum_change {M : Type} [AddCommMonoid M] {f f' : ι → M} {i : ι}
    (h : ∀ j, j ≠ i → f' j = f j) : ∑ j, f' j + f i = ∑ j, f j + f' i := by
  have hrest : ∑ j ∈ Finset.univ.erase i, f' j = ∑ j ∈ Finset.univ.erase i, f j := by
    apply Finset.sum_congr rfl
    intro j hj
    exact h j (Finset.ne_of_mem_erase hj)
  rw [← Finset.add_sum_erase Finset.univ f' (Finset.mem_univ i),
    ← Finset.add_sum_erase Finset.univ f (Finset.mem_univ i), hrest]
  rw [add_assoc, add_comm (f' i), add_comm _ (f i)]

/-- The sum of what the threads stand for. -/
def total (credit : ι → Phase C P → Nat) (phase : ι → Phase C P) : Nat := ∑ i, credit i (phase i)

omit [DecidableEq C] in
theorem total_update (credit : ι → Phase C P → Nat) (phase : ι → Phase C P) (i : ι)
    (ph : Phase C P) :
    total credit (Function.update phase i ph) + credit i (phase i) =
      total credit phase + credit i ph := by
  have hchange : ∀ j, j ≠ i →
      credit j (Function.update phase i ph j) = credit j (phase j) := by
    intro j hj
    rw [Function.update_of_ne hj]
  have hsum := sum_change hchange
  rwa [Function.update_self] at hsum

/-- What becomes available on `c` is paid for by the threads that will notify or
have been woken. A wait happens only where nothing is available. -/
structure Funded (prog : Program ι C P σ E L) (Waits : ι → C → P → Prop) (c : C)
    (supply : σ → Nat) (credit : ι → Phase C P → Nat) : Prop where
  waits : WaitsAt prog Waits
  wait : ∀ i pc e sh c', prog i pc e sh = some (.wait c') → supply sh = 0 ∨
    c' ≠ c ∧ ∀ ph, ph.point = some pc → (∀ d, ph = .woken d pc → Waits i d pc) →
      credit i ph ≤ credit i (.asleep c' pc)
  act : ∀ i pc e sh kind a, prog i pc e sh = some (.act kind a) →
    supply a.shared = 0 ∨ a.note = some (.all c) ∨
      ∀ ph, Goes ph pc kind → (∀ d, ph = .woken d pc → Waits i d pc) →
        supply a.shared + credit i ph ≤ supply sh + credit i (.running a.pc) +
          if a.note = some (.one c) then 1 else 0
  woken : ∀ i c' pc, Waits i c' pc →
    credit i (.asleep c' pc) + (if c' = c then 1 else 0) ≤ credit i (.woken c' pc)

/-- While somebody sleeps on `c`, nothing is available that is not announced. -/
def Covered (c : C) (supply : σ → Nat) (credit : ι → Phase C P → Nat) (s : State ι C P σ) :
    Prop :=
  ∀ j pc, s.phase j = .asleep c pc → supply s.shared ≤ total credit s.phase

theorem total_notify {prog : Program ι C P σ E L} {Waits : ι → C → P → Prop} {c : C}
    {supply : σ → Nat} {credit : ι → Phase C P → Nat} (hfund : Funded prog Waits c supply credit)
    {phase phase' : ι → Phase C P} {target : Option ι} {note : Option (Note C)}
    (hplaced : ∀ i c' pc, phase i = .asleep c' pc → Waits i c' pc)
    (h : notify phase target note = some phase') {j : ι} {pcj : P}
    (hj : phase' j = .asleep c pcj) :
    total credit phase + (if note = some (.one c) then 1 else 0) ≤ total credit phase' := by
  by_cases hone : note = some (.one c)
  · subst hone
    obtain ⟨k, pck, -, hk, rfl⟩ := notify_one_target h hj
    have hupdate := total_update credit phase k (.woken c pck)
    have hwoken := hfund.woken k c pck (hplaced k c pck hk)
    rw [hk] at hupdate
    simp only [if_true] at hwoken ⊢
    omega
  · simp only [hone, if_false, Nat.add_zero]
    apply Finset.sum_le_sum
    intro i _
    obtain hsame | ⟨c', pc', hasleep, hwoken⟩ := notify_phase h i
    · rw [hsame]
    · have hle := hfund.woken i c' pc' (hplaced i c' pc' hasleep)
      rw [hasleep, hwoken]
      omega

theorem Covered.step {prog : Program ι C P σ E L} {Waits : ι → C → P → Prop} {c : C}
    {supply : σ → Nat} {credit : ι → Phase C P → Nat} (hfund : Funded prog Waits c supply credit)
    {s s' : State ι C P σ} {l : Option L} (hplaced : Placed Waits s)
    (h : Covered c supply credit s) (hstep : Step prog s l s') : Covered c supply credit s' := by
  intro j pcj hj
  cases hstep.effect with
  | wait i pc e ci hpoint hmove =>
    obtain hzero | ⟨hother, hcredit⟩ := hfund.wait _ _ _ _ _ hmove
    · simp only [hzero, Nat.zero_le]
    · have hji : j ≠ i := by
        intro hji
        subst hji
        simp only [Function.update_self, Phase.asleep.injEq] at hj
        exact hother hj.1
      simp only [Function.update_of_ne hji] at hj
      have hbefore := h j pcj hj
      have hgain := hcredit (s.phase i) hpoint (fun d hd => hplaced i d pc (.inr hd))
      have hupdate := total_update credit s.phase i (.asleep ci pc)
      simp only
      omega
  | act i pc e kind a target phase hgoes hmove hnotify =>
    obtain hzero | hall | hpaid := hfund.act _ _ _ _ _ _ hmove
    · simp only [hzero, Nat.zero_le]
    · rw [hall] at hnotify
      exact absurd hj (not_asleep_of_notify_all hnotify)
    · have hji : j ≠ i := by
        intro hji
        have hi : phase i = .running a.pc := by
          rw [notify_running hnotify, Function.update_self]
        subst hji
        simp only [hi] at hj
        cases hj
      have hbefore : s.phase j = .asleep c pcj := by
        have hj' := notify_asleep hnotify hj
        rwa [Function.update_of_ne hji] at hj'
      have hcovered := h j pcj hbefore
      have hprice := hpaid (s.phase i) hgoes (fun d hd => hplaced i d pc (.inr hd))
      have hupdate := total_update credit s.phase i (.running a.pc)
      have hplaced' : ∀ k c' pck, Function.update s.phase i (.running a.pc) k = .asleep c' pck →
          Waits k c' pck := by
        intro k c' pck hk
        by_cases hki : k = i
        · rw [hki, Function.update_self] at hk
          cases hk
        · rw [Function.update_of_ne hki] at hk
          exact hplaced k c' pck (.inl hk)
      have hnote := total_notify hfund hplaced' hnotify hj
      simp only
      omega
  | spurious i ci pci hphase =>
    have hji : j ≠ i := by
      intro hji
      subst hji
      simp only [Function.update_self] at hj
      cases hj
    simp only [Function.update_of_ne hji] at hj
    have hbefore := h j pcj hj
    have hwoken := hfund.woken i ci pci (hplaced i ci pci (.inl hphase))
    have hupdate := total_update credit s.phase i (.woken ci pci)
    rw [hphase] at hupdate
    simp only
    omega

theorem Funded.run {prog : Program ι C P σ E L} {Waits : ι → C → P → Prop} {c : C}
    {supply : σ → Nat} {credit : ι → Phase C P → Nat} (hfund : Funded prog Waits c supply credit)
    {s s' : State ι C P σ} {log : List (Option L)} (hrun : Transition.Run (Step prog) s log s')
    (h0 : ∀ i c pc, s.phase i ≠ .asleep c pc ∧ s.phase i ≠ .woken c pc) :
    Placed Waits s' ∧ Covered c supply credit s' := by
  induction hrun with
  | nil =>
    constructor
    · intro i c' pc hi
      obtain hi | hi := hi
      · exact absurd hi (h0 i c' pc).1
      · exact absurd hi (h0 i c' pc).2
    · intro i pc hi
      exact absurd hi (h0 i c pc).1
  | snoc _ hstep ih => exact ⟨ih.1.step hfund.waits hstep, ih.2.step hfund ih.1 hstep⟩

end Step
end Monitor
