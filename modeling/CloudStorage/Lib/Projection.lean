import CloudStorage.Lib.Monitor

/-!
# A program seen through a part of its state

A larger program that runs a smaller one among its threads: a projection takes
its points, its shared state and its labels to those of the smaller one. Where
every move is one of the smaller program, or changes nothing that is seen, a run
of the larger program is one of the smaller.
-/

namespace Monitor

variable {ι C P P' σ σ' E E' L L' : Type}

namespace Phase

/-- Where a thread stands, or comes back to. -/
def pc : Phase C P → P
  | .running pc => pc
  | .asleep _ pc => pc
  | .woken _ pc => pc

def map (f : P → P') : Phase C P → Phase C P'
  | .running pc => .running (f pc)
  | .asleep c pc => .asleep c (f pc)
  | .woken c pc => .woken c (f pc)

theorem pc_of_point {ph : Phase C P} {pc : P} (h : ph.point = some pc) : ph.pc = pc := by
  cases ph with
  | running pc' => exact Option.some.inj h
  | asleep c pc' => cases h
  | woken c pc' => exact Option.some.inj h

theorem map_point (f : P → P') (ph : Phase C P) : (ph.map f).point = ph.point.map f := by
  cases ph <;> rfl

theorem map_standing (f : P → P') (ph : Phase C P) :
    (ph.map f).standing = ph.standing.map f := by
  cases ph <;> rfl

theorem map_pc (f : P → P') (ph : Phase C P) : (ph.map f).pc = f ph.pc := by
  cases ph <;> rfl

variable [DecidableEq C]

theorem map_asleepOn (f : P → P') (c : C) (ph : Phase C P) :
    (ph.map f).asleepOn c = ph.asleepOn c := by
  cases ph <;> rfl

theorem map_wake (f : P → P') (c : C) (ph : Phase C P) : (ph.wake c).map f = (ph.map f).wake c := by
  cases ph with
  | running pc => rfl
  | woken c' pc => rfl
  | asleep c' pc =>
    by_cases h : c' = c
    · simp only [wake, map, if_pos h]
    · simp only [wake, map, if_neg h]

end Phase

/-! ### Points of a step -/

section
variable [Fintype ι] [DecidableEq ι] [DecidableEq C]

theorem notify_pc {phase phase' : ι → Phase C P} {target : Option ι} {note : Option (Note C)}
    (h : notify phase target note = some phase') (j : ι) : (phase' j).pc = (phase j).pc := by
  obtain hsame | ⟨c, pc, hasleep, hwoken⟩ := notify_phase h j
  · rw [hsame]
  · rw [hasleep, hwoken]
    rfl

/-- Sleeping and waking leave every thread at its point. -/
theorem Step.pcs {prog : Program ι C P σ E L} {s s' : State ι C P σ} {l : Option L}
    (h : Step prog s l s') :
    (l = none ∧ s'.shared = s.shared ∧ ∀ j, (s'.phase j).pc = (s.phase j).pc) ∨
      ∃ i e kind a, prog i (s.phase i).pc e s.shared = some (.act kind a) ∧ l = a.label ∧
        s'.shared = a.shared ∧ (s'.phase i).pc = a.pc ∧
        ∀ j, j ≠ i → (s'.phase j).pc = (s.phase j).pc := by
  cases h.effect with
  | wait i pc e c hpoint hmove =>
    left
    refine ⟨rfl, rfl, fun j => ?_⟩
    by_cases hji : j = i
    · simp only [hji, Function.update_self, Phase.pc_of_point hpoint]
      rfl
    · simp only [Function.update_of_ne hji]
  | act i pc e kind a target phase hgoes hmove hnotify =>
    right
    rw [← Phase.pc_of_point hgoes.1] at hmove
    refine ⟨i, e, kind, a, hmove, rfl, rfl, ?_, fun j hji => ?_⟩
    · rw [notify_pc hnotify, Function.update_self]
      rfl
    · rw [notify_pc hnotify, Function.update_of_ne hji]
  | spurious i c pc hphase =>
    left
    refine ⟨rfl, rfl, fun j => ?_⟩
    by_cases hji : j = i
    · simp only [hji, Function.update_self, hphase]
      rfl
    · simp only [Function.update_of_ne hji]

end

/-! ### Projections -/

structure Projection (ι P P' σ σ' L L' : Type) where
  point : ι → P → P'
  shared : σ → σ'
  label : L → Option L'

namespace Projection
variable (view : Projection ι P P' σ σ' L L')

def state (s : State ι C P σ) : State ι C P' σ' where
  shared := view.shared s.shared
  mutex := s.mutex
  phase i := (s.phase i).map (view.point i)

def act (i : ι) (a : Act C P σ L) : Act C P' σ' L' where
  shared := view.shared a.shared
  pc := view.point i a.pc
  note := a.note
  label := a.label.bind view.label

/-- Every move is one of the smaller program, or is not seen. -/
structure Projects (prog : Program ι C P σ E L) (prog' : Program ι C P' σ' E' L') : Prop where
  wait : ∀ i pc e sh c, prog i pc e sh = some (.wait c) →
    ∃ e', prog' i (view.point i pc) e' (view.shared sh) = some (.wait c)
  act : ∀ i pc e sh kind a, prog i pc e sh = some (.act kind a) →
    (∃ e', prog' i (view.point i pc) e' (view.shared sh) = some (.act kind (view.act i a))) ∨
      kind = .free ∧ a.note = none ∧ view.shared a.shared = view.shared sh ∧
        view.point i a.pc = view.point i pc ∧ a.label.bind view.label = none

variable [DecidableEq ι]

theorem update_map (phase : ι → Phase C P) (i : ι) (ph : Phase C P) :
    (fun j => (Function.update phase i ph j).map (view.point j)) =
      Function.update (fun j => (phase j).map (view.point j)) i (ph.map (view.point i)) := by
  funext j
  by_cases hji : j = i
  · subst hji
    rw [Function.update_self, Function.update_self]
  · rw [Function.update_of_ne hji, Function.update_of_ne hji]

theorem state_update (s : State ι C P σ) (i : ι) (ph : Phase C P) :
    view.state { s with phase := Function.update s.phase i ph } =
      { view.state s with
        phase := Function.update (view.state s).phase i (ph.map (view.point i)) } := by
  have hphase := view.update_map s.phase i ph
  simp only [state, hphase]

variable [Fintype ι] [DecidableEq C]

theorem notify_map {phase phase' : ι → Phase C P} {target : Option ι} {note : Option (Note C)}
    (h : notify phase target note = some phase') :
    notify (fun i => (phase i).map (view.point i)) target note =
      some fun i => (phase' i).map (view.point i) := by
  cases note with
  | none =>
    cases h
    rfl
  | some note =>
    cases note with
    | all c =>
      cases h
      simp only [notify, Phase.map_wake]
    | one c =>
      cases target with
      | none =>
        simp only [notify, Option.ite_none_right_eq_some, Option.some.injEq] at h ⊢
        obtain ⟨hnobody, rfl⟩ := h
        exact ⟨fun j => (Phase.map_asleepOn ..).trans (hnobody j), rfl⟩
      | some k =>
        simp only [notify, Option.ite_none_right_eq_some, Option.some.injEq] at h ⊢
        obtain ⟨hasleep, rfl⟩ := h
        refine ⟨(Phase.map_asleepOn ..).trans hasleep, ?_⟩
        rw [update_map, Phase.map_wake]

omit [Fintype ι] [DecidableEq C] in
theorem allowed_map (kind : Kind) (s : State ι C P σ) (i : ι) :
    kind.allowed (view.state s) i = kind.allowed s i := by
  have hstanding : ((view.state s).phase i).standing.isSome = (s.phase i).standing.isSome := by
    show ((s.phase i).map (view.point i)).standing.isSome = _
    rw [Phase.map_standing, Option.isSome_map]
  cases kind with
  | enter => rfl
  | leave =>
    simp only [Kind.allowed, hstanding]
    rfl
  | free => exact hstanding

theorem step {prog : Program ι C P σ E L} {prog' : Program ι C P' σ' E' L'}
    (hview : view.Projects prog prog') {s s' : State ι C P σ} {l : Option L}
    (h : Step prog s l s') :
    Step prog' (view.state s) (l.bind view.label) (view.state s') ∨
      l.bind view.label = none ∧ view.state s' = view.state s := by
  obtain ⟨event, h⟩ := h
  cases event with
  | spurious i =>
    simp only [exec] at h
    split at h
    · rename_i c pc hphase
      cases h
      left
      refine ⟨.spurious i, ?_⟩
      have hasleep : (view.state s).phase i = .asleep c (view.point i pc) := by
        show (s.phase i).map (view.point i) = _
        rw [hphase]
        rfl
      rw [state_update]
      simp only [exec, hasleep]
      rfl
    · cases h
  | run i e target =>
    simp only [exec] at h
    split at h
    · cases h
    · rename_i pc hpoint
      have hseen : ((view.state s).phase i).point = some (view.point i pc) := by
        show ((s.phase i).map (view.point i)).point = _
        rw [Phase.map_point, hpoint]
        rfl
      split at h
      · cases h
      · rename_i c hmove
        split at h
        · rename_i hfree
          cases h
          left
          obtain ⟨e', hmove'⟩ := hview.wait _ _ _ _ _ hmove
          refine ⟨.run i e' none, ?_⟩
          have hfree' : (view.state s).mutex.isNone = true := hfree
          have hshared : (view.state s).shared = view.shared s.shared := rfl
          rw [state_update]
          simp only [exec, hseen, hshared, hmove', hfree', if_true]
          rfl
        · cases h
      · rename_i kind a hmove
        split at h
        · rename_i hallowed
          simp only [Option.map_eq_some_iff, Prod.mk.injEq] at h
          obtain ⟨phase, hnotify, rfl, rfl⟩ := h
          obtain ⟨e', hmove'⟩ | ⟨rfl, hnote, hshared, hpoint', hlabel⟩ :=
            hview.act _ _ _ _ _ _ hmove
          · left
            refine ⟨.run i e' target, ?_⟩
            have hshared : (view.state s).shared = view.shared s.shared := rfl
            have hnotify' := view.notify_map hnotify
            rw [update_map] at hnotify'
            simp only [exec, hseen, hshared, hmove', allowed_map, hallowed, if_true,
              Option.map_eq_some_iff]
            exact ⟨_, hnotify', rfl⟩
          · right
            refine ⟨hlabel, ?_⟩
            rw [hnote] at hnotify
            cases hnotify
            have hrunning : s.phase i = .running pc := by
              obtain ⟨-, hrunning | henter⟩ := Kind.goes_of_allowed hpoint hallowed
              · exact hrunning
              · cases henter
            have hphase : (fun j => (Function.update s.phase i (.running a.pc) j).map
                (view.point j)) = fun j => (s.phase j).map (view.point j) := by
              rw [update_map]
              refine Function.update_eq_self_iff.mpr ?_
              rw [hrunning]
              simp only [Phase.map, hpoint']
            simp only [state, hphase, hshared, Kind.mutexAfter]
        · cases h

/-- What is seen of a run is a run, with the labels that are seen. -/
theorem run {prog : Program ι C P σ E L} {prog' : Program ι C P' σ' E' L'}
    (hview : view.Projects prog prog') {s s' : State ι C P σ} {log : List (Option L)}
    (h : Transition.Run (Step prog) s log s') :
    ∃ log', Transition.Run (Step prog') (view.state s) log' (view.state s') ∧
      log'.filterMap id = log.filterMap fun l => l.bind view.label := by
  induction h with
  | nil => exact ⟨[], .nil _, rfl⟩
  | snoc _ hstep ih =>
    obtain ⟨log', hrun, hlog⟩ := ih
    obtain hstep' | ⟨hlabel, hsame⟩ := view.step hview hstep
    · refine ⟨_, hrun.snoc hstep', ?_⟩
      rw [Transition.filterMap_snoc, Transition.filterMap_snoc, hlog]
      rfl
    · refine ⟨log', ?_, ?_⟩
      · rw [hsame]
        exact hrun
      · rw [Transition.filterMap_snoc, hlabel, hlog]
        exact (List.append_nil _).symm

end Projection

end Monitor
