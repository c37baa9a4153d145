import Mathlib.Data.List.Basic
import Mathlib.Data.List.Induction

/-!
# Runs of a labelled transition system

A run is a sequence of steps with the list of their labels. Invariants and forward
simulations are proved of one step and hold of every run.
-/

namespace Transition

variable {S T L : Type}

inductive Run (step : S → L → S → Prop) : S → List L → S → Prop
  | nil (s : S) : Run step s [] s
  | snoc {s s' s'' : S} {log : List L} {l : L} :
      Run step s log s' → step s' l s'' → Run step s (log ++ [l]) s''

namespace Run

variable {step : S → L → S → Prop} {step' : T → L → T → Prop}

theorem single {s s' : S} {l : L} (h : step s l s') : Run step s [l] s' :=
  .snoc (.nil s) h

theorem append {s s' s'' : S} {log log' : List L} (h : Run step s log s')
    (h' : Run step s' log' s'') : Run step s (log ++ log') s'' := by
  induction h' with
  | nil => rwa [List.append_nil]
  | snoc _ hs ih =>
    rw [← List.append_assoc]
    exact .snoc ih hs

theorem of_snoc {s s' : S} {log : List L} {l : L} (h : Run step s (log ++ [l]) s') :
    ∃ s₁, Run step s log s₁ ∧ step s₁ l s' := by
  generalize hlog : log ++ [l] = whole at h
  cases h with
  | nil => simp at hlog
  | snoc hrun hstep =>
    obtain ⟨rfl, hl⟩ := List.append_inj' hlog rfl
    cases hl
    exact ⟨_, hrun, hstep⟩

/-- A run passes through every step of its log. -/
theorem split {s s' : S} {before after : List L} {l : L}
    (h : Run step s (before ++ l :: after) s') :
    ∃ s₁ s₂, Run step s before s₁ ∧ step s₁ l s₂ ∧ Run step s₂ after s' := by
  induction after using List.reverseRecOn generalizing s' with
  | nil =>
    obtain ⟨s₁, hrun, hstep⟩ := of_snoc h
    exact ⟨s₁, s', hrun, hstep, .nil s'⟩
  | append_singleton after x ih =>
    rw [← List.cons_append, ← List.append_assoc] at h
    obtain ⟨s₃, hrun, hstep⟩ := of_snoc h
    obtain ⟨s₁, s₂, h₁, h₂, h₃⟩ := ih hrun
    exact ⟨s₁, s₂, h₁, h₂, .snoc h₃ hstep⟩

/-- What every step keeps holds at the end; the log so far may be spoken of. -/
theorem invariant {I : List L → S → Prop} {s s' : S} {log : List L}
    (hI : ∀ log s l s', I log s → step s l s' → I (log ++ [l]) s') (h : Run step s log s')
    (h0 : I [] s) : I log s' := by
  induction h with
  | nil => exact h0
  | snoc _ hs ih => exact hI _ _ _ _ ih hs

/-- A forward simulation of steps is one of runs. -/
theorem simulates {R : S → T → Prop} {s s' : S} {t : T} {log : List L}
    (hstep : ∀ s l s' t, step s l s' → R s t → ∃ t', step' t l t' ∧ R s' t')
    (h : Run step s log s') (hR : R s t) : ∃ t', Run step' t log t' ∧ R s' t' := by
  induction h with
  | nil => exact ⟨t, .nil t, hR⟩
  | snoc _ hs ih =>
    obtain ⟨t', ht', hR'⟩ := ih
    obtain ⟨t'', hs', hR''⟩ := hstep _ _ _ _ hs hR'
    exact ⟨t'', .snoc ht' hs', hR''⟩

/-- Every step on the way satisfies `P`. -/
def Throughout (step : S → L → S → Prop) (P : S → L → S → Prop) (s : S) (log : List L) : Prop :=
  ∀ before l after s₁ s₂, log = before ++ l :: after → Run step s before s₁ → step s₁ l s₂ →
    P s₁ l s₂

theorem throughout_congr {P Q : S → L → S → Prop} {s : S}
    (h : ∀ before l s₁ s₂, Run step s before s₁ → step s₁ l s₂ → (P s₁ l s₂ ↔ Q s₁ l s₂))
    (log : List L) : Throughout step P s log ↔ Throughout step Q s log := by
  constructor
  · intro hP before l after s₁ s₂ hlog hrun hstep
    exact (h before l s₁ s₂ hrun hstep).mp (hP before l after s₁ s₂ hlog hrun hstep)
  · intro hQ before l after s₁ s₂ hlog hrun hstep
    exact (h before l s₁ s₂ hrun hstep).mpr (hQ before l after s₁ s₂ hlog hrun hstep)

/-- Inputs played one after the other, while `next` gives a step. -/
def play {I : Type} (next : S → I → Option (L × S)) (s : S) : List I → Option (List L × S)
  | [] => some ([], s)
  | i :: rest =>
    (next s i).bind fun done =>
      (play next done.2 rest).map fun played => (done.1 :: played.1, played.2)

theorem of_play {I : Type} {next : S → I → Option (L × S)}
    (hnext : ∀ s i l s', next s i = some (l, s') → step s l s') {s s' : S} {inputs : List I}
    {log : List L} (h : play next s inputs = some (log, s')) : Run step s log s' := by
  induction inputs generalizing s log with
  | nil =>
    cases h
    exact .nil _
  | cons i rest ih =>
    simp only [play, Option.bind_eq_some_iff, Option.map_eq_some_iff, Prod.mk.injEq] at h
    obtain ⟨⟨l, s₁⟩, hi, ⟨log', s₂⟩, hrest, rfl, rfl⟩ := h
    exact (single (hnext _ _ _ _ hi)).append (ih hrest)

end Run

/-- What is read off a log, one step later. -/
theorem filterMap_snoc {A B : Type} (f : A → Option B) (log : List A) (l : A) :
    (log ++ [l]).filterMap f = log.filterMap f ++ (f l).toList := by
  cases h : f l <;> simp [h]

end Transition
