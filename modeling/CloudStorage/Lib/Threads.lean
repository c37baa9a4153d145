import CloudStorage.Lib.Interact
import Mathlib.Logic.Function.Basic

/-!
# Threads that run programs under a lock

Each thread runs one operation after another, any number of threads any number of
operations; a step is one call of one thread, so calls interleave freely. Operations
that `locks` marks hold the one lock from before their first call to their return.
What a locked section keeps, and what the calls of the others leave alone, holds of
every run (`run_sections`).
-/

namespace Interact

variable {Call : Type} {Resp : Call → Type} {World : Type} {α β : Type}

/-! ### Specifications that disturbances respect -/

/-- Whatever can be answered in the disturbed world can be answered in the other. -/
def Simulates (H : Env Resp World) (R : World → World → Prop) : Prop :=
  ∀ c w w₁ r w₁', R w w₁ → H c w₁ r w₁' → ∃ w', H c w r w' ∧ R w' w₁'

def Respects (R : World → World → Prop) (C : World → Prop) : Prop := ∀ w w₁, R w w₁ → C w → C w₁

section
variable {H : Env Resp World} {R : World → World → Prop} {Q : α → World → Prop} {C : World → Prop}

theorem wp_respects (hR : Simulates H R) (hQ : ∀ a, Respects R (Q a)) (hC : Respects R C)
    {p : Prog Resp α} : Respects R (wp H p Q C) := by
  intro w w₁ hw h
  induction p generalizing w w₁ with
  | ret a => exact hQ a w w₁ hw h
  | call c next ih =>
    refine ⟨hC w w₁ hw h.1, fun r w₁' hr => ?_⟩
    obtain ⟨w', hr', hw'⟩ := hR c w w₁ r w₁' hw hr
    exact ih r w' w₁' hw' (h.2 r w' hr')

theorem committing_respects {L : Prog Resp α → World → Prop} (hR : Simulates H R)
    (hQ : ∀ a, Respects R (Q a)) (hC : Respects R C) (hL : ∀ p, Respects R (L p))
    {p : Prog Resp α} : Respects R (committing H L p Q C) := by
  intro w w₁ hw h
  induction p generalizing w w₁ with
  | ret a => exact hQ a w w₁ hw h
  | call c next ih =>
    refine ⟨hC w w₁ hw h.1, fun r w₁' hr => ?_⟩
    obtain ⟨w', hr', hw'⟩ := hR c w w₁ r w₁' hw hr
    exact (h.2 r w' hr').imp (ih r w' w₁' hw') (hL _ w' w₁' hw')

end

/-! ### Threads -/

variable {T Op : Type}

inductive Phase (Resp : Call → Type) (Op α : Type)
  | idle
  | waiting (op : Op)
  | running (op : Op) (p : Prog Resp α)

structure Threads (Resp : Call → Type) (World T Op α : Type) where
  world : World
  phase : T → Phase Resp Op α
  owner : Option T

inductive Label (Resp : Call → Type) (T Op α : Type)
  | invoked (t : T) (op : Op)
  | entered (t : T) (op : Op)
  | called (t : T) (c : Call) (r : Resp c)
  | returned (t : T) (op : Op) (a : α)

def Label.thread : Label Resp T Op α → T
  | .invoked t _ => t
  | .entered t _ => t
  | .called t _ _ => t
  | .returned t _ _ => t

section
variable [DecidableEq T] (program : Op → Prog Resp α) (locks : Op → Bool) (H : Env Resp World)

inductive ThreadStep : Threads Resp World T Op α → Label Resp T Op α →
    Threads Resp World T Op α → Prop
  | invoke {s : Threads Resp World T Op α} {t : T} {op : Op} : s.phase t = .idle →
      ThreadStep s (.invoked t op) { s with phase := Function.update s.phase t (.waiting op) }
  | enter {s : Threads Resp World T Op α} {t : T} {op : Op} : s.phase t = .waiting op →
      (locks op = true → s.owner = none) →
      ThreadStep s (.entered t op)
        { s with
          phase := Function.update s.phase t (.running op (program op))
          owner := if locks op then some t else s.owner }
  | call {s : Threads Resp World T Op α} {t : T} {op : Op} {c : Call}
      {next : Resp c → Prog Resp α} {r : Resp c} {w' : World} :
      s.phase t = .running op (.call c next) → H c s.world r w' →
      ThreadStep s (.called t c r)
        { s with world := w', phase := Function.update s.phase t (.running op (next r)) }
  | return {s : Threads Resp World T Op α} {t : T} {op : Op} {a : α} :
      s.phase t = .running op (.ret a) →
      ThreadStep s (.returned t op a)
        { s with
          phase := Function.update s.phase t .idle
          owner := if locks op then none else s.owner }

abbrev ThreadRun : Threads Resp World T Op α → List (Label Resp T Op α) →
    Threads Resp World T Op α → Prop :=
  Transition.Run (ThreadStep program locks H)

end

/-! ### Locked sections -/

/-- The locked sections that are over, in the order of their returns. -/
def sections (locks : Op → Bool) (log : List (Label Resp T Op α)) : List (Op × α) :=
  log.filterMap fun
    | .returned _ op a => if locks op then some (op, a) else none
    | _ => none

/-- The locked sections that were entered, in this order. -/
def begun (locks : Op → Bool) (log : List (Label Resp T Op α)) : List Op :=
  log.filterMap fun
    | .entered _ op => if locks op then some op else none
    | _ => none

/-- What holds between sections, in a section, and of the calls of the others. -/
structure SectionRule (program : Op → Prog Resp α) (locks : Op → Bool) (H : Env Resp World)
    (I : List (Op × α) → World → Prop)
    (Sec : List (Op × α) → Op → Prog Resp α → World → Prop) (Free : Call → Prop) : Prop where
  enter : ∀ done op w, locks op = true → I done w → Sec done op (program op) w
  call : ∀ done op c next w r w', Sec done op (.call c next) w → H c w r w' →
    Sec done op (next r) w'
  leave : ∀ done op a w, Sec done op (.ret a) w → I (done ++ [(op, a)]) w
  free : ∀ op, locks op = false → (program op).Only Free
  quiet : ∀ done c w r w', Free c → H c w r w' → I done w → I done w'
  quiet_section : ∀ done op p c w r w', Free c → H c w r w' → Sec done op p w → Sec done op p w'

/-- The lock is free and `I` holds, or a thread is in its section. -/
inductive Locked (locks : Op → Bool) (I : List (Op × α) → World → Prop)
    (Sec : List (Op × α) → Op → Prog Resp α → World → Prop) (log : List (Label Resp T Op α))
    (s : Threads Resp World T Op α) : Prop
  | free : s.owner = none → begun locks log = (sections locks log).map Prod.fst →
      I (sections locks log) s.world → Locked locks I Sec log s
  | held {t : T} {op : Op} {p : Prog Resp α} : s.owner = some t → s.phase t = .running op p →
      locks op = true → begun locks log = (sections locks log).map Prod.fst ++ [op] →
      Sec (sections locks log) op p s.world → Locked locks I Sec log s

/-- The lock excludes, and the others make free calls only. -/
structure Sectioned (locks : Op → Bool) (I : List (Op × α) → World → Prop)
    (Sec : List (Op × α) → Op → Prog Resp α → World → Prop) (Free : Call → Prop)
    (log : List (Label Resp T Op α)) (s : Threads Resp World T Op α) : Prop where
  locked : Locked locks I Sec log s
  exclusive : ∀ t op p, s.phase t = .running op p → locks op = true → s.owner = some t
  others : ∀ t op p, s.phase t = .running op p → locks op = false → p.Only Free

section
variable {program : Op → Prog Resp α} {locks : Op → Bool} {H : Env Resp World}
  {I : List (Op × α) → World → Prop} {Sec : List (Op × α) → Op → Prog Resp α → World → Prop}
  {Free : Call → Prop} {log : List (Label Resp T Op α)} {s s' : Threads Resp World T Op α}

theorem sections_snoc (l : Label Resp T Op α) :
    sections locks (log ++ [l]) = sections locks log ++ sections locks [l] :=
  List.filterMap_append

theorem begun_snoc (l : Label Resp T Op α) :
    begun locks (log ++ [l]) = begun locks log ++ begun locks [l] :=
  List.filterMap_append

theorem Locked.carry {l : Label Resp T Op α} (h : Locked locks I Sec log s)
    (hs : sections locks [l] = []) (hb : begun locks [l] = []) (howner : s'.owner = s.owner)
    (hphase : ∀ t, s.owner = some t → s'.phase t = s.phase t)
    (hI : I (sections locks log) s.world → I (sections locks log) s'.world)
    (hSec : ∀ op p, Sec (sections locks log) op p s.world → Sec (sections locks log) op p s'.world) :
    Locked locks I Sec (log ++ [l]) s' := by
  cases h with
  | free hfree horder hstate =>
    refine .free (howner.trans hfree) ?_ ?_
    · rw [sections_snoc, begun_snoc, hs, hb, List.append_nil, List.append_nil, horder]
    · rw [sections_snoc, hs, List.append_nil]
      exact hI hstate
  | held hheld hrunning hlocks horder hstate =>
    refine .held (howner.trans hheld) ((hphase _ hheld).trans hrunning) hlocks ?_ ?_
    · rw [sections_snoc, begun_snoc, hs, hb, List.append_nil, List.append_nil, horder]
    · rw [sections_snoc, hs, List.append_nil]
      exact hSec _ _ hstate

theorem Locked.owner_ne (h : Locked locks I Sec log s) {t t' : T}
    (ht : ∀ op p, s.phase t = .running op p → locks op = false) (howner : s.owner = some t') :
    t' ≠ t := by
  rintro rfl
  cases h with
  | free hfree => exact absurd (hfree.symm.trans howner) (by simp)
  | held hheld hrunning hlocks =>
    rw [howner, Option.some.injEq] at hheld
    subst hheld
    rw [ht _ _ hrunning] at hlocks
    cases hlocks

/-- The thread that runs a locked operation is in the section. -/
theorem Sectioned.section {t : T} {op : Op} {p : Prog Resp α}
    (h : Sectioned locks I Sec Free log s) (hrunning : s.phase t = .running op p)
    (hlocks : locks op = true) : s.owner = some t ∧
      begun locks log = (sections locks log).map Prod.fst ++ [op] ∧
      Sec (sections locks log) op p s.world := by
  have howner := h.exclusive t op p hrunning hlocks
  cases h.locked with
  | free hfree => exact absurd (hfree.symm.trans howner) (by simp)
  | held hheld hrunning' _ horder hstate =>
    rw [howner, Option.some.injEq] at hheld
    subst hheld
    rw [hrunning] at hrunning'
    cases hrunning'
    exact ⟨howner, horder, hstate⟩

variable [DecidableEq T]

theorem update_running {f : T → Phase Resp Op α} {t t' : T} {x : Phase Resp Op α} {op : Op}
    {p : Prog Resp α} (h : Function.update f t x t' = .running op p) :
    t' = t ∧ x = .running op p ∨ t' ≠ t ∧ f t' = .running op p := by
  by_cases he : t' = t
  · subst he
    rw [Function.update_self] at h
    exact Or.inl ⟨rfl, h⟩
  · rw [Function.update_of_ne he] at h
    exact Or.inr ⟨he, h⟩

theorem Sectioned.invoke {t : T} {op : Op} (h : Sectioned locks I Sec Free log s)
    (hidle : s.phase t = .idle) :
    Sectioned locks I Sec Free (log ++ [.invoked t op])
      { s with phase := Function.update s.phase t (.waiting op) } := by
  obtain ⟨hlocked, hexclusive, hothers⟩ := h
  have hother : ∀ t' op' p, Function.update s.phase t (.waiting op) t' = .running op' p →
      s.phase t' = .running op' p := by
    intro t' op' p hp
    rcases update_running hp with ⟨-, he⟩ | ⟨-, he⟩
    · cases he
    · exact he
  refine ⟨hlocked.carry rfl rfl rfl ?_ id fun _ _ => id, ?_, ?_⟩
  · intro t' howner
    refine Function.update_of_ne (hlocked.owner_ne (fun op p hp => ?_) howner) ..
    rw [hidle] at hp
    cases hp
  · exact fun t' op' p hp => hexclusive t' op' p (hother t' op' p hp)
  · exact fun t' op' p hp => hothers t' op' p (hother t' op' p hp)

theorem Sectioned.enter (hrule : SectionRule program locks H I Sec Free) {t : T} {op : Op}
    (h : Sectioned locks I Sec Free log s) (hwaiting : s.phase t = .waiting op)
    (hfree : locks op = true → s.owner = none) :
    Sectioned locks I Sec Free (log ++ [.entered t op])
      { s with
        phase := Function.update s.phase t (.running op (program op))
        owner := if locks op then some t else s.owner } := by
  obtain ⟨hlocked, hexclusive, hothers⟩ := h
  cases hlocks : locks op with
  | true =>
    have hnone := hfree hlocks
    refine ⟨?_, ?_, ?_⟩
    · cases hlocked with
      | held hheld => exact absurd (hnone.symm.trans hheld) (by simp)
      | free _ horder hstate =>
        refine .held rfl (Function.update_self ..) hlocks ?_ ?_
        · rw [sections_snoc, begun_snoc, horder]
          simp [sections, begun, hlocks]
        · rw [sections_snoc]
          simpa [sections] using hrule.enter _ op _ hlocks hstate
    · intro t' op' p hp hlocks'
      rcases update_running hp with ⟨rfl, -⟩ | ⟨-, he⟩
      · rfl
      · have howner := hexclusive t' op' p he hlocks'
        exact absurd (hnone.symm.trans howner) (by simp)
    · intro t' op' p hp hlocks'
      rcases update_running hp with ⟨rfl, he⟩ | ⟨-, he⟩
      · cases he
        rw [hlocks] at hlocks'
        cases hlocks'
      · exact hothers t' op' p he hlocks'
  | false =>
    refine ⟨?_, ?_, ?_⟩
    · refine hlocked.carry rfl (by simp [begun, hlocks]) (by simp) ?_ id fun _ _ => id
      intro t' howner
      refine Function.update_of_ne (hlocked.owner_ne (fun op p hp => ?_) howner) ..
      rw [hwaiting] at hp
      cases hp
    · intro t' op' p hp hlocks'
      rcases update_running hp with ⟨rfl, he⟩ | ⟨-, he⟩
      · cases he
        rw [hlocks] at hlocks'
        cases hlocks'
      · simpa using hexclusive t' op' p he hlocks'
    · intro t' op' p hp hlocks'
      rcases update_running hp with ⟨rfl, he⟩ | ⟨-, he⟩
      · cases he
        exact hrule.free op hlocks
      · exact hothers t' op' p he hlocks'

theorem Sectioned.call (hrule : SectionRule program locks H I Sec Free) {t : T} {op : Op}
    {c : Call} {next : Resp c → Prog Resp α} {r : Resp c} {w' : World}
    (h : Sectioned locks I Sec Free log s) (hrunning : s.phase t = .running op (.call c next))
    (hanswer : H c s.world r w') :
    Sectioned locks I Sec Free (log ++ [.called t c r])
      { s with world := w', phase := Function.update s.phase t (.running op (next r)) } := by
  refine ⟨?_, ?_, ?_⟩
  · cases hlocks : locks op with
    | true =>
      obtain ⟨howner, horder, hstate⟩ := h.section hrunning hlocks
      refine .held howner (Function.update_self ..) hlocks ?_ ?_
      · rw [sections_snoc, begun_snoc, horder]
        simp [sections, begun]
      · rw [sections_snoc]
        simpa [sections] using hrule.call _ op c next _ r w' hstate hanswer
    | false =>
      have hcall := (h.others t op _ hrunning hlocks).1
      refine h.locked.carry rfl rfl rfl ?_ (hrule.quiet _ c _ r w' hcall hanswer)
        fun op p => hrule.quiet_section _ op p c _ r w' hcall hanswer
      intro t' howner
      refine Function.update_of_ne (h.locked.owner_ne (fun op p hp => ?_) howner) ..
      rw [hrunning] at hp
      cases hp
      exact hlocks
  · intro t' op' p hp hlocks'
    rcases update_running hp with ⟨rfl, he⟩ | ⟨-, he⟩
    · cases he
      exact h.exclusive t' op _ hrunning hlocks'
    · exact h.exclusive t' op' p he hlocks'
  · intro t' op' p hp hlocks'
    rcases update_running hp with ⟨rfl, he⟩ | ⟨-, he⟩
    · cases he
      exact (h.others t' op _ hrunning hlocks').2 r
    · exact h.others t' op' p he hlocks'

theorem Sectioned.leave (hrule : SectionRule program locks H I Sec Free) {t : T} {op : Op} {a : α}
    (h : Sectioned locks I Sec Free log s) (hrunning : s.phase t = .running op (.ret a)) :
    Sectioned locks I Sec Free (log ++ [.returned t op a])
      { s with
        phase := Function.update s.phase t .idle
        owner := if locks op then none else s.owner } := by
  have hother : ∀ t' op' p, Function.update s.phase t .idle t' = .running op' p →
      t' ≠ t ∧ s.phase t' = .running op' p := by
    intro t' op' p hp
    rcases update_running hp with ⟨-, he⟩ | he
    · cases he
    · exact he
  refine ⟨?_, ?_, fun t' op' p hp => h.others t' op' p (hother t' op' p hp).2⟩
  · cases hlocks : locks op with
    | true =>
      obtain ⟨howner, horder, hstate⟩ := h.section hrunning hlocks
      refine .free rfl ?_ ?_
      · rw [sections_snoc, begun_snoc, horder]
        simp [sections, begun, hlocks]
      · rw [sections_snoc]
        simpa [sections, hlocks] using hrule.leave _ op a _ hstate
    | false =>
      refine h.locked.carry (by simp [sections, hlocks]) rfl (by simp) ?_ id fun _ _ => id
      intro t' howner
      refine Function.update_of_ne (h.locked.owner_ne (fun op p hp => ?_) howner) ..
      rw [hrunning] at hp
      cases hp
      exact hlocks
  · intro t' op' p hp hlocks'
    obtain ⟨hne, he⟩ := hother t' op' p hp
    have howner := h.exclusive t' op' p he hlocks'
    cases hlocks : locks op with
    | true =>
      obtain ⟨howner', -, -⟩ := h.section hrunning hlocks
      exact absurd (Option.some.inj (howner.symm.trans howner')) hne
    | false => simpa using howner

theorem Sectioned.step {l : Label Resp T Op α} (hrule : SectionRule program locks H I Sec Free)
    (h : Sectioned locks I Sec Free log s) (hstep : ThreadStep program locks H s l s') :
    Sectioned locks I Sec Free (log ++ [l]) s' := by
  cases hstep with
  | invoke hidle => exact h.invoke hidle
  | enter hwaiting hfree => exact h.enter hrule hwaiting hfree
  | call hrunning hanswer => exact h.call hrule hrunning hanswer
  | «return» hrunning => exact h.leave hrule hrunning

theorem run_sections {s₀ : Threads Resp World T Op α}
    (hrule : SectionRule program locks H I Sec Free) (hidle : ∀ t, s₀.phase t = .idle)
    (hfree : s₀.owner = none) (hstart : I [] s₀.world) (hrun : ThreadRun program locks H s₀ log s) :
    Sectioned locks I Sec Free log s := by
  induction hrun with
  | nil =>
    refine ⟨.free hfree rfl hstart, ?_, ?_⟩
    · intro t op p hp
      rw [hidle t] at hp
      cases hp
    · intro t op p hp
      rw [hidle t] at hp
      cases hp
  | snoc _ hstep ih => exact ih.step hrule hstep

/-- While a thread is in its section no other section begins or ends. -/
theorem Sectioned.alone {log' : List (Label Resp T Op α)} {t : T}
    (hrule : SectionRule program locks H I Sec Free) (h : Sectioned locks I Sec Free log s)
    (howner : s.owner = some t) (hrun : ThreadRun program locks H s log' s')
    (hmid : ∀ op a, .returned t op a ∉ log') :
    Sectioned locks I Sec Free (log ++ log') s' ∧ s'.owner = some t ∧ sections locks log' = [] := by
  induction hrun with
  | nil =>
    rw [List.append_nil]
    exact ⟨h, howner, rfl⟩
  | @snoc s₂ s₃ log' l _ hstep ih =>
    have hmid' : ∀ op a, .returned t op a ∉ log' := fun op a hmem =>
      hmid op a (List.mem_append_left _ hmem)
    obtain ⟨h₂, howner₂, hnone⟩ := ih hmid'
    refine ⟨?_, ?_⟩
    · rw [← List.append_assoc]
      exact h₂.step hrule hstep
    rw [sections_snoc, hnone, List.nil_append]
    cases hstep with
    | invoke => exact ⟨howner₂, rfl⟩
    | @enter _ op _ hfree =>
      refine ⟨?_, rfl⟩
      cases hlocks : locks op with
      | true =>
        rw [hfree hlocks] at howner₂
        cases howner₂
      | false => exact howner₂
    | call => exact ⟨howner₂, rfl⟩
    | @«return» t' op a hrunning =>
      cases hlocks : locks op with
      | true =>
        have howner' := h₂.exclusive t' op _ hrunning hlocks
        rw [howner₂, Option.some.injEq] at howner'
        subst howner'
        exact absurd (List.mem_append_right _ (List.mem_singleton.mpr rfl)) (hmid op a)
      | false => exact ⟨howner₂, by simp [sections, hlocks]⟩

/-! ### Operations of one call -/

/-- Thread `t` made call `c` of operation `op`, answered `r`, and has been at rest since. -/
def LastCall (program : Op → Prog Resp α) (locks : Op → Bool) (H : Env Resp World)
    (s₀ : Threads Resp World T Op α) (log : List (Label Resp T Op α)) (t : T) (op : Op) (c : Call)
    (r : Resp c) : Prop :=
  ∃ before after s₁ w', log = before ++ .called t c r :: after ∧
    ThreadRun program locks H s₀ before s₁ ∧ s₁.phase t = .running op (program op) ∧
    H c s₁.world r w' ∧ ∀ l ∈ after, l.thread ≠ t

theorem LastCall.snoc {s₀ : Threads Resp World T Op α} {t : T} {op : Op} {c : Call} {r : Resp c}
    (h : LastCall program locks H s₀ log t op c r) {l : Label Resp T Op α} (hl : l.thread ≠ t) :
    LastCall program locks H s₀ (log ++ [l]) t op c r := by
  obtain ⟨before, after, s₁, w', rfl, hrun, hphase, hanswer, hafter⟩ := h
  refine ⟨before, after ++ [l], s₁, w', by simp, hrun, hphase, hanswer, ?_⟩
  intro l' hl'
  rcases List.mem_append.mp hl' with hin | hlast
  · exact hafter l' hin
  · rw [List.mem_singleton.mp hlast]
    exact hl

theorem run_one_call {s₀ : Threads Resp World T Op α} {op : Op} {c : Call} {f : Resp c → α}
    (hop : program op = .call c fun r => .ret (f r)) (hidle : ∀ t, s₀.phase t = .idle)
    (hrun : ThreadRun program locks H s₀ log s) {t : T} {p : Prog Resp α}
    (hp : s.phase t = .running op p) :
    p = program op ∨ ∃ r, p = .ret (f r) ∧ LastCall program locks H s₀ log t op c r := by
  induction hrun generalizing p with
  | nil =>
    rw [hidle t] at hp
    cases hp
  | @snoc s₂ s₃ log l hrun hstep ih =>
    -- what another thread does leaves the phase of `t` alone
    have hother : l.thread ≠ t → s₂.phase t = .running op p →
        p = program op ∨ ∃ r, p = .ret (f r) ∧
          LastCall program locks H s₀ (log ++ [l]) t op c r := by
      intro hl hphase
      rcases ih hphase with hstart | ⟨r, hret, hlast⟩
      · exact Or.inl hstart
      · exact Or.inr ⟨r, hret, hlast.snoc hl⟩
    cases hstep with
    | @invoke t' =>
      rcases update_running hp with ⟨-, he⟩ | ⟨hne, hphase⟩
      · cases he
      · exact hother (Ne.symm hne) hphase
    | @enter t' =>
      rcases update_running hp with ⟨rfl, he⟩ | ⟨hne, hphase⟩
      · cases he
        exact Or.inl rfl
      · exact hother (Ne.symm hne) hphase
    | @call t' op' c' next r w' hrunning hanswer =>
      rcases update_running hp with ⟨rfl, he⟩ | ⟨hne, hphase⟩
      · cases he
        rcases ih hrunning with hstart | ⟨_, hret, -⟩
        · have hrunning' := hstart ▸ hrunning
          rw [hop] at hstart
          cases hstart
          exact Or.inr ⟨r, rfl, log, [], s₂, w', rfl, hrun, hrunning', hanswer, by simp⟩
        · cases hret
      · exact hother (Ne.symm hne) hphase
    | @«return» t' =>
      rcases update_running hp with ⟨-, he⟩ | ⟨hne, hphase⟩
      · cases he
      · exact hother (Ne.symm hne) hphase

end

/-! ### Execution -/

/-- What the scheduler decides. -/
inductive Move (T Op Choice : Type)
  | invoke (t : T) (op : Op)
  | enter (t : T)
  | call (t : T) (ch : Choice)
  | leave (t : T)

section
variable [DecidableEq T] {Choice : Type} (program : Op → Prog Resp α) (locks : Op → Bool)
  (answer : World → (c : Call) → Choice → Resp c × World)
  (ok : World → (c : Call) → Resp c → Bool)

/-- One move, if it can be made. -/
def advance (s : Threads Resp World T Op α) :
    Move T Op Choice → Option (Label Resp T Op α × Threads Resp World T Op α)
  | .invoke t op =>
    match s.phase t with
    | .idle => some (.invoked t op, { s with phase := Function.update s.phase t (.waiting op) })
    | _ => none
  | .enter t =>
    match s.phase t with
    | .waiting op =>
      if locks op = true → s.owner.isNone = true then
        some (.entered t op,
          { s with
            phase := Function.update s.phase t (.running op (program op))
            owner := if locks op then some t else s.owner })
      else none
    | _ => none
  | .call t ch =>
    match s.phase t with
    | .running op (.call c next) =>
      if ok s.world c (answer s.world c ch).1 then
        some (.called t c (answer s.world c ch).1,
          { s with
            world := (answer s.world c ch).2
            phase := Function.update s.phase t (.running op (next (answer s.world c ch).1)) })
      else none
    | _ => none
  | .leave t =>
    match s.phase t with
    | .running op (.ret a) =>
      some (.returned t op a,
        { s with
          phase := Function.update s.phase t .idle
          owner := if locks op then none else s.owner })
    | _ => none

variable {program locks answer ok} {H : Env Resp World}

theorem advance_step (hH : ∀ w c ch, ok w c (answer w c ch).1 = true →
      H c w (answer w c ch).1 (answer w c ch).2)
    {s s' : Threads Resp World T Op α} {m : Move T Op Choice} {l : Label Resp T Op α}
    (h : advance program locks answer ok s m = some (l, s')) : ThreadStep program locks H s l s' := by
  cases m with
  | invoke t op =>
    simp only [advance] at h
    split at h
    · rename_i hidle
      cases h
      exact .invoke hidle
    · cases h
  | enter t =>
    simp only [advance] at h
    split at h
    · rename_i op hwaiting
      split at h
      · rename_i hfree
        cases h
        exact .enter hwaiting fun hlocks => Option.isNone_iff_eq_none.mp (hfree hlocks)
      · cases h
    · cases h
  | call t ch =>
    simp only [advance] at h
    split at h
    · rename_i op c next hrunning
      split at h
      · rename_i hok
        cases h
        exact .call hrunning (hH _ _ _ hok)
      · cases h
    · cases h
  | leave t =>
    simp only [advance] at h
    split at h
    · rename_i op a hrunning
      cases h
      exact .return hrunning
    · cases h

theorem threadRun_of_play (hH : ∀ w c ch, ok w c (answer w c ch).1 = true →
      H c w (answer w c ch).1 (answer w c ch).2)
    {s s' : Threads Resp World T Op α} {moves : List (Move T Op Choice)}
    {log : List (Label Resp T Op α)}
    (h : Transition.Run.play (advance program locks answer ok) s moves = some (log, s')) :
    ThreadRun program locks H s log s' :=
  Transition.Run.of_play (fun _ _ _ _ => advance_step hH) h

end
end Interact
