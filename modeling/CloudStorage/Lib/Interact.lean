import CloudStorage.Lib.Transition

/-!
# Interactive programs

A program is a tree of calls: it returns a value, or makes one call and goes on
with whatever the environment answers. An environment is a relation between a
call, the world before, the answer and the world after, so failures are answers
like any other. A run may stop between two calls (the process is killed); the
weakest precondition `wp H p Q C w` therefore has two postconditions, `Q` for
the runs that return and `C` for every point before a call.
-/

namespace Interact

variable {Call : Type} {Resp : Call → Type} {World : Type} {α β : Type}

inductive Prog (Resp : Call → Type) (α : Type) where
  | ret (a : α)
  | call (c : Call) (next : Resp c → Prog Resp α)

namespace Prog

def bind : Prog Resp α → (α → Prog Resp β) → Prog Resp β
  | .ret a, f => f a
  | .call c next, f => .call c fun r => (next r).bind f

instance : Monad (Prog Resp) where
  pure := .ret
  bind := bind

/-- One call, returning its answer. -/
def perform (c : Call) : Prog Resp (Resp c) := .call c .ret

@[simp] theorem ret_bind (a : α) (f : α → Prog Resp β) : (Prog.ret a >>= f) = f a := rfl

@[simp] theorem pure_bind' (a : α) (f : α → Prog Resp β) :
    ((pure a : Prog Resp α) >>= f) = f a := rfl

@[simp] theorem call_bind (c : Call) (next : Resp c → Prog Resp α) (f : α → Prog Resp β) :
    (Prog.call c next >>= f) = .call c fun r => next r >>= f := rfl

@[simp] theorem perform_bind (c : Call) (f : Resp c → Prog Resp β) :
    (perform c >>= f) = .call c f := rfl

end Prog

/-- The answers an environment may give, and the worlds they lead to. -/
abbrev Env (Resp : Call → Type) (World : Type) := (c : Call) → World → Resp c → World → Prop

/-! ### Runs -/

/-- Zero or more calls answered. -/
inductive Steps (H : Env Resp World) : Prog Resp α → World → Prog Resp α → World → Prop
  | refl (p : Prog Resp α) (w : World) : Steps H p w p w
  | head {c : Call} {next : Resp c → Prog Resp α} {w w' w'' : World} {r : Resp c}
      {q : Prog Resp α} : H c w r w' → Steps H (next r) w' q w'' → Steps H (.call c next) w q w''

/-- A complete run. -/
def Runs (H : Env Resp World) (p : Prog Resp α) (w : World) (a : α) (w' : World) : Prop :=
  Steps H p w (.ret a) w'

/-- A run stopped before a call. -/
def Stops (H : Env Resp World) (p : Prog Resp α) (w w' : World) : Prop :=
  ∃ (c : Call) (next : Resp c → Prog Resp α), Steps H p w (.call c next) w'

theorem Steps.snoc {H : Env Resp World} {p : Prog Resp α} {c : Call}
    {next : Resp c → Prog Resp α} {w w' w'' : World} {r : Resp c}
    (h : Steps H p w (.call c next) w') (ha : H c w' r w'') : Steps H p w (next r) w'' := by
  generalize hq : Prog.call c next = q at h
  induction h with
  | refl p w =>
    subst hq
    exact .head ha (.refl ..)
  | head hc _ ih => exact .head hc (ih ha hq)

/-! ### Weakest preconditions -/

def wp (H : Env Resp World) : Prog Resp α → (α → World → Prop) → (World → Prop) → World → Prop
  | .ret a, Q, _, w => Q a w
  | .call c next, Q, C, w => C w ∧ ∀ r w', H c w r w' → wp H (next r) Q C w'

variable {H : Env Resp World} {Q Q' : α → World → Prop} {C C' : World → Prop}

@[simp] theorem wp_ret (a : α) (w : World) : wp H (.ret a) Q C w ↔ Q a w := Iff.rfl

@[simp] theorem wp_pure (a : α) (w : World) :
    wp H (pure a : Prog Resp α) Q C w ↔ Q a w := Iff.rfl

theorem wp_call (c : Call) (next : Resp c → Prog Resp α) (w : World) :
    wp H (.call c next) Q C w ↔ C w ∧ ∀ r w', H c w r w' → wp H (next r) Q C w' := Iff.rfl

theorem wp_bind (p : Prog Resp α) (f : α → Prog Resp β) (Q : β → World → Prop) (w : World) :
    wp H (p >>= f) Q C w ↔ wp H p (fun a w' => wp H (f a) Q C w') C w := by
  induction p generalizing w with
  | ret a => rfl
  | call c next ih =>
    simp only [Prog.call_bind, wp_call]
    constructor
    · exact fun ⟨h1, h2⟩ => ⟨h1, fun r w' hr => (ih r w').mp (h2 r w' hr)⟩
    · exact fun ⟨h1, h2⟩ => ⟨h1, fun r w' hr => (ih r w').mpr (h2 r w' hr)⟩

theorem wp_mono {p : Prog Resp α} {w : World} (h : wp H p Q C w)
    (hQ : ∀ a w', Q a w' → Q' a w') (hC : ∀ w', C w' → C' w') : wp H p Q' C' w := by
  induction p generalizing w with
  | ret a => exact hQ a w h
  | call c next ih => exact ⟨hC w h.1, fun r w' hr => ih r (h.2 r w' hr)⟩

theorem wp_seq {p : Prog Resp α} {f : α → Prog Resp β} {R : β → World → Prop} {w : World}
    (h : wp H p Q C w) (hC : ∀ w', C w' → C' w')
    (hf : ∀ a w', Q a w' → wp H (f a) R C' w') : wp H (p >>= f) R C' w :=
  (wp_bind p f R w).mpr (wp_mono h hf hC)

theorem wp_perform_bind {c : Call} {f : Resp c → Prog Resp α} {w : World} (hC : C w)
    (h : ∀ r w', H c w r w' → wp H (f r) Q C w') : wp H (Prog.perform c >>= f) Q C w :=
  ⟨hC, h⟩

theorem wp_and {p : Prog Resp α} {w : World} (h : wp H p Q C w) (h' : wp H p Q' C' w) :
    wp H p (fun a w => Q a w ∧ Q' a w) (fun w => C w ∧ C' w) w := by
  induction p generalizing w with
  | ret a => exact ⟨h, h'⟩
  | call c next ih => exact ⟨⟨h.1, h'.1⟩, fun r w' hr => ih r (h.2 r w' hr) (h'.2 r w' hr)⟩

/-- Two facts about a program, both used by what follows it. -/
theorem wp_seq_and {p : Prog Resp α} {f : α → Prog Resp β} {R : β → World → Prop} {w : World}
    (h : wp H p Q C w) (h' : wp H p Q' C' w)
    (hf : ∀ a w', Q a w' → Q' a w' → wp H (f a) R (fun _ => True) w') :
    wp H (p >>= f) R (fun _ => True) w :=
  wp_seq (wp_and h h') (fun _ _ => trivial) fun a w' ⟨hq, hq'⟩ => hf a w' hq hq'

/-- An environment with fewer answers. -/
theorem wp_env {H' : Env Resp World} {p : Prog Resp α} {w : World} (h : wp H p Q C w)
    (hH : ∀ c w r w', H' c w r w' → H c w r w') : wp H' p Q C w := by
  induction p generalizing w with
  | ret a => exact h
  | call c next ih => exact ⟨h.1, fun r w' hr => ih r (h.2 r w' (hH _ _ _ _ hr))⟩

theorem wp_steps {p q : Prog Resp α} {w w' : World} (h : wp H p Q C w)
    (hs : Steps H p w q w') : wp H q Q C w' := by
  induction hs with
  | refl => exact h
  | head hc _ ih => exact ih (h.2 _ _ hc)

theorem wp_runs {p : Prog Resp α} {w w' : World} {a : α} (h : wp H p Q C w)
    (hr : Runs H p w a w') : Q a w' :=
  wp_steps h hr

/-- All that a program ends with. -/
theorem wp_self (p : Prog Resp α) (w : World) :
    wp H p (fun a w' => Runs H p w a w') (fun _ => True) w := by
  induction p generalizing w with
  | ret a => exact .refl _ w
  | call c next ih =>
    refine ⟨trivial, fun r w' hr => ?_⟩
    exact wp_mono (ih r w') (fun _ _ h => .head hr h) fun _ h => h

theorem wp_stops {p : Prog Resp α} {w w' : World} (h : wp H p Q C w)
    (hs : Stops H p w w') : C w' := by
  obtain ⟨c, next, hs⟩ := hs
  exact (wp_steps h hs).1

/-! ### Programs that make calls of one kind only -/

/-- Every call the program may make satisfies `P`. -/
def Prog.Only (P : Call → Prop) : Prog Resp α → Prop
  | .ret _ => True
  | .call c next => P c ∧ ∀ r, (next r).Only P

section
variable {P : Call → Prop}

theorem only_pure (a : α) : Prog.Only P (pure a : Prog Resp α) := trivial

theorem only_perform {c : Call} (h : P c) : Prog.Only P (Prog.perform c : Prog Resp (Resp c)) :=
  ⟨h, fun _ => trivial⟩

theorem only_bind {p : Prog Resp α} {f : α → Prog Resp β} (hp : p.Only P)
    (hf : ∀ a, (f a).Only P) : (p >>= f).Only P := by
  induction p with
  | ret a => exact hf a
  | call c next ih => exact ⟨hp.1, fun r => ih r (hp.2 r)⟩

theorem only_mono {P' : Call → Prop} {p : Prog Resp α} (hp : p.Only P) (h : ∀ c, P c → P' c) :
    p.Only P' := by
  induction p with
  | ret a => trivial
  | call c next ih => exact ⟨h c hp.1, fun r => ih r (hp.2 r)⟩

/-- What every call of the kind keeps holds wherever the program is. -/
theorem wp_only {H : Env Resp World} {I : World → Prop} {p : Prog Resp α} (hp : p.Only P)
    (hI : ∀ c w r w', P c → I w → H c w r w' → I w') {w : World} (h : I w) :
    wp H p (fun _ => I) I w := by
  induction p generalizing w with
  | ret a => exact h
  | call c next ih => exact ⟨h, fun r w' hr => ih r (hp.2 r) (hI _ _ _ _ hp.1 h hr)⟩

end

/-! ### Committing -/

/-- `C` holds before each call until one of them commits the program, which then
satisfies `L`; a program that returns uncommitted satisfies `Q`. -/
def committing (H : Env Resp World) (L : Prog Resp α → World → Prop) :
    Prog Resp α → (α → World → Prop) → (World → Prop) → World → Prop
  | .ret a, Q, _, w => Q a w
  | .call c next, Q, C, w => C w ∧ ∀ r w', H c w r w' →
      committing H L (next r) Q C w' ∨ L (next r) w'

section
variable {H : Env Resp World} {Q : α → World → Prop} {C : World → Prop}

theorem committing_of_wp {L : Prog Resp α → World → Prop} {p : Prog Resp α} {w : World}
    (h : wp H p Q C w) : committing H L p Q C w := by
  induction p generalizing w with
  | ret a => exact h
  | call c next ih => exact ⟨h.1, fun r w' hr => Or.inl (ih r (h.2 r w' hr))⟩

theorem committing_bind {L : Prog Resp α → World → Prop} {L' : Prog Resp β → World → Prop}
    {R : β → World → Prop} {C' : World → Prop} {p : Prog Resp α} {f : α → Prog Resp β} {w : World}
    (h : committing H L p Q C w) (hC : ∀ w', C w' → C' w')
    (hL : ∀ p w', L p w' → L' (p >>= f) w')
    (hf : ∀ a w', Q a w' → committing H L' (f a) R C' w') :
    committing H L' (p >>= f) R C' w := by
  induction p generalizing w with
  | ret a => exact hf a w h
  | call c next ih =>
    exact ⟨hC w h.1, fun r w' hr => (h.2 r w' hr).imp (ih r) (hL _ _)⟩

theorem committing_mono {L L' : Prog Resp α → World → Prop} {Q' : α → World → Prop}
    {C' : World → Prop} {p : Prog Resp α} {w : World} (h : committing H L p Q C w)
    (hQ : ∀ a w', Q a w' → Q' a w') (hC : ∀ w', C w' → C' w')
    (hL : ∀ p w', L p w' → L' p w') : committing H L' p Q' C' w := by
  induction p generalizing w with
  | ret a => exact hQ a w h
  | call c next ih => exact ⟨hC w h.1, fun r w' hr => (h.2 r w' hr).imp (ih r) (hL _ _)⟩

theorem committing_seq {L' : Prog Resp β → World → Prop} {R : β → World → Prop}
    {C' : World → Prop} {p : Prog Resp α} {f : α → Prog Resp β} {w : World} (h : wp H p Q C w)
    (hC : ∀ w', C w' → C' w') (hf : ∀ a w', Q a w' → committing H L' (f a) R C' w') :
    committing H L' (p >>= f) R C' w := by
  have hp : committing H (fun _ _ => False) p Q C w := committing_of_wp h
  exact committing_bind hp hC (fun _ _ hfalse => hfalse.elim) hf

theorem committing_call {L : Prog Resp α → World → Prop} {c : Call} {f : Resp c → Prog Resp α}
    {w : World} (h : wp H (Prog.perform c)
      (fun r w' => committing H L (f r) Q C w' ∨ L (f r) w') C w) :
    committing H L (Prog.perform c >>= f) Q C w :=
  ⟨h.1, h.2⟩

theorem wp_of_committing {Q' : α → World → Prop} {D : World → Prop} {p : Prog Resp α} {w : World}
    (h : committing H (fun p w => wp H p Q' D w) p Q C w) :
    wp H p (fun a w => Q a w ∨ Q' a w) (fun w => C w ∨ D w) w := by
  induction p generalizing w with
  | ret a => exact Or.inl h
  | call c next ih =>
    refine ⟨Or.inl h.1, fun r w' hr => ?_⟩
    rcases h.2 r w' hr with hnext | hnext
    · exact ih r hnext
    · exact wp_mono hnext (fun _ _ => Or.inr) fun _ => Or.inr

end

/-! ### The calls of a run -/

/-- A call that was answered, with the world it was made in. -/
structure Answered (Resp : Call → Type) (World : Type) where
  world : World
  call : Call
  answer : Resp call

inductive CallStep (H : Env Resp World) :
    Prog Resp α × World → Answered Resp World → Prog Resp α × World → Prop
  | call {c : Call} {next : Resp c → Prog Resp α} {r : Resp c} {w w' : World} : H c w r w' →
      CallStep H (.call c next, w) ⟨w, c, r⟩ (next r, w')

/-- A run as far as some point, with its calls. -/
abbrev CallRun (H : Env Resp World) :
    Prog Resp α × World → List (Answered Resp World) → Prog Resp α × World → Prop :=
  Transition.Run (CallStep H)

theorem CallRun.steps {H : Env Resp World} {s s' : Prog Resp α × World}
    {calls : List (Answered Resp World)} (h : CallRun H s calls s') :
    Steps H s.1 s.2 s'.1 s'.2 := by
  induction h with
  | nil => exact .refl ..
  | snoc _ hstep ih =>
    cases hstep with
    | call hanswer => exact ih.snoc hanswer

/-! ### Serving requests one at a time -/

/-- Complete runs of a handler, one after another, with what they returned. -/
abbrev Served {Req : Type} (H : Env Resp World) (handle : Req → Prog Resp α) :
    World → List (Req × α) → World → Prop :=
  Transition.Run fun w l w' => Runs H (handle l.1) w l.2 w'

/-! ### Execution -/

section Execution

variable {Choice : Type} (answer : World → (c : Call) → Choice → Resp c × World)
  (ok : World → (c : Call) → Resp c → Bool)

/-- Answers the calls of a program from a list of choices, as far as they go and as
long as the answers pass the test. -/
def play : Prog Resp α → List Choice → World → Prog Resp α × World
  | .ret a, _, w => (.ret a, w)
  | .call c next, [], w => (.call c next, w)
  | .call c next, ch :: chs, w =>
    if ok w c (answer w c ch).1 then play (next (answer w c ch).1) chs (answer w c ch).2
    else (.call c next, w)

/-- What a program that is over returned. -/
def Prog.result : Prog Resp α → Option α
  | .ret a => some a
  | .call .. => none

/-- Requests played one after another. -/
def playAll {Req : Type} (handle : Req → Prog Resp α) :
    List (Req × List Choice) → World → Option (List (Req × α) × World)
  | [], w => some ([], w)
  | (q, chs) :: rest, w =>
    match (play answer ok (handle q) chs w).1.result with
    | none => none
    | some a =>
      (playAll handle rest (play answer ok (handle q) chs w).2).map fun out =>
        ((q, a) :: out.1, out.2)

variable {answer ok}

theorem play_steps (hH : ∀ w c ch, ok w c (answer w c ch).1 = true →
      H c w (answer w c ch).1 (answer w c ch).2)
    (p : Prog Resp α) (chs : List Choice) (w : World) :
    Steps H p w (play answer ok p chs w).1 (play answer ok p chs w).2 := by
  induction p generalizing chs w with
  | ret a =>
    rw [play]
    exact .refl ..
  | call c next ih =>
    cases chs with
    | nil => exact .refl ..
    | cons ch chs =>
      rw [play]
      split
      · rename_i hok
        exact .head (hH w c ch hok) (ih _ chs _)
      · exact .refl ..

theorem play_runs (hH : ∀ w c ch, ok w c (answer w c ch).1 = true →
      H c w (answer w c ch).1 (answer w c ch).2)
    {p : Prog Resp α} {chs : List Choice} {w : World} {a : α}
    (h : (play answer ok p chs w).1.result = some a) :
    Runs H p w a (play answer ok p chs w).2 := by
  have hs := play_steps hH p chs w
  cases hp : (play answer ok p chs w).1 with
  | ret b =>
    rw [hp] at h hs
    cases h
    exact hs
  | call c next =>
    rw [hp] at h
    cases h

theorem playAll_served {Req : Type} {handle : Req → Prog Resp α}
    (hH : ∀ w c ch, ok w c (answer w c ch).1 = true →
      H c w (answer w c ch).1 (answer w c ch).2)
    {reqs : List (Req × List Choice)} {w w' : World} {log : List (Req × α)}
    (h : playAll answer ok handle reqs w = some (log, w')) : Served H handle w log w' := by
  induction reqs generalizing w log with
  | nil =>
    cases h
    exact .nil _
  | cons q reqs ih =>
    rw [playAll] at h
    cases hr : (play answer ok (handle q.1) q.2 w).1.result with
    | none => simp [hr] at h
    | some a =>
      simp only [hr, Option.map_eq_some_iff, Prod.mk.injEq, Prod.exists] at h
      obtain ⟨log', w'', hrest, rfl, rfl⟩ := h
      have hfirst : Served H handle w [(q.1, a)] (play answer ok (handle q.1) q.2 w).2 :=
        .single (play_runs hH hr)
      exact hfirst.append (ih hrest)

/-- The next call answered by a choice, as long as the answer passes the test. -/
def nextCall (answer : World → (c : Call) → Choice → Resp c × World)
    (ok : World → (c : Call) → Resp c → Bool) (s : Prog Resp α × World) (ch : Choice) :
    Option (Answered Resp World × (Prog Resp α × World)) :=
  match s.1 with
  | .ret _ => none
  | .call c next =>
    if ok s.2 c (answer s.2 c ch).1 then
      some (⟨s.2, c, (answer s.2 c ch).1⟩, (next (answer s.2 c ch).1, (answer s.2 c ch).2))
    else none

theorem callRun_of_play (hH : ∀ w c ch, ok w c (answer w c ch).1 = true →
      H c w (answer w c ch).1 (answer w c ch).2)
    {s s' : Prog Resp α × World} {calls : List (Answered Resp World)} {chs : List Choice}
    (h : Transition.Run.play (nextCall answer ok) s chs = some (calls, s')) :
    CallRun H s calls s' := by
  refine Transition.Run.of_play ?_ h
  rintro ⟨p, w⟩ ch x s₁ hnext
  cases p with
  | ret a => cases hnext
  | call c next =>
    simp only [nextCall] at hnext
    split at hnext
    · rename_i hok
      cases hnext
      exact .call (hH w c ch hok)
    · cases hnext

end Execution
end Interact
