import CloudStorage.Lib.Threads
import CloudStorage.Lib.Transfer

/-!
# Threads that keep to what is theirs

A program has a part of the world and makes only the calls that its part allows.
Where such a call, made in the whole world, is one that the part answers and leaves
the parts of the others as they are, each thread does what its program does alone
(`run_owned`).
-/

namespace Interact
open Transfer

variable {Call : Type} {Resp : Call → Type} {World Own : Type} {α β σ : Type}

/-! ### Programs that make allowed calls only -/

section
variable (allowed : Call → Own → Prop) (H : Env Resp Own)

/-- A call that is not allowed leads nowhere. -/
def guarded : Env Resp (Option Own)
  | c, some v, r, some v' => allowed c v ∧ H c v r v'
  | c, some v, _, none => ¬allowed c v
  | _, none, _, _ => False

def Inside (Q : Own → Prop) : Option Own → Prop
  | some v => Q v
  | none => False

/-- The program makes allowed calls only and comes to `Q`. -/
def Keeps (p : Prog Resp α) (Q : α → Own → Prop) (v : Own) : Prop :=
  wp (guarded allowed H) p (fun a => Inside (Q a)) (Inside fun _ => True) (some v)

end

section
variable {allowed : Call → Own → Prop} {H : Env Resp Own} {Q Q' : α → Own → Prop} {v : Own}

theorem keeps_pure {a : α} (h : Q a v) : Keeps allowed H (pure a) Q v := h

theorem not_wp_none (p : Prog Resp α) :
    ¬wp (guarded allowed H) p (fun a => Inside (Q a)) (Inside fun _ => True) none := by
  cases p with
  | ret a => exact id
  | call c next => exact fun h => h.1

theorem keeps_call_iff [∀ c, Nonempty (Resp c)] {c : Call} {next : Resp c → Prog Resp α} :
    Keeps allowed H (.call c next) Q v ↔
      allowed c v ∧ ∀ r v', H c v r v' → Keeps allowed H (next r) Q v' := by
  constructor
  · intro h
    have hallowed : allowed c v := by
      by_contra hnot
      obtain ⟨r⟩ : Nonempty (Resp c) := inferInstance
      exact not_wp_none _ (h.2 r none hnot)
    exact ⟨hallowed, fun r v' hr => h.2 r (some v') ⟨hallowed, hr⟩⟩
  · intro ⟨hallowed, h⟩
    refine ⟨trivial, fun r o hr => ?_⟩
    cases o with
    | none => exact absurd hallowed hr
    | some v' => exact h r v' hr.2

theorem keeps_perform_bind [∀ c, Nonempty (Resp c)] {c : Call} {f : Resp c → Prog Resp α}
    (hallowed : allowed c v) (h : ∀ r v', H c v r v' → Keeps allowed H (f r) Q v') :
    Keeps allowed H (Prog.perform c >>= f) Q v :=
  keeps_call_iff.mpr ⟨hallowed, h⟩

theorem keeps_mono {p : Prog Resp α} (h : Keeps allowed H p Q v)
    (hQ : ∀ a v, Q a v → Q' a v) : Keeps allowed H p Q' v := by
  refine wp_mono h (fun a o ho => ?_) fun _ ho => ho
  cases o with
  | none => exact ho
  | some v' => exact hQ a v' ho

theorem keeps_seq {p : Prog Resp α} {f : α → Prog Resp β} {R : β → Own → Prop}
    (h : Keeps allowed H p Q v) (hf : ∀ a v, Q a v → Keeps allowed H (f a) R v) :
    Keeps allowed H (p >>= f) R v := by
  refine wp_seq h (fun _ ho => ho) fun a o ho => ?_
  cases o with
  | none => exact ho.elim
  | some v' => exact hf a v' ho

/-- The loop rule of `Transfer` for allowed calls. -/
theorem keeps_loop {full : σ → Bool} {attempt : σ → Prog Resp (Attempt σ)} {I : σ → Own → Prop}
    {F : Own → Prop} {left : σ → Nat} {interruptions : Own → Nat}
    (hstep : ∀ s v, full s = false → I s v →
      Keeps allowed H (attempt s) (Kept I F left interruptions s v) v)
    (rounds : Nat) {s : σ} (h : I s v) :
    Keeps allowed H (loop full attempt rounds s)
      (Reached I F left interruptions full rounds s v) v := by
  induction rounds generalizing s v with
  | zero => exact keeps_pure (Nat.le_add_left ..)
  | succ rounds ih =>
    rw [loop]
    cases hfull : full s with
    | true =>
      rw [if_pos rfl]
      exact keeps_pure ⟨h, hfull⟩
    | false =>
      simp only [Bool.false_eq_true, if_false]
      apply keeps_seq (hstep s v hfull h)
      intro r v' hr
      cases r with
      | advanced s' =>
        obtain ⟨hs', hleft, hsame⟩ := hr
        exact keeps_mono (ih hs') fun _ _ => Reached.earlier (by omega)
      | interrupted =>
        obtain ⟨hs, hmore⟩ := hr
        exact keeps_mono (ih hs) fun _ _ => Reached.earlier (by omega)
      | failed => exact keeps_pure hr

end

/-! ### Threads -/

section
variable {T Op : Type}

/-- The operations that are over, in the order of their returns. -/
def returns (log : List (Label Resp T Op α)) : List (Op × α) :=
  log.filterMap fun
    | .returned _ op a => some (op, a)
    | _ => none

theorem returns_snoc (log : List (Label Resp T Op α)) (l : Label Resp T Op α) :
    returns (log ++ [l]) = returns log ++ returns [l] :=
  List.filterMap_append

variable [DecidableEq T]

/-- Each program keeps to its part, which begins as `start` and ends with `Q`, and `Parts` says
how the parts of the threads and those of the operations that are over make up the world; of
the results only those that are `normal` need be considered. -/
structure OwnRule (program : Op → Prog Resp α) (H : Env Resp World) (allowed : Op → Call → Own → Prop)
    (H' : Env Resp Own) (start : Own) (normal : α → Prop) (Q : Op → α → Own → Prop)
    (Parts : (T → Own) → List ((Op × α) × Own) → World → Prop) : Prop where
  verified : ∀ op, Keeps (allowed op) H' (program op) (Q op) start
  call : ∀ own past t op c w r w', Parts own past w → allowed op c (own t) → H c w r w' →
    ∃ v, H' c (own t) r v ∧ Parts (Function.update own t v) past w'
  leave : ∀ own past t op a w, Parts own past w → normal a → Q op a (own t) →
    Parts (Function.update own t start) (past ++ [((op, a), own t)]) w

structure Owned (allowed : Op → Call → Own → Prop) (H' : Env Resp Own) (start : Own)
    (Q : Op → α → Own → Prop) (Parts : (T → Own) → List ((Op × α) × Own) → World → Prop)
    (log : List (Label Resp T Op α)) (s : Threads Resp World T Op α) (own : T → Own)
    (past : List ((Op × α) × Own)) : Prop where
  returned : past.map Prod.fst = returns log
  ended : ∀ e ∈ past, Q e.1.1 e.1.2 e.2
  parts : Parts own past s.world
  running : ∀ t op p, s.phase t = .running op p → Keeps (allowed op) H' p (Q op) (own t)
  rest : ∀ t, (∀ op p, s.phase t ≠ .running op p) → own t = start

variable {program : Op → Prog Resp α} {locks : Op → Bool} {H : Env Resp World}
  {allowed : Op → Call → Own → Prop} {H' : Env Resp Own} {start : Own} {normal : α → Prop}
  {Q : Op → α → Own → Prop}
  {Parts : (T → Own) → List ((Op × α) × Own) → World → Prop}
  {log : List (Label Resp T Op α)} {s s' : Threads Resp World T Op α} {own : T → Own}
  {past : List ((Op × α) × Own)}

/-- A thread that does not run its program has made no call. -/
theorem Owned.phase {t : T} {x : Phase Resp Op α} {l : Label Resp T Op α}
    (h : Owned allowed H' start Q Parts log s own past)
    (hold : ∀ op p, s.phase t ≠ .running op p) (hnone : returns [l] = [])
    (hworld : s'.world = s.world) (hphase : s'.phase = Function.update s.phase t x)
    (hx : ∀ op p, x = .running op p → Keeps (allowed op) H' p (Q op) start) :
    Owned allowed H' start Q Parts (log ++ [l]) s' own past := by
  constructor
  · rw [returns_snoc, hnone, List.append_nil]
    exact h.returned
  · exact h.ended
  · rw [hworld]
    exact h.parts
  · intro t' op p hp
    rw [hphase] at hp
    rcases update_running hp with ⟨rfl, hrunning⟩ | ⟨-, hrunning⟩
    · rw [h.rest t' hold]
      exact hx op p hrunning
    · exact h.running t' op p hrunning
  · intro t' hrest
    by_cases he : t' = t
    · rw [he]
      exact h.rest t hold
    · apply h.rest
      intro op p hp
      apply hrest op p
      rw [hphase, Function.update_of_ne he]
      exact hp

theorem Owned.call [∀ c, Nonempty (Resp c)] {t : T} {op : Op} {c : Call}
    {next : Resp c → Prog Resp α} {r : Resp c} {w' : World}
    (hrule : OwnRule program H allowed H' start normal Q Parts)
    (h : Owned allowed H' start Q Parts log s own past)
    (hrunning : s.phase t = .running op (.call c next)) (hanswer : H c s.world r w') :
    ∃ v, Owned allowed H' start Q Parts (log ++ [.called t c r])
      { s with world := w', phase := Function.update s.phase t (.running op (next r)) }
      (Function.update own t v) past := by
  obtain ⟨hallowed, hnext⟩ := keeps_call_iff.mp (h.running t op _ hrunning)
  obtain ⟨v, hv, hparts⟩ := hrule.call own past t op c _ r w' h.parts hallowed hanswer
  refine ⟨v, ?_, h.ended, hparts, ?_, ?_⟩
  · rw [returns_snoc, h.returned]
    exact (List.append_nil _).symm
  · intro t' op' p hp
    rcases update_running hp with ⟨rfl, he⟩ | ⟨hne, he⟩
    · cases he
      rw [Function.update_self]
      exact hnext r v hv
    · rw [Function.update_of_ne hne]
      exact h.running t' op' p he
  · intro t' hrest
    have hne : t' ≠ t := by
      rintro rfl
      exact hrest op (next r) (Function.update_self ..)
    rw [Function.update_of_ne hne]
    apply h.rest
    intro op' p hp
    apply hrest op' p
    show Function.update s.phase t _ t' = _
    rw [Function.update_of_ne hne]
    exact hp

theorem Owned.leave {t : T} {op : Op} {a : α} {owner : Option T}
    (hrule : OwnRule program H allowed H' start normal Q Parts)
    (h : Owned allowed H' start Q Parts log s own past)
    (hnormal : normal a) (hrunning : s.phase t = .running op (.ret a)) :
    Owned allowed H' start Q Parts (log ++ [.returned t op a])
      { s with phase := Function.update s.phase t .idle, owner := owner }
      (Function.update own t start) (past ++ [((op, a), own t)]) := by
  have hended : Q op a (own t) := h.running t op _ hrunning
  constructor
  · rw [returns_snoc, List.map_append, h.returned]
    rfl
  · intro e he
    rcases List.mem_append.mp he with hmem | hlast
    · exact h.ended e hmem
    · rw [List.mem_singleton.mp hlast]
      exact hended
  · exact hrule.leave own past t op a _ h.parts hnormal hended
  · intro t' op' p hp
    rcases update_running hp with ⟨-, he⟩ | ⟨hne, he⟩
    · cases he
    · rw [Function.update_of_ne hne]
      exact h.running t' op' p he
  · intro t' hrest
    by_cases he : t' = t
    · rw [he, Function.update_self]
    · rw [Function.update_of_ne he]
      apply h.rest
      intro op' p hp
      apply hrest op' p
      show Function.update s.phase t _ t' = _
      rw [Function.update_of_ne he]
      exact hp

theorem Owned.step [∀ c, Nonempty (Resp c)] {l : Label Resp T Op α}
    (hrule : OwnRule program H allowed H' start normal Q Parts)
    (h : Owned allowed H' start Q Parts log s own past)
    (hnormal : ∀ e ∈ returns [l], normal e.2) (hstep : ThreadStep program locks H s l s') :
    ∃ own' past', Owned allowed H' start Q Parts (log ++ [l]) s' own' past' := by
  cases hstep with
  | @invoke t op hidle =>
    refine ⟨own, past, h.phase (fun op p => ?_) rfl rfl rfl fun op p hx => nomatch hx⟩
    rw [hidle]
    exact nofun
  | @enter t op hwaiting _ =>
    refine ⟨own, past, h.phase (fun op p => ?_) rfl rfl rfl fun op' p hx => ?_⟩
    · rw [hwaiting]
      exact nofun
    · cases hx
      exact hrule.verified op
  | call hrunning hanswer =>
    obtain ⟨v, hv⟩ := h.call hrule hrunning hanswer
    exact ⟨_, past, hv⟩
  | @«return» t op a hrunning =>
    exact ⟨_, _, h.leave hrule (hnormal (op, a) (List.mem_singleton_self _)) hrunning⟩

/-- Among the others every thread does what its program does alone. -/
theorem run_owned [∀ c, Nonempty (Resp c)] {s₀ : Threads Resp World T Op α}
    (hrule : OwnRule program H allowed H' start normal Q Parts) (hidle : ∀ t, s₀.phase t = .idle)
    (hstart : Parts (fun _ => start) [] s₀.world) (hnormal : ∀ e ∈ returns log, normal e.2)
    (hrun : ThreadRun program locks H s₀ log s) :
    ∃ own past, Owned allowed H' start Q Parts log s own past := by
  induction hrun with
  | nil =>
    refine ⟨fun _ => start, [], rfl, ?_, hstart, ?_, fun _ _ => rfl⟩
    · intro e he
      cases he
    · intro t op p hp
      rw [hidle t] at hp
      cases hp
  | snoc _ hstep ih =>
    simp only [returns_snoc, List.mem_append] at hnormal
    obtain ⟨own, past, h⟩ := ih fun e he => hnormal e (.inl he)
    exact h.step hrule (fun e he => hnormal e (.inr he)) hstep

end

end Interact
