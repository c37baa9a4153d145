import CloudStorage.Lib.Interact

/-!
# Programs that follow coarser ones

From a coarser level a call with its answer looks like another call with its
answer, or like nothing. A program follows a coarser one when what is seen of its
calls are that one's calls in their order, and the two results match; it may also
give up. Its runs then are runs of the coarser program, in any two environments
that go together call by call.
-/

namespace Interact

variable {Call Call' : Type} {Resp : Call → Type} {Resp' : Call' → Type}
  {World World' α α' β β' : Type}

/-- Which answers there may be, and what is seen of a call and its answer. -/
structure View (Resp : Call → Type) (Resp' : Call' → Type) where
  ok : (c : Call) → Resp c → Prop
  seen : (c : Call) → Resp c → Option ((c : Call') × Resp' c)

/-- `gaveUp` are the results of a program that has given up. -/
def Follows (V : View Resp Resp') (gaveUp : α → Prop) (R : α → β → Prop) :
    Prog Resp α → Prog Resp' β → Prop
  | .ret a, q => gaveUp a ∨ ∃ b, q = .ret b ∧ R a b
  | .call c next, q => ∀ r, V.ok c r →
      match V.seen c r with
      | none => Follows V gaveUp R (next r) q
      | some event => ∃ next', q = .call event.1 next' ∧ Follows V gaveUp R (next r) (next' event.2)

section
variable {V : View Resp Resp'} {gaveUp : α → Prop} {gaveUp' : α' → Prop} {R : α → β → Prop}
  {R' : α' → β' → Prop}

theorem follows_gaveUp {a : α} (h : gaveUp a) (q : Prog Resp' β) : Follows V gaveUp R (.ret a) q :=
  .inl h

theorem follows_ret {a : α} {b : β} (h : R a b) : Follows V gaveUp R (.ret a) (.ret b) :=
  .inr ⟨b, rfl, h⟩

theorem follows_bind {p : Prog Resp α} {q : Prog Resp' β} {f : α → Prog Resp α'}
    {g : β → Prog Resp' β'} (h : Follows V gaveUp R p q)
    (hgave : ∀ a q, gaveUp a → Follows V gaveUp' R' (f a) q)
    (hf : ∀ a b, R a b → Follows V gaveUp' R' (f a) (g b)) :
    Follows V gaveUp' R' (p >>= f) (q >>= g) := by
  induction p generalizing q with
  | ret a =>
    rcases h with ha | ⟨b, rfl, hb⟩
    · exact hgave a _ ha
    · exact hf a b hb
  | call c next ih =>
    intro r hok
    have hr := h r hok
    revert hr
    cases V.seen c r with
    | none => exact fun hr => ih r hr
    | some event =>
      rintro ⟨next', rfl, hnext⟩
      exact ⟨fun r' => next' r' >>= g, rfl, ih r hnext⟩

/-- The two environments go together at a call. -/
def Together (V : View Resp Resp') (H : Env Resp World) (H' : Env Resp' World')
    (W : World → World' → Prop) (c : Call) : Prop :=
  ∀ w r w₁ v, W w v → H c w r w₁ → V.ok c r ∧
    match V.seen c r with
    | none => W w₁ v
    | some event => ∃ v₁, H' event.1 v event.2 v₁ ∧ W w₁ v₁

/-- A run of a program is one of the program it follows. -/
theorem Follows.runs {H : Env Resp World} {H' : Env Resp' World'} {W : World → World' → Prop}
    {p : Prog Resp α} {q : Prog Resp' β} (hp : p.Only (Together V H H' W))
    (h : Follows V gaveUp R p q) {w w' : World} {v : World'} {a : α} (hW : W w v)
    (hrun : Runs H p w a w') : gaveUp a ∨ ∃ b v', Runs H' q v b v' ∧ R a b ∧ W w' v' := by
  induction p generalizing q w v with
  | ret a' =>
    cases hrun
    rcases h with ha | ⟨b, rfl, hb⟩
    · exact .inl ha
    · exact .inr ⟨b, v, .refl .., hb, hW⟩
  | call c next ih =>
    cases hrun with
    | @head _ _ _ w₁ _ r _ hanswer hrest =>
      obtain ⟨hok, hseen⟩ := hp.1 w r w₁ v hW hanswer
      have hr := h r hok
      revert hseen hr
      cases V.seen c r with
      | none => exact fun hW₁ hr => ih r (hp.2 r) hr hW₁ hrest
      | some event =>
        rintro ⟨v₁, hanswer', hW₁⟩ ⟨next', rfl, hnext⟩
        refine (ih r (hp.2 r) hnext hW₁ hrest).imp_right ?_
        rintro ⟨b, v', hrun', hb, hW'⟩
        exact ⟨b, v', .head hanswer' hrun', hb, hW'⟩

end
end Interact
