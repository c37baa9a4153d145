import CloudStorage.Lib.Interact

/-!
# Two runs of one program

`coupled` runs one program in two worlds with the same choices of the environment
and asks that every call be answered alike; what then holds of the two final worlds
is its postcondition.
-/

namespace Interact

variable {Call : Type} {Resp : Call → Type} {World : Type} {α β : Type}

section
variable {Choice : Type} (answer : World → (c : Call) → Choice → Resp c × World)
  (ok : World → (c : Call) → Resp c → Bool)

def coupled : Prog Resp α → (α → World → World → Prop) → World → World → Prop
  | .ret a, Q, w₁, w₂ => Q a w₁ w₂
  | .call c next, Q, w₁, w₂ => ∀ ch, (answer w₂ c ch).1 = (answer w₁ c ch).1 ∧
      ok w₂ c (answer w₁ c ch).1 = ok w₁ c (answer w₁ c ch).1 ∧
      (ok w₁ c (answer w₁ c ch).1 = true →
        coupled (next (answer w₁ c ch).1) Q (answer w₁ c ch).2 (answer w₂ c ch).2)

variable {answer ok} {Q : α → World → World → Prop} {w₁ w₂ : World}

theorem coupled_bind {p : Prog Resp α} {f : α → Prog Resp β} {R : β → World → World → Prop}
    (hp : coupled answer ok p Q w₁ w₂)
    (hf : ∀ a w₁ w₂, Q a w₁ w₂ → coupled answer ok (f a) R w₁ w₂) :
    coupled answer ok (p >>= f) R w₁ w₂ := by
  induction p generalizing w₁ w₂ with
  | ret a => exact hf a w₁ w₂ hp
  | call c next ih =>
    intro ch
    obtain ⟨hsame, hok, hnext⟩ := hp ch
    exact ⟨hsame, hok, fun h => ih _ (hnext h)⟩

/-- Two worlds that calls of the kind cannot tell apart stay so. -/
theorem coupled_only {P : Call → Prop} {R : World → World → Prop} {p : Prog Resp α}
    (hp : p.Only P)
    (hR : ∀ c w₁ w₂ ch, P c → R w₁ w₂ → (answer w₂ c ch).1 = (answer w₁ c ch).1 ∧
      ok w₂ c (answer w₁ c ch).1 = ok w₁ c (answer w₁ c ch).1 ∧
      R (answer w₁ c ch).2 (answer w₂ c ch).2)
    (h : R w₁ w₂) : coupled answer ok p (fun _ => R) w₁ w₂ := by
  induction p generalizing w₁ w₂ with
  | ret a => exact h
  | call c next ih =>
    intro ch
    obtain ⟨hsame, hok, hnext⟩ := hR c w₁ w₂ ch hp.1 h
    exact ⟨hsame, hok, fun _ => ih _ (hp.2 _) hnext⟩

/-- What is known of the first run alone holds of it here. -/
theorem coupled_wp {H : Env Resp World} {Q₁ : α → World → Prop} {C : World → Prop}
    {p : Prog Resp α} (hH : ∀ w c ch, ok w c (answer w c ch).1 = true →
      H c w (answer w c ch).1 (answer w c ch).2)
    (hp : coupled answer ok p Q w₁ w₂) (hwp : wp H p Q₁ C w₁) :
    coupled answer ok p (fun a w₁ w₂ => Q₁ a w₁ ∧ Q a w₁ w₂) w₁ w₂ := by
  induction p generalizing w₁ w₂ with
  | ret a => exact ⟨hwp, hp⟩
  | call c next ih =>
    intro ch
    obtain ⟨hsame, hok, hnext⟩ := hp ch
    exact ⟨hsame, hok, fun h => ih _ (hnext h) (hwp.2 _ _ (hH _ _ _ h))⟩

/-- With the same choices both runs get equally far and return the same. -/
theorem play_coupled {p : Prog Resp α} (h : coupled answer ok p Q w₁ w₂) (chs : List Choice) :
    (play answer ok p chs w₂).1 = (play answer ok p chs w₁).1 ∧
      ∀ a, (play answer ok p chs w₁).1.result = some a →
        Q a (play answer ok p chs w₁).2 (play answer ok p chs w₂).2 := by
  induction p generalizing chs w₁ w₂ with
  | ret a =>
    refine ⟨rfl, fun b hb => ?_⟩
    cases hb
    exact h
  | call c next ih =>
    cases chs with
    | nil =>
      refine ⟨rfl, fun _ hb => ?_⟩
      cases hb
    | cons ch chs =>
      obtain ⟨hsame, hok, hnext⟩ := h ch
      simp only [play, hsame, hok]
      split
      · rename_i hpass
        exact ih _ (hnext hpass) chs
      · refine ⟨rfl, fun _ hb => ?_⟩
        cases hb

end
end Interact
