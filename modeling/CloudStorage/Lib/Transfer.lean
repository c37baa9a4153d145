import CloudStorage.Lib.Interact

/-!
# Loops over calls that may fall short

An attempt brings the loop on, is interrupted and made again, or fails. Nothing
bounds the interruptions, so the loop is given a number of rounds; what it does
is known whenever it ends, and that it ends is known as soon as the rounds exceed
what is left to do and the interruptions together.
-/

namespace Transfer
open Interact

variable {Call : Type} {Resp : Call → Type} {World σ : Type}

inductive Attempt (σ : Type)
  | advanced (s : σ)
  | interrupted
  | failed

/-- `unfinished` has used up its rounds. -/
inductive Ended (σ : Type)
  | complete (s : σ)
  | failed
  | unfinished

def loop (full : σ → Bool) (attempt : σ → Prog Resp (Attempt σ)) :
    Nat → σ → Prog Resp (Ended σ)
  | 0, _ => return .unfinished
  | rounds + 1, s =>
    if full s then return .complete s
    else do
      match ← attempt s with
      | .advanced s' => loop full attempt rounds s'
      | .interrupted => loop full attempt rounds s
      | .failed => return .failed

section
variable (I : σ → World → Prop) (F : World → Prop) (left : σ → Nat) (interruptions : World → Nat)

/-- What an attempt from `s` may come to: it keeps the invariant `I` and either leaves less to
do or counts as an interruption, or it fails with `F`. -/
def Kept (s : σ) (w : World) : Attempt σ → World → Prop
  | .advanced s', w' => I s' w' ∧ left s' < left s ∧ interruptions w' = interruptions w
  | .interrupted, w' => I s w' ∧ interruptions w' = interruptions w + 1
  | .failed, w' => F w'

/-- What the loop comes to; only interruptions can use its rounds up. -/
def Reached (full : σ → Bool) (rounds : Nat) (s : σ) (w : World) : Ended σ → World → Prop
  | .complete s', w' => I s' w' ∧ full s' = true
  | .failed, w' => F w'
  | .unfinished, w' => interruptions w + rounds ≤ left s + interruptions w'

end

section
variable {H : Env Resp World} {full : σ → Bool} {attempt : σ → Prog Resp (Attempt σ)}
  {I : σ → World → Prop} {F C : World → Prop} {left : σ → Nat} {interruptions : World → Nat}

theorem Reached.earlier {rounds : Nat} {s s' : σ} {w w' : World}
    (hless : interruptions w + left s' + 1 ≤ left s + interruptions w') {out : Ended σ}
    {w'' : World} (h : Reached I F left interruptions full rounds s' w' out w'') :
    Reached I F left interruptions full (rounds + 1) s w out w'' := by
  cases out with
  | complete s'' => exact h
  | failed => exact h
  | unfinished =>
    have h : interruptions w' + rounds ≤ left s' + interruptions w'' := h
    change interruptions w + (rounds + 1) ≤ left s + interruptions w''
    omega

theorem wp_loop (hstep : ∀ s w, full s = false → I s w →
      wp H (attempt s) (Kept I F left interruptions s w) C w) (rounds : Nat) {s : σ} {w : World}
    (h : I s w) :
    wp H (loop full attempt rounds s) (Reached I F left interruptions full rounds s w) C w := by
  induction rounds generalizing s w with
  | zero => exact Nat.le_add_left ..
  | succ rounds ih =>
    rw [loop]
    cases hfull : full s with
    | true =>
      rw [if_pos rfl]
      exact ⟨h, hfull⟩
    | false =>
      simp only [Bool.false_eq_true, if_false]
      refine wp_seq (hstep s w hfull h) (fun _ hC => hC) ?_
      intro r w' hr
      cases r with
      | advanced s' =>
        obtain ⟨hs', hleft, hsame⟩ := hr
        exact wp_mono (ih hs') (fun _ _ => Reached.earlier (by omega)) fun _ hC => hC
      | interrupted =>
        obtain ⟨hs, hmore⟩ := hr
        exact wp_mono (ih hs) (fun _ _ => Reached.earlier (by omega)) fun _ hC => hC
      | failed => exact hr

theorem only_loop {P : Call → Prop} (h : ∀ s, (attempt s).Only P) (rounds : Nat) (s : σ) :
    (loop full attempt rounds s).Only P := by
  induction rounds generalizing s with
  | zero => exact only_pure _
  | succ rounds ih =>
    rw [loop]
    split
    · exact only_pure _
    · refine only_bind (h s) fun r => ?_
      cases r with
      | advanced s' => exact ih s'
      | interrupted => exact ih s
      | failed => exact only_pure _

end
end Transfer
