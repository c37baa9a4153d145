import CloudStorage.ThreadPool
import Mathlib.Algebra.BigOperators.Group.Finset.Piecewise
import Mathlib.Tactic.Abel

/-!
# Every accepted task is run once, and the pool does not stall

First what holds of the queue, of the tasks in the hands of workers and of the
end of the pool; then the two counts: queued tasks against the workers that will
look for one, free slots against the callers that will.
-/

namespace CloudStorage.ThreadPool
open Monitor Transition

variable {n : Nat} {π τ : Type}

def acceptedTask : Option (Label n π τ) → Option τ
  | some (.accepted _ task) => some task
  | _ => none

def dequeuedTask : Option (Label n π τ) → Option τ
  | some (.dequeued _ task) => some task
  | _ => none

def ranTask : Option (Label n π τ) → Option τ
  | some (.ran _ task) => some task
  | _ => none

def acceptedTasks (log : List (Option (Label n π τ))) : List τ := log.filterMap acceptedTask
def dequeuedTasks (log : List (Option (Label n π τ))) : List τ := log.filterMap dequeuedTask
def ranTasks (log : List (Option (Label n π τ))) : List τ := log.filterMap ranTask

theorem acceptedTasks_snoc (log : List (Option (Label n π τ))) (l : Option (Label n π τ)) :
    acceptedTasks (log ++ [l]) = acceptedTasks log ++ (acceptedTask l).toList :=
  filterMap_snoc acceptedTask log l

theorem dequeuedTasks_snoc (log : List (Option (Label n π τ))) (l : Option (Label n π τ)) :
    dequeuedTasks (log ++ [l]) = dequeuedTasks log ++ (dequeuedTask l).toList :=
  filterMap_snoc dequeuedTask log l

theorem ranTasks_snoc (log : List (Option (Label n π τ))) (l : Option (Label n π τ)) :
    ranTasks (log ++ [l]) = ranTasks log ++ (ranTask l).toList :=
  filterMap_snoc ranTask log l

/-! ### The queue -/

structure Queue (max_pending_tasks_ : Nat) (log : List (Option (Label n π τ)))
    (sh : Shared n τ) : Prop where
  bounded : sh.tasks_.length ≤ max_pending_tasks_
  order : dequeuedTasks log ++ sh.tasks_ = acceptedTasks log
  stopped : some .stopping ∈ log → sh.stopping_ = true
  late : ∀ before after, log = before ++ some .stopping :: after → acceptedTasks after = []

theorem Queue.late_snoc {max_pending_tasks_ : Nat} {log : List (Option (Label n π τ))}
    {sh : Shared n τ} {l : Option (Label n π τ)} (h : Queue max_pending_tasks_ log sh)
    (haccepted : acceptedTask l = none) (before after : List (Option (Label n π τ)))
    (hlog : log ++ [l] = before ++ some .stopping :: after) : acceptedTasks after = [] := by
  obtain rfl | ⟨after', l', rfl⟩ := List.eq_nil_or_concat after
  · rfl
  · rw [List.concat_eq_append, ← List.cons_append, ← List.append_assoc] at hlog
    obtain ⟨hlog, hl⟩ := List.append_inj' hlog rfl
    rw [List.singleton_inj] at hl
    rw [List.concat_eq_append, acceptedTasks_snoc, ← hl, haccepted, h.late before after' hlog]
    rfl

theorem Queue.frame {max_pending_tasks_ : Nat} {log : List (Option (Label n π τ))}
    {sh sh' : Shared n τ} {l : Option (Label n π τ)} (h : Queue max_pending_tasks_ log sh)
    (haccepted : acceptedTask l = none) (hdequeued : dequeuedTask l = none)
    (htasks : sh'.tasks_ = sh.tasks_)
    (hstopping : sh.stopping_ = true ∨ l = some .stopping → sh'.stopping_ = true) :
    Queue max_pending_tasks_ (log ++ [l]) sh' := by
  constructor
  · rw [htasks]
    exact h.bounded
  · rw [dequeuedTasks_snoc, acceptedTasks_snoc, haccepted, hdequeued, htasks]
    simpa using h.order
  · intro hmem
    rw [List.mem_append, List.mem_singleton] at hmem
    obtain hmem | hmem := hmem
    · exact hstopping (.inl (h.stopped hmem))
    · exact hstopping (.inr hmem.symm)
  · exact h.late_snoc haccepted

theorem Queue.act {max_pending_tasks_ : Nat} {log : List (Option (Label n π τ))}
    {sh : Shared n τ} {i : Thread n π} {pc : Pc n τ} {kind : Kind}
    {a : Act CondVar (Pc n τ) (Shared n τ) (Label n π τ)} (h : Queue max_pending_tasks_ log sh)
    (hdoes : Does max_pending_tasks_ sh i pc kind a) :
    Queue max_pending_tasks_ (log ++ [a.label]) a.shared := by
  have horder := h.order
  have hbounded := h.bounded
  cases hdoes with
  | accept p task pc hpc hstopping hroom =>
    have hnot : some .stopping ∉ log := by
      intro hmem
      rw [h.stopped hmem] at hstopping
      cases hstopping
    constructor
    · simp only [List.length_append, List.length_cons, List.length_nil]
      omega
    · rw [dequeuedTasks_snoc, acceptedTasks_snoc, ← horder]
      simp [dequeuedTask, acceptedTask]
    · intro hmem
      rw [List.mem_append, List.mem_singleton] at hmem
      obtain hmem | hmem := hmem
      · exact absurd hmem hnot
      · cases hmem
    · intro before after hlog
      have hmem : some .stopping ∈ log ++ [some (.accepted p task)] := by
        rw [hlog]
        simp
      rw [List.mem_append, List.mem_singleton] at hmem
      obtain hmem | hmem := hmem
      · exact absurd hmem hnot
      · cases hmem
  | take k task rest htasks =>
    constructor
    · rw [htasks, List.length_cons] at hbounded
      simp only
      omega
    · rw [dequeuedTasks_snoc, acceptedTasks_snoc, ← horder, htasks]
      simp [dequeuedTask, acceptedTask]
    · intro hmem
      rw [List.mem_append, List.mem_singleton] at hmem
      obtain hmem | hmem := hmem
      · exact h.stopped hmem
      · cases hmem
    · exact h.late_snoc rfl
  | stop p => exact h.frame rfl rfl rfl (fun _ => rfl)
  | _ =>
    refine h.frame rfl rfl rfl ?_
    intro hstop
    obtain hstop | hstop := hstop
    · exact hstop
    · cases hstop

/-! ### Tasks in the hands of workers -/

/-- What a worker at a point has taken and not yet run. -/
def held : Option (Pc n τ) → Multiset τ
  | some (.taken task) => {task}
  | some (.notifySpace task) => {task}
  | some (.run task) => {task}
  | _ => 0

def heldTasks (s : Pool n π τ) : Multiset τ := ∑ k, held (s.phase (.inl k)).standing

def Once (log : List (Option (Label n π τ))) (s : Pool n π τ) : Prop :=
  (ranTasks log : Multiset τ) + heldTasks s = dequeuedTasks log

/-- A step in which worker `k` changes what it holds by what the log says. -/
theorem Once.frame {log : List (Option (Label n π τ))} {s s' : Pool n π τ}
    {l : Option (Label n π τ)} {k : Fin n} (h : Once log s)
    (hothers : ∀ j, j ≠ k → (s'.phase (.inl j)).standing = (s.phase (.inl j)).standing)
    (hlabel : (((ranTask l).toList : List τ) : Multiset τ) + held (s'.phase (.inl k)).standing =
      held (s.phase (.inl k)).standing + (((dequeuedTask l).toList : List τ) : Multiset τ)) :
    Once (log ++ [l]) s' := by
  have hsame : ∀ j, j ≠ k →
      held (s'.phase (.inl j)).standing = held (s.phase (.inl j)).standing := by
    intro j hj
    rw [hothers j hj]
  have hchange : heldTasks s' + held (s.phase (.inl k)).standing =
      heldTasks s + held (s'.phase (.inl k)).standing := sum_change hsame
  unfold Once at h ⊢
  rw [ranTasks_snoc, dequeuedTasks_snoc, ← Multiset.coe_add, ← Multiset.coe_add, ← h]
  apply @add_right_cancel _ _ _ _ (held (s.phase (.inl k)).standing)
  calc _ = (ranTasks log : Multiset τ) + ((ranTask l).toList : Multiset τ) +
          (heldTasks s' + held (s.phase (.inl k)).standing) := by rw [add_assoc]
    _ = (ranTasks log : Multiset τ) + heldTasks s +
          (((ranTask l).toList : Multiset τ) + held (s'.phase (.inl k)).standing) := by
        rw [hchange]
        abel
    _ = _ := by
        rw [hlabel]
        abel

/-- Who waits or is woken holds nothing. -/
theorem Once.step [Fintype π] [DecidableEq π] {max_pending_tasks_ : Nat} {owner : π} {log : List (Option (Label n π τ))}
    {s s' : Pool n π τ} {l : Option (Label n π τ)} (h : Once log s)
    (hstep : Step (program max_pending_tasks_ owner) s l s') : Once (log ++ [l]) s' := by
  obtain ⟨i, rfl, -, hnone, hwait, hothers⟩ |
    ⟨i, pc, e, kind, a, hgoes, hmove, rfl, -, hstands, hothers⟩ := hstep.view
  · cases i with
    | inr p =>
      have hsame : heldTasks s' = heldTasks s := by
        apply Finset.sum_congr rfl
        intro k _
        rw [hothers (.inl k) (by simp)]
      unfold Once at h ⊢
      rw [ranTasks_snoc, dequeuedTasks_snoc, hsame]
      simpa [ranTask, dequeuedTask] using h
    | inl k =>
      have hbefore : held (s.phase (.inl k)).standing = 0 := by
        cases hpc : (s.phase (.inl k)).standing with
        | none => rfl
        | some pc =>
          obtain ⟨e, c, hmove⟩ := hwait pc hpc
          obtain ⟨-, ⟨k', -, -, rfl, -⟩ | ⟨p, task, hp, -⟩⟩ := program_wait hmove
          · rfl
          · cases hp
      refine @Once.frame _ _ _ _ _ _ _ k h (fun j hj => hothers _ (by simpa using hj)) ?_
      rw [hbefore, hnone]
      rfl
  · have hdoes := program_does hmove
    cases i with
    | inr p =>
      have hsame : heldTasks s' = heldTasks s := by
        apply Finset.sum_congr rfl
        intro k _
        rw [hothers (.inl k) (by simp)]
      have hlabel : ranTask a.label = none ∧ dequeuedTask a.label = none := by
        cases hdoes <;> exact ⟨rfl, rfl⟩
      unfold Once at h ⊢
      rw [ranTasks_snoc, dequeuedTasks_snoc, hsame, hlabel.1, hlabel.2]
      simpa using h
    | inl k =>
      refine @Once.frame _ _ _ _ _ _ _ k h (fun j hj => hothers _ (by simpa using hj)) ?_
      rw [hstands]
      -- a worker that takes the mutex in the loop comes with empty hands
      have hempty : pc = .loop → held (s.phase (.inl k)).standing = 0 := by
        intro hloop
        obtain hnone | hsome := Phase.standing_of_point hgoes.1
        · rw [hnone]
          rfl
        · rw [hsome, hloop]
          rfl
      cases hdoes with
      | take k task rest htasks =>
        rw [hempty rfl]
        rfl
      | leave k htasks hstopping =>
        rw [hempty rfl]
        rfl
      | taken k task =>
        rw [hgoes.standing (by decide)]
        rfl
      | notifySpace k task =>
        rw [hgoes.standing (by decide)]
        rfl
      | run k task =>
        rw [hgoes.standing (by decide)]
        rfl
      | exit k =>
        rw [hgoes.standing (by decide)]
        rfl

/-! ### The end of the pool -/

structure Ends (log : List (Option (Label n π τ))) (s : Pool n π τ) : Prop where
  exits : ∀ k, s.shared.exited k = true → (s.phase (.inl k)).standing = some .exited
  drained : ∀ k, (s.phase (.inl k)).standing = some .leaving ∨
      (s.phase (.inl k)).standing = some .exited →
    s.shared.stopping_ = true ∧ s.shared.tasks_ = []
  joins : ∀ p rest, (s.phase (.inr p)).standing = some (.joining rest) →
    ∀ k, k ∉ rest → s.shared.exited k = true
  destroyed : some .destroyed ∈ log → ∀ k, s.shared.exited k = true

theorem Does.exited_of {max_pending_tasks_ : Nat} {sh : Shared n τ} {i : Thread n π} {pc : Pc n τ}
    {kind : Kind} {a : Act CondVar (Pc n τ) (Shared n τ) (Label n π τ)}
    (h : Does max_pending_tasks_ sh i pc kind a) {k : Fin n} (hk : sh.exited k = true) :
    a.shared.exited k = true := by
  cases h with
  | exit k' =>
    simp only [Function.update_apply]
    split
    · rfl
    · exact hk
  | _ => exact hk

/-- Once the pool is stopping and drained no step of another thread changes that. -/
theorem Does.drained_of {max_pending_tasks_ : Nat} {sh : Shared n τ} {i : Thread n π}
    {pc : Pc n τ} {kind : Kind} {a : Act CondVar (Pc n τ) (Shared n τ) (Label n π τ)}
    (h : Does max_pending_tasks_ sh i pc kind a) (hsh : sh.stopping_ = true ∧ sh.tasks_ = []) :
    a.shared.stopping_ = true ∧ a.shared.tasks_ = [] := by
  cases h with
  | accept p task pc hpc hstopping hroom =>
    rw [hsh.1] at hstopping
    cases hstopping
  | take k task rest htasks =>
    rw [hsh.2] at htasks
    cases htasks
  | stop p => exact ⟨rfl, hsh.2⟩
  | _ => exact hsh

theorem Ends.exits_act {max_pending_tasks_ : Nat} {log : List (Option (Label n π τ))}
    {s s' : Pool n π τ} {i : Thread n π} {pc : Pc n τ} {kind : Kind}
    {a : Act CondVar (Pc n τ) (Shared n τ) (Label n π τ)} (h : Ends log s)
    (hdoes : Does max_pending_tasks_ s.shared i pc kind a) (hgoes : Goes (s.phase i) pc kind)
    (hstands : (s'.phase i).standing = some a.pc)
    (hothers : ∀ j, j ≠ i → (s'.phase j).standing = (s.phase j).standing) {k : Fin n}
    (hk : a.shared.exited k = true) : (s'.phase (.inl k)).standing = some .exited := by
  by_cases hik : i = .inl k
  · subst hik
    have hgone : s.shared.exited k = true → pc = .exited := by
      intro hexited
      have hbefore := h.exits k hexited
      obtain hnone | hsome := Phase.standing_of_point hgoes.1
      · rw [hnone] at hbefore
        cases hbefore
      · rw [hsome] at hbefore
        exact Option.some.inj hbefore
    cases hdoes with
    | exit k => exact hstands
    | _ =>
      have hpc := hgone hk
      cases hpc
  · rw [hothers _ (Ne.symm hik)]
    cases hdoes with
    | exit k' =>
      have hkk : k ≠ k' := by
        intro hkk
        exact hik (by rw [hkk])
      simp only [Function.update_of_ne hkk] at hk
      exact h.exits k hk
    | _ => exact h.exits k hk

theorem Ends.drained_act {max_pending_tasks_ : Nat} {log : List (Option (Label n π τ))}
    {s s' : Pool n π τ} {i : Thread n π} {pc : Pc n τ} {kind : Kind}
    {a : Act CondVar (Pc n τ) (Shared n τ) (Label n π τ)} (h : Ends log s)
    (hdoes : Does max_pending_tasks_ s.shared i pc kind a) (hgoes : Goes (s.phase i) pc kind)
    (hstands : (s'.phase i).standing = some a.pc)
    (hothers : ∀ j, j ≠ i → (s'.phase j).standing = (s.phase j).standing) {k : Fin n}
    (hk : (s'.phase (.inl k)).standing = some .leaving ∨
      (s'.phase (.inl k)).standing = some .exited) :
    a.shared.stopping_ = true ∧ a.shared.tasks_ = [] := by
  by_cases hik : i = .inl k
  · subst hik
    rw [hstands] at hk
    cases hdoes with
    | leave k htasks hstopping => exact ⟨hstopping, htasks⟩
    | exit k => exact h.drained k (.inl (hgoes.standing (by decide)))
    | _ => obtain hk | hk := hk <;> cases hk
  · rw [hothers _ (Ne.symm hik)] at hk
    exact hdoes.drained_of (h.drained k hk)

theorem Ends.joins_act {max_pending_tasks_ : Nat} {log : List (Option (Label n π τ))}
    {s s' : Pool n π τ} {i : Thread n π} {pc : Pc n τ} {kind : Kind}
    {a : Act CondVar (Pc n τ) (Shared n τ) (Label n π τ)} (h : Ends log s)
    (hdoes : Does max_pending_tasks_ s.shared i pc kind a) (hgoes : Goes (s.phase i) pc kind)
    (hstands : (s'.phase i).standing = some a.pc)
    (hothers : ∀ j, j ≠ i → (s'.phase j).standing = (s.phase j).standing) {p : π}
    {rest : List (Fin n)} (hp : (s'.phase (.inr p)).standing = some (.joining rest)) {k : Fin n}
    (hk : k ∉ rest) : a.shared.exited k = true := by
  by_cases hip : i = .inr p
  · subst hip
    rw [hstands] at hp
    cases hdoes with
    | notifySpaces p =>
      cases hp
      exact absurd (List.mem_finRange k) hk
    | join p k' rest' hexited =>
      cases hp
      by_cases hkk : k = k'
      · rw [hkk]
        exact hexited
      · have hbefore := hgoes.standing (by decide)
        exact h.joins p (k' :: rest) hbefore k (by simp [hkk, hk])
    | call p pc' hpc =>
      obtain ⟨task, rfl | rfl⟩ | rfl := hpc <;> cases hp
    | _ => cases hp
  · rw [hothers _ (Ne.symm hip)] at hp
    exact hdoes.exited_of (h.joins p rest hp k hk)

theorem Ends.step [Fintype π] [DecidableEq π] {max_pending_tasks_ : Nat} {owner : π} {log : List (Option (Label n π τ))}
    {s s' : Pool n π τ} {l : Option (Label n π τ)} (h : Ends log s)
    (hstep : Step (program max_pending_tasks_ owner) s l s') : Ends (log ++ [l]) s' := by
  obtain ⟨i, rfl, hshared, hnone, hwait, hothers⟩ |
    ⟨i, pc, e, kind, a, hgoes, hmove, rfl, hshared, hstands, hothers⟩ := hstep.view
  · constructor
    · intro k hk
      rw [hshared] at hk
      have hbefore := h.exits k hk
      by_cases hik : i = .inl k
      · subst hik
        obtain ⟨e, c, hmove⟩ := hwait _ hbefore
        cases hmove
      · rw [hothers _ (Ne.symm hik)]
        exact hbefore
    · intro k hk
      by_cases hik : i = .inl k
      · subst hik
        rw [hnone] at hk
        obtain hk | hk := hk <;> cases hk
      · rw [hothers _ (Ne.symm hik)] at hk
        rw [hshared]
        exact h.drained k hk
    · intro p rest hp k hk
      by_cases hip : i = .inr p
      · subst hip
        rw [hnone] at hp
        cases hp
      · rw [hothers _ (Ne.symm hip)] at hp
        rw [hshared]
        exact h.joins p rest hp k hk
    · intro hmem
      rw [hshared]
      exact h.destroyed (by simpa using hmem)
  · have hdoes := program_does hmove
    constructor
    · intro k hk
      rw [hshared] at hk
      exact h.exits_act hdoes hgoes hstands hothers hk
    · intro k hk
      rw [hshared]
      exact h.drained_act hdoes hgoes hstands hothers hk
    · intro p rest hp k hk
      rw [hshared]
      exact h.joins_act hdoes hgoes hstands hothers hp hk
    · intro hmem k
      rw [hshared]
      rw [List.mem_append, List.mem_singleton] at hmem
      obtain hmem | hmem := hmem
      · exact hdoes.exited_of (h.destroyed hmem k)
      · cases hdoes with
        | joined p => exact h.joins p [] (hgoes.standing (by decide)) k (by simp)
        | _ => cases hmem

/-! ### Notifications and what they announce -/

/-- Which notifications a thread at a point has yet to make. -/
def owes (c : CondVar) : Pc n τ → Bool
  | .queued => c = .task_available_
  | .notifyTask => c = .task_available_
  | .taken _ => c = .space_available_
  | .notifySpace _ => c = .space_available_
  | .stopSet => true
  | .notifyTasks => true
  | .notifySpaces => c = .space_available_
  | _ => false

def pays (c : CondVar) (ph : Phase CondVar (Pc n τ)) : Nat :=
  if ph.standing.any (owes c) then 1 else 0

def backFrom (c : CondVar) (ph : Phase CondVar (Pc n τ)) : Nat := if ph.wokenOn c then 1 else 0

/-- A worker that will look at the queue before it sleeps or ends. -/
def looks : Phase CondVar (Pc n τ) → Nat
  | .asleep _ _ => 0
  | .running .leaving => 0
  | .running .exited => 0
  | _ => 1

def taskCredit : Thread n π → Phase CondVar (Pc n τ) → Nat
  | .inl _, ph => looks ph
  | .inr _, ph => pays .task_available_ ph

def spaceCredit (_ : Thread n π) (ph : Phase CondVar (Pc n τ)) : Nat :=
  pays .space_available_ ph + backFrom .space_available_ ph

def freeSlots (max_pending_tasks_ : Nat) (sh : Shared n τ) : Nat :=
  if sh.stopping_ then 0 else max_pending_tasks_ - sh.tasks_.length

theorem looks_le (ph : Phase CondVar (Pc n τ)) : looks ph ≤ 1 := by
  unfold looks
  split <;> omega

theorem pays_running (c : CondVar) (pc : Pc n τ) :
    pays c (.running pc) = if owes c pc then 1 else 0 := rfl

theorem pays_le {c : CondVar} {ph : Phase CondVar (Pc n τ)} {pc : Pc n τ}
    (h : ph.point = some pc) : pays c ph ≤ if owes c pc then 1 else 0 := by
  obtain hnone | hsome := Phase.standing_of_point h
  · simp [pays, hnone]
  · simp [pays, hsome]

theorem backFrom_le (c : CondVar) (ph : Phase CondVar (Pc n τ)) : backFrom c ph ≤ 1 := by
  unfold backFrom
  split <;> omega

/-- Only a caller in `Enqueue` comes back from `space_available_`. -/
theorem backFrom_of_ne {i : Thread n π} {ph : Phase CondVar (Pc n τ)} {pc : Pc n τ} {kind : Kind}
    (hgoes : Goes ph pc kind) (hplaced : ∀ d, ph = .woken d pc → Waits i d pc)
    (hpc : ∀ task, pc ≠ .enqueue task) : backFrom .space_available_ ph = 0 := by
  cases ph with
  | running pc' => rfl
  | asleep d pc' => rfl
  | woken d pc' =>
    have hsame : pc' = pc := Option.some.inj hgoes.1
    subst hsame
    obtain ⟨k, -, rfl, -⟩ | ⟨p, task, -, -, rfl⟩ := hplaced d rfl
    · rfl
    · exact absurd rfl (hpc task)

theorem Does.task_paid {max_pending_tasks_ : Nat} {sh : Shared n τ} {i : Thread n π} {pc : Pc n τ}
    {kind : Kind} {a : Act CondVar (Pc n τ) (Shared n τ) (Label n π τ)}
    (h : Does max_pending_tasks_ sh i pc kind a) :
    a.shared.tasks_.length = 0 ∨ a.note = some (.all .task_available_) ∨
      ∀ ph, Goes ph pc kind → (∀ d, ph = .woken d pc → Waits i d pc) →
        a.shared.tasks_.length + taskCredit i ph ≤
          sh.tasks_.length + taskCredit i (.running a.pc) +
            if a.note = some (.one .task_available_) then 1 else 0 := by
  cases i with
  | inl k =>
    cases h with
    | leave k htasks hstopping => exact .inl (by simp [htasks])
    | take k task rest htasks =>
      refine .inr (.inr ?_)
      intro ph hgoes hplaced
      have hlooks := looks_le ph
      simp only [taskCredit, htasks, List.length_cons]
      omega
    | exit k =>
      refine .inr (.inr ?_)
      intro ph hgoes hplaced
      have hph := Phase.standing_eq_some.mp (hgoes.standing (by decide))
      subst hph
      simp [taskCredit, looks]
    | _ =>
      refine .inr (.inr ?_)
      intro ph hgoes hplaced
      exact Nat.le_add_right_of_le (Nat.add_le_add_left (looks_le ph) sh.tasks_.length)
  | inr p =>
    cases h with
    | notifyTasks p => exact .inr (.inl rfl)
    | accept p task pc hpc hstopping hroom =>
      refine .inr (.inr ?_)
      intro ph hgoes hplaced
      have hpays : pays .task_available_ ph ≤ 0 := by
        obtain rfl | rfl := hpc <;> exact pays_le hgoes.1
      simp only [taskCredit, pays_running, owes, List.length_append, List.length_cons,
        List.length_nil]
      simp
      omega
    | call p pc' hpc =>
      refine .inr (.inr ?_)
      intro ph hgoes hplaced
      have hpays : pays .task_available_ ph ≤ 0 := pays_le hgoes.1
      simp only [taskCredit]
      omega
    | refuse p task pc hpc =>
      refine .inr (.inr ?_)
      intro ph hgoes hplaced
      have hpays : pays .task_available_ ph ≤ 0 := by
        obtain ⟨rfl, -⟩ | rfl := hpc <;> exact pays_le hgoes.1
      simp only [taskCredit]
      omega
    | _ =>
      refine .inr (.inr ?_)
      intro ph hgoes hplaced
      have hpays := @pays_le _ _ .task_available_ _ _ hgoes.1
      simp [taskCredit, pays_running, owes] at hpays ⊢
      omega

theorem Does.space_paid {max_pending_tasks_ : Nat} {sh : Shared n τ} {i : Thread n π}
    {pc : Pc n τ} {kind : Kind} {a : Act CondVar (Pc n τ) (Shared n τ) (Label n π τ)}
    (h : Does max_pending_tasks_ sh i pc kind a) :
    freeSlots max_pending_tasks_ a.shared = 0 ∨ a.note = some (.all .space_available_) ∨
      ∀ ph, Goes ph pc kind → (∀ d, ph = .woken d pc → Waits i d pc) →
        freeSlots max_pending_tasks_ a.shared + spaceCredit i ph ≤
          freeSlots max_pending_tasks_ sh + spaceCredit i (.running a.pc) +
            if a.note = some (.one .space_available_) then 1 else 0 := by
  cases h with
  | stop p => exact .inl rfl
  | notifySpaces p => exact .inr (.inl rfl)
  | accept p task pc hpc hstopping hroom =>
    refine .inr (.inr ?_)
    intro ph hgoes hplaced
    -- a slot is taken, by a caller that was woken for one or by one that was not
    have hpays : pays .space_available_ ph ≤ 0 := by
      obtain rfl | rfl := hpc <;> exact pays_le hgoes.1
    have hback := backFrom_le .space_available_ ph
    simp only [freeSlots, hstopping, spaceCredit, List.length_append, List.length_cons,
      List.length_nil, Bool.false_eq_true, if_false]
    omega
  | refuse p task pc hpc =>
    obtain ⟨rfl, hstopping⟩ | rfl := hpc
    · exact .inl (by simp [freeSlots, hstopping])
    · refine .inr (.inr ?_)
      intro ph hgoes hplaced
      have hpays : pays .space_available_ ph ≤ 0 := pays_le hgoes.1
      have hback := backFrom_of_ne hgoes hplaced (by simp)
      simp only [spaceCredit]
      omega
  | take k task rest htasks =>
    refine .inr (.inr ?_)
    intro ph hgoes hplaced
    have hpays : pays .space_available_ ph ≤ 0 := pays_le hgoes.1
    have hback := backFrom_of_ne hgoes hplaced (by simp)
    have htaken : pays .space_available_ (.running (.taken task : Pc n τ)) = 1 := rfl
    simp only [freeSlots, spaceCredit, htasks, List.length_cons, htaken]
    split <;> omega
  | leave k htasks hstopping => exact .inl (by simp [freeSlots, hstopping])
  | call p pc' hpc =>
    refine .inr (.inr ?_)
    intro ph hgoes hplaced
    have hpays : pays .space_available_ ph ≤ 0 := pays_le hgoes.1
    have hback := backFrom_of_ne hgoes hplaced (by simp)
    simp only [spaceCredit]
    omega
  | _ =>
    refine .inr (.inr ?_)
    intro ph hgoes hplaced
    have hpays := @pays_le _ _ .space_available_ _ _ hgoes.1
    have hback := backFrom_of_ne hgoes hplaced (by simp)
    simp [freeSlots, spaceCredit, pays_running, owes] at hpays ⊢
    omega

theorem tasks_funded [DecidableEq π] (max_pending_tasks_ : Nat) (owner : π) :
    Funded (program max_pending_tasks_ owner : Program (Thread n π) CondVar (Pc n τ) _ _ _) Waits
      .task_available_ (fun sh => sh.tasks_.length) taskCredit where
  waits := waitsAt max_pending_tasks_ owner
  wait i pc e sh c h := by
    obtain ⟨-, ⟨k, -, -, -, htasks⟩ | ⟨p, task, rfl, rfl, rfl, -⟩⟩ := program_wait h
    · exact .inl (by simp [htasks])
    · refine .inr ⟨by simp, ?_⟩
      intro ph hpoint hplaced
      have hpays : pays .task_available_ ph ≤ 0 := pays_le hpoint
      exact Nat.le_trans hpays (Nat.zero_le _)
  act i pc e sh kind a h := (program_does h).task_paid
  woken i c pc hwaits := by
    obtain ⟨k, rfl, rfl, rfl⟩ | ⟨p, task, rfl, rfl, rfl⟩ := hwaits
    · exact Nat.le_refl 1
    · exact Nat.le_refl 0

theorem space_funded [DecidableEq π] (max_pending_tasks_ : Nat) (owner : π) :
    Funded (program max_pending_tasks_ owner : Program (Thread n π) CondVar (Pc n τ) _ _ _) Waits
      .space_available_ (freeSlots max_pending_tasks_) spaceCredit where
  waits := waitsAt max_pending_tasks_ owner
  wait i pc e sh c h := by
    obtain ⟨hrunning, ⟨k, rfl, rfl, rfl, -⟩ | ⟨p, task, -, -, -, hfull⟩⟩ := program_wait h
    · refine .inr ⟨by simp, ?_⟩
      intro ph hpoint hplaced
      have hpays : pays .space_available_ ph ≤ 0 := pays_le hpoint
      have hback := @backFrom_of_ne n π τ (.inl k) ph .loop .enter ⟨hpoint, .inr rfl⟩ hplaced
        (by simp)
      simp only [spaceCredit]
      omega
    · left
      simp only [freeSlots, hrunning, Bool.false_eq_true, if_false]
      omega
  act i pc e sh kind a h := (program_does h).space_paid
  woken i c pc hwaits := by
    obtain ⟨k, rfl, rfl, rfl⟩ | ⟨p, task, rfl, rfl, rfl⟩ := hwaits
    · exact Nat.le_refl 0
    · exact Nat.le_refl 1

/-- Threads that have yet to notify `c`. -/
def pendingCount [Fintype π] (s : Pool n π τ) (c : CondVar) : Nat :=
  (Finset.univ.filter fun i => (s.phase i).standing.any (owes c) = true).card

/-- Threads woken on `c` that have not looked again. -/
def wokenCount [Fintype π] (s : Pool n π τ) (c : CondVar) : Nat :=
  (Finset.univ.filter fun i => (s.phase i).wokenOn c = true).card

theorem total_spaceCredit [Fintype π] (s : Pool n π τ) :
    total spaceCredit s.phase =
      pendingCount s .space_available_ + wokenCount s .space_available_ := by
  simp only [total, spaceCredit, Finset.sum_add_distrib, pendingCount, wokenCount,
    Finset.card_filter, pays, backFrom]

/-- The state that the constructor leaves. -/
structure Fresh (s : Pool n π τ) : Prop where
  tasks : s.shared.tasks_ = []
  exited : ∀ k, s.shared.exited k = false
  workers : ∀ k, s.phase (.inl k) = .running .loop
  callers : ∀ p, s.phase (.inr p) = .running .idle

theorem construct_ok {thread_count max_pending_tasks : Nat} {s : Pool thread_count π τ}
    (h : construct thread_count max_pending_tasks = .ok s) : 0 < thread_count ∧ Fresh s := by
  unfold construct at h
  split at h
  · cases h
  · rename_i hthreads
    split at h
    · cases h
    · cases h
      exact ⟨by omega, rfl, fun _ => rfl, fun _ => rfl, fun _ => rfl⟩

theorem Fresh.awake {s : Pool n π τ} (h : Fresh s) (i : Thread n π) (c : CondVar) (pc : Pc n τ) :
    s.phase i ≠ .asleep c pc ∧ s.phase i ≠ .woken c pc := by
  cases i with
  | inl k => simp [h.workers k]
  | inr p => simp [h.callers p]

theorem Fresh.kept {s : Pool n π τ} (h : Fresh s) (max_pending_tasks_ : Nat) :
    Queue max_pending_tasks_ ([] : List (Option (Label n π τ))) s.shared ∧ Once [] s ∧
      Ends [] s := by
  refine ⟨⟨?_, ?_, ?_, ?_⟩, ?_, ⟨?_, ?_, ?_, ?_⟩⟩
  · simp [h.tasks]
  · simp [h.tasks, dequeuedTasks, acceptedTasks]
  · intro hmem
    cases hmem
  · intro before after hlog
    simp at hlog
  · have hheld : heldTasks s = 0 := by
      apply Finset.sum_eq_zero
      intro k _
      rw [h.workers k]
      rfl
    rw [Once, hheld]
    rfl
  · intro k hk
    rw [h.exited k] at hk
    cases hk
  · intro k hk
    rw [h.workers k] at hk
    obtain hk | hk := hk <;> cases hk
  · intro p rest hp
    rw [h.callers p] at hp
    cases hp
  · intro hmem
    cases hmem

theorem Queue.step [Fintype π] [DecidableEq π] {max_pending_tasks_ : Nat} {owner : π}
    {log : List (Option (Label n π τ))} {s s' : Pool n π τ} {l : Option (Label n π τ)}
    (h : Queue max_pending_tasks_ log s.shared)
    (hstep : Step (program max_pending_tasks_ owner) s l s') :
    Queue max_pending_tasks_ (log ++ [l]) s'.shared := by
  obtain ⟨i, rfl, hshared, -⟩ | ⟨i, pc, e, kind, a, -, hmove, rfl, hshared, -⟩ := hstep.view
  · rw [hshared]
    refine h.frame rfl rfl rfl ?_
    intro hstop
    obtain hstop | hstop := hstop
    · exact hstop
    · cases hstop
  · rw [hshared]
    exact h.act (program_does hmove)

theorem run_kept [Fintype π] [DecidableEq π] {thread_count max_pending_tasks : Nat} {owner : π}
    {s₀ s : Pool thread_count π τ} {log : List (Option (Label thread_count π τ))}
    (hconstruct : construct thread_count max_pending_tasks = .ok s₀)
    (hrun : Run (Step (program max_pending_tasks owner)) s₀ log s) :
    Queue max_pending_tasks log s.shared ∧ Once log s ∧ Ends log s := by
  refine @Run.invariant _ _ _
    (fun log s => Queue max_pending_tasks log s.shared ∧ Once log s ∧ Ends log s) _ _ _ ?_ hrun ?_
  · intro log s l s' ⟨hqueue, honce, hends⟩ hstep
    exact ⟨hqueue.step hstep, honce.step hstep, hends.step hstep⟩
  · exact (construct_ok hconstruct).2.kept max_pending_tasks

/-- When the destructor has returned, every worker is gone and nothing is queued. -/
theorem destroyed_drained [Fintype π] [DecidableEq π] {thread_count max_pending_tasks : Nat}
    {owner : π} {s₀ s : Pool thread_count π τ} {log : List (Option (Label thread_count π τ))}
    (hconstruct : construct thread_count max_pending_tasks = .ok s₀)
    (hrun : Run (Step (program max_pending_tasks owner)) s₀ log s)
    (hdestroyed : some .destroyed ∈ log) :
    s.shared.tasks_ = [] ∧ ∀ k, (s.phase (.inl k)).standing = some .exited := by
  obtain ⟨hthreads, -⟩ := construct_ok hconstruct
  obtain ⟨-, -, hends⟩ := run_kept hconstruct hrun
  have hgone : ∀ k, (s.phase (.inl k)).standing = some .exited := fun k =>
    hends.exits k (hends.destroyed hdestroyed k)
  exact ⟨(hends.drained ⟨0, hthreads⟩ (.inr (hgone _))).2, hgone⟩

/-- The queue is bounded and first in first out, nothing is accepted after the stop and
everything accepted has been run, once, when the destructor returns. While tasks wait some
worker is awake or about to be notified; while a caller sleeps no more slots are free than
callers have been or are about to be woken for. -/
theorem runs_every_task [Fintype π] [DecidableEq π] {thread_count max_pending_tasks : Nat}
    {owner : π}
    {s₀ s : Pool thread_count π τ} {log : List (Option (Label thread_count π τ))}
    (hconstruct : construct thread_count max_pending_tasks = .ok s₀)
    (hrun : Run (Step (program max_pending_tasks owner)) s₀ log s) :
    s.shared.tasks_.length ≤ max_pending_tasks ∧
      dequeuedTasks log ++ s.shared.tasks_ = acceptedTasks log ∧
      (∀ before after, log = before ++ some .stopping :: after → acceptedTasks after = []) ∧
      (some .destroyed ∈ log →
        s.shared.tasks_ = [] ∧ (ranTasks log).Perm (acceptedTasks log)) ∧
      ¬(s.shared.tasks_ ≠ [] ∧ (∀ k, ∃ c pc, s.phase (.inl k) = .asleep c pc) ∧
        ¬Pending (fun pc c => owes c pc = true) s .task_available_) ∧
      (s.shared.stopping_ = false →
        (∃ p pc, s.phase (.inr p) = .asleep .space_available_ pc) →
        max_pending_tasks - s.shared.tasks_.length ≤
          pendingCount s .space_available_ + wokenCount s .space_available_) := by
  obtain ⟨hthreads, hstart⟩ := construct_ok hconstruct
  obtain ⟨hqueue, honce, -⟩ := run_kept hconstruct hrun
  obtain ⟨hplaced, htasks⟩ := (tasks_funded max_pending_tasks owner).run hrun hstart.awake
  obtain ⟨-, hspace⟩ := (space_funded max_pending_tasks owner).run hrun hstart.awake
  refine ⟨hqueue.bounded, hqueue.order, hqueue.late, ?_, ?_, ?_⟩
  · intro hdestroyed
    obtain ⟨hempty, hgone⟩ := destroyed_drained hconstruct hrun hdestroyed
    have hheld : heldTasks s = 0 := by
      apply Finset.sum_eq_zero
      intro k _
      rw [hgone k]
      rfl
    constructor
    · exact hempty
    · have horder := hqueue.order
      rw [hempty, List.append_nil] at horder
      rw [Once, hheld, add_zero, Multiset.coe_eq_coe, horder] at honce
      exact honce
  · intro ⟨hsome, hasleep, hnone⟩
    obtain ⟨c, pc, hfirst⟩ := hasleep ⟨0, hthreads⟩
    have hc : c = .task_available_ := by
      obtain ⟨k, -, hc, -⟩ | ⟨p, task, hp, -⟩ := hplaced _ c pc (.inl hfirst)
      · exact hc
      · cases hp
    subst hc
    have hcovered : s.shared.tasks_.length ≤ total taskCredit s.phase := htasks _ pc hfirst
    have hzero : total taskCredit s.phase = 0 := by
      apply Finset.sum_eq_zero
      intro i _
      cases i with
      | inl k =>
        obtain ⟨c, pc, hk⟩ := hasleep k
        rw [hk]
        rfl
      | inr p =>
        have hpays : (s.phase (.inr p)).standing.any (owes .task_available_) = false := by
          cases hpc : (s.phase (.inr p)).standing with
          | none => rfl
          | some pc =>
            cases howes : owes .task_available_ pc with
            | false => simp [howes]
            | true =>
              exact absurd ⟨.inr p, pc, Phase.standing_eq_some.mp hpc, howes⟩ hnone
        simp [taskCredit, pays, hpays]
    have hlength : s.shared.tasks_.length = 0 := by omega
    exact hsome (List.eq_nil_of_length_eq_zero hlength)
  · intro hrunning ⟨p, pc, hasleep⟩
    have hcovered := hspace _ pc hasleep
    rw [total_spaceCredit] at hcovered
    simpa [freeSlots, hrunning] using hcovered

def worker : Thread 1 Bool := .inl ⟨0, Nat.one_pos⟩

/-- One worker, one slot: caller `true` sleeps for the slot of task 7, task 8 is accepted when
the worker has taken that, and caller `false` destroys the pool. -/
def sampleEvents : List (Event (Thread 1 Bool) (Choice Nat)) := [
  .run worker .go none,
  .run (.inr false) (.enqueue 7) none, .run (.inr false) .go none, .run (.inr false) .go none,
  .run (.inr true) (.enqueue 8) none, .run (.inr true) .go none,
  .run (.inr false) .go (some worker),
  .run worker .go none, .run worker .go none, .run worker .go (some (.inr true)),
  .run worker .go none,
  .run (.inr true) .go none, .run (.inr true) .go none, .run (.inr true) .go none,
  .run (.inr false) .destroy none, .run (.inr false) .go none, .run (.inr false) .go none,
  .run (.inr false) .go none, .run (.inr false) .go none,
  .run worker .go none, .run worker .go none, .run worker .go none, .run worker .go none,
  .run worker .go none, .run worker .go none,
  .run (.inr false) .go none, .run (.inr false) .go none]

theorem runs_every_task_sample :
    ∃ (s₀ s : Pool 1 Bool Nat) (log : List (Option (Label 1 Bool Nat))),
      construct 1 1 = .ok s₀ ∧ Run (Step (program 1 false)) s₀ log s ∧
      ranTasks log = [7, 8] ∧ some .destroyed ∈ log ∧
      s.shared.tasks_.length ≤ 1 ∧
      dequeuedTasks log ++ s.shared.tasks_ = acceptedTasks log ∧
      (∀ before after, log = before ++ some .stopping :: after → acceptedTasks after = []) ∧
      (some .destroyed ∈ log →
        s.shared.tasks_ = [] ∧ (ranTasks log).Perm (acceptedTasks log)) ∧
      ¬(s.shared.tasks_ ≠ [] ∧ (∀ k, ∃ c pc, s.phase (.inl k) = .asleep c pc) ∧
        ¬Pending (fun pc c => owes c pc = true) s .task_available_) ∧
      (s.shared.stopping_ = false →
        (∃ p pc, s.phase (.inr p) = .asleep .space_available_ pc) →
        1 - s.shared.tasks_.length ≤
          pendingCount s .space_available_ + wokenCount s .space_available_) := by
  have hplay : ((construct 1 1 : Except Posix.Bytes (Pool 1 Bool Nat)).toOption.bind fun s₀ =>
      Run.play (exec (program 1 false)) s₀ sampleEvents).any (fun played =>
        decide (ranTasks played.1 = [7, 8]) && decide (some .destroyed ∈ played.1)) = true := by
    decide +kernel
  obtain ⟨⟨log, s⟩, hplayed, hcheck⟩ := (Option.any_eq_true _ _).mp hplay
  obtain ⟨s₀, hs₀, hplayed⟩ := Option.bind_eq_some_iff.mp hplayed
  simp only [Bool.and_eq_true, decide_eq_true_eq] at hcheck
  have hconstruct : construct 1 1 = .ok s₀ := by
    cases hs₀
    rfl
  have hrun := run_of_play hplayed
  exact ⟨s₀, s, log, hconstruct, hrun, hcheck.1, hcheck.2, runs_every_task hconstruct hrun⟩

end CloudStorage.ThreadPool
