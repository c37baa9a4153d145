import CloudStorage.AsyncOrder

/-!
# No lost wake-up in the asynchronous worker

A wait's predicate becomes true in three places: an append (for the consumer), a
swap (for the producers) and a stop (for both). Each leaves a notification to be
made. Growth of a buffer makes no sleeping producer ready: in the safe mode only
an empty buffer grows, and then their predicate was true before.
-/

namespace CloudStorage.AsyncWorker
open Monitor Transition

variable {π α : Type}

/-- Which notifications a thread at a point has yet to make. -/
def owes : Pc α → CondVar → Bool
  | .pushed, .consumer_ready_ => true
  | .swapped, .producer_ready_ => true
  | .stopSet, _ => true
  | .notifyConsumer, _ => true
  | .notifyProducer, .producer_ready_ => true
  | _, _ => false

def Ready (pc : Pc α) (sh : Shared α) : Prop := ready sh pc = true
def Owes (pc : Pc α) (c : CondVar) : Prop := owes pc c = true

def Waits (async_type_ : AsyncType) (i : Thread π) (c : CondVar) (pc : Pc α) : Prop :=
  i = .consumer ∧ c = .consumer_ready_ ∧ pc = .loop ∨
    ∃ p data, i = .client p ∧ c = .producer_ready_ ∧ pc = .push data ∧ async_type_ = .ASYNC_SAFE

variable [Inhabited α]

theorem ready_of_append {conf : LogConf} {sh : Shared α} {data data' : Source α}
    {resizing : Option Thrown} {b : Buffer α} (hready : ready sh (.push data) = true)
    (hstopping : sh.stopping_ = false)
    (hpush : sh.buffer_producer_.Push conf data resizing = .ok b)
    (h : ready { sh with buffer_producer_ := b } (.push data') = true) :
    ready sh (.push data') = true := by
  obtain ⟨hreadable, -, hsize⟩ := Buffer.Push_ok hpush
  cases hempty : sh.buffer_producer_.IsEmpty with
  | true => simp [ready, hempty]
  | false =>
    have hfull : b.IsEmpty = false := by
      cases hb : b.IsEmpty with
      | false => rfl
      | true =>
        rw [Buffer.isEmpty_iff, hreadable, List.append_eq_nil_iff] at hb
        rw [Buffer.isEmpty_iff.mpr hb.1] at hempty
        cases hempty
    have hroom : b.WriteableSize ≤ sh.buffer_producer_.WriteableSize := by
      obtain ⟨hsame, hwrite⟩ | ⟨hlong, -, -⟩ := hsize
      · unfold Buffer.WriteableSize Buffer.Capacity at *
        omega
      · have hnofit : ¬data.len ≤ sh.buffer_producer_.WriteableSize := by omega
        simp [ready, hstopping, hempty, hnofit] at hready
    have hfits : data'.len ≤ b.WriteableSize := by
      simpa [ready, hstopping, hfull] using h
    have hfits' : data'.len ≤ sh.buffer_producer_.WriteableSize := by omega
    simp [ready, hfits']

theorem announced (conf : LogConf) (async_type_ : AsyncType) :
    Announced (program conf async_type_ : Program (Thread π) CondVar (Pc α) (Shared α) _ _)
      (Waits async_type_) Ready Owes where
  waits _ _ _ _ _ h := (program_wait h).2
  wait i pc e sh c h := by
    obtain ⟨hready, ⟨-, -, rfl⟩ | ⟨p, data, -, -, rfl, -⟩⟩ := program_wait h
    · exact ⟨by simp [Ready, hready], fun c' => by cases c' <;> simp [Owes, owes]⟩
    · exact ⟨by simp [Ready, hready], fun c' => by cases c' <;> simp [Owes, owes]⟩
  act i pc e sh kind a h c := by
    have hdoes := program_does h
    cases hdoes with
    | append p data resizing b hready hstopping hpush =>
      cases c with
      | consumer_ready_ => exact .inr (.inr (.inl rfl))
      | producer_ready_ =>
        refine .inr (.inr (.inr ⟨by simp [Owes, owes], ?_⟩))
        intro j pcj hj hwaits htrue
        obtain ⟨-, hc, -⟩ | ⟨q, data', -, -, rfl, hsafe⟩ := hwaits
        · cases hc
        · exact ready_of_append (hready hsafe) hstopping hpush htrue
    | stop => exact .inr (.inr (.inl (by cases c <;> rfl)))
    | stopSet => exact .inr (.inr (.inl (by cases c <;> rfl)))
    | notified =>
      cases c with
      | consumer_ready_ =>
        refine .inr (.inl ⟨rfl, ?_⟩)
        intro j k pcj pck hj hk
        obtain ⟨rfl, -⟩ | ⟨q, data, -, hc, -⟩ := hj
        · obtain ⟨rfl, -⟩ | ⟨q, data, -, hc, -⟩ := hk
          · rfl
          · cases hc
        · cases hc
      | producer_ready_ =>
        exact .inr (.inr (.inr ⟨by simp [Owes, owes], fun j pcj _ _ htrue => htrue⟩))
    | notifyConsumer =>
      cases c with
      | consumer_ready_ => exact .inl rfl
      | producer_ready_ => exact .inr (.inr (.inl rfl))
    | notifyProducer =>
      cases c with
      | producer_ready_ => exact .inl rfl
      | consumer_ready_ =>
        exact .inr (.inr (.inr ⟨by simp [Owes, owes], fun j pcj _ _ htrue => htrue⟩))
    | swap =>
      cases c with
      | producer_ready_ => exact .inr (.inr (.inl rfl))
      | consumer_ready_ =>
        refine .inr (.inr (.inr ⟨by simp [Owes, owes], ?_⟩))
        intro j pcj hj hwaits htrue
        obtain ⟨rfl, -⟩ | ⟨q, data', -, hc, -⟩ := hwaits
        · exact absurd rfl hj
        · cases hc
    | swapped =>
      cases c with
      | producer_ready_ => exact .inl rfl
      | consumer_ready_ =>
        exact .inr (.inr (.inr ⟨by simp [Owes, owes], fun j pcj _ _ htrue => htrue⟩))
    | join =>
      refine .inr (.inr (.inr ⟨by cases c <;> simp [Owes, owes], ?_⟩))
      intro j pcj _ _ htrue
      cases pcj <;> exact htrue
    | reset =>
      refine .inr (.inr (.inr ⟨by cases c <;> simp [Owes, owes], ?_⟩))
      intro j pcj _ _ htrue
      cases pcj <;> exact htrue
    | ended =>
      refine .inr (.inr (.inr ⟨by cases c <;> simp [Owes, owes], ?_⟩))
      intro j pcj _ _ htrue
      cases pcj <;> exact htrue
    | _ =>
      exact .inr (.inr (.inr ⟨by cases c <;> simp [Owes, owes], fun j pcj _ _ htrue => htrue⟩))

/-- Asleep on a condition variable with no notification pending for it. -/
def Sleeping (s : Worker π α) (i : Thread π) : Prop :=
  ∃ c pc, s.phase i = .asleep c pc ∧ ¬Pending Owes s c

/-- Who sleeps with no notification pending has a false predicate. So a producer and
the consumer never sleep together, the consumer sleeps only before an empty buffer, and
nobody sleeps once the worker is stopping. -/
theorem never_stuck [Fintype π] [DecidableEq π] {conf : LogConf} {async_type_ : AsyncType}
    {log : List (Option (Label π α))} {s : Worker π α}
    (hrun : Run (Step (program conf async_type_)) (start conf) log s) :
    (∀ i c pc, s.phase i = .asleep c pc → ¬Pending Owes s c → ready s.shared pc = false) ∧
      (∀ p, ¬(Sleeping s (.client p) ∧ Sleeping s .consumer)) ∧
      (Sleeping s .consumer →
        s.shared.buffer_producer_.readable = [] ∧ s.shared.stopping_ = false) ∧
      ∀ p, Sleeping s (.client p) → s.shared.stopping_ = false := by
  have hawake : ∀ i c pc, (start conf : Worker π α).phase i ≠ .asleep c pc ∧
      (start conf : Worker π α).phase i ≠ .woken c pc := by
    intro i c pc
    cases i <;> simp [start]
  obtain ⟨hplaced, hnolost⟩ := (announced conf async_type_).run hrun hawake
  have hfalse : ∀ i c pc, s.phase i = .asleep c pc → ¬Pending Owes s c →
      ready s.shared pc = false := by
    intro i c pc hasleep hnone
    obtain hready | hpending := hnolost i c pc hasleep
    · simpa [Ready] using hready
    · exact absurd hpending hnone
  have hconsumer : Sleeping s .consumer →
      s.shared.buffer_producer_.IsEmpty = true ∧ s.shared.stopping_ = false := by
    intro hsleeping
    obtain ⟨c, pc, hasleep, hnone⟩ := hsleeping
    have hready := hfalse _ c pc hasleep hnone
    obtain ⟨-, -, rfl⟩ | ⟨p, data, hp, -⟩ := hplaced _ c pc (.inl hasleep)
    · simp only [ready, Bool.or_eq_false_iff, Bool.not_eq_false'] at hready
      exact ⟨hready.2, hready.1⟩
    · cases hp
  have hclient : ∀ p, Sleeping s (.client p) →
      s.shared.buffer_producer_.IsEmpty = false ∧ s.shared.stopping_ = false := by
    intro p hsleeping
    obtain ⟨c, pc, hasleep, hnone⟩ := hsleeping
    have hready := hfalse _ c pc hasleep hnone
    obtain ⟨hp, -⟩ | ⟨q, data, -, -, rfl, -⟩ := hplaced _ c pc (.inl hasleep)
    · cases hp
    · simp only [ready, Bool.or_eq_false_iff] at hready
      exact ⟨hready.1.2, hready.1.1⟩
  refine ⟨hfalse, ?_, ?_, fun p hp => (hclient p hp).2⟩
  · intro p hboth
    have hempty := (hconsumer hboth.2).1
    rw [(hclient p hboth.1).1] at hempty
    cases hempty
  · intro hc
    exact ⟨Buffer.isEmpty_iff.mp (hconsumer hc).1, (hconsumer hc).2⟩

/-- Client 1 sleeps with its message, and nothing is pending. -/
theorem never_stuck_sample :
    ∃ log s, Run (Step (program smallConf .ASYNC_SAFE)) (start smallConf) log s ∧
      s.phase (.client 1) =
        .asleep .producer_ready_ (.push (.elements (Posix.lit "xyz"))) ∧
      (∀ i c pc, s.phase i = .asleep c pc → ¬Pending Owes s c → ready s.shared pc = false) ∧
      (∀ p : Fin 2, ¬(Sleeping s (.client p) ∧ Sleeping s .consumer)) ∧
      (Sleeping s .consumer →
        s.shared.buffer_producer_.readable = [] ∧ s.shared.stopping_ = false) ∧
      ∀ p, Sleeping s (.client p) → s.shared.stopping_ = false := by
  have hplay : (Run.play (exec (program smallConf .ASYNC_SAFE)) (start smallConf)
      fillEvents).any (fun played => decide (played.2.phase (.client 1) =
        .asleep .producer_ready_ (.push (.elements (Posix.lit "xyz"))))) = true := by
    decide +kernel
  obtain ⟨⟨log, s⟩, hplayed, hcheck⟩ := (Option.any_eq_true _ _).mp hplay
  simp only [decide_eq_true_eq] at hcheck
  have hrun := run_of_play hplayed
  exact ⟨log, s, hrun, hcheck, never_stuck hrun⟩

end CloudStorage.AsyncWorker
