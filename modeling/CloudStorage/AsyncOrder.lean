import CloudStorage.AsyncWorker

/-!
# What is pushed is given to the callback, once and in order

The batches given so far, the batch taken but not yet given and the bytes still
in `buffer_producer_` are together what was pushed, whatever the interleaving;
and in the safe mode neither buffer outgrows the longest message.
-/

namespace CloudStorage.AsyncWorker
open Monitor Transition

variable {π α : Type}

def given : Option (Label π α) → Option (List α)
  | some (.given batch) => some batch
  | _ => none

/-- The data of a push that reached its append. -/
def accepted : Option (Label π α) → Option (List α)
  | some (.pushed _ data (.returned true)) => some data.content
  | _ => none

def batches (log : List (Option (Label π α))) : List (List α) := log.filterMap given
def messages (log : List (Option (Label π α))) : List (List α) := log.filterMap accepted

/-- What the consumer has taken over and not yet given to the callback. -/
def unreadAt (buffer_consumer_ : Buffer α) : Option (Pc α) → List α
  | some .swapped => buffer_consumer_.readable
  | some .callback => buffer_consumer_.readable
  | _ => []

def unread (s : Worker π α) : List α :=
  unreadAt s.shared.buffer_consumer_ (s.phase .consumer).standing

/-- Between the swap and the reset. -/
def busy : Option (Pc α) → Bool
  | some .swapped => true
  | some .callback => true
  | some .reset => true
  | _ => false

structure Kept (log : List (Option (Label π α))) (s : Worker π α) : Prop where
  whole : (batches log).flatten ++ unread s ++ s.shared.buffer_producer_.readable =
    (messages log).flatten
  clear : busy (s.phase .consumer).standing = false → s.shared.buffer_consumer_.readable = []
  drained : (s.phase .consumer).standing = some .leaving ∨
      (s.phase .consumer).standing = some .ended →
    s.shared.stopping_ = true ∧ s.shared.buffer_producer_.readable = []

theorem unreadAt_of_not_busy {buffer_consumer_ : Buffer α} {pc : Option (Pc α)}
    (h : busy pc = false) : unreadAt buffer_consumer_ pc = [] := by
  unfold busy at h
  unfold unreadAt
  split <;> simp_all

theorem batches_snoc (log : List (Option (Label π α))) (l : Option (Label π α)) :
    batches (log ++ [l]) = batches log ++ (given l).toList :=
  filterMap_snoc given log l

theorem messages_snoc (log : List (Option (Label π α))) (l : Option (Label π α)) :
    messages (log ++ [l]) = messages log ++ (accepted l).toList :=
  filterMap_snoc accepted log l

variable [Inhabited α]

theorem kept_start (conf : LogConf) : Kept [] (start conf : Worker π α) where
  whole := by simp [batches, messages, unread, unreadAt, start, Phase.standing]
  clear _ := Buffer.fresh_readable conf
  drained h := by obtain h | h := h <;> cases h

omit [Inhabited α] in
/-- A step that touches neither buffer and does not move the consumer, or moves
it between points outside of the batch. -/
theorem Kept.frame {log : List (Option (Label π α))} {s s' : Worker π α}
    {l : Option (Label π α)} (h : Kept log s) (hgiven : given l = none)
    (haccepted : accepted l = none)
    (hproducer : s'.shared.buffer_producer_ = s.shared.buffer_producer_)
    (hconsumer : s'.shared.buffer_consumer_ = s.shared.buffer_consumer_)
    (hstopping : s.shared.stopping_ = true → s'.shared.stopping_ = true)
    (hstands : (s'.phase .consumer).standing = (s.phase .consumer).standing ∨
      (s'.phase .consumer).standing = none ∧ busy (s.phase .consumer).standing = false) :
    Kept (log ++ [l]) s' := by
  have hwhole := h.whole
  obtain hsame | ⟨hnone, hidle⟩ := hstands
  · constructor
    · rw [batches_snoc, messages_snoc, hgiven, haccepted]
      simpa [unread, hsame, hproducer, hconsumer] using hwhole
    · rw [hsame, hconsumer]
      exact h.clear
    · rw [hsame, hproducer]
      intro hend
      exact ⟨hstopping (h.drained hend).1, (h.drained hend).2⟩
  · constructor
    · have hunread : unread s = [] := unreadAt_of_not_busy hidle
      have hunread' : unread s' = [] := by
        simp only [unread, hnone, unreadAt]
      rw [batches_snoc, messages_snoc, hgiven, haccepted, hunread']
      rw [hunread] at hwhole
      simpa [hproducer] using hwhole
    · intro _
      rw [hconsumer]
      exact h.clear hidle
    · rw [hnone]
      intro hend
      obtain hend | hend := hend <;> cases hend

theorem Kept.client {conf : LogConf} {async_type_ : AsyncType}
    {log : List (Option (Label π α))} {s s' : Worker π α} {p : π} {pc : Pc α} {kind : Kind}
    {a : Act CondVar (Pc α) (Shared α) (Label π α)} (h : Kept log s)
    (hdoes : Does conf async_type_ s.shared (.client p) pc kind a)
    (hshared : s'.shared = a.shared)
    (hsame : (s'.phase .consumer).standing = (s.phase .consumer).standing) :
    Kept (log ++ [a.label]) s' := by
  cases hdoes with
  | append p data resizing b hready hstopping hpush =>
    have hwhole := h.whole
    obtain ⟨hreadable, -, -⟩ := Buffer.Push_ok hpush
    constructor
    · rw [batches_snoc, messages_snoc]
      simp only [unread, hsame, hshared] at hwhole ⊢
      simp only [given, accepted, Option.toList_none, List.append_nil, Option.toList_some,
        List.flatten_append, List.flatten_cons, List.flatten_nil, ← hwhole, hreadable,
        List.append_assoc]
    · rw [hsame, hshared]
      exact h.clear
    · rw [hsame]
      intro hend
      have hstopped := (h.drained hend).1
      rw [hstopping] at hstopped
      cases hstopped
  | refuse p data result hresult hstopping =>
    have hnot : accepted (some (Label.pushed p data result)) = none := by
      cases result with
      | returned b =>
        cases b with
        | true => exact absurd rfl hresult
        | false => rfl
      | threw e => rfl
    exact h.frame rfl hnot (by rw [hshared]) (by rw [hshared]) (by rw [hshared]; exact id)
      (.inl hsame)
  | stop p hstopping =>
    exact h.frame rfl rfl (by rw [hshared]) (by rw [hshared]) (by rw [hshared]; exact fun _ => rfl)
      (.inl hsame)
  | _ =>
    exact h.frame rfl rfl (by rw [hshared]) (by rw [hshared]) (by rw [hshared]; exact id)
      (.inl hsame)

omit [Inhabited α] in
/-- While a batch is in hand only the data are to be accounted for. -/
theorem kept_of_busy {log : List (Option (Label π α))} {s : Worker π α}
    (hbusy : busy (s.phase .consumer).standing = true)
    (hwhole : (batches log).flatten ++ unread s ++ s.shared.buffer_producer_.readable =
      (messages log).flatten) : Kept log s where
  whole := hwhole
  clear hidle := by
    rw [hbusy] at hidle
    cases hidle
  drained hend := by
    obtain hend | hend := hend
    · rw [hend] at hbusy
      cases hbusy
    · rw [hend] at hbusy
      cases hbusy

theorem Kept.consumer {conf : LogConf} {async_type_ : AsyncType}
    {log : List (Option (Label π α))} {s s' : Worker π α} {pc : Pc α} {kind : Kind}
    {a : Act CondVar (Pc α) (Shared α) (Label π α)} (h : Kept log s)
    (hdoes : Does conf async_type_ s.shared .consumer pc kind a)
    (hgoes : Goes (s.phase .consumer) pc kind) (hshared : s'.shared = a.shared)
    (hstands : (s'.phase .consumer).standing = some a.pc) : Kept (log ++ [a.label]) s' := by
  have hwhole := h.whole
  have hclear := h.clear
  -- before the mutex is taken there is no batch
  have hidle : pc = .loop → busy (s.phase .consumer).standing = false := by
    intro hloop
    obtain hnone | hsome := Phase.standing_of_point hgoes.1
    · rw [hnone]
      rfl
    · rw [hsome, hloop]
      rfl
  cases hdoes with
  | leave hstopping hempty =>
    have hunread : unread s = [] := unreadAt_of_not_busy (hidle rfl)
    have hproducer := Buffer.isEmpty_iff.mp hempty
    constructor
    · rw [batches_snoc, messages_snoc]
      rw [hunread] at hwhole
      simpa [unread, hstands, hshared, given, accepted, unreadAt] using hwhole
    · intro _
      rw [hshared]
      exact hclear (hidle rfl)
    · intro _
      rw [hshared]
      exact ⟨hstopping, hproducer⟩
  | swap hready =>
    have hunread : unread s = [] := unreadAt_of_not_busy (hidle rfl)
    have hconsumer := hclear (hidle rfl)
    refine kept_of_busy (by rw [hstands]; rfl) ?_
    rw [batches_snoc, messages_snoc]
    rw [hunread] at hwhole
    simpa [unread, hstands, hshared, given, accepted, unreadAt, hconsumer] using hwhole
  | swapped =>
    have hbefore := hgoes.standing (by decide)
    refine kept_of_busy (by rw [hstands]; rfl) ?_
    rw [batches_snoc, messages_snoc]
    simp only [unread, hbefore, hstands, hshared, unreadAt] at hwhole ⊢
    simpa [given, accepted] using hwhole
  | skip hempty =>
    have hbefore := hgoes.standing (by decide)
    have hnil := Buffer.isEmpty_iff.mp hempty
    refine kept_of_busy (by rw [hstands]; rfl) ?_
    rw [batches_snoc, messages_snoc]
    simp only [unread, hbefore, hstands, hshared, unreadAt, hnil] at hwhole ⊢
    simpa [given, accepted] using hwhole
  | give =>
    have hbefore := hgoes.standing (by decide)
    refine kept_of_busy (by rw [hstands]; rfl) ?_
    rw [batches_snoc, messages_snoc]
    simp only [unread, hbefore, hstands, hshared, unreadAt] at hwhole ⊢
    simpa [given, accepted] using hwhole
  | reset =>
    have hbefore := hgoes.standing (by decide)
    constructor
    · rw [batches_snoc, messages_snoc]
      simp only [unread, hbefore, hstands, hshared, unreadAt] at hwhole ⊢
      simpa [given, accepted] using hwhole
    · intro _
      rw [hshared]
      exact Buffer.Reset_readable _
    · rw [hstands]
      intro hend
      obtain hend | hend := hend <;> cases hend
  | ended =>
    have hbefore := hgoes.standing (by decide)
    have hdrained := h.drained (.inl hbefore)
    constructor
    · rw [batches_snoc, messages_snoc]
      simp only [unread, hbefore, hstands, hshared, unreadAt] at hwhole ⊢
      simpa [given, accepted] using hwhole
    · intro _
      rw [hshared]
      apply hclear
      rw [hbefore]
      rfl
    · intro _
      rw [hshared]
      exact hdrained

theorem Kept.step [Fintype π] [DecidableEq π] {conf : LogConf} {async_type_ : AsyncType}
    {log : List (Option (Label π α))} {s s' : Worker π α} {l : Option (Label π α)}
    (h : Kept log s) (hstep : Step (program conf async_type_) s l s') : Kept (log ++ [l]) s' := by
  obtain ⟨i, rfl, hshared, hnone, hwait, hothers⟩ |
    ⟨i, pc, e, kind, a, hgoes, hmove, rfl, hshared, hstands, hothers⟩ := hstep.view
  · refine h.frame rfl rfl (by rw [hshared]) (by rw [hshared]) (by rw [hshared]; exact id) ?_
    by_cases hi : i = .consumer
    · subst hi
      right
      constructor
      · exact hnone
      · cases hbefore : (s.phase .consumer).standing with
        | none => rfl
        | some pc =>
          obtain ⟨e, c, hmove⟩ := hwait pc hbefore
          obtain ⟨-, ⟨-, -, rfl⟩ | ⟨p, data, hp, -⟩⟩ := program_wait hmove
          · rfl
          · cases hp
    · exact .inl (hothers _ (Ne.symm hi))
  · have hdoes := program_does hmove
    cases i with
    | consumer => exact h.consumer hdoes hgoes hshared hstands
    | client p => exact h.client hdoes hshared (hothers _ (by simp))

/-- At every moment the batches given, the batch not yet given and `buffer_producer_`
are the data of the pushes that were accepted, in their order; when the consumer has
ended all of it has been given; and what only refused pushes hold is never given. -/
theorem nothing_lost [Fintype π] [DecidableEq π] {conf : LogConf} {async_type_ : AsyncType}
    {log : List (Option (Label π α))} {s : Worker π α}
    (hrun : Run (Step (program conf async_type_)) (start conf) log s) :
    (batches log).flatten ++ unread s ++ s.shared.buffer_producer_.readable =
        (messages log).flatten ∧
      (s.phase .consumer = .running .ended → (batches log).flatten = (messages log).flatten) ∧
      ∀ x, (∀ data ∈ messages log, x ∉ data) → ∀ batch ∈ batches log, x ∉ batch := by
  have h : Kept log s := by
    refine hrun.invariant ?_ (kept_start conf)
    intro log s l s' hkept hstep
    exact hkept.step hstep
  have hwhole := h.whole
  refine ⟨hwhole, ?_, ?_⟩
  · intro hended
    have hstands : (s.phase .consumer).standing = some .ended := by
      rw [hended]
      rfl
    obtain ⟨-, hproducer⟩ := h.drained (.inr hstands)
    rw [unread, hstands, hproducer] at hwhole
    simpa [unreadAt] using hwhole
  · intro x hnowhere batch hbatch hx
    have hgiven : x ∈ (messages log).flatten := by
      rw [← hwhole]
      simp only [List.mem_append, List.mem_flatten]
      exact .inl (.inl ⟨batch, hbatch, hx⟩)
    obtain ⟨data, hdata, hxdata⟩ := List.mem_flatten.mp hgiven
    exact hnowhere data hdata hxdata

/-! ### A run with a message longer than a buffer and a sleeping producer -/

/-- Buffers of 4, doubling up to 8, then steps of 2. -/
def smallConf : LogConf :=
  ⟨JsonData.shipped 4 8 2, JsonData.shipped_accepted (by decide) (by decide)⟩

/-- The consumer falls asleep, client 0 pushes six bytes and client 1, which finds
room for two, falls asleep with three. -/
def fillEvents : List (Event (Thread (Fin 2)) (Choice Posix.Byte)) := [
  .run .consumer (.go none) none,
  .run (.client 0) (.push (.elements (Posix.lit "abcdef"))) none,
  .run (.client 0) (.go none) none,
  .run (.client 0) (.go none) (some .consumer),
  .run (.client 1) (.push (.elements (Posix.lit "xyz"))) none,
  .run (.client 1) (.go none) none]

/-- The consumer swaps and wakes client 1, whose push is taken; client 0 stops, and
the push it tries then is refused. -/
def drainEvents : List (Event (Thread (Fin 2)) (Choice Posix.Byte)) := [
  .run .consumer (.go none) none, .run .consumer (.go none) none,
  .run (.client 1) (.go none) none, .run (.client 1) (.go none) none,
  .run .consumer (.go none) none, .run .consumer (.go none) none,
  .run (.client 0) .stop none, .run (.client 0) (.go none) none,
  .run (.client 0) (.go none) none,
  .run .consumer (.go none) none, .run .consumer (.go none) none,
  .run .consumer (.go none) none, .run .consumer (.go none) none,
  .run .consumer (.go none) none, .run .consumer (.go none) none,
  .run (.client 0) (.go none) none, .run (.client 0) (.go none) none,
  .run (.client 0) (.go none) none,
  .run (.client 0) (.push (.elements (Posix.lit "late"))) none,
  .run (.client 0) (.go none) none]

theorem nothing_lost_sample :
    ∃ log s, Run (Step (program smallConf .ASYNC_SAFE)) (start smallConf) log s ∧
      batches log = [Posix.lit "abcdef", Posix.lit "xyz"] ∧ s.phase .consumer = .running .ended ∧
      some (.pushed (0 : Fin 2) (.elements (Posix.lit "late")) (.returned false)) ∈ log ∧
      (batches log).flatten ++ unread s ++ s.shared.buffer_producer_.readable =
        (messages log).flatten ∧
      (s.phase .consumer = .running .ended → (batches log).flatten = (messages log).flatten) ∧
      ∀ x, (∀ data ∈ messages log, x ∉ data) → ∀ batch ∈ batches log, x ∉ batch := by
  have hplay : (Run.play (exec (program smallConf .ASYNC_SAFE)) (start smallConf)
      (fillEvents ++ drainEvents)).any (fun played =>
        decide (batches played.1 = [Posix.lit "abcdef", Posix.lit "xyz"]) &&
        decide (played.2.phase .consumer = .running .ended) &&
        decide (some (Label.pushed (0 : Fin 2) (.elements (Posix.lit "late")) (.returned false)) ∈
          played.1)) = true := by
    decide +kernel
  obtain ⟨⟨log, s⟩, hplayed, hcheck⟩ := (Option.any_eq_true _ _).mp hplay
  simp only [Bool.and_eq_true, decide_eq_true_eq] at hcheck
  have hrun := run_of_play hplayed
  exact ⟨log, s, hrun, hcheck.1.1, hcheck.1.2, hcheck.2, nothing_lost hrun⟩

/-! ### The safe mode bounds the buffers -/

/-- Length of the longest message accepted. -/
def longest (messages : List (List α)) : Nat := messages.foldr (fun m n => max m.length n) 0

omit [Inhabited α] in
theorem longest_snoc (messages : List (List α)) (m : List α) :
    longest (messages ++ [m]) = max (longest messages) m.length := by
  induction messages with
  | nil => simp [longest]
  | cons m' rest ih =>
    have hcons : ∀ ms : List (List α), longest (m' :: ms) = max m'.length (longest ms) :=
      fun ms => rfl
    rw [List.cons_append, hcons, hcons, ih]
    omega

def bound (conf : LogConf) (log : List (Option (Label π α))) : Nat :=
  max conf.1.buffer_size
    (max (2 * longest (messages log)) (longest (messages log) + conf.1.linear_growth))

omit [Inhabited α] in
theorem bound_le_snoc (conf : LogConf) (log : List (Option (Label π α)))
    (l : Option (Label π α)) : bound conf log ≤ bound conf (log ++ [l]) := by
  unfold bound
  rw [messages_snoc]
  cases h : accepted l with
  | none => simp
  | some m =>
    rw [Option.toList_some, longest_snoc]
    omega

/-- Nothing is ever read in part, so an empty buffer has room from its beginning. -/
structure Bounded (conf : LogConf) (log : List (Option (Label π α))) (sh : Shared α) : Prop where
  producer_read : sh.buffer_producer_.read_pos_ = 0
  consumer_read : sh.buffer_consumer_.read_pos_ = 0
  producer_le : sh.buffer_producer_.Capacity ≤ bound conf log
  consumer_le : sh.buffer_consumer_.Capacity ≤ bound conf log

/-- The predicate of the wait: a push that enlarges the buffer found it empty. -/
theorem enlarges_only_empty {conf : LogConf} {sh : Shared α} {data : Source α}
    {resizing : Option Thrown} {b : Buffer α} (hready : ready sh (.push data) = true)
    (hstopping : sh.stopping_ = false) (hpush : sh.buffer_producer_.Push conf data resizing = .ok b) :
    b.Capacity = sh.buffer_producer_.Capacity ∨
      sh.buffer_producer_.IsEmpty = true ∧
        b.Capacity = Buffer.grow conf
          (sh.buffer_producer_.write_pos_ + data.content.length) sh.buffer_producer_.Capacity := by
  obtain ⟨-, -, ⟨hsame, -⟩ | ⟨hlong, -, hgrown⟩⟩ := Buffer.Push_ok hpush
  · exact .inl hsame
  · right
    constructor
    · have hnofit : ¬data.len ≤ sh.buffer_producer_.WriteableSize := by omega
      simpa [ready, hstopping, hnofit] using hready
    · exact hgrown

theorem Bounded.step [Fintype π] [DecidableEq π] {conf : LogConf}
    {log : List (Option (Label π α))} {s s' : Worker π α} {l : Option (Label π α)}
    (h : Bounded conf log s.shared) (hstep : Step (program conf .ASYNC_SAFE) s l s') :
    Bounded conf (log ++ [l]) s'.shared := by
  have hmono := bound_le_snoc conf log l
  have hproducer := h.producer_le
  have hconsumer := h.consumer_le
  obtain ⟨i, -, hshared, -⟩ | ⟨i, pc, e, kind, a, -, hmove, hlabel, hshared, -⟩ := hstep.view
  · rw [hshared]
    exact ⟨h.producer_read, h.consumer_read, by omega, by omega⟩
  · rw [hshared]
    have hdoes := program_does hmove
    cases hdoes with
    | append p data resizing b hready hstopping hpush =>
      obtain ⟨-, hread, -⟩ := Buffer.Push_ok hpush
      refine ⟨hread.trans h.producer_read, h.consumer_read, ?_, by simp only; omega⟩
      obtain hsame | ⟨hempty, hgrown⟩ := enlarges_only_empty (hready rfl) hstopping hpush
      · simp only [hsame]
        omega
      · -- the buffer was empty, so the message alone decides how far it grows
        have hwrite : s.shared.buffer_producer_.write_pos_ = 0 := by
          have hread0 := h.producer_read
          simp only [Buffer.IsEmpty, beq_iff_eq] at hempty
          omega
        have hgrow := Buffer.grow_le conf data.content.length s.shared.buffer_producer_.Capacity
        rw [hwrite, Nat.zero_add] at hgrown
        simp only [hgrown, bound, messages_snoc, hlabel, accepted, Option.toList_some,
          longest_snoc] at hmono hproducer ⊢
        omega
    | swap => exact ⟨h.consumer_read, h.producer_read, by simp only; omega, by simp only; omega⟩
    | reset =>
      refine ⟨h.producer_read, rfl, by simp only; omega, ?_⟩
      simp only [Buffer.Reset_Capacity]
      omega
    | _ => exact ⟨h.producer_read, h.consumer_read, by simp only; omega, by simp only; omega⟩

/-- In the safe mode a push enlarges a buffer only when it holds nothing, and no
buffer outgrows the bound that the configuration and the longest message give. -/
theorem safe_bounded [Fintype π] [DecidableEq π] {conf : LogConf}
    {log : List (Option (Label π α))} {s : Worker π α}
    (hrun : Run (Step (program conf .ASYNC_SAFE)) (start conf) log s) :
    (∀ p data result s',
        Step (program conf .ASYNC_SAFE) s (some (.pushed p data result)) s' →
        s'.shared.buffer_consumer_ = s.shared.buffer_consumer_ ∧
          (s.shared.buffer_producer_.Capacity < s'.shared.buffer_producer_.Capacity →
            s.shared.buffer_producer_.readable = [])) ∧
      s.shared.buffer_producer_.Capacity ≤ max conf.1.buffer_size
        (max (2 * longest (messages log)) (longest (messages log) + conf.1.linear_growth)) ∧
      s.shared.buffer_consumer_.Capacity ≤ max conf.1.buffer_size
        (max (2 * longest (messages log)) (longest (messages log) + conf.1.linear_growth)) := by
  have h : Bounded conf log s.shared := by
    refine @Run.invariant _ _ _ (fun log s => Bounded conf log s.shared) _ _ _ ?_ hrun ?_
    · intro log s l s' hbounded hstep
      exact hbounded.step hstep
    · have hfresh : (Buffer.fresh conf : Buffer α).Capacity = conf.1.buffer_size := by
        simp [Buffer.fresh, Buffer.Capacity]
      have hle : (Buffer.fresh conf : Buffer α).Capacity ≤ bound conf ([] : List (Option (Label π α))) := by
        unfold bound
        omega
      exact ⟨rfl, rfl, hle, hle⟩
  refine ⟨?_, h.producer_le, h.consumer_le⟩
  intro p data result s' hstep
  obtain ⟨i, hlabel, -⟩ | ⟨i, pc, e, kind, a, -, hmove, hlabel, hshared, -⟩ := hstep.view
  · cases hlabel
  · rw [hshared]
    have hdoes := program_does hmove
    cases hdoes with
    | append p data resizing b hready hstopping hpush =>
      constructor
      · rfl
      · intro hlarger
        obtain hsame | ⟨hempty, -⟩ := enlarges_only_empty (hready rfl) hstopping hpush
        · simp only at hlarger
          omega
        · exact Buffer.isEmpty_iff.mp hempty
    | refuse =>
      constructor
      · rfl
      · intro hlarger
        simp only at hlarger
        omega
    | _ => cases hlabel

/-- After the sample run the longest message has six bytes, and the buffer that took it
has grown from 4 to 8. -/
theorem safe_bounded_sample :
    ∃ log s, Run (Step (program smallConf .ASYNC_SAFE)) (start smallConf : Worker (Fin 2) Posix.Byte) log s ∧
      longest (messages log) = 6 ∧ s.shared.buffer_producer_.Capacity = 8 ∧
      (∀ p data result s',
        Step (program smallConf .ASYNC_SAFE) s (some (.pushed p data result)) s' →
        s'.shared.buffer_consumer_ = s.shared.buffer_consumer_ ∧
          (s.shared.buffer_producer_.Capacity < s'.shared.buffer_producer_.Capacity →
            s.shared.buffer_producer_.readable = [])) ∧
      s.shared.buffer_producer_.Capacity ≤ max smallConf.1.buffer_size
        (max (2 * longest (messages log)) (longest (messages log) + smallConf.1.linear_growth)) ∧
      s.shared.buffer_consumer_.Capacity ≤ max smallConf.1.buffer_size
        (max (2 * longest (messages log)) (longest (messages log) + smallConf.1.linear_growth)) := by
  have hplay : (Run.play (exec (program smallConf .ASYNC_SAFE)) (start smallConf)
      fillEvents).any (fun played => decide (longest (messages played.1) = 6) &&
        decide (played.2.shared.buffer_producer_.Capacity = 8)) = true := by
    decide +kernel
  obtain ⟨⟨log, s⟩, hplayed, hcheck⟩ := (Option.any_eq_true _ _).mp hplay
  simp only [Bool.and_eq_true, decide_eq_true_eq] at hcheck
  have hrun := run_of_play hplayed
  exact ⟨log, s, hrun, hcheck.1, hcheck.2, safe_bounded hrun⟩

end CloudStorage.AsyncWorker
