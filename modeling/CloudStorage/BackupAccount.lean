import CloudStorage.Logger
import Mathlib.Algebra.Order.Group.Multiset
import Mathlib.Tactic.Abel

/-!
# The account of the remote backup

Every message that is to be backed up is, from `Push` on, in the hands of one
thread or in the pool's queue until it is sent or counted. One balance is kept
by every step; what is in hand and in the queue is nothing when the pool has
drained.
-/

namespace CloudStorage.AsyncLogger
open Monitor Transition
open ThreadPool (Thread CondVar)

variable {n : Nat} {π : Type}

def Level.backedUp : Level → Bool
  | .ERROR => true
  | .FATAL => true
  | _ => false

/-- A message that `Push` took and that is to be backed up. -/
def pushedMessage : Option (Label n π) → Option Message
  | some (.pushed message) => if message.level.backedUp then some message else none
  | _ => none

def sentMessage : Option (Label n π) → Option Message
  | some (.sent _ message) => some message
  | _ => none

def failedMessage : Option (Label n π) → Option Message
  | some (.failed _ message) => some message
  | _ => none

def droppedMessage : Option (Label n π) → Option Message
  | some (.dropped message) => some message
  | _ => none

def pushedMessages (log : List (Option (Label n π))) : List Message := log.filterMap pushedMessage
def sentMessages (log : List (Option (Label n π))) : List Message := log.filterMap sentMessage
def failedMessages (log : List (Option (Label n π))) : List Message := log.filterMap failedMessage
def droppedMessages (log : List (Option (Label n π))) : List Message := log.filterMap droppedMessage

/-- Sent, or counted by one of the two counters. -/
def settledMessages (log : List (Option (Label n π))) : Multiset Message :=
  sentMessages log + failedMessages log + droppedMessages log

def settled (l : Option (Label n π)) : Multiset Message :=
  (sentMessage l).toList + (failedMessage l).toList + (droppedMessage l).toList

theorem pushedMessages_snoc (log : List (Option (Label n π))) (l : Option (Label n π)) :
    pushedMessages (log ++ [l]) = pushedMessages log ++ (pushedMessage l).toList :=
  filterMap_snoc pushedMessage log l

theorem settledMessages_snoc (log : List (Option (Label n π))) (l : Option (Label n π)) :
    settledMessages (log ++ [l]) = settledMessages log + settled l := by
  simp only [settledMessages, settled, sentMessages, failedMessages, droppedMessages,
    filterMap_snoc, ← Multiset.coe_add]
  abel

/-! ### What is under way -/

def Task.messages : Task → Multiset Message
  | .backup message => {message}
  | .other => 0

def queued (tasks : List Task) : Multiset Message := (tasks.map Task.messages).sum

theorem queued_nil : queued [] = 0 := rfl

theorem queued_cons (task : Task) (tasks : List Task) :
    queued (task :: tasks) = task.messages + queued tasks := rfl

theorem queued_snoc (tasks : List Task) (task : Task) :
    queued (tasks ++ [task]) = queued tasks + task.messages := by
  simp only [queued, List.map_append, List.map_cons, List.map_nil, List.sum_append, List.sum_cons,
    List.sum_nil, add_zero]

/-- What a thread has in hand. -/
def owed : Pc n → Multiset Message
  | .pool (.taken task) => task.messages
  | .pool (.notifySpace task) => task.messages
  | .pool (.run task) => task.messages
  | .pushed message => if message.level.backedUp then {message} else 0
  | .enqueue message => {message}
  | .refusing message => {message}
  | .refused message => {message}
  | .failed message => {message}
  | _ => 0

/-- Nothing comes in but by a `Push`, and nothing goes out but to be counted. -/
structure Balanced (sh : Shared n) (pc : Pc n) (a : Act CondVar (Pc n) (Shared n) (Label n π)) :
    Prop where
  messages : ((pushedMessage a.label).toList : Multiset Message) + owed pc + queued sh.pool.tasks_ =
    settled a.label + owed a.pc + queued a.shared.pool.tasks_
  failures : a.shared.remote_backup_failures_ =
    sh.remote_backup_failures_ + UInt64.ofNat (failedMessage a.label).toList.length
  drops : a.shared.remote_backup_drops_ =
    sh.remote_backup_drops_ + UInt64.ofNat (droppedMessage a.label).toList.length

section
variable {sh : Shared n} {pc : Pc n}

theorem balanced_keep {a : Act CondVar (Pc n) (Shared n) (Label n π)}
    (hpushed : pushedMessage a.label = none) (hsent : sentMessage a.label = none)
    (hfailed : failedMessage a.label = none) (hdropped : droppedMessage a.label = none)
    (howed : owed pc + queued sh.pool.tasks_ = owed a.pc + queued a.shared.pool.tasks_)
    (hfailures : a.shared.remote_backup_failures_ = sh.remote_backup_failures_)
    (hdrops : a.shared.remote_backup_drops_ = sh.remote_backup_drops_) : Balanced sh pc a where
  messages := by
    rw [settled, hpushed, hsent, hfailed, hdropped]
    simpa using howed
  failures := by
    rw [hfailed, hfailures]
    simp
  drops := by
    rw [hdropped, hdrops]
    simp

/-- A move in the pool's own code, where only other tasks come in. -/
theorem InPool.balanced {max_pending_tasks_ : Nat} {i : Thread n π} {at_pool : ThreadPool.Pc n Task}
    {kind : Kind} {b : Act CondVar (ThreadPool.Pc n Task) (ThreadPool.Shared n Task)
      (ThreadPool.Label n π Task)} (hpc : InPool pc at_pool)
    (hdoes : ThreadPool.Does max_pending_tasks_ sh.pool i at_pool kind b) :
    Balanced sh pc (⟨{ sh with pool := b.shared }, .pool b.pc, b.note,
      b.label.map .pool⟩ : Act CondVar (Pc n) (Shared n) (Label n π)) := by
  have howed : owed pc = owed (.pool at_pool) := by cases hpc <;> rfl
  have hother : ∀ task, at_pool = .enqueue task ∨ at_pool = .tryEnqueue task → task = .other := by
    intro task hcall
    cases hpc with
    | submit =>
      obtain h | h := hcall <;> cases h
      rfl
    | offer =>
      obtain h | h := hcall <;> cases h
      rfl
    | pool _ hno _ => exact (hcall.elim (hno task).1 (hno task).2).elim
  cases hdoes with
  | call p pc' hpc' =>
    refine balanced_keep rfl rfl rfl rfl ?_ rfl rfl
    rw [howed]
    obtain ⟨task, rfl | rfl⟩ | rfl := hpc' <;> rfl
  | accept p task _ hcall hstopping hroom =>
    refine balanced_keep rfl rfl rfl rfl ?_ rfl rfl
    rw [howed, hother task hcall, queued_snoc]
    obtain rfl | rfl := hcall <;> simp [owed, Task.messages]
  | refuse p task _ hcall =>
    refine balanced_keep rfl rfl rfl rfl ?_ rfl rfl
    rw [howed]
    obtain ⟨rfl, -⟩ | rfl := hcall <;> rfl
  | take k task rest htasks =>
    refine balanced_keep rfl rfl rfl rfl ?_ rfl rfl
    rw [howed, htasks, queued_cons]
    simp only [owed, zero_add]
  | run k task =>
    cases task with
    | backup message =>
      cases hpc with
      | pool _ _ hbackup => exact absurd rfl (hbackup message)
    | other =>
      refine balanced_keep rfl rfl rfl rfl ?_ rfl rfl
      rw [howed]
      rfl
  | _ =>
    refine balanced_keep rfl rfl rfl rfl ?_ rfl rfl
    rw [howed]
    rfl

theorem TryEnqueue_balanced {max_pending_tasks_ : Nat} {p : π} {message : Message} {kind : Kind}
    {b : Act CondVar (ThreadPool.Pc n Task) (ThreadPool.Shared n Task) (ThreadPool.Label n π Task)}
    (h : ThreadPool.TryEnqueue max_pending_tasks_ p (.backup message) sh.pool = .act kind b) :
    Balanced sh (.enqueue message) (⟨{ sh with pool := b.shared },
      if b.pc = .refused then .refusing message else .pool b.pc, b.note,
      b.label.map .pool⟩ : Act CondVar (Pc n) (Shared n) (Label n π)) := by
  unfold ThreadPool.TryEnqueue at h
  split at h
  · cases h
    exact balanced_keep rfl rfl rfl rfl rfl rfl rfl
  · cases h
    refine balanced_keep rfl rfl rfl rfl ?_ rfl rfl
    simp only [queued_snoc, reduceCtorEq, if_false, owed, zero_add]
    rw [add_comm]
    rfl

theorem Starts.owed {i : Thread n π} {message : Message} (h : Starts i pc message) :
    AsyncLogger.owed pc = {message} := by
  cases h with
  | task k => rfl
  | fatal p _ hlevel =>
    rw [AsyncLogger.owed, hlevel]
    rfl

theorem owed_resume (i : Thread n π) : owed (.pool (resume i)) = 0 := by
  cases i with
  | inl k => rfl
  | inr p => rfl

variable [DecidableEq π]

theorem Does.balanced {g_conf_data : Option JsonData} (henabled : enabled g_conf_data = true)
    {max_pending_tasks_ : Nat} {owner : π} {i : Thread n π} {kind : Kind}
    {a : Act CondVar (Pc n) (Shared n) (Label n π)}
    (h : Does g_conf_data max_pending_tasks_ owner sh i pc kind a) : Balanced sh pc a := by
  cases h with
  | call p pc' hpc =>
    obtain rfl | rfl | ⟨rfl, -⟩ := hpc <;> exact balanced_keep rfl rfl rfl rfl rfl rfl rfl
  | pushed p message =>
    refine ⟨?_, (UInt64.add_zero _).symm, (UInt64.add_zero _).symm⟩
    simp only [pushedMessage, settled, sentMessage, failedMessage, droppedMessage, owed]
    cases message.level.backedUp <;> simp
  | pass p message hfatal herror =>
    have hpc : owed (.pushed message : Pc n) = 0 := by
      rw [owed]
      cases hlevel : message.level with
      | ERROR =>
        rw [herror hlevel] at henabled
        cases henabled
      | FATAL => exact absurd hlevel hfatal
      | _ => rfl
    refine balanced_keep rfl rfl rfl rfl ?_ rfl rfl
    rw [hpc]
    rfl
  | hand p message pc' hlevel hpc' =>
    have hpc : owed (.pushed message : Pc n) = {message} := by
      rw [owed, hlevel]
      rfl
    refine balanced_keep rfl rfl rfl rfl ?_ rfl rfl
    rw [hpc]
    obtain rfl | rfl := hpc' <;> rfl
  | sent _ _ message hstart =>
    refine ⟨?_, (UInt64.add_zero _).symm, (UInt64.add_zero _).symm⟩
    rw [hstart.owed, owed_resume]
    simp [pushedMessage, settled, sentMessage, failedMessage, droppedMessage]
  | unsent _ _ message hstart =>
    refine balanced_keep rfl rfl rfl rfl ?_ rfl rfl
    rw [hstart.owed]
    rfl
  | count _ message =>
    refine ⟨?_, rfl, (UInt64.add_zero _).symm⟩
    rw [owed_resume]
    simp [pushedMessage, settled, sentMessage, failedMessage, droppedMessage, owed]
  | drop p message =>
    refine ⟨?_, (UInt64.add_zero _).symm, rfl⟩
    simp [pushedMessage, settled, sentMessage, failedMessage, droppedMessage, owed]
  | enqueue p message _ b hmove => exact TryEnqueue_balanced hmove
  | pool _ _ at_pool _ b hpc hmove => exact hpc.balanced (ThreadPool.program_does hmove)
  | _ => exact balanced_keep rfl rfl rfl rfl rfl rfl rfl

end

/-! ### Runs -/

/-- What the threads have in hand. -/
def inHand [Fintype π] (s : System n π) : Multiset Message := ∑ i, owed (s.phase i).pc

structure Accounts [Fintype π] (log : List (Option (Label n π))) (s : System n π) : Prop where
  messages : (pushedMessages log : Multiset Message) =
    settledMessages log + inHand s + queued s.shared.pool.tasks_
  failures : s.shared.remote_backup_failures_ = UInt64.ofNat (failedMessages log).length
  drops : s.shared.remote_backup_drops_ = UInt64.ofNat (droppedMessages log).length

theorem Fresh.accounts [Fintype π] {s : System n π} (h : Fresh s) : Accounts [] s := by
  have hhand : inHand s = 0 := by
    apply Finset.sum_eq_zero
    intro i _
    cases i with
    | inl k =>
      rw [h.workers k]
      rfl
    | inr p =>
      rw [h.callers p]
      rfl
  constructor
  · rw [hhand, h.queue]
    rfl
  · exact h.failures
  · exact h.drops

section
variable [Fintype π] [DecidableEq π] {g_conf_data : Option JsonData} {max_pending_tasks_ : Nat}
  {owner : π} {log : List (Option (Label n π))} {s s' : System n π} {l : Option (Label n π)}

theorem Accounts.step (h : Accounts log s) (henabled : enabled g_conf_data = true)
    (hstep : Step (program g_conf_data max_pending_tasks_ owner) s l s') :
    Accounts (log ++ [l]) s' := by
  have hfailed : failedMessages (log ++ [l]) = failedMessages log ++ (failedMessage l).toList :=
    filterMap_snoc failedMessage log l
  have hdropped : droppedMessages (log ++ [l]) = droppedMessages log ++ (droppedMessage l).toList :=
    filterMap_snoc droppedMessage log l
  obtain ⟨rfl, hshared, hsame⟩ | ⟨i, choice, kind, a, hmove, rfl, hshared, hpc, hothers⟩ :=
    hstep.pcs
  · have hhand : inHand s' = inHand s :=
      Finset.sum_congr rfl fun i _ => by rw [hsame i]
    constructor
    · rw [pushedMessages_snoc, settledMessages_snoc, hhand, hshared]
      simpa [pushedMessage, settled, sentMessage, failedMessage, droppedMessage] using h.messages
    · rw [hfailed, hshared]
      simpa [failedMessage] using h.failures
    · rw [hdropped, hshared]
      simpa [droppedMessage] using h.drops
  · have hbalanced : Balanced s.shared (s.phase i).pc a := (program_does hmove).balanced henabled
    have hchange : inHand s' + owed (s.phase i).pc = inHand s + owed a.pc := by
      have hsum := @sum_change _ _ _ _ _ (fun j => owed (s.phase j).pc)
        (fun j => owed (s'.phase j).pc) i fun j hj => by rw [hothers j hj]
      rw [hpc] at hsum
      exact hsum
    constructor
    · rw [pushedMessages_snoc, settledMessages_snoc, ← Multiset.coe_add, h.messages, hshared]
      apply @add_right_cancel _ _ _ _ (owed (s.phase i).pc)
      calc _ = settledMessages log + inHand s + (((pushedMessage a.label).toList : Multiset Message) +
              owed (s.phase i).pc + queued s.shared.pool.tasks_) := by abel
        _ = settledMessages log + settled a.label + (inHand s + owed a.pc) +
              queued a.shared.pool.tasks_ := by
            rw [hbalanced.messages]
            abel
        _ = _ := by
            rw [← hchange]
            abel
    · rw [hfailed, hshared, hbalanced.failures, h.failures, List.length_append, UInt64.ofNat_add]
    · rw [hdropped, hshared, hbalanced.drops, h.drops, List.length_append, UInt64.ofNat_add]

theorem run_accounts (h : Fresh s) (henabled : enabled g_conf_data = true)
    (hrun : Run (Step (program g_conf_data max_pending_tasks_ owner)) s log s') :
    Accounts log s' := by
  have hI : ∀ (log : List (Option (Label n π))) (s : System n π) (l : Option (Label n π))
      (s' : System n π), Accounts log s →
      Step (program g_conf_data max_pending_tasks_ owner) s l s' → Accounts (log ++ [l]) s' :=
    fun log s l s' hs hstep => hs.step henabled hstep
  exact Run.invariant hI hrun h.accounts

end

/-! ### The drained pool -/

/-- A thread is in a call of `Log` or has a task. -/
def busy : Pc n → Bool
  | .pool (.taken _) => true
  | .pool (.notifySpace _) => true
  | .pool (.run _) => true
  | .pool _ => false
  | .submit => false
  | .offer => false
  | _ => true

structure Drained (s : System n π) : Prop where
  queue : s.shared.pool.tasks_ = []
  threads : ∀ i, busy (s.phase i).pc = false

theorem owed_of_not_busy {pc : Pc n} (h : busy pc = false) : owed pc = 0 := by
  cases pc with
  | pool pc =>
    cases pc with
    | taken task => cases h
    | notifySpace task => cases h
    | run task => cases h
    | _ => rfl
  | push message => rfl
  | submit => rfl
  | offer => rfl
  | _ => cases h

section
variable [Fintype π] [DecidableEq π] {thread_count max_pending_tasks : Nat} {tp : Bool} {owner : π}
  {s₀ s : System thread_count π} {log : List (Option (Label thread_count π))}

/-- The destructor returns to a drained pool. -/
theorem drained_of_destroyed {g_conf_data : Option JsonData}
    (hcreate : create thread_count max_pending_tasks tp = .ok s₀)
    (hrun : Run (Step (program g_conf_data max_pending_tasks owner)) s₀ log s)
    (hdestroyed : some (.pool .destroyed) ∈ log)
    (hcallers : ∀ p, busy (s.phase (.inr p)).pc = false) : Drained s := by
  obtain ⟨hconstruct, -⟩ := create_ok hcreate
  obtain ⟨log', hpool, hlog⟩ := run_pool hrun
  have hseen : some .destroyed ∈ log' := by
    have hmem : ThreadPool.Label.destroyed ∈ log.filterMap fun l => l.bind poolLabel :=
      List.mem_filterMap.mpr ⟨_, hdestroyed, rfl⟩
    rw [← hlog] at hmem
    obtain ⟨l, hl, hid⟩ := List.mem_filterMap.mp hmem
    have hid : l = some .destroyed := hid
    rwa [hid] at hl
  obtain ⟨hempty, hgone⟩ := ThreadPool.destroyed_drained hconstruct hpool hseen
  refine ⟨hempty, fun i => ?_⟩
  cases i with
  | inr p => exact hcallers p
  | inl k =>
    have hphase := Phase.standing_eq_some.mp (hgone k)
    have hpoint : poolPoint (.inl k : Thread thread_count π) (s.phase (.inl k)).pc = .exited :=
      (Phase.map_pc _ _).symm.trans (congrArg Phase.pc hphase)
    cases hpc : (s.phase (.inl k)).pc with
    | pool pc =>
      rw [hpc] at hpoint
      have hpoint : pc = .exited := hpoint
      rw [hpoint]
      rfl
    | _ =>
      rw [hpc] at hpoint
      cases hpoint

/-- Nothing is sent or counted that `Push` did not take, or twice; when the pool has drained,
everything that is to be backed up has been sent or counted. -/
theorem backup_accounted {g_conf_data : JsonData} (henabled : g_conf_data.backup_enabled = true)
    (hcreate : create thread_count max_pending_tasks tp = .ok s₀)
    (hrun : Run (Step (program (some g_conf_data) max_pending_tasks owner)) s₀ log s) :
    settledMessages log ≤ pushedMessages log ∧
      s.shared.remote_backup_failures_ = UInt64.ofNat (failedMessages log).length ∧
      s.shared.remote_backup_drops_ = UInt64.ofNat (droppedMessages log).length ∧
      (some (.pool .destroyed) ∈ log → (∀ p, busy (s.phase (.inr p)).pc = false) → Drained s) ∧
      (Drained s →
        settledMessages log = pushedMessages log ∧
        UInt64.ofNat (pushedMessages log).length =
          UInt64.ofNat (sentMessages log).length + s.shared.remote_backup_failures_ +
            s.shared.remote_backup_drops_ ∧
        ((pushedMessages log).length < 2 ^ 64 →
          (pushedMessages log).length =
            (sentMessages log).length + s.shared.remote_backup_failures_.toNat +
              s.shared.remote_backup_drops_.toNat)) := by
  obtain ⟨-, hfresh⟩ := create_ok hcreate
  have hconf : enabled (some g_conf_data) = true := henabled
  have haccounts := run_accounts hfresh hconf hrun
  refine ⟨?_, haccounts.failures, haccounts.drops, drained_of_destroyed hcreate hrun,
    fun hdrained => ?_⟩
  · rw [haccounts.messages, add_assoc]
    exact Multiset.le_add_right _ _
  · have hhand : inHand s = 0 :=
      Finset.sum_eq_zero fun i _ => owed_of_not_busy (hdrained.threads i)
    have hall : settledMessages log = pushedMessages log := by
      rw [haccounts.messages, hhand, hdrained.queue, queued_nil, add_zero, add_zero]
    have hcount : (pushedMessages log).length = (sentMessages log).length +
        (failedMessages log).length + (droppedMessages log).length := by
      have hcard := congrArg Multiset.card hall
      simp only [settledMessages, Multiset.card_add, Multiset.coe_card] at hcard
      exact hcard.symm
    refine ⟨hall, ?_, fun hfew => ?_⟩
    · rw [hcount, haccounts.failures, haccounts.drops, UInt64.ofNat_add, UInt64.ofNat_add]
    · rw [haccounts.failures, haccounts.drops, UInt64.toNat_ofNat', UInt64.toNat_ofNat',
        Nat.mod_eq_of_lt (by omega), Nat.mod_eq_of_lt (by omega)]
      exact hcount

end

def sampleConfig : JsonData := JsonData.shipped 1048576 16777216 1048576

def fatal : Message := ⟨.FATAL, Posix.lit "f"⟩
def queuedError : Message := ⟨.ERROR, Posix.lit "q"⟩
def refusedError : Message := ⟨.ERROR, Posix.lit "r"⟩

/-- Caller `true` logs a message on each of the three ways, one that is not backed up and one that
`Push` refuses; then the logger is gone, and its task fails in the worker while `false` destroys
the pool. -/
def sampleEvents : List (Event (Thread 1 Bool) Choice) := [
  .run (.inr true) (.log fatal) none, .run (.inr true) (.push true) none,
  .run (.inr true) (.start true [⟨true, true, true, [.sent 1]⟩]) none,
  .run (.inr true) (.log queuedError) none, .run (.inr true) (.push true) none,
  .run (.inr true) .go none, .run (.inr true) .go none, .run (.inr true) .go none,
  .run (.inr true) .go none,
  .run (.inr true) (.log refusedError) none, .run (.inr true) (.push true) none,
  .run (.inr true) .go none, .run (.inr true) .go none, .run (.inr true) .go none,
  .run (.inr true) .go none,
  .run (.inr true) (.log ⟨.INFO, []⟩) none, .run (.inr true) (.push true) none,
  .run (.inr true) .go none,
  .run (.inr true) (.log ⟨.FATAL, []⟩) none, .run (.inr true) (.push false) none,
  .run (.inr false) .release none,
  .run (.inr false) .destroy none, .run (.inr false) .go none, .run (.inr false) .go none,
  .run (.inr false) .go none, .run (.inr false) .go none,
  .run ThreadPool.worker .go none, .run ThreadPool.worker .go none,
  .run ThreadPool.worker .go none,
  .run ThreadPool.worker (.start false []) none, .run ThreadPool.worker .go none,
  .run ThreadPool.worker .go none, .run ThreadPool.worker .go none,
  .run (.inr false) .go none, .run (.inr false) .go none]

theorem backup_accounted_sample :
    ∃ (s₀ s : System 1 Bool) (log : List (Option (Label 1 Bool))),
      create 1 1 true = .ok s₀ ∧ Run (Step (program (some sampleConfig) 1 false)) s₀ log s ∧
      (sentMessages log = [fatal] ∧ failedMessages log = [queuedError] ∧
        droppedMessages log = [refusedError] ∧ some (.pool .destroyed) ∈ log) ∧
      settledMessages log ≤ pushedMessages log ∧
      s.shared.remote_backup_failures_ = UInt64.ofNat (failedMessages log).length ∧
      s.shared.remote_backup_drops_ = UInt64.ofNat (droppedMessages log).length ∧
      (some (.pool .destroyed) ∈ log → (∀ p, busy (s.phase (.inr p)).pc = false) → Drained s) ∧
      (Drained s →
        settledMessages log = pushedMessages log ∧
        UInt64.ofNat (pushedMessages log).length =
          UInt64.ofNat (sentMessages log).length + s.shared.remote_backup_failures_ +
            s.shared.remote_backup_drops_ ∧
        ((pushedMessages log).length < 2 ^ 64 →
          (pushedMessages log).length =
            (sentMessages log).length + s.shared.remote_backup_failures_.toNat +
              s.shared.remote_backup_drops_.toNat)) := by
  have hplay : ((create 1 1 true : Except Posix.Bytes (System 1 Bool)).toOption.bind fun s₀ =>
      Run.play (exec (program (some sampleConfig) 1 false)) s₀ sampleEvents).any (fun played =>
        decide (sentMessages played.1 = [fatal] ∧ failedMessages played.1 = [queuedError] ∧
          droppedMessages played.1 = [refusedError] ∧
          some (.pool .destroyed) ∈ played.1)) = true := by
    decide +kernel
  obtain ⟨⟨log, s⟩, hplayed, hcheck⟩ := (Option.any_eq_true _ _).mp hplay
  obtain ⟨s₀, hs₀, hplayed⟩ := Option.bind_eq_some_iff.mp hplayed
  have hcreate : create 1 1 true = .ok s₀ := by
    cases hs₀
    rfl
  have hrun := run_of_play hplayed
  exact ⟨s₀, s, log, hcreate, hrun, of_decide_eq_true hcheck, backup_accounted rfl hcreate hrun⟩

end CloudStorage.AsyncLogger
