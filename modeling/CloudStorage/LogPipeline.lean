import CloudStorage.AsyncOrder
import CloudStorage.RollFile
import Mathlib.Data.List.Forall2

/-!
# From `Push` to the log files

The callback of the worker is `RealFlush`: the batch goes to one flusher after the
other. What a flusher writes to is its own, so its `Flush` is one step beside those of
the threads that log.
-/

namespace CloudStorage.AsyncWorker
open Monitor Transition

variable {π α : Type}

/-! ### Messages are not cut -/

/-- The accepted messages, in the batches given, in the batch in hand and in
`buffer_producer_`. -/
structure Whole (log : List (Option (Label π α))) (s : Worker π α) (done : List (List (List α)))
    (inHand waiting : List (List α)) : Prop where
  delivered : batches log = done.map List.flatten
  swapped : unread s = inHand.flatten
  buffered : s.shared.buffer_producer_.readable = waiting.flatten
  all : done.flatten ++ inHand ++ waiting = messages log

def Uncut (log : List (Option (Label π α))) (s : Worker π α) : Prop :=
  ∃ done inHand waiting, Whole log s done inHand waiting

theorem Uncut.frame {log : List (Option (Label π α))} {s s' : Worker π α}
    {l : Option (Label π α)} (h : Uncut log s) (hgiven : given l = none)
    (haccepted : accepted l = none) (hunread : unread s' = unread s)
    (hproducer : s'.shared.buffer_producer_ = s.shared.buffer_producer_) : Uncut (log ++ [l]) s' := by
  obtain ⟨done, inHand, waiting, h⟩ := h
  refine ⟨done, inHand, waiting, ?_, ?_, ?_, ?_⟩
  · rw [batches_snoc, hgiven, Option.toList_none, List.append_nil]
    exact h.delivered
  · rw [hunread]
    exact h.swapped
  · rw [hproducer]
    exact h.buffered
  · rw [messages_snoc, haccepted, Option.toList_none, List.append_nil]
    exact h.all

variable [Inhabited α]

theorem uncut_start (conf : LogConf) : Uncut [] (start conf : Worker π α) := by
  refine ⟨[], [], [], rfl, rfl, ?_, rfl⟩
  exact Buffer.fresh_readable conf

theorem Uncut.client {conf : LogConf} {async_type_ : AsyncType} {log : List (Option (Label π α))}
    {s s' : Worker π α} {p : π} {pc : Pc α} {kind : Kind}
    {a : Act CondVar (Pc α) (Shared α) (Label π α)} (h : Uncut log s)
    (hdoes : Does conf async_type_ s.shared (.client p) pc kind a) (hshared : s'.shared = a.shared)
    (hsame : (s'.phase .consumer).standing = (s.phase .consumer).standing) :
    Uncut (log ++ [a.label]) s' := by
  have hunread : s'.shared.buffer_consumer_ = s.shared.buffer_consumer_ → unread s' = unread s := by
    intro hconsumer
    rw [unread, unread, hsame, hconsumer]
  cases hdoes with
  | append p data resizing b hready hstopping hpush =>
    obtain ⟨hreadable, -, -⟩ := Buffer.Push_ok hpush
    obtain ⟨done, inHand, waiting, h⟩ := h
    refine ⟨done, inHand, waiting ++ [data.content], ?_, ?_, ?_, ?_⟩
    · rw [batches_snoc]
      simp only [given, Option.toList_none, List.append_nil]
      exact h.delivered
    · rw [hunread (by rw [hshared])]
      exact h.swapped
    · rw [hshared]
      simp only [hreadable, h.buffered, List.flatten_append, List.flatten_cons, List.flatten_nil,
        List.append_nil]
    · rw [messages_snoc, ← h.all]
      simp only [accepted, Option.toList_some, List.append_assoc]
  | refuse p data result hresult hstopping =>
    have hnot : accepted (some (Label.pushed p data result)) = none := by
      cases result with
      | returned b =>
        cases b with
        | true => exact absurd rfl hresult
        | false => rfl
      | threw e => rfl
    exact h.frame rfl hnot (hunread (by rw [hshared])) (by rw [hshared])
  | _ => exact h.frame rfl rfl (hunread (by rw [hshared])) (by rw [hshared])

theorem Uncut.consumer {conf : LogConf} {async_type_ : AsyncType}
    {log : List (Option (Label π α))} {s s' : Worker π α} {pc : Pc α} {kind : Kind}
    {a : Act CondVar (Pc α) (Shared α) (Label π α)} (h : Uncut log s) (hkept : Kept log s)
    (hdoes : Does conf async_type_ s.shared .consumer pc kind a)
    (hgoes : Goes (s.phase .consumer) pc kind) (hshared : s'.shared = a.shared)
    (hstands : (s'.phase .consumer).standing = some a.pc) : Uncut (log ++ [a.label]) s' := by
  have hidle : pc = .loop → busy (s.phase .consumer).standing = false := by
    intro hloop
    obtain hnone | hsome := Phase.standing_of_point hgoes.1
    · rw [hnone]
      rfl
    · rw [hsome, hloop]
      rfl
  cases hdoes with
  | leave hstopping hempty =>
    have hunread : unread s = [] := unreadAt_of_not_busy (hidle rfl)
    apply h.frame rfl rfl _ (by rw [hshared])
    rw [hunread, unread, hstands]
    rfl
  | swap hready =>
    have hunread : unread s = [] := unreadAt_of_not_busy (hidle rfl)
    obtain ⟨done, inHand, waiting, h⟩ := h
    rw [h.swapped] at hunread
    refine ⟨done, inHand ++ waiting, [], ?_, ?_, ?_, ?_⟩
    · rw [batches_snoc]
      simp only [given, Option.toList_none, List.append_nil]
      exact h.delivered
    · rw [unread, hstands, hshared, List.flatten_append, hunread, List.nil_append]
      exact h.buffered
    · rw [hshared]
      exact hkept.clear (hidle rfl)
    · rw [messages_snoc, ← h.all]
      simp only [accepted, Option.toList_none, List.append_nil, List.append_assoc]
  | swapped =>
    have hbefore := hgoes.standing (by decide)
    apply h.frame rfl rfl _ (by rw [hshared])
    rw [unread, unread, hbefore, hstands, hshared]
    rfl
  | skip hempty =>
    have hbefore := hgoes.standing (by decide)
    apply h.frame rfl rfl _ (by rw [hshared])
    rw [unread, unread, hbefore, hstands, hshared]
    exact (Buffer.isEmpty_iff.mp hempty).symm
  | give =>
    have hbefore := hgoes.standing (by decide)
    obtain ⟨done, inHand, waiting, h⟩ := h
    have hbatch := h.swapped
    rw [unread, hbefore] at hbatch
    refine ⟨done ++ [inHand], [], waiting, ?_, ?_, ?_, ?_⟩
    · rw [batches_snoc, h.delivered, List.map_append, List.map_singleton, ← hbatch]
      rfl
    · rw [unread, hstands]
      rfl
    · rw [hshared]
      exact h.buffered
    · rw [messages_snoc, ← h.all]
      simp only [accepted, Option.toList_none, List.append_nil, List.flatten_append,
        List.flatten_cons, List.flatten_nil, List.append_assoc]
  | reset =>
    have hbefore := hgoes.standing (by decide)
    apply h.frame rfl rfl _ (by rw [hshared])
    rw [unread, unread, hbefore, hstands]
    rfl
  | ended =>
    have hbefore := hgoes.standing (by decide)
    apply h.frame rfl rfl _ (by rw [hshared])
    rw [unread, unread, hbefore, hstands]
    rfl

theorem Uncut.step [Fintype π] [DecidableEq π] {conf : LogConf} {async_type_ : AsyncType}
    {log : List (Option (Label π α))} {s s' : Worker π α} {l : Option (Label π α)}
    (h : Uncut log s) (hkept : Kept log s) (hstep : Step (program conf async_type_) s l s') :
    Uncut (log ++ [l]) s' := by
  obtain ⟨i, rfl, hshared, hnone, hwait, hothers⟩ |
    ⟨i, pc, e, kind, a, hgoes, hmove, rfl, hshared, hstands, hothers⟩ := hstep.view
  · apply h.frame rfl rfl _ (by rw [hshared])
    by_cases hi : i = .consumer
    · subst hi
      have hbefore : unread s = [] := by
        apply unreadAt_of_not_busy
        cases hstanding : (s.phase .consumer).standing with
        | none => rfl
        | some pc =>
          obtain ⟨e, c, hmove⟩ := hwait pc hstanding
          obtain ⟨-, ⟨-, -, rfl⟩ | ⟨p, data, hp, -⟩⟩ := program_wait hmove
          · rfl
          · cases hp
      rw [hbefore, unread, hnone]
      rfl
    · rw [unread, unread, hothers _ (Ne.symm hi), hshared]
  · have hdoes := program_does hmove
    cases i with
    | consumer => exact h.consumer hkept hdoes hgoes hshared hstands
    | client p => exact h.client hdoes hshared (hothers _ (by simp))

/-! ### The batch in hand -/

/-- The consumer is about to call, or in the course of, `callback_`. -/
def InCallback (s : Worker π α) : Prop :=
  (s.phase .consumer).standing = some .callback ∧ s.shared.buffer_consumer_.IsEmpty = false

/-- Until `callback_` returns, the batch stays where it is. -/
theorem callback_stays [Fintype π] [DecidableEq π] {conf : LogConf} {async_type_ : AsyncType}
    {s s' : Worker π α} {l : Option (Label π α)} (h : InCallback s)
    (hstep : Step (program conf async_type_) s l s') (hgiven : given l = none) :
    InCallback s' ∧ s'.shared.buffer_consumer_ = s.shared.buffer_consumer_ := by
  obtain ⟨hstanding, hbatch⟩ := h
  obtain ⟨i, rfl, hshared, hnone, hwait, hothers⟩ |
    ⟨i, pc, e, kind, a, hgoes, hmove, rfl, hshared, hstands, hothers⟩ := hstep.view
  · have hi : i ≠ .consumer := by
      intro hi
      subst hi
      obtain ⟨e, c, hmove⟩ := hwait _ hstanding
      obtain ⟨-, ⟨-, -, hpc⟩ | ⟨p, data, hp, -⟩⟩ := program_wait hmove
      · cases hpc
      · cases hp
    refine ⟨⟨?_, ?_⟩, by rw [hshared]⟩
    · rw [hothers _ (Ne.symm hi), hstanding]
    · rw [hshared, hbatch]
  · have hdoes := program_does hmove
    cases i with
    | consumer =>
      have hpc : pc = .callback := by
        obtain hnone | hsome := Phase.standing_of_point hgoes.1
        · rw [hstanding] at hnone
          cases hnone
        · rw [hstanding] at hsome
          exact (Option.some.inj hsome).symm
      subst hpc
      cases hdoes with
      | skip hempty =>
        rw [hbatch] at hempty
        cases hempty
      | give => cases hgiven
    | client p =>
      have hsame : s'.shared.buffer_consumer_ = s.shared.buffer_consumer_ := by
        rw [hshared]
        cases hdoes <;> rfl
      refine ⟨⟨?_, ?_⟩, hsame⟩
      · rw [hothers _ (by simp), hstanding]
      · rw [hsame, hbatch]

theorem given_batch [Fintype π] [DecidableEq π] {conf : LogConf} {async_type_ : AsyncType}
    {s s' : Worker π α} {batch : List α}
    (hstep : Step (program conf async_type_) s (some (.given batch)) s') :
    batch = s.shared.buffer_consumer_.readable ∧ (s'.phase .consumer).standing = some .reset := by
  obtain ⟨i, hl, -⟩ | ⟨i, pc, e, kind, a, hgoes, hmove, hl, hshared, hstands, -⟩ := hstep.view
  · cases hl
  · have hdoes := program_does hmove
    cases hdoes <;> cases hl
    exact ⟨rfl, hstands⟩

end CloudStorage.AsyncWorker

namespace CloudStorage
open Posix Interact Transition

/-! ### Flushers -/

/-- `FileFlush`; `file_` is the name of the file that it has open. -/
structure FileFlush where
  file_ : Bytes

namespace FileFlush
open RollFileFlush

def new (filename : Bytes) : Program (Except Bytes FileFlush) := do
  if ← createDirectory (parentString filename) then
    if ← perform (.openAppend filename) then return .ok ⟨filename⟩
    else return .error (lit "cannot open log file: " ++ filename)
  else return .error (lit "cannot create log directory")

def flush (g_conf_data : Option JsonData) (flusher : FileFlush) (batch : Batch) :
    Program Unit := do
  let _ ← writeAll (some flusher.file_) batch.data
  let _ ← applyFlushPolicy (some flusher.file_) g_conf_data
  return ()

def destroy : Program Unit := do
  let _ ← perform .fclose
  return ()

variable {disk disk' : Disk} {g_conf_data : Option JsonData}

theorem wp_flush {flusher : FileFlush} (hstream : disk.stream = some flusher.file_)
    (batch : Batch) :
    wp Sound (flush g_conf_data flusher batch)
      (fun _ disk' => Grown flusher.file_ batch.data disk disk') (fun _ => True) disk := by
  unfold flush
  apply wp_seq (wp_writeAll batch.data hstream) fun _ h => h
  intro written disk₁ h₁
  apply wp_seq (wp_applyFlushPolicy g_conf_data) fun _ h => h
  intro flushed disk₂ h₂
  have hboth := h₁.2.trans h₂.2
  rw [List.append_nil] at hboth
  exact hboth

/-- A closed file holds what its stream did. -/
theorem destroy_file {name : Bytes} (hrun : Runs Sound destroy disk () disk') :
    (disk'.files name).getD [] = disk.contents name := by
  have hend : wp Sound destroy
      (fun _ disk' => disk'.stream = none ∧ disk'.contents name = disk.contents name)
      (fun _ => True) disk := by
    apply wp_perform_bind trivial
    intro answer disk₁ hcall
    obtain ⟨rfl, rfl⟩ := hcall
    exact ⟨rfl, Disk.close_contents⟩
  obtain ⟨hclosed, hcontents⟩ := wp_runs hend hrun
  rw [← hcontents, Disk.contents_other]
  rw [hclosed]
  simp only [ne_eq, reduceCtorEq, not_false_eq_true]

end FileFlush

open RollFileFlush (Disk Batch Grown Stores Joins Sound)

/-- A flusher and what it writes to. -/
inductive Sink
  | stdout (written : Bytes)
  | file (flusher : FileFlush) (disk : Disk)
  | roll (flusher : RollFileFlush) (disk : Disk)

/-- A call of `Flush`. -/
inductive Flush (g_conf_data : Option JsonData) : Sink → Batch → Sink → Prop
  | stdout (written : Bytes) (batch : Batch) :
      Flush g_conf_data (.stdout written) batch (.stdout (written ++ batch.data))
  | file {flusher : FileFlush} {disk disk' : Disk} {batch : Batch}
      (hrun : Runs Sound (flusher.flush g_conf_data batch) disk () disk') :
      Flush g_conf_data (.file flusher disk) batch (.file flusher disk')
  | roll {flusher flusher' : RollFileFlush} {disk disk' : Disk} {batch : Batch}
      (hrun : Runs Sound (flusher.flush g_conf_data batch) disk flusher' disk') :
      Flush g_conf_data (.roll flusher disk) batch (.roll flusher' disk')

/-- As the constructor leaves it. -/
def Sink.Opened : Sink → Prop
  | .stdout _ => True
  | .file flusher disk => disk.stream = some flusher.file_
  | .roll flusher disk => Stores flusher.basename_ flusher.max_size_ [] flusher disk

/-- The second is the first after the batches. -/
def Has (batches : List Bytes) : Sink → Sink → Prop
  | .stdout before, .stdout written => written = before ++ batches.flatten
  | .file flusher before, .file flusher' disk =>
    flusher' = flusher ∧ disk.stream = some flusher.file_ ∧
      Grown flusher.file_ batches.flatten before disk
  | .roll before _, .roll flusher disk =>
    Stores before.basename_ before.max_size_
      (NextFit.fill (Joins before.max_size_.toNat) batches) flusher disk
  | _, _ => False

theorem Sink.Opened.has {sink : Sink} (h : sink.Opened) : Has [] sink sink := by
  cases sink with
  | stdout written => exact (List.append_nil written).symm
  | file flusher disk => exact ⟨rfl, h, RollFileFlush.grown_self disk⟩
  | roll flusher disk => exact h

theorem Has.flush {g_conf_data : Option JsonData} {batches : List Bytes} {before sink sink' : Sink}
    {batch : Batch} (h : Has batches before sink) (hflush : Flush g_conf_data sink batch sink') :
    Has (batches ++ [batch.data]) before sink' := by
  have hflatten : (batches ++ [batch.data]).flatten = batches.flatten ++ batch.data := by
    rw [List.flatten_append, List.flatten_singleton]
  cases hflush with
  | stdout written batch =>
    cases before with
    | stdout first =>
      have hwritten : written = first ++ batches.flatten := h
      show written ++ batch.data = _
      rw [hwritten, hflatten, List.append_assoc]
    | file flusher disk => exact h.elim
    | roll flusher disk => exact h.elim
  | @file flusher disk disk' batch hrun =>
    cases before with
    | stdout first => exact h.elim
    | file first disk₀ =>
      obtain ⟨rfl, hstream, hgrown⟩ := h
      have hmore := wp_runs (FileFlush.wp_flush hstream batch) hrun
      refine ⟨rfl, hmore.stream.trans hstream, ?_⟩
      rw [hflatten]
      exact hgrown.trans hmore
    | roll first disk₀ => exact h.elim
  | @roll flusher flusher' disk disk' batch hrun =>
    cases before with
    | stdout first => exact h.elim
    | file first disk₀ => exact h.elim
    | roll first disk₀ =>
      have hstores := wp_runs (RollFileFlush.wp_flush g_conf_data h batch) hrun
      show Stores _ _ _ _ _
      rw [NextFit.fill_snoc]
      exact hstores

/-! ### The logger -/

/-- The worker of an `AsyncLogger` with its flushers: those that `RealFlush` has called for the
batch in hand, and the others. -/
structure Pipeline (π : Type) where
  worker : AsyncWorker.Worker π Byte
  flushed : List Sink
  flushers_ : List Sink

namespace Pipeline
open AsyncWorker (Thread AsyncType Worker Label Kept Uncut InCallback batches messages given)

variable {π : Type} [Fintype π] [DecidableEq π] {conf : LogConf} {async_type_ : AsyncType}
  {g_conf_data : Option JsonData}

def start (conf : LogConf) (flushers : List Sink) : Pipeline π := ⟨AsyncWorker.start conf, [], flushers⟩

/-- A step of a thread outside of `callback_`, one `Flush` of `RealFlush`, or its return. -/
inductive Step (conf : LogConf) (async_type_ : AsyncType) (g_conf_data : Option JsonData) :
    Pipeline π → Option (Label π Byte) → Pipeline π → Prop
  | thread {s : Pipeline π} {worker : Worker π Byte} {l : Option (Label π Byte)}
      (hstep : Monitor.Step (AsyncWorker.program conf async_type_) s.worker l worker)
      (hl : given l = none) :
      Step conf async_type_ g_conf_data s l { s with worker }
  | flush {s : Pipeline π} {batch : Batch} {sink sink' : Sink} {rest : List Sink}
      (hcallback : InCallback s.worker)
      (hbatch : batch.data = s.worker.shared.buffer_consumer_.readable)
      (hnext : s.flushers_ = sink :: rest) (hflush : Flush g_conf_data sink batch sink') :
      Step conf async_type_ g_conf_data s none
        { s with flushed := s.flushed ++ [sink'], flushers_ := rest }
  | returned {s : Pipeline π} {worker : Worker π Byte} {batch : Bytes}
      (hstep : Monitor.Step (AsyncWorker.program conf async_type_) s.worker (some (.given batch))
        worker)
      (hall : s.flushers_ = []) :
      Step conf async_type_ g_conf_data s (some (.given batch)) ⟨worker, [], s.flushed⟩

abbrev PipelineRun (conf : LogConf) (async_type_ : AsyncType) (g_conf_data : Option JsonData) :
    Pipeline π → List (Option (Label π Byte)) → Pipeline π → Prop :=
  Run (Step conf async_type_ g_conf_data)

/-- The flushers called for the batch in hand have it, the others have those before. -/
structure Delivers (flushers : List Sink) (log : List (Option (Label π Byte)))
    (s : Pipeline π) : Prop where
  kept : Kept log s.worker
  uncut : Uncut log s.worker
  busy : s.flushed ≠ [] → InCallback s.worker
  done : List.Forall₂ (Has (batches log ++ [s.worker.shared.buffer_consumer_.readable]))
    (flushers.take s.flushed.length) s.flushed
  rest : List.Forall₂ (Has (batches log)) (flushers.drop s.flushed.length) s.flushers_

variable {flushers : List Sink} {log : List (Option (Label π Byte))} {s s' : Pipeline π}
  {l : Option (Label π Byte)}

omit [Fintype π] [DecidableEq π] in
theorem delivers_start (hopened : ∀ sink ∈ flushers, sink.Opened) :
    Delivers flushers [] (start conf flushers : Pipeline π) where
  kept := AsyncWorker.kept_start conf
  uncut := AsyncWorker.uncut_start conf
  busy h := absurd rfl h
  done := .nil
  rest := by
    show List.Forall₂ (Has []) flushers flushers
    rw [List.forall₂_same]
    exact fun sink hmem => (hopened sink hmem).has

theorem Delivers.thread {worker : Worker π Byte} (h : Delivers flushers log s)
    (hstep : Monitor.Step (AsyncWorker.program conf async_type_) s.worker l worker)
    (hl : given l = none) : Delivers flushers (log ++ [l]) { s with worker } := by
  have hbatches : batches (log ++ [l]) = batches log := by
    rw [AsyncWorker.batches_snoc, hl, Option.toList_none, List.append_nil]
  refine ⟨h.kept.step hstep, h.uncut.step h.kept hstep, ?_, ?_, ?_⟩
  · intro hbusy
    exact (AsyncWorker.callback_stays (h.busy hbusy) hstep hl).1
  · rw [hbatches]
    by_cases hnone : s.flushed = []
    · show List.Forall₂ _ (flushers.take s.flushed.length) s.flushed
      rw [hnone]
      exact .nil
    · have hsame := (AsyncWorker.callback_stays (h.busy hnone) hstep hl).2
      show List.Forall₂ (Has (batches log ++ [worker.shared.buffer_consumer_.readable])) _ _
      rw [hsame]
      exact h.done
  · rw [hbatches]
    exact h.rest

omit [Fintype π] [DecidableEq π] in
theorem Delivers.flush {batch : Batch} {sink sink' : Sink} {rest : List Sink}
    (h : Delivers flushers log s) (hcallback : InCallback s.worker)
    (hbatch : batch.data = s.worker.shared.buffer_consumer_.readable)
    (hnext : s.flushers_ = sink :: rest) (hflush : Flush g_conf_data sink batch sink') :
    Delivers flushers (log ++ [none]) { s with flushed := s.flushed ++ [sink'], flushers_ := rest } := by
  have hbatches : batches (log ++ [none]) = batches log := by
    rw [AsyncWorker.batches_snoc]
    exact List.append_nil _
  have hrest := h.rest
  rw [hnext] at hrest
  obtain ⟨before, others, hhas, hothers, hdrop⟩ := List.forall₂_cons_right_iff.mp hrest
  have hlength : (s.flushed ++ [sink']).length = s.flushed.length + 1 := List.length_append
  have hget : flushers[s.flushed.length]? = some before := by
    have hhead := congrArg List.head? hdrop
    rwa [List.head?_drop, List.head?_cons] at hhead
  refine ⟨h.kept.frame rfl rfl rfl rfl id (.inl rfl), h.uncut.frame rfl rfl rfl rfl,
    fun _ => hcallback, ?_, ?_⟩
  · rw [hbatches]
    show List.Forall₂ _ (flushers.take (s.flushed ++ [sink']).length) (s.flushed ++ [sink'])
    rw [hlength, List.take_add_one, hget]
    apply List.rel_append h.done
    rw [← hbatch]
    exact .cons (hhas.flush hflush) .nil
  · rw [hbatches]
    show List.Forall₂ _ (flushers.drop (s.flushed ++ [sink']).length) rest
    rw [hlength, ← List.drop_drop, hdrop]
    exact hothers

theorem Delivers.returned {worker : Worker π Byte} {batch : Bytes} (h : Delivers flushers log s)
    (hstep : Monitor.Step (AsyncWorker.program conf async_type_) s.worker (some (.given batch)) worker)
    (hall : s.flushers_ = []) :
    Delivers flushers (log ++ [some (.given batch)]) ⟨worker, [], s.flushed⟩ := by
  obtain ⟨hbatch, -⟩ := AsyncWorker.given_batch hstep
  have hbatches : batches (log ++ [some (.given batch)]) =
      batches log ++ [s.worker.shared.buffer_consumer_.readable] := by
    rw [AsyncWorker.batches_snoc, ← hbatch]
    rfl
  have hrest := h.rest
  rw [hall] at hrest
  have hlong : flushers.drop s.flushed.length = [] := List.forall₂_nil_right_iff.mp hrest
  refine ⟨h.kept.step hstep, h.uncut.step h.kept hstep, fun hbusy => absurd rfl hbusy, .nil, ?_⟩
  rw [hbatches]
  have hdone := h.done
  rw [List.take_of_length_le (List.drop_eq_nil_iff.mp hlong)] at hdone
  exact hdone

theorem Delivers.step (h : Delivers flushers log s)
    (hstep : Step conf async_type_ g_conf_data s l s') : Delivers flushers (log ++ [l]) s' := by
  cases hstep with
  | thread hstep hl => exact h.thread hstep hl
  | flush hcallback hbatch hnext hflush => exact h.flush hcallback hbatch hnext hflush
  | returned hstep hall => exact h.returned hstep hall

theorem run_delivers (hopened : ∀ sink ∈ flushers, sink.Opened)
    (hrun : PipelineRun conf async_type_ g_conf_data (start conf flushers) log s) :
    Delivers flushers log s :=
  hrun.invariant (fun _ _ _ _ h hstep => h.step hstep) (delivers_start hopened)

/-! ### What the files hold -/

/-- The messages that a flusher has written, file by file, are those it holds; a file
that is closed holds them too. -/
def Wrote : Sink → Sink → List (List Bytes) → Prop
  | .stdout before, .stdout written, parts =>
    ∃ part, parts = [part] ∧ written = before ++ part.flatten
  | .file flusher before, .file _ disk, parts =>
    ∃ part, parts = [part] ∧
      disk.contents flusher.file_ = before.contents flusher.file_ ++ part.flatten ∧
      ∀ disk', Runs Sound FileFlush.destroy disk () disk' →
        (disk'.files flusher.file_).getD [] = before.contents flusher.file_ ++ part.flatten
  | .roll _ _, .roll flusher disk, parts =>
    disk.created.map disk.contents = parts.map List.flatten ∧ disk.created.Nodup ∧
      ∀ disk', Runs Sound flusher.destroy disk () disk' →
        disk'.created.map disk'.files = parts.map fun part => some part.flatten
  | _, _, _ => False

/-- A partition of images is one of what they are images of. -/
theorem exists_of_flatten_eq_map {α β : Type} {f : α → β} {groups : List (List β)} {items : List α}
    (h : groups.flatten = items.map f) :
    ∃ parts : List (List α), groups = parts.map (List.map f) ∧ parts.flatten = items := by
  induction groups generalizing items with
  | nil =>
    refine ⟨[], rfl, ?_⟩
    exact (List.map_eq_nil_iff.mp h.symm).symm
  | cons group groups ih =>
    rw [List.flatten_cons] at h
    obtain ⟨first, others, rfl, hfirst, hothers⟩ := List.map_eq_append_iff.mp h.symm
    obtain ⟨parts, hparts, hflatten⟩ := ih hothers.symm
    refine ⟨first :: parts, ?_, ?_⟩
    · rw [List.map_cons, hfirst, ← hparts]
    · rw [List.flatten_cons, hflatten]

/-- Batches of whole messages come to the files as whole messages. -/
theorem Has.wrote {before sink : Sink} {done : List (List Bytes)}
    (h : Has (done.map List.flatten) before sink) :
    ∃ parts, Wrote before sink parts ∧ parts.flatten = done.flatten := by
  have hall : (done.map List.flatten).flatten = done.flatten.flatten := List.flatten_flatten.symm
  cases before with
  | stdout first =>
    cases sink with
    | stdout written =>
      have hwritten : written = first ++ (done.map List.flatten).flatten := h
      rw [hall] at hwritten
      exact ⟨[done.flatten], ⟨_, rfl, hwritten⟩, List.flatten_singleton⟩
    | file flusher disk => exact h.elim
    | roll flusher disk => exact h.elim
  | file first disk₀ =>
    cases sink with
    | stdout written => exact h.elim
    | file flusher disk =>
      obtain ⟨-, -, hgrown⟩ := h
      have hcontents := hgrown.written
      rw [hall] at hcontents
      refine ⟨[done.flatten], ⟨_, rfl, hcontents, fun disk' hrun => ?_⟩, List.flatten_singleton⟩
      rw [FileFlush.destroy_file hrun, hcontents]
    | roll flusher disk => exact h.elim
  | roll first disk₀ =>
    cases sink with
    | stdout written => exact h.elim
    | file flusher disk => exact h.elim
    | roll flusher disk =>
      have hstores : Stores first.basename_ first.max_size_
          (NextFit.fill (Joins first.max_size_.toNat) (done.map List.flatten)) flusher disk := h
      obtain ⟨groups, hgroups, hdone⟩ := exists_of_flatten_eq_map
        (@NextFit.flatten_fill _ (Joins first.max_size_.toNat) _ (done.map List.flatten))
      have hparts : (groups.map List.flatten).map List.flatten =
          (NextFit.fill (Joins first.max_size_.toNat) (done.map List.flatten)).map List.flatten := by
        rw [hgroups, List.map_map, List.map_map]
        exact List.map_congr_left fun group _ => List.flatten_flatten
      refine ⟨groups.map List.flatten, ⟨?_, hstores.distinct, fun disk' hrun => ?_⟩, ?_⟩
      · rw [hparts]
        exact hstores.contents
      · rw [(RollFileFlush.destroy_files hstores hrun).2]
        have hsome := congrArg (List.map some) hparts
        simp only [List.map_map] at hsome ⊢
        exact hsome.symm
      · rw [← List.flatten_flatten, hdone]

/-- Through any interleaving of the threads, every flusher has a beginning of the accepted
messages, in the order of their acceptance and each in one file; when the worker has ended
it has them all, empty ones aside. -/
theorem pipeline_delivers (hopened : ∀ sink ∈ flushers, sink.Opened)
    (hrun : PipelineRun conf async_type_ g_conf_data (start conf flushers) log s) :
    List.Forall₂ (fun before sink => ∃ parts, Wrote before sink parts ∧
      parts.flatten <+: messages log ∧
      (s.worker.phase .consumer = .running .ended →
        ∃ empties, messages log = parts.flatten ++ empties ∧ empties.flatten = []))
      flushers (s.flushed ++ s.flushers_) := by
  have h := run_delivers hopened hrun
  obtain ⟨done, inHand, waiting, hwhole⟩ := h.uncut
  have hended : s.worker.phase .consumer = .running .ended →
      s.flushed = [] ∧ inHand.flatten = [] ∧ waiting.flatten = [] := by
    intro hphase
    have hstanding : (s.worker.phase .consumer).standing = some .ended := by
      rw [hphase]
      rfl
    refine ⟨?_, ?_, ?_⟩
    · by_contra hbusy
      have hcallback := (h.busy hbusy).1
      rw [hstanding] at hcallback
      cases hcallback
    · rw [← hwhole.swapped, AsyncWorker.unread, hstanding]
      rfl
    · rw [← hwhole.buffered]
      exact (h.kept.drained (.inr hstanding)).2
  rw [← List.take_append_drop s.flushed.length flushers]
  apply List.rel_append
  · by_cases hnone : s.flushed = []
    · rw [hnone]
      exact .nil
    · have hcallback := (h.busy hnone).1
      have hbatch := hwhole.swapped
      rw [AsyncWorker.unread, hcallback] at hbatch
      have hbatch : s.worker.shared.buffer_consumer_.readable = inHand.flatten := hbatch
      apply h.done.imp
      intro before sink hhas
      have hmore : batches log ++ [s.worker.shared.buffer_consumer_.readable] =
          (done ++ [inHand]).map List.flatten := by
        rw [hwhole.delivered, hbatch, List.map_append, List.map_singleton]
      rw [hmore] at hhas
      obtain ⟨parts, hparts, hflatten⟩ := Has.wrote hhas
      refine ⟨parts, hparts, ⟨waiting, ?_⟩, fun hphase => absurd (hended hphase).1 hnone⟩
      rw [hflatten, ← hwhole.all, List.flatten_append, List.flatten_singleton]
  · apply h.rest.imp
    intro before sink hhas
    rw [hwhole.delivered] at hhas
    obtain ⟨parts, hparts, hflatten⟩ := Has.wrote hhas
    refine ⟨parts, hparts, ⟨inHand ++ waiting, ?_⟩, fun hphase => ⟨inHand ++ waiting, ?_, ?_⟩⟩
    · rw [hflatten, ← hwhole.all, List.append_assoc]
    · rw [hflatten, ← hwhole.all, List.append_assoc]
    · obtain ⟨-, hinHand, hwaiting⟩ := hended hphase
      rw [List.flatten_append, hinHand, hwaiting, List.append_nil]

/-! ### A recorded run -/

/-- A flusher played from a list of choices. -/
def playFlush (sink : Sink) (batch : Batch) (choices : List Nat) : Option Sink :=
  match sink with
  | .stdout written => some (.stdout (written ++ batch.data))
  | .file flusher disk =>
    let played := play RollFileFlush.answer RollFileFlush.admits (flusher.flush none batch) choices
      disk
    played.1.result.map fun _ => .file flusher played.2
  | .roll flusher disk =>
    let played := play RollFileFlush.answer RollFileFlush.admits (flusher.flush none batch) choices
      disk
    played.1.result.map fun flusher' => .roll flusher' played.2

theorem playFlush_flush {sink sink' : Sink} {batch : Batch} {choices : List Nat}
    (h : playFlush sink batch choices = some sink') : Flush none sink batch sink' := by
  cases sink with
  | stdout written =>
    cases h
    exact .stdout written batch
  | file flusher disk =>
    obtain ⟨done, hdone, he⟩ := Option.map_eq_some_iff.mp h
    cases he
    exact .file (play_runs RollFileFlush.answer_sound hdone)
  | roll flusher disk =>
    obtain ⟨flusher', hdone, he⟩ := Option.map_eq_some_iff.mp h
    cases he
    exact .roll (play_runs RollFileFlush.answer_sound hdone)

inductive Input (π : Type)
  | thread (event : Monitor.Event (Thread π) (AsyncWorker.Choice Byte))
  | flush (choices : List Nat)

instance (s : Worker π Byte) : Decidable (InCallback s) :=
  inferInstanceAs (Decidable ((s.phase .consumer).standing = some .callback ∧
    s.shared.buffer_consumer_.IsEmpty = false))

def next (conf : LogConf) (async_type_ : AsyncType) (s : Pipeline π) :
    Input π → Option (Option (Label π Byte) × Pipeline π)
  | .thread event =>
    match Monitor.exec (AsyncWorker.program conf async_type_) s.worker event with
    | some (some (.given batch), worker) =>
      if s.flushers_.isEmpty then some (some (.given batch), ⟨worker, [], s.flushed⟩) else none
    | some (l, worker) => some (l, { s with worker })
    | none => none
  | .flush choices =>
    match s.flushers_ with
    | [] => none
    | sink :: rest =>
      if h : InCallback s.worker ∧ s.worker.shared.buffer_consumer_.readable.length < 2 ^ 64 then
        (playFlush sink ⟨s.worker.shared.buffer_consumer_.readable, h.2⟩ choices).map fun sink' =>
          (none, { s with flushed := s.flushed ++ [sink'], flushers_ := rest })
      else none

theorem next_step {input : Input π} (h : next conf async_type_ s input = some (l, s')) :
    Step conf async_type_ none s l s' := by
  cases input with
  | thread event =>
    simp only [next] at h
    split at h
    · rename_i batch worker hexec
      split at h
      · rename_i hall
        cases h
        exact .returned ⟨event, hexec⟩ (List.isEmpty_iff.mp hall)
      · cases h
    · rename_i l worker hnot hexec
      cases h
      refine .thread ⟨event, hexec⟩ ?_
      unfold given
      split
      · rename_i batch
        exact absurd rfl (hnot batch)
      · rfl
    · cases h
  | flush choices =>
    simp only [next] at h
    split at h
    · cases h
    · rename_i sink rest hnext
      split at h
      · rename_i hready
        obtain ⟨sink', hplay, he⟩ := Option.map_eq_some_iff.mp h
        cases he
        exact @Step.flush _ _ _ _ _ _ _ ⟨_, hready.2⟩ _ _ _ hready.1 rfl hnext (playFlush_flush hplay)
      · cases h

/-- Standard output, a file that is there and rolling files of three bytes. -/
def sampleSinks : List Sink := [.stdout [],
  .file ⟨lit "log/all.log"⟩ ((RollFileFlush.blank.make (lit "log/all.log")).hold (lit "old;")),
  .roll RollFileFlush.sampleRoll RollFileFlush.blank]

theorem sampleSinks_opened : ∀ sink ∈ sampleSinks, sink.Opened := by
  have hresult : (play RollFileFlush.answer RollFileFlush.admits
      (RollFileFlush.new (lit "log/cloud") 3) [1, 1] RollFileFlush.blank).1.result =
        some (.ok RollFileFlush.sampleRoll) := by decide +kernel
  have hnew := play_runs RollFileFlush.answer_sound hresult
  intro sink hsink
  simp only [sampleSinks, List.mem_cons, List.not_mem_nil, or_false] at hsink
  rcases hsink with rfl | rfl | rfl
  · trivial
  · rfl
  · exact RollFileFlush.stores_new rfl rfl hnew

/-- The flushers called for one batch, client 1 going on in between. -/
def callFlushers (between : List (Input (Fin 2))) : List (Input (Fin 2)) :=
  .flush [] :: between ++ [.flush (List.replicate 20 2), .flush (List.replicate 20 3)]

def sampleInputs : List (Input (Fin 2)) :=
  (AsyncWorker.fillEvents ++ AsyncWorker.drainEvents.take 2).map .thread ++
    callFlushers (((AsyncWorker.drainEvents.drop 2).take 2).map .thread) ++
    ((AsyncWorker.drainEvents.drop 4).take 7).map .thread ++ callFlushers [] ++
    (AsyncWorker.drainEvents.drop 11).map .thread

theorem pipeline_delivers_sample : ∃ log s,
    Transition.Run.play (next AsyncWorker.smallConf .ASYNC_SAFE)
      (start AsyncWorker.smallConf sampleSinks) sampleInputs = some (log, s) ∧
    messages log = [lit "abcdef", lit "xyz"] ∧ s.worker.phase .consumer = .running .ended ∧
    List.Forall₂ (fun before sink => ∃ parts, Wrote before sink parts ∧
      parts.flatten <+: messages log ∧
      (s.worker.phase .consumer = .running .ended →
        ∃ empties, messages log = parts.flatten ++ empties ∧ empties.flatten = []))
      sampleSinks (s.flushed ++ s.flushers_) := by
  have hplay : (Transition.Run.play (next AsyncWorker.smallConf .ASYNC_SAFE)
      (start AsyncWorker.smallConf sampleSinks) sampleInputs).any (fun played =>
        decide (messages played.1 = [lit "abcdef", lit "xyz"]) &&
        decide (played.2.worker.phase .consumer = .running .ended)) = true := by decide +kernel
  obtain ⟨⟨log, s⟩, hplayed, hcheck⟩ := (Option.any_eq_true _ _).mp hplay
  simp only [Bool.and_eq_true, decide_eq_true_eq] at hcheck
  have hrun : PipelineRun AsyncWorker.smallConf .ASYNC_SAFE none
      (start AsyncWorker.smallConf sampleSinks) log s := by
    apply Transition.Run.of_play _ hplayed
    intro s input l s' hnext
    exact next_step hnext
  exact ⟨log, s, hplayed, hcheck.1, hcheck.2, pipeline_delivers sampleSinks_opened hrun⟩

end Pipeline
end CloudStorage
