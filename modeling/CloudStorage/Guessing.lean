import CloudStorage.RateLimiter
import Mathlib.Data.List.NodupEquivFin

/-!
# How often a password can be guessed

The failures of one address, in windows of a minute: the fifth of a window
blocks for a minute, so nine in a row take at least that long. The limiter keeps
one entry of this history, and erases it once it says nothing any more.
-/

namespace CloudStorage
open Posix Transition

namespace LoginRateLimiter

/-! ### What a history says of an address -/

def Failed (address : Bytes) (e : Login × Bool) : Prop :=
  e.1.address = address ∧ e.2 = true ∧ e.1.result = .failure

def Succeeded (address : Bytes) (e : Login × Bool) : Prop :=
  e.1.address = address ∧ e.2 = true ∧ e.1.result = .success

instance (address : Bytes) (e : Login × Bool) : Decidable (Failed address e) :=
  inferInstanceAs (Decidable (_ ∧ _))

instance (address : Bytes) (e : Login × Bool) : Decidable (Succeeded address e) :=
  inferInstanceAs (Decidable (_ ∧ _))

def failTimes (address : Bytes) (log : List (Login × Bool)) : List Int :=
  (log.filter fun e => decide (Failed address e)).map fun e => e.1.ended

/-- The failures counted together, from the one at `started` on. -/
structure Window where
  started : Int
  failures : Nat

/-- A failure more than a minute after the start of a window opens the next one. -/
def Window.after (window : Option Window) (now : Int) : Window :=
  match window with
  | none => ⟨now, 1⟩
  | some w => if now - w.started > minute then ⟨now, 1⟩ else ⟨w.started, w.failures + 1⟩

def windowStep (address : Bytes) (window : Option Window) (e : Login × Bool) : Option Window :=
  if Failed address e then some (Window.after window e.1.ended)
  else if Succeeded address e then none
  else window

/-- The window that the failures of a history leave open. -/
def window (address : Bytes) (log : List (Login × Bool)) : Option Window :=
  log.foldl (windowStep address) none

def recentStep (address : Bytes) (times : List Int) (e : Login × Bool) : List Int :=
  if Failed address e then e.1.ended :: times
  else if Succeeded address e then []
  else times

/-- Failures since the last success, the latest first. -/
def recent (address : Bytes) (log : List (Login × Bool)) : List Int :=
  log.foldl (recentStep address) []

theorem failTimes_snoc (address : Bytes) (log : List (Login × Bool)) (e : Login × Bool) :
    failTimes address (log ++ [e]) =
      failTimes address log ++ if Failed address e then [e.1.ended] else [] := by
  simp only [failTimes, List.filter_append, List.map_append, List.filter_cons, List.filter_nil]
  by_cases h : Failed address e
  · simp only [h, decide_true, if_true, List.map_cons, List.map_nil]
  · simp only [h, decide_false, Bool.false_eq_true, if_false, List.map_nil]

theorem window_snoc (address : Bytes) (log : List (Login × Bool)) (e : Login × Bool) :
    window address (log ++ [e]) = windowStep address (window address log) e := by
  simp only [window, List.foldl_append, List.foldl_cons, List.foldl_nil]

theorem recent_snoc (address : Bytes) (log : List (Login × Bool)) (e : Login × Bool) :
    recent address (log ++ [e]) = recentStep address (recent address log) e := by
  simp only [recent, List.foldl_append, List.foldl_cons, List.foldl_nil]

/-! ### Failures keep a pace -/

/-- Nine failures in a row take a minute: a window ends with its fifth failure at the
latest, and four failures further back another window had already started. -/
structure Paced (times : List Int) (window : Option Window) : Prop where
  empty : window = none → times = []
  sorted : times.Pairwise (· ≥ ·)
  positive : ∀ w ∈ window, 1 ≤ w.failures
  started : ∀ w ∈ window, times[w.failures - 1]? = some w.started
  gap : ∀ w ∈ window, ∀ y, times[w.failures + 3]? = some y → y + minute ≤ w.started
  pace : ∀ j x y, times[j]? = some x → times[j + 8]? = some y → y + minute ≤ x

theorem sorted_get {times : List Int} (h : times.Pairwise (· ≥ ·)) {i j : Nat} {x y : Int}
    (hij : i ≤ j) (hx : times[i]? = some x) (hy : times[j]? = some y) : y ≤ x := by
  obtain ⟨hi, rfl⟩ := List.getElem?_eq_some_iff.mp hx
  obtain ⟨hj, rfl⟩ := List.getElem?_eq_some_iff.mp hy
  rcases Nat.lt_or_eq_of_le hij with hlt | rfl
  · exact List.pairwise_iff_getElem.mp h i j hi hj hlt
  · exact Int.le_refl _

theorem head_of_get {times : List Int} {i : Nat} {y : Int} (h : times[i]? = some y) :
    ∃ x ∈ times.head?, times[0]? = some x := by
  cases times with
  | nil => cases h
  | cons x times => exact ⟨x, rfl, rfl⟩

theorem Paced.nil : Paced [] none := by
  constructor <;> simp

theorem Paced.eighth {times : List Int} {window : Option Window} (h : Paced times window) {t : Int}
    (hlast : ∀ x ∈ times.head?, x ≤ t)
    (hblocked : ∀ w ∈ window, 5 ≤ w.failures → ∀ x ∈ times.head?, x + minute ≤ t) {y : Int}
    (hy : times[7]? = some y) : y + minute ≤ t := by
  obtain ⟨x, hhead, hx⟩ := head_of_get hy
  cases hwindow : window with
  | none =>
    rw [h.empty hwindow] at hy
    cases hy
  | some w =>
    by_cases hfive : 5 ≤ w.failures
    · have hxt := hblocked w hwindow hfive x hhead
      have hyx := sorted_get h.sorted (Nat.zero_le 7) hx hy
      omega
    · have hlt : w.failures + 3 < times.length := by
        have := (List.getElem?_eq_some_iff.mp hy).1
        omega
      obtain ⟨z, hz⟩ : ∃ z, times[w.failures + 3]? = some z :=
        ⟨_, List.getElem?_eq_getElem hlt⟩
      have hzs := h.gap w hwindow z hz
      have hyz := sorted_get h.sorted (by omega) hz hy
      have hsx := sorted_get h.sorted (Nat.zero_le _) hx (h.started w hwindow)
      have hxt := hlast x hhead
      omega

theorem Paced.push {times : List Int} {window : Option Window} (h : Paced times window) {t : Int}
    (hlast : ∀ x ∈ times.head?, x ≤ t)
    (hblocked : ∀ w ∈ window, 5 ≤ w.failures → ∀ x ∈ times.head?, x + minute ≤ t) :
    Paced (t :: times) (some (Window.after window t)) := by
  have hsorted : (t :: times).Pairwise (· ≥ ·) := by
    rw [List.pairwise_cons]
    refine ⟨fun y hy => ?_, h.sorted⟩
    obtain ⟨j, hj⟩ := List.mem_iff_getElem?.mp hy
    cases times with
    | nil => cases hy
    | cons x times =>
      have hx := hlast x rfl
      have hyx := sorted_get h.sorted (Nat.zero_le j) rfl hj
      omega
  have hpace : ∀ j x y, (t :: times)[j]? = some x → (t :: times)[j + 8]? = some y →
      y + minute ≤ x := by
    intro j x y hx hy
    cases j with
    | zero =>
      cases hx
      exact h.eighth hlast hblocked hy
    | succ j => exact h.pace j x y hx hy
  -- the window goes on, or the failures before are behind its start
  cases hwindow : window with
  | none =>
    rw [h.empty hwindow] at hsorted hpace ⊢
    constructor
    · exact fun h => nomatch h
    · exact hsorted
    · intro w hw
      cases hw
      exact Nat.le_refl 1
    · intro w hw
      cases hw
      rfl
    · intro w hw y hy
      cases hw
      cases hy
    · exact hpace
  | some w =>
    have hpos := h.positive w hwindow
    by_cases hover : t - w.started > minute
    · constructor
      · exact fun h => nomatch h
      · exact hsorted
      · intro w' hw'
        cases hw'
        simp only [Window.after, hover, if_true, Nat.le_refl]
      · intro w' hw'
        cases hw'
        simp only [Window.after, hover, if_true, Nat.sub_self, List.getElem?_cons_zero]
      · intro w' hw' y hy
        cases hw'
        simp only [Window.after, hover, if_true, List.getElem?_cons_succ] at hy ⊢
        -- the fourth failure before the new window
        by_cases hfive : 5 ≤ w.failures
        · obtain ⟨x, hhead, hx⟩ := head_of_get hy
          have hxt := hblocked w hwindow hfive x hhead
          have hyx := sorted_get h.sorted (Nat.zero_le _) hx hy
          omega
        · have hys := sorted_get h.sorted (by omega) (h.started w hwindow) hy
          omega
      · exact hpace
    · constructor
      · exact fun h => nomatch h
      · exact hsorted
      · intro w' hw'
        cases hw'
        simp only [Window.after, hover, if_false]
        omega
      · intro w' hw'
        cases hw'
        simp only [Window.after, hover, if_false]
        rw [show w.failures + 1 - 1 = w.failures - 1 + 1 by omega, List.getElem?_cons_succ]
        exact h.started w hwindow
      · intro w' hw' y hy
        cases hw'
        simp only [Window.after, hover, if_false] at hy ⊢
        rw [show w.failures + 1 + 3 = w.failures + 3 + 1 by omega, List.getElem?_cons_succ] at hy
        exact h.gap w hwindow y hy
      · exact hpace

/-- In an interval of a minute there are at most eight of them. -/
theorem Paced.count {times : List Int} {window : Option Window} (h : Paced times window)
    (x : Int) : (times.filter fun t => decide (x ≤ t ∧ t < x + minute)).length ≤ 8 := by
  by_contra hmany
  have hlong : 8 < (times.filter fun t => decide (x ≤ t ∧ t < x + minute)).length := by omega
  obtain ⟨f, hf⟩ := List.sublist_iff_exists_orderEmbedding_getElem?_eq.mp
    (@List.filter_sublist _ (fun t => decide (x ≤ t ∧ t < x + minute)) times)
  have hin : ∀ i (hi : i < (times.filter fun t => decide (x ≤ t ∧ t < x + minute)).length),
      ∃ y, times[f i]? = some y ∧ x ≤ y ∧ y < x + minute := by
    intro i hi
    have hget := hf i
    rw [List.getElem?_eq_getElem hi] at hget
    exact ⟨_, hget.symm, of_decide_eq_true (List.mem_filter.mp (List.getElem_mem hi)).2⟩
  obtain ⟨late, hlate, -, hlt⟩ := hin 0 (by omega)
  obtain ⟨early, hearly, hle, -⟩ := hin 8 hlong
  have hfar : f 0 + 8 ≤ f 8 := by
    rw [Nat.add_comm]
    exact f.strictMono.add_le_nat 8 0
  obtain ⟨z, hz⟩ : ∃ z, times[f 0 + 8]? = some z := by
    have hlen := (List.getElem?_eq_some_iff.mp hearly).1
    exact ⟨_, List.getElem?_eq_getElem (by omega)⟩
  have hpace := h.pace _ _ _ hlate hz
  have hsort := sorted_get h.sorted hfar hz hearly
  omega

/-! ### What the limiter keeps of a history -/

/-- The entry of an address, the window its failures leave open, the failures since the last
success, and the clock. An entry that is gone while a window is open was erased after
the window was over. -/
structure Tracks (entry : Option Attempt) (window : Option Window) (times : List Int)
    (clock : Int) : Prop where
  paced : Paced times window
  past : ∀ x ∈ times.head?, x ≤ clock
  fresh : window = none → entry = none
  kept : ∀ w ∈ window, ∀ attempt ∈ entry,
    attempt.window_started = w.started ∧ attempt.failures = w.failures ∧ w.started ≠ 0 ∧
      (5 ≤ w.failures → ∀ x ∈ times.head?, attempt.blocked_until = x + minute)
  erased : ∀ w ∈ window, entry = none →
    minute < clock - w.started ∧ (5 ≤ w.failures → ∀ x ∈ times.head?, x + minute ≤ clock)

section
variable {entry : Option Attempt} {window : Option Window} {times : List Int} {clock now : Int}

theorem Tracks.wait (h : Tracks entry window times clock) (hnow : clock ≤ now) :
    Tracks entry window times now := by
  refine ⟨h.paced, ?_, h.fresh, h.kept, ?_⟩
  · intro x hx
    have := h.past x hx
    omega
  · intro w hw hentry
    obtain ⟨hover, hblock⟩ := h.erased w hw hentry
    refine ⟨by omega, fun hfive x hx => ?_⟩
    have := hblock hfive x hx
    omega

theorem Tracks.allow (h : Tracks entry window times now) :
    Tracks (Entry.allow entry now).2 window times now ∧
      ((Entry.allow entry now).1 = true →
        ∀ w ∈ window, 5 ≤ w.failures → ∀ x ∈ times.head?, x + minute ≤ now) := by
  unfold Entry.allow
  cases hentry : entry with
  | none =>
    rw [hentry] at h
    exact ⟨h, fun _ w hw => (h.erased w hw rfl).2⟩
  | some attempt =>
    rw [hentry] at h
    by_cases hblocked : attempt.blocked_until > now
    · simp only [hblocked, if_true]
      exact ⟨h, fun h => nomatch h⟩
    · have hfree : ∀ w ∈ window, 5 ≤ w.failures → ∀ x ∈ times.head?, x + minute ≤ now := by
        intro w hw hfive x hx
        have := (h.kept w hw attempt rfl).2.2.2 hfive x hx
        omega
      by_cases hover : now - attempt.window_started > minute
      · simp only [hblocked, hover, if_true, if_false]
        refine ⟨⟨h.paced, h.past, fun _ => rfl, fun _ _ _ ha => (nomatch ha), ?_⟩, fun _ => hfree⟩
        intro w hw _
        have hstarted := (h.kept w hw attempt rfl).1
        exact ⟨by omega, hfree w hw⟩
      · simp only [hblocked, hover, if_false]
        exact ⟨h, fun _ => hfree⟩

theorem tracks_none : Tracks none none [] now := by
  refine ⟨Paced.nil, ?_, fun _ => rfl, ?_, ?_⟩
  · exact fun _ hx => nomatch hx
  · exact fun _ hw => nomatch hw
  · exact fun _ hw => nomatch hw

/-- The entry counts the failure as the history does; at the epoch it would not. -/
theorem Tracks.failure (h : Tracks entry window times now)
    (hfree : ∀ w ∈ window, 5 ≤ w.failures → ∀ x ∈ times.head?, x + minute ≤ now) (hnow : now ≠ 0) :
    Tracks (some (Attempt.failed (entry.getD {}) now)) (some (Window.after window now))
      (now :: times) now := by
  have hcount : (Attempt.current (entry.getD {}) now).window_started =
        (Window.after window now).started ∧
      (Attempt.current (entry.getD {}) now).failures + 1 = (Window.after window now).failures ∧
      (Window.after window now).started ≠ 0 := by
    cases hwindow : window with
    | none =>
      rw [h.fresh hwindow]
      exact ⟨rfl, rfl, hnow⟩
    | some w =>
      cases hentry : entry with
      | none =>
        have hover : now - w.started > minute := (h.erased w hwindow hentry).1
        simp only [Window.after, hover, if_true]
        exact ⟨rfl, rfl, hnow⟩
      | some attempt =>
        obtain ⟨hstarted, hfailures, hzero, -⟩ := h.kept w hwindow attempt hentry
        have hne : attempt.window_started ≠ 0 := by
          rw [hstarted]
          exact hzero
        by_cases hover : now - w.started > minute
        · have hover' : now - attempt.window_started > minute := by omega
          simp only [Attempt.current, Option.getD_some, hover', or_true, if_true, Window.after, hover]
          exact ⟨trivial, trivial, hnow⟩
        · have hover' : ¬(attempt.window_started = 0 ∨ now - attempt.window_started > minute) := by
            omega
          simp only [Attempt.current, Option.getD_some, hover', if_false, Window.after, hover]
          exact ⟨hstarted, congrArg (· + 1) hfailures, hzero⟩
  refine ⟨h.paced.push h.past hfree, ?_, fun h => (nomatch h), ?_, fun _ _ h => (nomatch h)⟩
  · intro x hx
    cases hx
    exact Int.le_refl _
  · intro w hw attempt hattempt
    cases hw
    cases hattempt
    unfold Attempt.failed
    simp only
    split
    · refine ⟨hcount.1, hcount.2.1, hcount.2.2, fun _ x hx => ?_⟩
      cases hx
      rfl
    · rename_i hfew
      exact ⟨hcount.1, hcount.2.1, hcount.2.2, fun hfive => by omega⟩

theorem Tracks.login (h : Tracks entry window times clock) {l : Login} (hasked : clock ≤ l.asked)
    (hended : l.asked ≤ l.ended)
    (hepoch : Failed l.address (l, (Entry.login entry l).1) → l.ended ≠ 0) :
    Tracks (Entry.login entry l).2 (windowStep l.address window (l, (Entry.login entry l).1))
      (recentStep l.address times (l, (Entry.login entry l).1)) l.ended := by
  obtain ⟨hallow, hfree⟩ := (h.wait hasked).allow
  unfold Entry.login windowStep recentStep Failed Succeeded at *
  cases hanswer : (Entry.allow entry l.asked).1 with
  | false =>
    simp only [hanswer, Bool.false_eq_true, if_false, false_and, and_false]
    exact hallow.wait hended
  | true =>
    have hfree' := hfree hanswer
    simp only [hanswer, if_true, true_and] at hepoch ⊢
    unfold Entry.conclude
    cases hresult : l.result with
    | failure =>
      simp only [if_true]
      refine (hallow.wait hended).failure ?_ (hepoch hresult)
      intro w hw hfive x hx
      have := hfree' w hw hfive x hx
      omega
    | success =>
      simp only [reduceCtorEq, if_false, if_true]
      exact tracks_none
    | neither =>
      simp only [reduceCtorEq, if_false]
      exact hallow.wait hended

end

/-! ### Runs -/

section
variable {s s' : State} {log : List (Login × Bool)} {address : Bytes} {c : Int}

theorem Step.lookup {e : Login × Bool} (h : Step s e s') :
    e.2 = (Entry.login (s.attempts.lookup e.1.address) e.1).1 ∧
      ∀ other, s'.attempts.lookup other =
        if other = e.1.address then (Entry.login (s.attempts.lookup e.1.address) e.1).2
        else s.attempts.lookup other := by
  obtain ⟨hanswer, hlookup⟩ := login_entry s.attempts e.1
  rw [← h.answer, h.attempts]
  exact ⟨hanswer, hlookup⟩

theorem step_tracks {e : Login × Bool} (h : Step s e s')
    (ht : Tracks (s.attempts.lookup address) (window address log) (recent address log) s.clock)
    (hepoch : Failed address e → e.1.ended ≠ 0) :
    Tracks (s'.attempts.lookup address) (window address (log ++ [e]))
      (recent address (log ++ [e])) s'.clock := by
  obtain ⟨hanswer, hlookup⟩ := h.lookup
  rw [window_snoc, recent_snoc, hlookup, h.clock]
  by_cases haddr : address = e.1.address
  · subst haddr
    obtain ⟨l, answer⟩ := e
    simp only at hanswer
    subst hanswer
    rw [if_pos rfl]
    exact ht.login h.asked h.ended hepoch
  · have hfailed : ¬Failed address e := fun hf => haddr hf.1.symm
    have hsucceeded : ¬Succeeded address e := fun hs => haddr hs.1.symm
    simp only [haddr, if_false, windowStep, recentStep, hfailed, hsucceeded]
    exact ht.wait (Int.le_trans h.asked h.ended)

theorem run_tracks (hrun : LoginRun ⟨∅, c⟩ log s)
    (hepoch : ∀ e ∈ log, Failed address e → e.1.ended ≠ 0) :
    Tracks (s.attempts.lookup address) (window address log) (recent address log) s.clock := by
  induction hrun with
  | nil =>
    rw [AList.lookup_empty]
    exact tracks_none
  | snoc _ hstep ih =>
    refine step_tracks hstep (ih fun e he => hepoch e (List.mem_append_left _ he)) ?_
    exact hepoch _ (List.mem_append_right _ (List.mem_singleton_self _))

/-- Blocked until `t`, or `t` is past. -/
def BlockedUntil (address : Bytes) (t : Int) (s : State) : Prop :=
  (∃ attempt, s.attempts.lookup address = some attempt ∧ attempt.blocked_until = t) ∨ t ≤ s.clock

theorem Tracks.blocked (h : Tracks (s.attempts.lookup address) (some w) (t :: times) s.clock)
    (hfive : 5 ≤ w.failures) : BlockedUntil address (t + minute) s := by
  cases hentry : s.attempts.lookup address with
  | none => exact Or.inr ((h.erased w rfl hentry).2 hfive t rfl)
  | some attempt =>
    exact Or.inl ⟨attempt, hentry, (h.kept w rfl attempt hentry).2.2.2 hfive t rfl⟩

theorem step_blocked {t : Int} {e : Login × Bool} (h : Step s e s')
    (hb : BlockedUntil address t s) :
    BlockedUntil address t s' ∧ (e.1.address = address → e.1.asked < t → e.2 = false) := by
  obtain ⟨hanswer, hlookup⟩ := h.lookup
  have hasked := h.asked
  have hended := h.ended
  have hclock := h.clock
  by_cases hlate : t ≤ e.1.asked
  · refine ⟨Or.inr (by omega), fun _ hlt => by omega⟩
  · rcases hb with ⟨attempt, hentry, hblock⟩ | hpast
    · by_cases haddr : address = e.1.address
      · subst haddr
        have hrefused : Entry.login (s.attempts.lookup e.1.address) e.1 = (false, some attempt) := by
          have hgt : attempt.blocked_until > e.1.asked := by omega
          simp only [Entry.login, Entry.allow, hentry, hgt, if_true, Bool.false_eq_true, if_false]
        rw [hrefused] at hanswer hlookup
        refine ⟨Or.inl ⟨attempt, ?_, hblock⟩, fun _ _ => hanswer⟩
        rw [hlookup, if_pos rfl]
      · refine ⟨Or.inl ⟨attempt, ?_, hblock⟩, fun he => (haddr he.symm).elim⟩
        rw [hlookup, if_neg haddr, hentry]
    · omega

theorem run_blocked {t : Int} (hrun : LoginRun s log s') (hb : BlockedUntil address t s) :
    ∀ e ∈ log, e.1.address = address → e.1.asked < t → e.2 = false := by
  have hinv : BlockedUntil address t s' ∧
      ∀ e ∈ log, e.1.address = address → e.1.asked < t → e.2 = false := by
    induction hrun with
    | nil => exact ⟨hb, fun _ he => nomatch he⟩
    | snoc _ hstep ih =>
      obtain ⟨hb', hrefused⟩ := ih
      obtain ⟨hb'', hlast⟩ := step_blocked hstep hb'
      refine ⟨hb'', fun e he => ?_⟩
      rcases List.mem_append.mp he with he | he
      · exact hrefused e he
      · rw [List.mem_singleton.mp he]
        exact hlast
  exact hinv.2

/-! ### Counting -/

/-- A time in the minute from `x` on. -/
def InMinute (x t : Int) : Prop := x ≤ t ∧ t < x + minute

instance (x t : Int) : Decidable (InMinute x t) := inferInstanceAs (Decidable (_ ∧ _))

def failuresIn (address : Bytes) (x : Int) (log : List (Login × Bool)) : Nat :=
  ((failTimes address log).filter fun t => decide (InMinute x t)).length

def QuietSuccess (address : Bytes) (x : Int) (log : List (Login × Bool)) : Prop :=
  ∀ e ∈ log, Succeeded address e → ¬InMinute x e.1.ended

/-- The failures before the last success are behind it, the later ones after it. -/
structure Split (address : Bytes) (log : List (Login × Bool)) (clock : Int) : Prop where
  past : ∀ e ∈ log, e.1.ended ≤ clock
  cut : ∃ old, failTimes address log = old ++ (recent address log).reverse ∧
    ∀ t ∈ old, ∃ e ∈ log, Succeeded address e ∧ t ≤ e.1.ended

theorem step_split {e : Login × Bool} (h : Step s e s') (hs : Split address log s.clock) :
    Split address (log ++ [e]) s'.clock := by
  have hle : s.clock ≤ e.1.ended := Int.le_trans h.asked h.ended
  obtain ⟨old, hold, hbehind⟩ := hs.cut
  constructor
  · intro e' he'
    rw [h.clock]
    rcases List.mem_append.mp he' with he' | he'
    · exact Int.le_trans (hs.past e' he') hle
    · rw [List.mem_singleton.mp he']
  · have hkeep : ∀ t ∈ old, ∃ e' ∈ log ++ [e], Succeeded address e' ∧ t ≤ e'.1.ended := by
      intro t ht
      obtain ⟨e', he', hsucc⟩ := hbehind t ht
      exact ⟨e', List.mem_append_left _ he', hsucc⟩
    rw [failTimes_snoc, recent_snoc, recentStep, hold]
    by_cases hfailed : Failed address e
    · refine ⟨old, ?_, hkeep⟩
      simp only [hfailed, if_true, List.reverse_cons, List.append_assoc]
    · by_cases hsucc : Succeeded address e
      · refine ⟨old ++ (recent address log).reverse, ?_, fun t ht => ?_⟩
        · simp only [hfailed, hsucc, if_false, if_true, List.reverse_nil]
        · refine ⟨e, List.mem_append_right _ (List.mem_singleton_self e), hsucc, ?_⟩
          have hmem : t ∈ failTimes address log := by rw [hold]; exact ht
          simp only [failTimes, List.mem_map, List.mem_filter] at hmem
          obtain ⟨e', ⟨he', -⟩, rfl⟩ := hmem
          exact Int.le_trans (hs.past e' he') hle
      · refine ⟨old, ?_, hkeep⟩
        simp only [hfailed, hsucc, if_false, List.append_nil]

theorem run_split (hrun : LoginRun ⟨∅, c⟩ log s) : Split address log s.clock := by
  induction hrun with
  | nil => exact ⟨fun _ h => (nomatch h), [], rfl, fun _ h => (nomatch h)⟩
  | snoc _ hstep ih => exact step_split hstep ih

theorem failuresIn_snoc (x : Int) (e : Login × Bool) :
    failuresIn address x (log ++ [e]) = failuresIn address x log +
      if Failed address e ∧ InMinute x e.1.ended then 1 else 0 := by
  rw [failuresIn, failTimes_snoc, List.filter_append, List.length_append]
  by_cases hfailed : Failed address e
  · by_cases hin : InMinute x e.1.ended
    · simp [hfailed, hin, failuresIn]
    · simp [hfailed, hin, failuresIn]
  · simp [hfailed, failuresIn]

/-- Where the latest failure lies in the minute, those before the last success do not. -/
theorem failuresIn_recent {e : Login × Bool} (hs : Split address (log ++ [e]) s.clock)
    {x : Int} (hin : InMinute x e.1.ended)
    (hclock : s.clock = e.1.ended) (hquiet : QuietSuccess address x (log ++ [e])) :
    failuresIn address x (log ++ [e]) =
      ((recent address (log ++ [e])).filter fun t => decide (InMinute x t)).length := by
  obtain ⟨old, hold, hbehind⟩ := hs.cut
  have hnone : old.filter (fun t => decide (InMinute x t)) = [] := by
    rw [List.filter_eq_nil_iff]
    intro t ht
    obtain ⟨e', he', hsucc, hle⟩ := hbehind t ht
    have hpast := hs.past e' he'
    have hout := hquiet e' he' hsucc
    intro htin
    have htin' : InMinute x t := of_decide_eq_true htin
    unfold InMinute at hin hout htin'
    omega
  rw [failuresIn, hold, List.filter_append, hnone, List.nil_append, List.filter_reverse,
    List.length_reverse]

theorem run_count (hrun : LoginRun ⟨∅, c⟩ log s)
    (hepoch : ∀ e ∈ log, Failed address e → e.1.ended ≠ 0) {x : Int}
    (hquiet : QuietSuccess address x log) : failuresIn address x log ≤ 8 := by
  induction hrun with
  | nil => exact Nat.zero_le _
  | @snoc s₁ s₂ log e hlog hstep ih =>
    have hrun' := hlog.snoc hstep
    by_cases hlast : Failed address e ∧ InMinute x e.1.ended
    · rw [failuresIn_recent (run_split hrun') hlast.2 hstep.clock hquiet]
      exact (run_tracks hrun' hepoch).paced.count x
    · rw [failuresIn_snoc, if_neg hlast, Nat.add_zero]
      exact ih (fun e he => hepoch e (List.mem_append_left _ he))
        (fun e he => hquiet e (List.mem_append_left _ he))

/-! ### Independence -/

def ofAddress (address : Bytes) (log : List (Login × Bool)) : List (Login × Bool) :=
  log.filter fun e => decide (e.1.address = address)

/-- The answers one address gets when no other asks. -/
def alone : List Login → List (Login × Bool) × Option Attempt :=
  List.foldl (fun done l =>
    (done.1 ++ [(l, (Entry.login done.2 l).1)], (Entry.login done.2 l).2)) ([], none)

theorem run_alone (hrun : LoginRun ⟨∅, c⟩ log s) :
    alone ((ofAddress address log).map Prod.fst) =
      (ofAddress address log, s.attempts.lookup address) := by
  induction hrun with
  | nil =>
    rw [AList.lookup_empty]
    rfl
  | @snoc s₁ s₂ log e hlog hstep ih =>
    obtain ⟨hanswer, hlookup⟩ := hstep.lookup
    rw [ofAddress, List.filter_append, ← ofAddress, hlookup]
    by_cases haddr : e.1.address = address
    · subst haddr
      simp only [List.filter_cons, decide_true, if_true, List.filter_nil, List.map_append,
        List.map_cons, List.map_nil]
      unfold alone at ih ⊢
      rw [List.foldl_append, ih]
      simp only [List.foldl_cons, List.foldl_nil, ← hanswer]
    · have hne : ¬address = e.1.address := fun h => haddr h.symm
      simp only [List.filter_cons, haddr, decide_false, Bool.false_eq_true, if_false,
        List.filter_nil, List.append_nil, hne]
      exact ih

end

/-! ### The limit -/

/-- Of an address none of whose password checks fails when the clock reads the epoch: after a
failure that is at least the fifth of its window everything is refused for a minute;
at most eight failures lie in a minute without a success; and the answers are those of
any other run in which the address makes the same attempts. -/
theorem limiter_bounds_guessing {s : State} {log : List (Login × Bool)} {address : Bytes} {c : Int}
    (hrun : LoginRun ⟨∅, c⟩ log s) (hepoch : ∀ e ∈ log, Failed address e → e.1.ended ≠ 0) :
    (∀ e s₁ log₁ s₂, Step s e s₁ → Failed address e → e.1.ended ≠ 0 →
        5 ≤ (Window.after (window address log) e.1.ended).failures → LoginRun s₁ log₁ s₂ →
        ∀ e₁ ∈ log₁, e₁.1.address = address → e₁.1.asked < e.1.ended + minute → e₁.2 = false) ∧
      (∀ x, QuietSuccess address x log → failuresIn address x log ≤ 8) ∧
      ∀ c' log' s', LoginRun ⟨∅, c'⟩ log' s' →
        (ofAddress address log).map Prod.fst = (ofAddress address log').map Prod.fst →
        ofAddress address log = ofAddress address log' := by
  refine ⟨?_, ?_, ?_⟩
  · intro e s₁ log₁ s₂ hstep hfailed hne hfive hrun₁
    have htracks := step_tracks hstep (run_tracks hrun hepoch) fun _ => hne
    rw [window_snoc, recent_snoc, windowStep, recentStep, if_pos hfailed, if_pos hfailed] at htracks
    exact run_blocked hrun₁ (htracks.blocked hfive)
  · intro x hquiet
    exact run_count hrun hepoch hquiet
  · intro c' log' s' hrun' hsame
    have halone : alone ((ofAddress address log).map Prod.fst) = _ := run_alone hrun
    rw [hsame, run_alone hrun'] at halone
    exact (congrArg Prod.fst halone).symm

/-! ### Recorded runs -/

/-- One login, when its clock runs on. -/
def loginNext (s : State) (l : Login) : Option ((Login × Bool) × State) :=
  if s.clock ≤ l.asked ∧ l.asked ≤ l.ended then
    some ((l, (login s.attempts l).1), ⟨(login s.attempts l).2, l.ended⟩)
  else none

theorem loginNext_step {s s' : State} {l : Login} {e : Login × Bool}
    (h : loginNext s l = some (e, s')) : Step s e s' := by
  unfold loginNext at h
  split at h
  · rename_i hclock
    cases h
    exact ⟨hclock.1, hclock.2, rfl, rfl, rfl⟩
  · cases h

/-- Logins one after the other. -/
def logins (ls : List Login) : Option (List (Login × Bool) × State) := Run.play loginNext ⟨∅, 0⟩ ls

theorem logins_run {ls : List Login} {log : List (Login × Bool)} {s : State}
    (h : logins ls = some (log, s)) : LoginRun ⟨∅, 0⟩ log s := by
  have hnext : ∀ s l e s', loginNext s l = some (e, s') → Step s e s' :=
    fun _ _ _ _ => loginNext_step
  exact Run.of_play hnext h

def guess (now : Int) : Login := ⟨lit "10.0.0.7", now, now, .failure⟩

/-- Four failures at the end of a window and five in the next one. -/
def guesses : List Login := [guess 1, guess minute, guess minute, guess minute] ++
  List.replicate 5 (guess (minute + 2))

theorem limiter_bounds_guesses : ∃ log s, logins guesses = some (log, s) ∧
    failuresIn (lit "10.0.0.7") minute log = 8 ∧
    (∀ e s₁ log₁ s₂, Step s e s₁ → Failed (lit "10.0.0.7") e → e.1.ended ≠ 0 →
        5 ≤ (Window.after (window (lit "10.0.0.7") log) e.1.ended).failures →
        LoginRun s₁ log₁ s₂ → ∀ e₁ ∈ log₁, e₁.1.address = lit "10.0.0.7" →
          e₁.1.asked < e.1.ended + minute → e₁.2 = false) ∧
    (∀ x, QuietSuccess (lit "10.0.0.7") x log → failuresIn (lit "10.0.0.7") x log ≤ 8) ∧
    ∀ c' log' s', LoginRun ⟨∅, c'⟩ log' s' →
      (ofAddress (lit "10.0.0.7") log).map Prod.fst = (ofAddress (lit "10.0.0.7") log').map Prod.fst →
      ofAddress (lit "10.0.0.7") log = ofAddress (lit "10.0.0.7") log' := by
  have hplay : (logins guesses).any (fun done =>
      decide (failuresIn (lit "10.0.0.7") minute done.1 = 8) &&
        done.1.all fun e => decide (e.1.ended ≠ 0)) = true := by decide +kernel
  obtain ⟨⟨log, s⟩, hrun, hcheck⟩ := (Option.any_eq_true _ _).mp hplay
  simp only [Bool.and_eq_true, decide_eq_true_eq, List.all_eq_true] at hcheck
  exact ⟨log, s, hrun, hcheck.1,
    limiter_bounds_guessing (logins_run hrun) fun e he _ => hcheck.2 e he⟩

/-- When the clock reads the epoch, every failure opens a window of its own. -/
theorem limiter_blind_at_epoch : ∃ log s, LoginRun ⟨∅, 0⟩ log s ∧
    QuietSuccess (lit "10.0.0.7") 0 log ∧ failuresIn (lit "10.0.0.7") 0 log = 9 ∧
    (∃ log₁ log₂, log = log₁ ++ log₂ ∧ 5 ≤ (window (lit "10.0.0.7") log₁).elim 0 Window.failures ∧
      ∃ e ∈ log₂, e.1.address = lit "10.0.0.7" ∧ e.1.asked < minute ∧ e.2 = true) := by
  have hplay : (logins (List.replicate 9 (guess 0))).any (fun done =>
      decide (failuresIn (lit "10.0.0.7") 0 done.1 = 9) &&
        (done.1.all fun e => decide (e.1.result = .failure)) &&
        decide (5 ≤ (window (lit "10.0.0.7") (done.1.take 5)).elim 0 Window.failures) &&
        decide (∃ e ∈ done.1.drop 5, e.1.address = lit "10.0.0.7" ∧ e.1.asked < minute ∧
          e.2 = true)) = true := by decide +kernel
  obtain ⟨⟨log, s⟩, hrun, hcheck⟩ := (Option.any_eq_true _ _).mp hplay
  simp only [Bool.and_eq_true, decide_eq_true_eq, List.all_eq_true] at hcheck
  obtain ⟨⟨⟨hcount, hall⟩, hwindow⟩, hlast⟩ := hcheck
  refine ⟨log, s, logins_run hrun, ?_, hcount, log.take 5, log.drop 5, ?_, hwindow, hlast⟩
  · intro e he hsucc
    have hfail := hall e he
    rw [hsucc.2.2] at hfail
    cases hfail
  · exact (List.take_append_drop 5 log).symm

end LoginRateLimiter
end CloudStorage
