import CloudStorage.Authority
import CloudStorage.Guessing
import Mathlib.Data.List.Forall2

/-!
# Guessing the password through the server

Every request of a run is one login of the limiter or none, so the bounds on the
limiter are bounds on the replies that a peer can get.
-/

namespace CloudStorage
open Posix Interact LoginRateLimiter

variable {A : Assumption} {cfg : Config} {libs : Libs} {request : Request} {w w' : World}
  {C : World → Prop}

/-! ### Requests that leave the limiter alone -/

def Call.KeepsAttempts : Call → Prop
  | .storeAttempts _ => False
  | _ => True

abbrev KeepsAttempts {α : Type} (p : Program α) : Prop := Prog.Only Call.KeepsAttempts p

/-- The limiter is as before. -/
structure SameAttempts (w w' : World) : Prop where
  attempts : w'.attempts = w.attempts
  clock : w.clock ≤ w'.clock

theorem SameAttempts.refl (w : World) : SameAttempts w w := ⟨rfl, Int.le_refl _⟩

theorem SameAttempts.trans {a b c : World} (h : SameAttempts a b) (h' : SameAttempts b c) :
    SameAttempts a c :=
  ⟨h'.attempts.trans h.attempts, Int.le_trans h.clock h'.clock⟩

theorem Did.sameAttempts {c : Call} {r : c.Resp} (h : Did w c r w') : SameAttempts w w' :=
  ⟨h.attempts, h.clock⟩

theorem wp_keepsAttempts {α : Type} {p : Program α} (hp : KeepsAttempts p) :
    wp (System A) p (fun _ => SameAttempts w) (SameAttempts w) w := by
  apply wp_only hp _ (SameAttempts.refl w)
  intro c w₁ r w₂ hc h ha
  obtain ⟨-, ch, hanswer⟩ := ha
  obtain ⟨rfl, rfl⟩ := Prod.mk.injEq .. ▸ hanswer
  have hclock : w.clock ≤ max w₁.clock ch.now := Int.le_trans h.clock (Int.le_max_left ..)
  cases c <;> first
    | exact hc.elim
    | exact ⟨h.attempts, hclock⟩

theorem keeps_of_storage {α : Type} {p : Program α} (hp : OnlyStorage p) : KeepsAttempts p := by
  apply only_mono hp
  intro c hc
  cases c <;> first
    | exact hc.elim
    | trivial

theorem keeps_validateSession (token : Bytes) : KeepsAttempts (validateSession token) := by
  apply only_bind (only_perform trivial)
  intro (sessions : Sessions)
  cases sessions.lookup token with
  | none => exact only_pure _
  | some record =>
    apply only_bind (only_perform trivial)
    intro time
    exact only_bind (only_perform trivial) fun _ => only_pure _

theorem keeps_authenticate (request : Request) : KeepsAttempts (authenticate request) := by
  unfold authenticate
  cases request.getCookie (lit "session") with
  | none => exact only_pure _
  | some token =>
    apply only_bind (keeps_validateSession token)
    intro record
    cases record with
    | none => exact only_pure _
    | some record => exact only_pure _

theorem keeps_readRequestBody (request : Request) (maximum : Nat) :
    KeepsAttempts (readRequestBody request maximum) := by
  unfold readRequestBody
  cases request.body with
  | none => exact only_pure _
  | some input =>
    dsimp only
    split
    · exact only_pure _
    · apply only_bind (only_perform trivial)
      intro (copied : Bool)
      cases copied with
      | false => exact only_pure _
      | true => exact only_pure _

theorem keeps_createSession (ttl : Int) : KeepsAttempts (createSession ttl) := by
  apply only_bind (only_perform trivial)
  intro (session : Option Bytes)
  cases session with
  | none => exact only_pure _
  | some session =>
    apply only_bind (only_perform trivial)
    intro (csrf : Option Bytes)
    cases csrf with
    | none => exact only_pure _
    | some csrf =>
      apply only_bind (only_perform trivial)
      intro sessions
      apply only_bind (only_perform trivial)
      intro swept
      apply only_bind (only_perform trivial)
      intro expiry
      exact only_bind (only_perform trivial) fun _ => only_pure _

theorem keeps_logout (request : Request) : KeepsAttempts (logout cfg request) := by
  apply only_bind (keeps_authenticate request)
  intro auth
  cases auth with
  | none => exact only_pure _
  | some auth =>
    apply only_bind _ fun _ => only_pure _
    exact only_bind (only_perform trivial) fun _ => only_perform trivial

theorem keeps_guarded {auth : AuthContext} {handler : Program Response}
    (h : KeepsAttempts handler) : KeepsAttempts (guarded request auth handler) := by
  unfold guarded
  split
  · exact only_pure _
  split
  · exact only_pure _
  · exact h

theorem keeps_route (auth : AuthContext) (path : Bytes) :
    KeepsAttempts (route cfg libs request auth path) := by
  unfold route
  split
  · split
    · exact only_pure _
    · exact keeps_of_storage storage_listFiles
  split
  · exact keeps_guarded (keeps_of_storage storage_upload)
  split
  · exact keeps_guarded (keeps_of_storage storage_delete)
  split
  · exact keeps_guarded (keeps_logout request)
  split
  · split
    · exact only_pure _
    · exact keeps_of_storage (storage_download path)
  · exact only_pure _

theorem keeps_dispatch {path : Bytes}
    (h : path ≠ lit "/api/login" ∨ request.method ≠ .post) :
    KeepsAttempts (dispatch cfg libs request path) := by
  unfold dispatch
  split
  · split
    · exact only_pure _
    · apply only_bind (only_perform trivial)
      intro (content : Option Bytes)
      cases content with
      | none => exact only_pure _
      | some content => exact only_pure _
  split
  · rename_i hlogin
    split
    · exact only_pure _
    · rename_i hmethod
      exact absurd (not_not.mp hmethod) (h.resolve_left (not_not.mpr hlogin))
  · apply only_bind (keeps_authenticate request)
    intro auth
    cases auth with
    | none => exact only_pure _
    | some auth => exact keeps_route auth path

/-! ### A login -/

theorem wp_loadAttempts {Q : Attempts → World → Prop} (hC : C w)
    (hQ : ∀ w', SameAttempts w w' → Q w.attempts w') :
    wp (System A) loadAttempts Q C w := by
  apply wp_perform hC
  intro r w' ch _ h
  obtain ⟨rfl, rfl⟩ := Prod.mk.injEq .. ▸ h
  exact hQ _ ⟨rfl, Int.le_max_left ..⟩

theorem wp_storeAttempts {attempts : Attempts} {Q : Unit → World → Prop} (hC : C w)
    (hQ : ∀ w', w'.attempts = attempts → w.clock ≤ w'.clock → Q () w') :
    wp (System A) (storeAttempts attempts) Q C w := by
  apply wp_perform hC
  intro r w' ch _ h
  obtain ⟨rfl, rfl⟩ := Prod.mk.injEq .. ▸ h
  exact hQ _ rfl (Int.le_max_left ..)

/-- `Allow` at some reading of the clock. -/
def Asked (address : Bytes) (w : World) (answer : Bool) (w' : World) : Prop :=
  ∃ time, w.clock ≤ time ∧ time ≤ w'.clock ∧ allow w.attempts address time = (answer, w'.attempts)

theorem wp_allowLogin {address : Bytes} :
    wp (System A) (allowLogin address) (fun r w' => Asked address w r w') (fun _ => True) w := by
  unfold allowLogin
  rw [wp_bind]
  apply wp_loadAttempts trivial
  intro w₁ h₁
  cases hattempt : w.attempts.lookup address with
  | none =>
    refine ⟨w.clock, Int.le_refl _, h₁.clock, ?_⟩
    rw [allow, hattempt, h₁.attempts]
  | some attempt =>
    dsimp only
    rw [wp_bind]
    apply wp_now trivial
    intro time w₂ _ hD₂ htime
    rw [wp_bind]
    apply wp_storeAttempts trivial
    intro w₃ hattempts hclock
    refine ⟨time, ?_, ?_, ?_⟩
    · rw [← htime]
      exact Int.le_trans h₁.clock hD₂.clock
    · rwa [← htime]
    · rw [hattempts]

theorem wp_failLogin {address : Bytes} :
    wp (System A) (failLogin address)
      (fun _ w' => ∃ time, w.clock ≤ time ∧ time ≤ w'.clock ∧
        w'.attempts = failure w.attempts address time) (fun _ => True) w := by
  unfold failLogin
  rw [wp_bind]
  apply wp_now trivial
  intro time w₁ _ hD₁ htime
  rw [wp_bind]
  apply wp_loadAttempts trivial
  intro w₂ h₂
  apply wp_storeAttempts trivial
  intro w₃ hattempts hclock
  refine ⟨time, ?_, ?_, ?_⟩
  · rw [← htime]
    exact hD₁.clock
  · rw [← htime]
    exact Int.le_trans h₂.clock hclock
  · rw [hattempts, hD₁.attempts]

theorem wp_succeedLogin {address : Bytes} :
    wp (System A) (succeedLogin address)
      (fun _ w' => w.clock ≤ w'.clock ∧ w'.attempts = success w.attempts address)
      (fun _ => True) w := by
  unfold succeedLogin
  rw [wp_bind]
  apply wp_loadAttempts trivial
  intro w₁ h₁
  apply wp_storeAttempts trivial
  intro w₂ hattempts hclock
  exact ⟨Int.le_trans h₁.clock hclock, hattempts⟩

/-- What the reply tells of the login. -/
def Tells (status : Nat) : Login × Bool → Prop
  | (_, false) => status = 429
  | (⟨_, _, _, .failure⟩, true) => status = 401
  | (⟨_, _, _, .success⟩, true) => status = 200
  | (⟨_, _, _, .neither⟩, true) => status = 400 ∨ status = 500

/-- The world took a step of the limiter within the clock of the handling. -/
structure Limited (address : Bytes) (status : Nat) (w w' : World) (l : Login × Bool) : Prop where
  step : Step ⟨w.attempts, w.clock⟩ l ⟨w'.attempts, l.1.ended⟩
  late : l.1.ended ≤ w'.clock
  address : l.1.address = address
  tells : Tells status l

theorem wp_login_limited :
    wp (System A) (CloudStorage.login cfg libs request)
      (fun r w' => ∃ l, Limited (peerAddress request) r.status w w' l) (fun _ => True) w := by
  unfold CloudStorage.login
  apply wp_seq wp_allowLogin fun _ h => h
  intro allowed w₁ hasked
  obtain ⟨asked, hearly, hlate, hallow⟩ := hasked
  cases allowed with
  | false =>
    refine ⟨(⟨peerAddress request, asked, asked, .neither⟩, false), ⟨hearly, Int.le_refl _, rfl, ?_, ?_⟩,
      hlate, rfl, rfl⟩
    · simp [LoginRateLimiter.login, hallow]
    · simp [LoginRateLimiter.login, hallow]
  | true =>
    -- the rest of the handling gives the login its result
    have hconcluded : ∀ (result : Result) {ended : Int} {status : Nat} {w' : World},
        asked ≤ ended → ended ≤ w'.clock →
        w'.attempts = conclude w₁.attempts ⟨peerAddress request, asked, ended, result⟩ →
        Tells status (⟨peerAddress request, asked, ended, result⟩, true) →
        ∃ l, Limited (peerAddress request) status w w' l := by
      intro result ended status w' hbefore hafter hattempts htells
      refine ⟨(⟨peerAddress request, asked, ended, result⟩, true), ⟨hearly, hbefore, rfl, ?_, ?_⟩,
        hafter, rfl, htells⟩
      · simp [LoginRateLimiter.login, hallow]
      · simp [LoginRateLimiter.login, hallow, hattempts]
    simp only [ite_true]
    apply wp_seq (wp_keepsAttempts (keeps_readRequestBody request 1024))
      fun _ _ => trivial
    intro body w₂ h₂
    cases body with
    | none => exact hconcluded .neither hlate h₂.clock h₂.attempts (Or.inl rfl)
    | some password =>
      dsimp only
      split
      · apply wp_seq (wp_keepsAttempts (keeps_createSession _)) fun _ _ => trivial
        intro tokens w₃ h₃
        have h₃ := h₂.trans h₃
        cases tokens with
        | none => exact hconcluded .neither hlate h₃.clock h₃.attempts (Or.inr rfl)
        | some tokens =>
          apply wp_seq wp_succeedLogin fun _ h => h
          intro _ w₄ h₄
          obtain ⟨hclock, hattempts⟩ := h₄
          rw [h₃.attempts] at hattempts
          exact hconcluded .success (Int.le_trans hlate (Int.le_trans h₃.clock hclock))
            (Int.le_refl _) hattempts rfl
      · apply wp_seq wp_failLogin fun _ h => h
        intro _ w₃ h₃
        obtain ⟨time, hbefore, hafter, hattempts⟩ := h₃
        rw [h₂.attempts] at hattempts
        exact hconcluded .failure (Int.le_trans hlate (Int.le_trans h₂.clock hbefore)) hafter
          hattempts rfl

/-! ### Runs of the server -/

instance (path : Bytes) : Decidable (request.At path) :=
  decidable_of_iff (request.path.bind (fun raw => urlDecode (cString raw)) = some path)
    Option.bind_eq_some_iff

def LoginAt (e : Exchange) : Prop :=
  e.request.At (lit "/api/login") ∧ e.request.method = .post

instance (e : Exchange) : Decidable (LoginAt e) := inferInstanceAs (Decidable (_ ∧ _))

/-- The login that the exchange is for the limiter. -/
structure Tried (e : Exchange) (l : Login × Bool) : Prop where
  early : e.begun ≤ l.1.asked
  order : l.1.asked ≤ l.1.ended
  late : l.1.ended ≤ e.ended
  address : l.1.address = peerAddress e.request
  tells : Tells e.response.status l

theorem wp_handleRequest_limited (hpath : request.At (lit "/api/login"))
    (hmethod : request.method = .post) :
    wp (System A) (handleRequest cfg libs request)
      (fun r w' => ∃ l, Limited (peerAddress request) r.status w w' l) (fun _ => True) w := by
  obtain ⟨rawPath, hraw, hdecoded⟩ := hpath
  have hdispatch : dispatch cfg libs request (lit "/api/login") =
      CloudStorage.login cfg libs request := by
    unfold dispatch
    rw [if_neg (by decide), if_pos rfl, if_neg (not_not.mpr hmethod)]
  simp only [handleRequest, hraw, hdecoded, hdispatch]
  exact wp_seq wp_login_limited (fun _ h => h) fun _ _ h => h

theorem keeps_handleRequest (h : request.At (lit "/api/login") → request.method ≠ .post) :
    KeepsAttempts (handleRequest cfg libs request) := by
  unfold handleRequest
  split
  · exact only_pure _
  · rename_i rawPath hraw
    split
    · exact only_pure _
    · rename_i path hpath
      apply only_bind _ fun _ => only_pure _
      apply keeps_dispatch
      by_cases hlogin : path = lit "/api/login"
      · exact Or.inr (h ⟨rawPath, hraw, hlogin ▸ hpath⟩)
      · exact Or.inl hlogin

variable {e : Exchange} {log : List Exchange}

theorem Handles.limited (h : Handles A cfg libs w e w') (hlogin : LoginAt e) :
    ∃ l, Limited (peerAddress e.request) e.response.status w w' l := by
  have hend := wp_runs (wp_handleRequest_limited hlogin.1 hlogin.2) h.runs
  exact hend

theorem Handles.sameAttempts (h : Handles A cfg libs w e w') (hlogin : ¬LoginAt e) :
    SameAttempts w w' := by
  have hkeeps : KeepsAttempts (handleRequest cfg libs e.request) :=
    keeps_handleRequest fun hpath hmethod => hlogin ⟨hpath, hmethod⟩
  have hend := wp_runs (wp_keepsAttempts hkeeps) h.runs
  exact hend

theorem Handles.clock (h : Handles A cfg libs w e w') : w.clock ≤ w'.clock := by
  by_cases hlogin : LoginAt e
  · obtain ⟨l, hl⟩ := h.limited hlogin
    exact Int.le_trans hl.step.asked (Int.le_trans hl.step.ended hl.late)
  · exact (h.sameAttempts hlogin).clock

theorem Handles.tried (h : Handles A cfg libs w e w') (hlogin : LoginAt e) :
    ∃ l, Tried e l ∧ Step ⟨w.attempts, w.clock⟩ l ⟨w'.attempts, l.1.ended⟩ := by
  obtain ⟨l, hl⟩ := h.limited hlogin
  refine ⟨l, ⟨?_, hl.step.ended, ?_, hl.address, hl.tells⟩, hl.step⟩
  · rw [h.begun]
    exact hl.step.asked
  · rw [h.ended]
    exact hl.late

theorem run_begun (hrun : HttpRun A cfg libs w log w') :
    w.clock ≤ w'.clock ∧ ∀ e ∈ log, w.clock ≤ e.begun := by
  induction hrun with
  | nil => exact ⟨Int.le_refl _, fun _ h => nomatch h⟩
  | snoc _ hstep ih =>
    obtain ⟨hclock, hbegun⟩ := ih
    refine ⟨Int.le_trans hclock hstep.clock, fun e' he' => ?_⟩
    rcases List.mem_append.mp he' with hold | hnew
    · exact hbegun e' hold
    · rw [List.mem_singleton.mp hnew, hstep.begun]
      exact hclock

/-- The logins of a run of the server are a run of the limiter. -/
theorem run_logins (hrun : HttpRun A cfg libs w log w') :
    ∃ ls clock, LoginRun ⟨w.attempts, w.clock⟩ ls ⟨w'.attempts, clock⟩ ∧ clock ≤ w'.clock ∧
      List.Forall₂ Tried (log.filter fun e => decide (LoginAt e)) ls := by
  induction hrun with
  | nil => exact ⟨[], _, .nil _, Int.le_refl _, .nil⟩
  | @snoc w₁ w₂ log e _ hstep ih =>
    obtain ⟨ls, clock, hls, hclock, htried⟩ := ih
    by_cases hlogin : LoginAt e
    · obtain ⟨l, hl, hlimited⟩ := hstep.tried hlogin
      have hlater : Step ⟨w₁.attempts, clock⟩ l ⟨w₂.attempts, l.1.ended⟩ :=
        { hlimited with asked := Int.le_trans hclock hlimited.asked }
      refine ⟨ls ++ [l], l.1.ended, hls.snoc hlater, ?_, ?_⟩
      · rw [← hstep.ended]
        exact hl.late
      · simp only [List.filter_append, List.filter_cons, hlogin, decide_true, if_true,
          List.filter_nil]
        exact List.rel_append htried (.cons hl .nil)
    · have hsame := hstep.sameAttempts hlogin
      refine ⟨ls, clock, ?_, Int.le_trans hclock hsame.clock, ?_⟩
      · rw [hsame.attempts]
        exact hls
      · simp only [List.filter_append, List.filter_cons, hlogin, decide_false, Bool.false_eq_true,
          if_false, List.filter_nil, List.append_nil]
        exact htried

/-! ### Rejected passwords -/

/-- A login of the peer that was told that the password is wrong. -/
def Rejected (address : Bytes) (e : Exchange) : Prop :=
  LoginAt e ∧ peerAddress e.request = address ∧ e.response.status = 401

def LoggedIn (address : Bytes) (e : Exchange) : Prop :=
  LoginAt e ∧ peerAddress e.request = address ∧ e.response.status = 200

instance (address : Bytes) (e : Exchange) : Decidable (Rejected address e) :=
  inferInstanceAs (Decidable (_ ∧ _))

/-- Handled from `x` on and before `y`. -/
def Within (x y : Int) (e : Exchange) : Prop := x ≤ e.begun ∧ e.ended < y

instance (x y : Int) (e : Exchange) : Decidable (Within x y e) :=
  inferInstanceAs (Decidable (_ ∧ _))

def rejections (address : Bytes) (x y : Int) (log : List Exchange) : Nat :=
  (log.filter fun e => decide (Rejected address e ∧ Within x y e)).length

theorem Tells.failed {l : Login × Bool} (h : Tells 401 l) :
    l.2 = true ∧ l.1.result = .failure := by
  obtain ⟨⟨address, asked, ended, result⟩, answer⟩ := l
  cases answer with
  | false => cases h
  | true =>
    cases result with
    | failure => exact ⟨rfl, rfl⟩
    | success => cases h
    | neither => rcases h with h | h <;> cases h

theorem Tells.succeeded {status : Nat} {l : Login × Bool} (h : Tells status l)
    (hanswer : l.2 = true) (hresult : l.1.result = .success) : status = 200 := by
  obtain ⟨⟨address, asked, ended, result⟩, answer⟩ := l
  cases hanswer
  cases hresult
  exact h

theorem rejections_le {address : Bytes} {x y : Int} {ls : List (Login × Bool)}
    {es : List Exchange} (h : List.Forall₂ Tried es ls) :
    rejections address x y es ≤
      ((failTimes address ls).filter fun t => decide (x ≤ t ∧ t < y)).length := by
  induction h with
  | nil => exact Nat.le_refl _
  | @cons e l es ls hl _ ih =>
    unfold rejections failTimes at ih ⊢
    by_cases hin : Rejected address e ∧ Within x y e
    · obtain ⟨⟨-, hpeer, hstatus⟩, hbegun, hended⟩ := id hin
      have htells := hl.tells
      rw [hstatus] at htells
      have hfailed : Failed address l := ⟨hl.address.trans hpeer, htells.failed⟩
      have hearly := hl.early
      have horder := hl.order
      have hlate := hl.late
      have htime : x ≤ l.1.ended ∧ l.1.ended < y := by omega
      simp only [List.filter_cons, hin, hfailed, htime, decide_true, if_true, List.map_cons,
        List.length_cons, and_self]
      omega
    · simp only [List.filter_cons, hin, decide_false, Bool.false_eq_true, if_false]
      apply Nat.le_trans ih
      split
      · rw [List.map_cons, List.filter_cons]
        split
        · exact Nat.le_succ _
        · exact Nat.le_refl _
      · exact Nat.le_refl _

theorem rejections_filter {address : Bytes} {x y : Int} (log : List Exchange) :
    rejections address x y (log.filter fun e => decide (LoginAt e)) = rejections address x y log := by
  unfold rejections
  rw [List.filter_filter]
  congr 2
  funext e
  by_cases hlogin : LoginAt e
  · simp [hlogin]
  · simp [hlogin, Rejected]

theorem length_filter_cover {α : Type} {p q r : α → Bool} (l : List α)
    (h : ∀ a, p a = true → (q a || r a) = true) :
    (l.filter p).length ≤ (l.filter q).length + (l.filter r).length := by
  induction l with
  | nil => exact Nat.zero_le _
  | cons a l ih =>
    have ha := h a
    simp only [List.filter_cons]
    cases hp : p a <;> cases hq : q a <;> cases hr : r a <;>
      simp_all only [Bool.or_self, Bool.or_true, Bool.or_false, if_true, List.length_cons,
        Bool.false_eq_true, if_false, forall_const, false_implies] <;>
      omega

/-- Minute after minute, eight failures at most. -/
theorem failures_span {s : State} {ls : List (Login × Bool)} {address : Bytes} {c x : Int}
    (hrun : LoginRun ⟨∅, c⟩ ls s) (hepoch : ∀ l ∈ ls, Failed address l → l.1.ended ≠ 0) (k : Nat)
    (hquiet : ∀ l ∈ ls, Succeeded address l → ¬(x ≤ l.1.ended ∧ l.1.ended < x + k * minute)) :
    ((failTimes address ls).filter fun t => decide (x ≤ t ∧ t < x + k * minute)).length ≤ 8 * k := by
  induction k with
  | zero =>
    have hnone : (failTimes address ls).filter
        (fun t => decide (x ≤ t ∧ t < x + (0 : Nat) * minute)) = [] := by
      rw [List.filter_eq_nil_iff]
      intro t _ ht
      have := of_decide_eq_true ht
      omega
    rw [hnone]
    exact Nat.le_refl _
  | succ k ih =>
    have hminute : 0 ≤ minute := by decide
    have hnext : x + ((k + 1 : Nat) : Int) * minute = x + k * minute + minute := by
      rw [Int.natCast_succ, Int.add_mul, Int.one_mul, Int.add_assoc]
    have hspan : 0 ≤ (k : Int) * minute := Int.mul_nonneg (Int.natCast_nonneg k) hminute
    have hfirst := ih fun l hl hs ht => hquiet l hl hs ⟨ht.1, by omega⟩
    have hlast : failuresIn address (x + k * minute) ls ≤ 8 := by
      apply run_count hrun hepoch
      intro l hl hs ht
      have htime := ht.2
      have hafter := ht.1
      exact hquiet l hl hs ⟨by omega, by omega⟩
    have hboth := length_filter_cover (failTimes address ls)
      (p := fun t => decide (x ≤ t ∧ t < x + k * minute + minute))
      (q := fun t => decide (x ≤ t ∧ t < x + k * minute))
      (r := fun t => decide (InMinute (x + k * minute) t)) fun t ht => by
        simp only [Bool.or_eq_true, decide_eq_true_eq] at ht ⊢
        unfold InMinute
        omega
    rw [hnext]
    unfold failuresIn at hlast
    omega

/-- A peer that does not log in is told eight times a minute, on average over any number of
minutes, that a password is wrong. -/
theorem server_bounds_guessing {address : Bytes} {x : Int} {k : Nat} (hfresh : w.attempts = ∅)
    (hclock : 0 < w.clock) (hrun : HttpRun A cfg libs w log w')
    (hquiet : ∀ e ∈ log, LoggedIn address e → e.ended < x ∨ x + k * minute ≤ e.begun) :
    rejections address x (x + k * minute) log ≤ 8 * k := by
  obtain ⟨ls, clock, hls, -, htried⟩ := run_logins hrun
  obtain ⟨-, hbegun⟩ := run_begun hrun
  have hofExchange : ∀ l ∈ ls, ∃ e ∈ log, LoginAt e ∧ Tried e l := by
    intro l hl
    obtain ⟨i, hi, rfl⟩ := List.mem_iff_getElem.mp hl
    have hlength := htried.length_eq
    have hpair := (List.forall₂_iff_get.mp htried).2 i (by omega) hi
    have hmem := List.get_mem (log.filter fun e => decide (LoginAt e)) ⟨i, by omega⟩
    obtain ⟨he, hlogin⟩ := List.mem_filter.mp hmem
    exact ⟨_, he, of_decide_eq_true hlogin, hpair⟩
  rw [hfresh] at hls
  rw [← rejections_filter]
  apply Nat.le_trans (rejections_le htried)
  apply failures_span hls
  · intro l hl _
    obtain ⟨e, he, -, hl⟩ := hofExchange l hl
    have hstart := hbegun e he
    have hearly := hl.early
    have horder := hl.order
    omega
  · intro l hl hs ht
    obtain ⟨e, he, hlogin, hl⟩ := hofExchange l hl
    have hstatus := hl.tells.succeeded hs.2.1 hs.2.2
    have haway := hquiet e he ⟨hlogin, hl.address.symm.trans hs.1, hstatus⟩
    have hearly := hl.early
    have horder := hl.order
    have hlate := hl.late
    omega

/-- A wrong password at the time `now`. -/
def wrongAt (now : Int) : Request × List Choice :=
  ({ loginRequest (lit "guess") with peer := some (lit "10.0.0.7") },
    List.replicate 7 { ok := true, now })

/-- A window opens; the login page is asked for later. Three more rejections end the window,
five fill the next one, and one login more is refused. -/
def wrongLogins : List (Request × List Choice) :=
  [wrongAt 1, ({ path := some (lit "/login") }, [{ ok := true, now := minute }]),
    wrongAt minute, wrongAt minute, wrongAt minute] ++ List.replicate 6 (wrongAt (minute + 2))

theorem server_bounds_wrong_logins : ∃ log w,
    Transition.Run.play (nextExchange settledConfig keptLibs) { World.empty with clock := 1 }
      wrongLogins = some (log, w) ∧
    rejections (lit "10.0.0.7") minute (minute + (1 : Nat) * minute) log = 8 ∧
    rejections (lit "10.0.0.7") minute (minute + (1 : Nat) * minute) log ≤ 8 * 1 := by
  have hplay : (Transition.Run.play (nextExchange settledConfig keptLibs)
      { World.empty with clock := 1 } wrongLogins).any (fun out =>
        decide (rejections (lit "10.0.0.7") minute (minute + (1 : Nat) * minute) out.1 = 8) &&
          out.1.all fun e => decide (e.response.status ≠ 200)) = true := by decide +kernel
  obtain ⟨⟨log, w⟩, hrun, hend⟩ := (Option.any_eq_true _ _).mp hplay
  simp only [Bool.and_eq_true, decide_eq_true_eq, List.all_eq_true] at hend
  obtain ⟨hcount, hnever⟩ := hend
  refine ⟨log, w, hrun, hcount, server_bounds_guessing rfl (by decide) (httpRun_of_play hrun) ?_⟩
  intro e he hlogged
  exact absurd hlogged.2.2 (hnever e he)

end CloudStorage
