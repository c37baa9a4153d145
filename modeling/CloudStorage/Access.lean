import CloudStorage.Service
import CloudStorage.Lib.TwoRuns

/-!
# Who may do what

Without a live session a request reaches nothing but the templates, the sessions and
the limiter: it changes no file, and its reply does not depend on the table or on any
file. With one, but without the token of the session in both places, it changes no
record, no file that is there, and no live session; only a login with the password
adds one.
-/

namespace CloudStorage
open Posix Interact

/-! ### Calls that do not reach the store -/

/-- Calls that neither read nor write table, files and sessions. -/
def Call.Aside : Call → Prop
  | .now | .randBytes | .loadAttempts | .storeAttempts _ | .template _ | .copyOut => True
  | _ => False

/-- Calls that neither read nor write table and files. -/
def Call.Private : Call → Prop
  | .loadSessions | .storeSessions _ => True
  | c => c.Aside

theorem Call.Aside.private {c : Call} (hc : c.Aside) : c.Private := by
  cases c <;> first
    | exact hc
    | trivial

/-- Two worlds that differ in table, files and history only. -/
structure Alike (w₁ w₂ : World) : Prop where
  sessions : w₂.sessions = w₁.sessions
  attempts : w₂.attempts = w₁.attempts
  templates : w₂.templates = w₁.templates
  clock : w₂.clock = w₁.clock

theorem Call.Private.alike {c : Call} (hc : c.Private) {w₁ w₂ : World} (h : Alike w₁ w₂)
    (ch : Choice) : (answer w₂ c ch).1 = (answer w₁ c ch).1 ∧
      Alike (answer w₁ c ch).2 (answer w₂ c ch).2 := by
  obtain ⟨hsessions, hattempts, htemplates, hclock⟩ := h
  cases c <;> first
    | exact hc.elim
    | refine ⟨?_, ?_, ?_, ?_, ?_⟩ <;>
        simp [answer, effect, hsessions, hattempts, htemplates, hclock]

/-- Table and files are as before. -/
structure Untouched (w w' : World) : Prop where
  table : w'.table = w.table
  fs : w'.fs = w.fs

theorem Call.Private.untouched {A : Assumption} {c : Call} (hc : c.Private) {w w₁ w₂ : World}
    {r : c.Resp} (h : Untouched w w₁) (ha : System A c w₁ r w₂) : Untouched w w₂ := by
  obtain ⟨-, ch, hanswer⟩ := ha
  obtain ⟨rfl, rfl⟩ := Prod.mk.injEq .. ▸ hanswer
  obtain ⟨htable, hfs⟩ := h
  cases c <;> first
    | exact hc.elim
    | exact ⟨htable, hfs⟩

abbrev OnlyPrivate {α : Type} (p : Program α) : Prop := Prog.Only Call.Private p

variable {A : Assumption} {cfg : Config} {libs : Libs} {request : Request} {w w' : World}

theorem wp_private {α : Type} {p : Program α} (hp : OnlyPrivate p) :
    wp (System A) p (fun _ => Untouched w) (Untouched w) w :=
  wp_only hp (fun _ _ _ _ hc h ha => hc.untouched h ha) ⟨rfl, rfl⟩

theorem private_validateSession (token : Bytes) : OnlyPrivate (validateSession token) := by
  refine only_bind (only_perform trivial) fun sessions => ?_
  cases sessions.lookup token with
  | none => exact only_pure _
  | some record =>
    refine only_bind (only_perform trivial) fun time => ?_
    exact only_bind (only_perform trivial) fun _ => only_pure _

theorem private_authenticate (request : Request) : OnlyPrivate (authenticate request) := by
  unfold authenticate
  cases request.getCookie (lit "session") with
  | none => exact only_pure _
  | some token =>
    refine only_bind (private_validateSession token) fun record => ?_
    cases record with
    | none => exact only_pure _
    | some record => exact only_pure _

theorem private_createSession (ttl : Int) : OnlyPrivate (createSession ttl) := by
  refine only_bind (only_perform trivial) fun session => ?_
  cases session with
  | none => exact only_pure _
  | some session =>
    refine only_bind (only_perform trivial) fun csrf => ?_
    cases csrf with
    | none => exact only_pure _
    | some csrf =>
      refine only_bind (only_perform trivial) fun sessions => ?_
      refine only_bind (only_perform trivial) fun swept => ?_
      refine only_bind (only_perform trivial) fun expiry => ?_
      exact only_bind (only_perform trivial) fun _ => only_pure _

theorem aside_showLogin : Prog.Only Call.Aside showLogin := by
  refine only_bind (only_perform trivial) fun content => ?_
  cases content with
  | none => exact only_pure _
  | some content => exact only_pure _

theorem aside_allowLogin (address : Bytes) : Prog.Only Call.Aside (allowLogin address) := by
  refine only_bind (only_perform trivial) fun attempts => ?_
  cases attempts.lookup address with
  | none => exact only_pure _
  | some attempt =>
    refine only_bind (only_perform trivial) fun time => ?_
    exact only_bind (only_perform trivial) fun _ => only_pure _

theorem aside_failLogin (address : Bytes) : Prog.Only Call.Aside (failLogin address) := by
  refine only_bind (only_perform trivial) fun time => ?_
  exact only_bind (only_perform trivial) fun attempts => only_perform trivial

theorem aside_succeedLogin (address : Bytes) : Prog.Only Call.Aside (succeedLogin address) :=
  only_bind (only_perform trivial) fun _ => only_perform trivial

theorem aside_readRequestBody (request : Request) (maximum : Nat) :
    Prog.Only Call.Aside (readRequestBody request maximum) := by
  unfold readRequestBody
  cases request.body with
  | none => exact only_pure _
  | some input =>
    simp only
    split
    · exact only_pure _
    · refine only_bind (only_perform trivial) fun copied => ?_
      cases copied with
      | false => exact only_pure _
      | true => exact only_pure _

theorem private_of_aside {α : Type} {p : Program α} (hp : Prog.Only Call.Aside p) :
    OnlyPrivate p :=
  only_mono hp fun _ => Call.Aside.private

theorem private_login : OnlyPrivate (login cfg libs request) := by
  refine only_bind (private_of_aside (aside_allowLogin _)) fun allowed => ?_
  cases allowed with
  | false => exact only_pure _
  | true =>
    refine only_bind (private_of_aside (aside_readRequestBody _ _)) fun body => ?_
    cases body with
    | none => exact only_pure _
    | some password =>
      simp only
      split
      · refine only_bind (private_createSession _) fun tokens => ?_
        cases tokens with
        | none => exact only_pure _
        | some tokens => exact only_bind (private_of_aside (aside_succeedLogin _)) fun _ => only_pure _
      · exact only_bind (private_of_aside (aside_failLogin _)) fun _ => only_pure _

/-! ### Sessions -/

variable {C : World → Prop}

theorem wp_now {Q : Int → World → Prop} (hC : C w)
    (hQ : ∀ time w', A w .now time → Did w .now time w' → w'.clock = time → Q time w') :
    wp (System A) now Q C w := by
  refine wp_perform hC fun r w' ch hA h => ?_
  obtain ⟨rfl, rfl⟩ := Prod.mk.injEq .. ▸ h
  exact hQ _ _ hA ⟨rfl, rfl, rfl, rfl, rfl, Int.le_max_left ..⟩ rfl

theorem wp_loadSessions {Q : Sessions → World → Prop} (hC : C w)
    (hQ : ∀ w', Did w .loadSessions w.sessions w' → Q w.sessions w') :
    wp (System A) loadSessions Q C w := by
  refine wp_perform hC fun r w' ch _ h => ?_
  obtain ⟨rfl, rfl⟩ := Prod.mk.injEq .. ▸ h
  exact hQ _ ⟨rfl, rfl, rfl, rfl, rfl, Int.le_max_left ..⟩

theorem wp_storeSessions {sessions : Sessions} {Q : Unit → World → Prop} (hC : C w)
    (hQ : ∀ w', w'.sessions = sessions → w.clock ≤ w'.clock → Q () w') :
    wp (System A) (storeSessions sessions) Q C w := by
  refine wp_perform hC fun r w' ch _ h => ?_
  obtain ⟨rfl, rfl⟩ := Prod.mk.injEq .. ▸ h
  exact hQ _ rfl (Int.le_max_left ..)

theorem wp_randBytes {Q : Option Bytes → World → Prop} (hC : C w)
    (hQ : ∀ r w', Did w .randBytes r w' → Q r w') : wp (System A) randBytes Q C w := by
  refine wp_perform hC fun r w' ch _ h => ?_
  obtain ⟨rfl, rfl⟩ := Prod.mk.injEq .. ▸ h
  exact hQ _ _ ⟨rfl, rfl, rfl, rfl, rfl, Int.le_max_left ..⟩

/-- How a validation ends. -/
inductive Validated (A : Assumption) (w : World) (token : Bytes) :
    Option SessionRecord → World → Prop
  | unknown {w' : World} : w.sessions.lookup token = none → w'.sessions = w.sessions →
      Validated A w token none w'
  | known {record : SessionRecord} {time : Int} {w₁ w' : World} :
      w.sessions.lookup token = some record → A w₁ .now time → time ≤ w'.clock →
      w'.sessions = (SessionStore.validate w.sessions token time).2 →
      Validated A w token (SessionStore.validate w.sessions token time).1 w'

theorem wp_validateSession {token : Bytes} :
    wp (System A) (validateSession token) (Validated A w token) (fun _ => True) w := by
  unfold validateSession
  rw [wp_bind]
  refine wp_loadSessions trivial fun w₁ hD₁ => ?_
  cases hrecord : w.sessions.lookup token with
  | none => exact .unknown hrecord hD₁.sessions
  | some record =>
    simp only
    rw [wp_bind]
    refine wp_now trivial fun time w₂ hA _ htime => ?_
    rw [wp_bind]
    refine wp_storeSessions trivial fun w₃ hsessions hclock => ?_
    exact .known hrecord hA (htime ▸ hclock) hsessions

/-- The same sessions are live from the end on, but for those of `changed`. -/
def SameLive (changed : Set Bytes) (w w' : World) : Prop :=
  ∀ token time, token ∉ changed → w'.clock ≤ time →
    SessionStore.liveAt time (w'.sessions.lookup token) =
      SessionStore.liveAt time (w.sessions.lookup token)

theorem Validated.sameLive {token : Bytes} {r : Option SessionRecord}
    (h : Validated A w token r w') : SameLive ∅ w w' := by
  intro other time _ ht
  cases h with
  | unknown _ hsessions => rw [hsessions]
  | known _ _ hclock hsessions =>
    rw [hsessions]
    exact SessionStore.validate_lookup _ _ _ (Int.le_trans hclock ht)

theorem Validated.lookup {token : Bytes} {r : Option SessionRecord} {record : SessionRecord}
    (h : Validated A w token r w') (hr : r = some record) :
    w.sessions.lookup token = some record := by
  cases h with
  | unknown => cases hr
  | known hlookup =>
    rw [SessionStore.validate_answer, hlookup] at hr
    rw [hlookup]
    exact (Option.filter_eq_some_iff.mp hr).1

/-! ### Requests without a session -/

/-- The clock reading an answer is. -/
def clockReading : (c : Call) → c.Resp → Option Int
  | .now, time => some time
  | _, _ => none

/-- The clock reads `t` or later. -/
def Late (t : Int) : Assumption := fun _ c r => ∀ time ∈ clockReading c r, t ≤ time

instance (t : Int) (w : World) (c : Call) (r : c.Resp) : Decidable (Late t w c r) :=
  inferInstanceAs (Decidable (∀ time ∈ clockReading c r, t ≤ time))

/-- The first `session` cookie is no token of the store, or one that is expired at `t`. -/
def NoSession (request : Request) (w : World) (t : Int) : Prop :=
  ∀ token record, request.getCookie (lit "session") = some token →
    w.sessions.lookup token = some record → record.expires_at ≤ t

theorem Validated.denied {t : Int} {token : Bytes} {r : Option SessionRecord}
    (h : Validated (Late t) w token r w')
    (hexpired : ∀ record, w.sessions.lookup token = some record → record.expires_at ≤ t) :
    r = none := by
  cases h with
  | unknown => rfl
  | @known record time _ _ hlookup hlate =>
    have htime : t ≤ time := hlate time rfl
    have hdead := hexpired record hlookup
    rw [SessionStore.validate_answer, hlookup, SessionStore.liveAt, Option.filter_some,
      decide_eq_false (by omega)]
    rfl

theorem wp_authenticate_denied {t : Int} (h : NoSession request w t) :
    wp (System (Late t)) (authenticate request) (fun r _ => r = none) (fun _ => True) w := by
  unfold authenticate
  cases hcookie : request.getCookie (lit "session") with
  | none => exact rfl
  | some token =>
    refine wp_seq wp_validateSession (fun _ h => h) fun r w' hv => ?_
    rw [hv.denied fun record => h token record hcookie]
    exact rfl

section
variable {t : Int} {w₁ w₂ : World}

/-- The run is played under the assumption that the clock reads `t` or later. -/
abbrev coupledLate {α : Type} (t : Int) (p : Program α) :
    (α → World → World → Prop) → World → World → Prop :=
  coupled answer (Late t).test p

theorem coupled_private {α : Type} {p : Program α} (hp : OnlyPrivate p) (h : Alike w₁ w₂) :
    coupledLate t p (fun _ => Alike) w₁ w₂ := by
  refine coupled_only hp (fun c w₁ w₂ ch hc h => ?_) h
  obtain ⟨hsame, halike⟩ := hc.alike h ch
  exact ⟨hsame, rfl, halike⟩

theorem coupled_dispatch (h : Alike w₁ w₂) (hno : NoSession request w₁ t) (path : Bytes) :
    coupledLate t (dispatch cfg libs request path) (fun _ => Alike) w₁ w₂ := by
  unfold dispatch
  split
  · split
    · exact h
    · exact coupled_private (private_of_aside aside_showLogin) h
  · split
    · split
      · exact h
      · exact coupled_private private_login h
    · have hboth := coupled_wp (Late t).test_answer
        (coupled_private (private_authenticate request) h) (wp_authenticate_denied hno)
      refine coupled_bind hboth fun auth w₁ w₂ hauth => ?_
      rw [hauth.1]
      exact hauth.2

theorem coupled_handleRequest (h : Alike w₁ w₂) (hno : NoSession request w₁ t) :
    coupledLate t (handleRequest cfg libs request) (fun _ => Alike) w₁ w₂ := by
  unfold handleRequest
  split
  · exact h
  · split
    · exact h
    · exact coupled_bind (coupled_dispatch h hno _) fun response w₁ w₂ h => h

end

theorem wp_dispatch_denied {t : Int} (hno : NoSession request w t) (path : Bytes) :
    wp (System (Late t)) (dispatch cfg libs request path) (fun _ => Untouched w)
      (fun _ => True) w := by
  unfold dispatch
  split
  · split
    · exact ⟨rfl, rfl⟩
    · refine wp_mono (wp_private (private_of_aside aside_showLogin)) (fun _ _ h => h) fun _ _ => ?_
      trivial
  · split
    · split
      · exact ⟨rfl, rfl⟩
      · exact wp_mono (wp_private private_login) (fun _ _ h => h) fun _ _ => trivial
    · refine wp_seq (wp_and (wp_private (private_authenticate request))
        (wp_authenticate_denied hno)) (fun _ _ => trivial) fun auth w' hauth => ?_
      rw [hauth.2]
      exact hauth.1

theorem wp_handleRequest_denied {t : Int} (hno : NoSession request w t) :
    wp (System (Late t)) (handleRequest cfg libs request) (fun _ => Untouched w)
      (fun _ => True) w := by
  unfold handleRequest
  split
  · exact ⟨rfl, rfl⟩
  · split
    · exact ⟨rfl, rfl⟩
    · exact wp_seq (wp_dispatch_denied hno _) (fun _ h => h) fun response w' h => h

/-! ### Requests without the token of their session -/

/-- The header `X-CSRF-Token` and the first `csrf` cookie are not both the token of the
session. -/
def NoCsrf (request : Request) (w : World) : Prop :=
  ∀ token record, request.getCookie (lit "session") = some token →
    w.sessions.lookup token = some record →
    ¬(request.findHeader (lit "X-CSRF-Token") = some record.csrf_token ∧
      request.getCookie (lit "csrf") = some record.csrf_token)

theorem validateCsrf_iff (request : Request) (auth : AuthContext) :
    validateCsrf request auth = true ↔
      request.findHeader (lit "X-CSRF-Token") = some auth.session.csrf_token ∧
        request.getCookie (lit "csrf") = some auth.session.csrf_token := by
  unfold validateCsrf
  cases request.findHeader (lit "X-CSRF-Token") with
  | none => simp
  | some header =>
    cases request.getCookie (lit "csrf") with
    | none => simp
    | some cookie => simp

theorem wp_authenticate : wp (System A) (authenticate request)
    (fun r w' => SameLive ∅ w w' ∧ ∀ auth, r = some auth →
      request.getCookie (lit "session") = some auth.session_token ∧
        w.sessions.lookup auth.session_token = some auth.session) (fun _ => True) w := by
  unfold authenticate
  cases hcookie : request.getCookie (lit "session") with
  | none => exact ⟨fun _ _ _ _ => rfl, fun _ h => nomatch h⟩
  | some token =>
    refine wp_seq wp_validateSession (fun _ h => h) fun r w' hv => ?_
    cases hr : r with
    | none => exact ⟨hv.sameLive, fun _ h => nomatch h⟩
    | some record =>
      refine ⟨hv.sameLive, fun auth hauth => ?_⟩
      cases hauth
      exact ⟨rfl, hv.lookup hr⟩

theorem wp_guarded {handler : Program Response} {auth : AuthContext}
    (h : validateCsrf request auth = false) :
    wp (System A) (guarded request auth handler) (fun _ w' => w' = w) (fun _ => True) w := by
  unfold guarded
  split
  · rfl
  · rw [h]
    rfl

/-- Nothing but temporaries of a download is left behind, and no download without a record. -/
structure Browsed (A : Assumption) (cfg : Config) (w w' : World) : Prop where
  leaves : Leaves (DownloadTemp A cfg w.table) w w'
  empty : w.table = ∅ → w'.fs = w.fs

theorem Same.browsed (h : Same w w') : Browsed A cfg w w' :=
  ⟨Touches.of_frame h.frame, fun _ => h.fs⟩

theorem wp_route_refused {auth : AuthContext} {path : Bytes}
    (h : validateCsrf request auth = false) :
    wp (System A) (route cfg libs request auth path) (fun _ w' => Browsed A cfg w w')
      (fun _ => True) w := by
  have hnothing : Browsed A cfg w w := (Same.refl w).browsed
  have hguarded : ∀ handler, wp (System A) (guarded request auth handler)
      (fun _ w' => Browsed A cfg w w') (fun _ => True) w := by
    intro handler
    refine wp_mono (wp_guarded h) (fun _ w' hw => ?_) fun _ h => h
    rw [hw]
    exact hnothing
  unfold route
  split
  · split
    · exact hnothing
    · exact wp_mono wp_listFiles (fun _ _ hs => hs.2.browsed) fun _ h => h
  split
  · exact hguarded _
  split
  · exact hguarded _
  split
  · exact hguarded _
  split
  · split
    · exact hnothing
    · cases hinfo : w.table.lookup path with
      | none => exact wp_mono (wp_download_unknown hinfo) (fun _ _ h => h.2.browsed) fun _ _ => trivial
      | some info =>
        refine wp_mono (wp_download hinfo) (fun _ _ hd => ⟨hd.leaves, fun hempty => ?_⟩)
          fun _ _ => trivial
        rw [hempty, AList.lookup_empty] at hinfo
        cases hinfo
  · exact hnothing

/-! ### What a login does to the sessions -/

/-- Sessions are as before. -/
structure SameSessions (w w' : World) : Prop where
  sessions : w'.sessions = w.sessions
  clock : w.clock ≤ w'.clock

theorem SameSessions.trans {a b c : World} (h : SameSessions a b) (h' : SameSessions b c) :
    SameSessions a c :=
  ⟨h'.sessions.trans h.sessions, Int.le_trans h.clock h'.clock⟩

theorem Did.sameSessions {c : Call} {r : c.Resp} (h : Did w c r w') : SameSessions w w' :=
  ⟨h.sessions, h.clock⟩

theorem SameSessions.live (h : SameSessions w w') : SameLive ∅ w w' := by
  intro token time _ _
  rw [h.sessions]

theorem SameSessions.before {changed : Set Bytes} {w₁ : World} (h : SameSessions w w₁)
    (h' : SameLive changed w₁ w') : SameLive changed w w' := by
  intro token time htoken htime
  rw [h' token time htoken htime, h.sessions]

theorem SameSessions.after {changed : Set Bytes} {w₁ : World} (h : SameSessions w₁ w')
    (h' : SameLive changed w w₁) : SameLive changed w w' := by
  intro token time htoken htime
  rw [h.sessions, h' token time htoken (Int.le_trans h.clock htime)]

theorem wp_aside {α : Type} {p : Program α} (hp : Prog.Only Call.Aside p) :
    wp (System A) p (fun _ => SameSessions w) (SameSessions w) w := by
  refine wp_only hp (fun c w₁ r w₂ hc h ha => ?_) ⟨rfl, Int.le_refl _⟩
  obtain ⟨-, ch, hanswer⟩ := ha
  obtain ⟨rfl, rfl⟩ := Prod.mk.injEq .. ▸ hanswer
  refine h.trans ?_
  cases c <;> first
    | exact hc.elim
    | exact ⟨rfl, Int.le_max_left ..⟩

theorem wp_createSession {ttl : Int} : wp (System A) (createSession ttl)
    (fun _ w' => SameLive ∅ w w' ∨ ∃ token, SameLive {token} w w')
    (fun _ => True) w := by
  unfold createSession
  rw [wp_bind]
  refine wp_randBytes trivial fun session w₁ hD₁ => ?_
  have h₁ := hD₁.sameSessions
  cases session with
  | none => exact Or.inl h₁.live
  | some session =>
    simp only
    rw [wp_bind]
    refine wp_randBytes trivial fun csrf w₂ hD₂ => ?_
    have h₂ := h₁.trans hD₂.sameSessions
    cases csrf with
    | none => exact Or.inl h₂.live
    | some csrf =>
      simp only
      rw [wp_bind]
      refine wp_loadSessions trivial fun w₃ _ => ?_
      rw [wp_bind]
      refine wp_now trivial fun swept w₄ _ _ hswept => ?_
      rw [wp_bind]
      refine wp_now trivial fun expiry w₅ _ hD₅ _ => ?_
      rw [wp_bind]
      refine wp_storeSessions trivial fun w₆ hsessions hclock => ?_
      refine Or.inr ⟨hexDigits session, fun other time hother htime => ?_⟩
      have hlater : swept ≤ time := by
        rw [← hswept]
        exact Int.le_trans hD₅.clock (Int.le_trans hclock htime)
      rw [hsessions, h₂.sessions]
      simp only [SessionStore.create, SessionStore.randomToken, Option.map_some]
      rw [AList.lookup_insert_ne hother, SessionStore.removeExpired_lookup]
      exact SessionStore.liveAt_later hlater

theorem wp_readRequestBody {maximum : Nat} : wp (System A) (readRequestBody request maximum)
    (fun r _ => ∀ password, r = some password → request.body = some password)
    (fun _ => True) w := by
  unfold readRequestBody
  cases request.body with
  | none => exact fun _ h => nomatch h
  | some input =>
    simp only
    split
    · exact fun _ h => nomatch h
    · rw [wp_bind]
      refine wp_copyOut trivial fun copied w' _ _ _ => ?_
      cases copied with
      | false => exact fun _ h => nomatch h
      | true => exact fun _ h => h

/-- The body is the password. -/
def PasswordSent (cfg : Config) (libs : Libs) (request : Request) : Prop :=
  ∃ password, request.body = some password ∧ passwordMatches cfg libs password = true

theorem wp_login : wp (System A) (login cfg libs request)
    (fun _ w' => SameLive ∅ w w' ∨
      PasswordSent cfg libs request ∧ ∃ token, SameLive {token} w w') (fun _ => True) w := by
  unfold login
  refine wp_seq (wp_aside (aside_allowLogin _)) (fun _ _ => trivial) fun allowed w₁ h₁ => ?_
  cases allowed with
  | false => exact Or.inl h₁.live
  | true =>
    simp only [ite_true]
    refine wp_seq (wp_and (wp_aside (aside_readRequestBody request 1024)) wp_readRequestBody)
      (fun _ _ => trivial) ?_
    rintro body w₂ ⟨h₂, hbody⟩
    have h₂ := h₁.trans h₂
    cases body with
    | none => exact Or.inl h₂.live
    | some password =>
      simp only
      split
      · rename_i hmatches
        have hsent : PasswordSent cfg libs request := ⟨password, hbody password rfl, hmatches⟩
        refine wp_seq wp_createSession (fun _ h => h) fun tokens w₃ hcreated => ?_
        have h₃ : SameLive ∅ w w₃ ∨ PasswordSent cfg libs request ∧ ∃ token, SameLive {token} w w₃ := by
          rcases hcreated with hlive | ⟨token, hlive⟩
          · exact Or.inl (h₂.before hlive)
          · exact Or.inr ⟨hsent, token, h₂.before hlive⟩
        cases tokens with
        | none => exact h₃
        | some tokens =>
          refine wp_seq (wp_aside (aside_succeedLogin _)) (fun _ _ => trivial) fun _ w₄ h₄ => ?_
          rcases h₃ with hlive | ⟨-, token, hlive⟩
          · exact Or.inl (h₄.after hlive)
          · exact Or.inr ⟨hsent, token, h₄.after hlive⟩
      · refine wp_seq (wp_aside (aside_failLogin _)) (fun _ _ => trivial) fun _ w₃ h₃ => ?_
        exact Or.inl (h₂.trans h₃).live

/-! ### Access control -/

/-- `POST /api/login` with the password. -/
structure LoginAccepted (cfg : Config) (libs : Libs) (request : Request) : Prop where
  path : ∃ rawPath, request.path = some rawPath ∧
    urlDecode (cString rawPath) = some (lit "/api/login")
  method : request.method = .post
  password : PasswordSent cfg libs request

/-- Table and files are as before, but for temporaries of a download whose removal failed.
One may have the name of a record whose file is away, if `mkstemp` makes such names. -/
structure FilesKept (A : Assumption) (cfg : Config) (w w' : World) : Prop where
  table : w'.table = w.table
  kept : ∀ k, w.fs.get k ≠ none → w'.fs.get k = w.fs.get k
  new : ∀ k, w'.fs.get k ≠ w.fs.get k →
    ∃ p, place p = k ∧ DownloadTemp A cfg w.table p ∧ RemovalFailed p w'
  snapshot : (w.fs.get (place cfg.storageInfo) = none → w.table = ∅) →
    w'.fs.get (place cfg.storageInfo) = w.fs.get (place cfg.storageInfo)

theorem Untouched.kept (h : Untouched w w') : FilesKept A cfg w w' where
  table := h.table
  kept k _ := by rw [h.fs]
  new k hk := absurd (by rw [h.fs]) hk
  snapshot _ := by rw [h.fs]

theorem Untouched.browsed {w₁ : World} (h : Untouched w w₁) (hb : Browsed A cfg w₁ w') :
    FilesKept A cfg w w' where
  table := hb.leaves.frame.table.trans h.table
  kept k hk := by
    rw [← h.fs] at hk ⊢
    exact hb.leaves.old hk
  new k hk := by
    rw [← h.fs] at hk
    obtain ⟨p, hp, hplace, -⟩ := hb.leaves.changed hk
    exact ⟨p, hplace, h.table ▸ hp.1, hp.2⟩
  snapshot hempty := by
    rw [← h.fs, ← h.table] at hempty
    rw [← h.fs]
    by_cases hs : w₁.fs.get (place cfg.storageInfo) = none
    · rw [hb.empty (hempty hs)]
    · exact hb.leaves.old hs

/-- What a request without the token of its session does. -/
structure Harmless (A : Assumption) (cfg : Config) (libs : Libs) (request : Request)
    (w w' : World) : Prop where
  files : FilesKept A cfg w w'
  sessions : SameLive ∅ w w' ∨ LoginAccepted cfg libs request ∧ ∃ token, SameLive {token} w w'

theorem wp_dispatch_refused (h : NoCsrf request w) {rawPath path : Bytes}
    (hraw : request.path = some rawPath) (hpath : urlDecode (cString rawPath) = some path) :
    wp (System A) (dispatch cfg libs request path)
      (fun _ w' => Harmless A cfg libs request w w') (fun _ => True) w := by
  have hnothing : Harmless A cfg libs request w w :=
    ⟨Untouched.kept ⟨rfl, rfl⟩, Or.inl fun _ _ _ _ => rfl⟩
  unfold dispatch
  split
  · split
    · exact hnothing
    · have haside := @aside_showLogin
      refine wp_mono (wp_and (wp_private (private_of_aside haside)) (wp_aside haside)) ?_
        fun _ _ => trivial
      exact fun _ w' h => ⟨h.1.kept, Or.inl h.2.live⟩
  split
  · rename_i hlogin
    split
    · exact hnothing
    · rename_i hmethod
      refine wp_mono (wp_and (wp_private private_login) wp_login) ?_ fun _ _ => trivial
      rintro _ w' ⟨hu, hs⟩
      refine ⟨hu.kept, hs.imp id fun hs => ⟨⟨⟨rawPath, hraw, ?_⟩, ?_, hs.1⟩, hs.2⟩⟩
      · rw [hpath, hlogin]
      · exact not_not.mp hmethod
  · refine wp_seq (wp_and (wp_private (private_authenticate request)) wp_authenticate)
      (fun _ _ => trivial) ?_
    rintro auth w₁ ⟨hu, hlive, hauth⟩
    cases auth with
    | none => exact ⟨hu.kept, Or.inl hlive⟩
    | some auth =>
      obtain ⟨hcookie, hlookup⟩ := hauth auth rfl
      have hcsrf : validateCsrf request auth = false := by
        rw [Bool.eq_false_iff]
        exact fun hv => h _ _ hcookie hlookup ((validateCsrf_iff request auth).mp hv)
      refine wp_mono (wp_route_refused hcsrf) (fun _ w' hb => ?_) fun _ h => h
      have hframe := hb.leaves.frame
      exact ⟨hu.browsed hb, Or.inl (SameSessions.after ⟨hframe.sessions, hframe.clock⟩ hlive)⟩

theorem wp_handleRequest_refused (h : NoCsrf request w) :
    wp (System A) (handleRequest cfg libs request)
      (fun _ w' => Harmless A cfg libs request w w') (fun _ => True) w := by
  have hnothing : Harmless A cfg libs request w w :=
    ⟨Untouched.kept ⟨rfl, rfl⟩, Or.inl fun _ _ _ _ => rfl⟩
  unfold handleRequest
  split
  · exact hnothing
  · rename_i rawPath hraw
    split
    · exact hnothing
    · rename_i path hpath
      exact wp_seq (wp_dispatch_refused h hraw hpath) (fun _ h => h) fun response w' h => h

/-! ### The clock at the start -/

theorem late_answer {t : Int} (ht : t ≤ w.clock) (c : Call) (ch : Choice) :
    Late t w c (answer w c ch).1 ∧ t ≤ (answer w c ch).2.clock := by
  have hclock : t ≤ (answer w c ch).2.clock := by
    cases c <;> exact Int.le_trans ht (Int.le_max_left ..)
  refine ⟨fun time htime => ?_, hclock⟩
  cases c <;> cases htime
  exact hclock

theorem late_steps {α : Type} {t : Int} {p q : Program α} (ht : t ≤ w.clock)
    (h : Steps (System A) p w q w') : Steps (System (Late t)) p w q w' := by
  induction h with
  | refl => exact .refl ..
  | @head c _ _ _ _ _ _ hanswer _ ih =>
    obtain ⟨-, ch, hch⟩ := hanswer
    have hlate := late_answer ht c ch
    rw [hch] at hlate
    exact .head ⟨hlate.1, ch, hch⟩ (ih hlate.2)

theorem late_play {α : Type} {t : Int} (p : Program α) (choices : List Choice)
    (ht : t ≤ w.clock) : playUnder (Late t) p choices w = playUnder Anything p choices w := by
  unfold playUnder
  induction p generalizing choices w with
  | ret a => rfl
  | call c next ih =>
    cases choices with
    | nil => rfl
    | cons ch choices =>
      obtain ⟨hlate, hclock⟩ := late_answer ht c ch
      simp only [play, Assumption.test, decide_eq_true hlate, if_true]
      exact ih _ choices hclock

/-- Access control of a request, whatever the state. A time that no reading of the clock
precedes is `t`; the clock as the handling starts is one. -/
structure Controlled (cfg : Config) (libs : Libs) (request : Request) : Prop where
  /-- Without a live session nothing is changed. -/
  untouched : ∀ {t : Int} {w w' : World} {r : Response}, NoSession request w t →
    Runs (System (Late t)) (handleRequest cfg libs request) w r w' → Untouched w w'
  /-- Nor does the reply tell anything of table and files. -/
  blind : ∀ {t : Int} {w₁ w₂ : World} (choices : List Choice), NoSession request w₁ t →
    Alike w₁ w₂ →
    (playUnder (Late t) (handleRequest cfg libs request) choices w₂).1.result =
      (playUnder (Late t) (handleRequest cfg libs request) choices w₁).1.result
  start : ∀ {A : Assumption} {w w' : World} {r : Response},
    Runs (System A) (handleRequest cfg libs request) w r w' →
    Runs (System (Late w.clock)) (handleRequest cfg libs request) w r w'
  start_play : ∀ (w : World) (choices : List Choice),
    playUnder (Late w.clock) (handleRequest cfg libs request) choices w =
      playUnder Anything (handleRequest cfg libs request) choices w
  /-- Without the token of the session nothing is changed but by a login. -/
  harmless : ∀ {A : Assumption} {w w' : World} {r : Response}, NoCsrf request w →
    Runs (System A) (handleRequest cfg libs request) w r w' → Harmless A cfg libs request w w'

theorem access_controlled (cfg : Config) (libs : Libs) (request : Request) :
    Controlled cfg libs request where
  untouched hno hrun := by
    have hend := wp_runs (wp_handleRequest_denied hno) hrun
    exact hend
  blind choices hno halike := by
    have hcoupled : coupledLate _ (handleRequest cfg libs request) (fun _ => Alike) _ _ :=
      coupled_handleRequest halike hno
    exact congrArg Prog.result (play_coupled hcoupled choices).1
  start hrun := late_steps (Int.le_refl _) hrun
  start_play w choices := late_play _ choices (Int.le_refl _)
  harmless hno hrun := by
    have hend := wp_runs (wp_handleRequest_refused hno) hrun
    exact hend

/-- An encoded path of a request without cookies. -/
example : ((playUnder Anything (handleRequest (.shipped (lit "deep") (lit "low") (lit "tmp")
    (lit "storage.data")) (.plain (.ofPairs [])) { path := some (lit "/%75pload"), method := .post })
    [] World.empty).1.result.map Response.status) = some 401 := by decide +kernel

end CloudStorage
