import CloudStorage.Handlers
import CloudStorage.Refine

/-!
# Whose requests reach the files

A run of the server over requests of every kind. Each session of the store goes
back to one login of the run: the password was sent, the reply carries the token,
and nobody has logged out with it since. Whatever a request changes, and whatever
it is told of the files, it owes to such a session.
-/

namespace CloudStorage
open Posix Interact

/-- A request that was handled, with the clock as the handling began and as it ended. -/
structure Exchange where
  request : Request
  response : Response
  begun : Int
  ended : Int

structure Handles (A : Assumption) (cfg : Config) (libs : Libs) (w : World) (e : Exchange)
    (w' : World) : Prop where
  runs : Runs (System A) (handleRequest cfg libs e.request) w e.response w'
  begun : e.begun = w.clock
  ended : e.ended = w'.clock

abbrev HttpRun (A : Assumption) (cfg : Config) (libs : Libs) : World → List Exchange → World → Prop :=
  Transition.Run (Handles A cfg libs)

/-- The path of the request, decoded. -/
def Request.At (request : Request) (path : Bytes) : Prop :=
  ∃ rawPath, request.path = some rawPath ∧ urlDecode (cString rawPath) = some path

/-- The reply of a login that succeeds. -/
def loggedIn (cfg : Config) (session csrf : Bytes) : Response :=
  sendText (noCache ++
    [(lit "Set-Cookie", lit "session=" ++ session ++ cookieSuffix cfg true),
      (lit "Set-Cookie", lit "csrf=" ++ csrf ++ cookieSuffix cfg false)])
    200 (lit "OK") (lit "login successful")

/-- The exchange is a login that issues the token with the record. -/
structure Grants (cfg : Config) (libs : Libs) (e : Exchange) (token : Bytes)
    (record : SessionRecord) : Prop where
  login : LoginAccepted cfg libs e.request
  reply : e.response = (loggedIn cfg token record.csrf_token).secured
  early : e.begun + cfg.sessionTtlSeconds * second ≤ record.expires_at
  late : record.expires_at ≤ e.ended + cfg.sessionTtlSeconds * second

/-- The exchange is a logout of the token. -/
structure LogsOut (e : Exchange) (token : Bytes) : Prop where
  path : e.request.At (lit "/logout")
  method : e.request.method = .post
  cookie : e.request.getCookie (lit "session") = some token
  status : e.response.status = 200

/-- The token was issued with the record, and nobody has logged out with it since. -/
def GrantedBy (cfg : Config) (libs : Libs) (log : List Exchange) (token : Bytes)
    (record : SessionRecord) : Prop :=
  ∃ before e after, log = before ++ e :: after ∧ Grants cfg libs e token record ∧
    ∀ e' ∈ after, ¬LogsOut e' token

variable {A : Assumption} {cfg : Config} {libs : Libs} {request : Request} {w w' : World}

/-! ### Sessions through the calls of the store -/

/-- No session is new or changed. -/
structure NoneAdded (w w' : World) : Prop where
  old : ∀ token record, w'.sessions.lookup token = some record →
    w.sessions.lookup token = some record
  clock : w.clock ≤ w'.clock

theorem NoneAdded.refl (w : World) : NoneAdded w w := ⟨fun _ _ h => h, Int.le_refl _⟩

theorem NoneAdded.trans {a b c : World} (h : NoneAdded a b) (h' : NoneAdded b c) : NoneAdded a c :=
  ⟨fun token record hlookup => h.old token record (h'.old token record hlookup),
    Int.le_trans h.clock h'.clock⟩

theorem SameSessions.noneAdded (h : SameSessions w w') : NoneAdded w w' :=
  ⟨fun _ _ hlookup => h.sessions ▸ hlookup, h.clock⟩

theorem SameGuests.noneAdded (h : SameGuests w w') : NoneAdded w w' :=
  ⟨fun _ _ hlookup => h.sessions ▸ hlookup, h.clock⟩

theorem validate_old {sessions : Sessions} {token other : Bytes} {time : Int}
    {record : SessionRecord}
    (h : (SessionStore.validate sessions token time).2.lookup other = some record) :
    sessions.lookup other = some record := by
  unfold SessionStore.validate at h
  cases hrecord : sessions.lookup token with
  | none => rwa [hrecord] at h
  | some found =>
    rw [hrecord] at h
    dsimp only at h
    split at h
    · by_cases hother : other = token
      · rw [hother, AList.lookup_erase] at h
        cases h
      · rwa [AList.lookup_erase_ne hother] at h
    · exact h

/-- A token that is not valid is gone. -/
theorem validate_gone {sessions : Sessions} {token : Bytes} {time : Int}
    (h : (SessionStore.validate sessions token time).1 = none) :
    (SessionStore.validate sessions token time).2.lookup token = none := by
  unfold SessionStore.validate at h ⊢
  cases hrecord : sessions.lookup token with
  | none => exact hrecord
  | some found =>
    rw [hrecord] at h
    dsimp only at h ⊢
    split
    · exact AList.lookup_erase ..
    · rename_i hlive
      rw [if_neg hlive] at h
      cases h

theorem wp_validateSession_old {token : Bytes} :
    wp (System A) (validateSession token)
      (fun r w' => NoneAdded w w' ∧ (r = none → w'.sessions.lookup token = none))
      (fun _ => True) w := by
  unfold validateSession
  rw [wp_bind]
  apply wp_loadSessions trivial
  intro w₁ hD₁
  cases hrecord : w.sessions.lookup token with
  | none =>
    refine ⟨hD₁.sameSessions.noneAdded, fun _ => ?_⟩
    rw [hD₁.sessions, hrecord]
  | some record =>
    dsimp only
    rw [wp_bind]
    apply wp_now trivial
    intro time w₂ _ hD₂ _
    rw [wp_bind]
    apply wp_storeSessions trivial
    intro w₃ hsessions hclock
    have hlater : w.clock ≤ w₃.clock :=
      Int.le_trans hD₁.clock (Int.le_trans hD₂.clock hclock)
    refine ⟨⟨fun other found h => ?_, hlater⟩, fun hnone => ?_⟩
    · rw [hsessions] at h
      exact validate_old h
    · rw [hsessions]
      exact validate_gone hnone

theorem wp_authenticate_old :
    wp (System A) (authenticate request)
      (fun r w' => NoneAdded w w' ∧
        (r = none → ∀ token, request.getCookie (lit "session") = some token →
          w'.sessions.lookup token = none) ∧
        ∀ auth, r = some auth → request.getCookie (lit "session") = some auth.session_token)
      (fun _ => True) w := by
  unfold authenticate
  cases hcookie : request.getCookie (lit "session") with
  | none => exact ⟨NoneAdded.refl w, fun _ _ h => (nomatch h), fun _ h => nomatch h⟩
  | some token =>
    apply wp_seq wp_validateSession_old fun _ h => h
    intro r w' hv
    obtain ⟨hold, hgone⟩ := hv
    cases r with
    | none =>
      refine ⟨hold, fun _ other hother => ?_, fun _ h => nomatch h⟩
      cases hother
      exact hgone rfl
    | some record =>
      refine ⟨hold, fun h => (nomatch h), fun auth h => ?_⟩
      cases h
      rfl

/-- A session for the token is stored, with its expiry. -/
structure Created (ttl : Int) (token csrf : Bytes) (w w' : World) : Prop where
  others : ∀ other record, other ≠ token → w'.sessions.lookup other = some record →
    w.sessions.lookup other = some record
  stored : ∃ time, w'.sessions.lookup token = some ⟨csrf, time + ttl * second⟩ ∧ w.clock ≤ time ∧
    time ≤ w'.clock
  clock : w.clock ≤ w'.clock

theorem wp_createSession_stored {ttl : Int} :
    wp (System A) (createSession ttl)
      (fun r w' => match r with
        | none => NoneAdded w w'
        | some (token, csrf) => Created ttl token csrf w w') (fun _ => True) w := by
  unfold createSession
  rw [wp_bind]
  apply wp_randBytes trivial
  intro session w₁ hD₁
  have h₁ := hD₁.sameSessions
  cases session with
  | none => exact h₁.noneAdded
  | some session =>
    dsimp only
    rw [wp_bind]
    apply wp_randBytes trivial
    intro csrf w₂ hD₂
    have h₂ := h₁.trans hD₂.sameSessions
    cases csrf with
    | none => exact h₂.noneAdded
    | some csrf =>
      dsimp only
      rw [wp_bind]
      apply wp_loadSessions trivial
      intro w₃ hD₃
      rw [wp_bind]
      apply wp_now trivial
      intro swept w₄ _ hD₄ _
      rw [wp_bind]
      apply wp_now trivial
      intro expiry w₅ _ hD₅ hexpiry
      rw [wp_bind]
      apply wp_storeSessions trivial
      intro w₆ hsessions hclock
      have hbefore : w.clock ≤ w₅.clock :=
        Int.le_trans h₂.clock (Int.le_trans hD₃.clock (Int.le_trans hD₄.clock hD₅.clock))
      have hstored : w₆.sessions = (SessionStore.removeExpired w.sessions swept).insert
          (hexDigits session) ⟨hexDigits csrf, expiry + ttl * second⟩ := by
        rw [hsessions, h₂.sessions]
        rfl
      refine ⟨fun other record hother h => ?_, ⟨expiry, ?_, ?_, ?_⟩, ?_⟩
      · rw [hstored, AList.lookup_insert_ne hother, SessionStore.removeExpired_lookup] at h
        exact (Option.filter_eq_some_iff.mp h).1
      · rw [hstored, AList.lookup_insert]
      · rwa [← hexpiry]
      · rwa [← hexpiry]
      · exact Int.le_trans hbefore hclock

/-! ### Login and logout -/

theorem wp_login_granted :
    wp (System A) (login cfg libs request)
      (fun r w' => NoneAdded w w' ∨ ∃ token csrf, PasswordSent cfg libs request ∧
        r = loggedIn cfg token csrf ∧ Created cfg.sessionTtlSeconds token csrf w w')
      (fun _ => True) w := by
  unfold login
  apply wp_seq (wp_aside (aside_allowLogin _)) fun _ _ => trivial
  intro allowed w₁ h₁
  cases allowed with
  | false => exact Or.inl h₁.noneAdded
  | true =>
    simp only [ite_true]
    apply wp_seq (wp_and (wp_aside (aside_readRequestBody request 1024)) wp_readRequestBody)
      fun _ _ => trivial
    intro body w₂ hread
    obtain ⟨h₂, hbody⟩ := hread
    have h₂ := h₁.trans h₂
    cases body with
    | none => exact Or.inl h₂.noneAdded
    | some password =>
      dsimp only
      split
      · rename_i hmatches
        have hsent : PasswordSent cfg libs request := ⟨password, hbody password rfl, hmatches⟩
        apply wp_seq wp_createSession_stored fun _ h => h
        intro tokens w₃ hcreated
        cases tokens with
        | none => exact Or.inl (h₂.noneAdded.trans hcreated)
        | some tokens =>
          obtain ⟨token, csrf⟩ := tokens
          apply wp_seq (wp_aside (aside_succeedLogin _)) fun _ _ => trivial
          intro _ w₄ h₄
          obtain ⟨time, hlookup, hearly, hlate⟩ := hcreated.stored
          refine Or.inr ⟨token, csrf, hsent, rfl, ?_, ⟨time, ?_, ?_, ?_⟩, ?_⟩
          · intro other record hother h
            rw [h₄.sessions] at h
            rw [← h₂.sessions]
            exact hcreated.others other record hother h
          · rw [h₄.sessions, hlookup]
          · exact Int.le_trans h₂.clock hearly
          · exact Int.le_trans hlate h₄.clock
          · exact Int.le_trans h₂.clock (Int.le_trans hcreated.clock h₄.clock)
      · apply wp_seq (wp_aside (aside_failLogin _)) fun _ _ => trivial
        intro _ w₃ h₃
        exact Or.inl (h₂.trans h₃).noneAdded

theorem wp_removeSession {token : Bytes} :
    wp (System A) (removeSession token)
      (fun _ w' => w'.sessions = w.sessions.erase token ∧ w.clock ≤ w'.clock) (fun _ => True) w := by
  unfold removeSession
  rw [wp_bind]
  apply wp_loadSessions trivial
  intro w₁ hD
  apply wp_storeSessions trivial
  intro w₂ hsessions hclock
  exact ⟨hsessions, Int.le_trans hD.clock hclock⟩

/-- The session of the request is not there any more. -/
def Gone (request : Request) (w : World) : Prop :=
  ∀ token, request.getCookie (lit "session") = some token → w.sessions.lookup token = none

theorem wp_logout :
    wp (System A) (logout cfg request) (fun _ w' => NoneAdded w w' ∧ Gone request w')
      (fun _ => True) w := by
  unfold logout
  apply wp_seq wp_authenticate_old fun _ h => h
  intro auth w₁ hauth
  obtain ⟨hold, hnone, hsome⟩ := hauth
  cases auth with
  | none => exact ⟨hold, hnone rfl⟩
  | some auth =>
    apply wp_seq wp_removeSession fun _ h => h
    intro _ w₂ hremoved
    obtain ⟨hsessions, hclock⟩ := hremoved
    refine ⟨hold.trans ⟨fun other record h => ?_, hclock⟩, fun token htoken => ?_⟩
    · rw [hsessions] at h
      by_cases hother : other = auth.session_token
      · rw [hother, AList.lookup_erase] at h
        cases h
      · rwa [AList.lookup_erase_ne hother] at h
    · rw [hsome auth rfl] at htoken
      cases htoken
      rw [hsessions, AList.lookup_erase]

/-! ### One request -/

theorem wp_route_old {auth : AuthContext} {path : Bytes} :
    wp (System A) (route cfg libs request auth path)
      (fun r w' => NoneAdded w w' ∧ (path = lit "/logout" → r.status = 200 → Gone request w'))
      (fun _ => True) w := by
  have hstorage : ∀ {p : Program Response}, OnlyStorage p → path ≠ lit "/logout" →
      wp (System A) p (fun r w' => NoneAdded w w' ∧
        (path = lit "/logout" → r.status = 200 → Gone request w')) (fun _ => True) w := by
    intro p hp hpath
    apply wp_mono (wp_onlyStorage hp) _ fun _ _ => trivial
    exact fun _ _ h => ⟨h.noneAdded, fun he => absurd he hpath⟩
  unfold route
  split
  · rename_i hroot
    have hpath : path ≠ lit "/logout" := by
      rw [hroot]
      decide
    split
    · exact hstorage (only_pure _) hpath
    · exact hstorage storage_listFiles hpath
  split
  · rename_i hupload
    have hpath : path ≠ lit "/logout" := by
      rw [hupload]
      decide
    unfold guarded
    split
    · exact hstorage (only_pure _) hpath
    split
    · exact hstorage (only_pure _) hpath
    · exact hstorage storage_upload hpath
  split
  · rename_i hdelete
    have hpath : path ≠ lit "/logout" := by
      rw [hdelete]
      decide
    unfold guarded
    split
    · exact hstorage (only_pure _) hpath
    split
    · exact hstorage (only_pure _) hpath
    · exact hstorage storage_delete hpath
  split
  · unfold guarded
    split
    · exact ⟨NoneAdded.refl w, fun _ h => absurd h (by decide)⟩
    split
    · exact ⟨NoneAdded.refl w, fun _ h => absurd h (by decide)⟩
    · exact wp_mono wp_logout (fun _ _ h => ⟨h.1, fun _ _ => h.2⟩) fun _ h => h
  rename_i hpath
  split
  · split
    · exact hstorage (only_pure _) hpath
    · exact hstorage (storage_download path) hpath
  · exact hstorage (only_pure _) hpath

/-- What a request does to the sessions. -/
structure SessionEffect (cfg : Config) (libs : Libs) (e : Exchange) (w w' : World) : Prop where
  origin : ∀ token record, w'.sessions.lookup token = some record →
    w.sessions.lookup token = some record ∨ Grants cfg libs e token record
  logout : ∀ token, LogsOut e token → w'.sessions.lookup token = none

theorem Request.At.unique {p q : Bytes} (hp : request.At p) (hq : request.At q) : p = q := by
  obtain ⟨raw, hraw, hp⟩ := hp
  obtain ⟨raw', hraw', hq⟩ := hq
  rw [hraw] at hraw'
  cases hraw'
  rw [hp] at hq
  exact Option.some.inj hq

theorem NoneAdded.effect {e : Exchange} (h : NoneAdded w w')
    (hlogout : ∀ token, LogsOut e token → w'.sessions.lookup token = none) :
    SessionEffect cfg libs e w w' :=
  ⟨fun token record hlookup => Or.inl (h.old token record hlookup), hlogout⟩

/-- The exchange in which `request` gets the reply `r`. -/
def exchange (request : Request) (w : World) (r : Response) (w' : World) : Exchange :=
  ⟨request, r, w.clock, w'.clock⟩

theorem unauthenticated_status (path : Bytes) : (unauthenticated cfg path).status ≠ 200 := by
  unfold unauthenticated
  split
  · decide
  · exact (by decide : (401 : Nat) ≠ 200)

theorem wp_dispatch_sessions {path : Bytes} (hpath : request.At path) :
    wp (System A) (dispatch cfg libs request path)
      (fun r w' => SessionEffect cfg libs (exchange request w r.secured w') w w')
      (fun _ => True) w := by
  have haway : ∀ {r : Response} {w' : World}, NoneAdded w w' →
      (path = lit "/logout" → r.status = 200 → Gone request w') →
      SessionEffect cfg libs (exchange request w r.secured w') w w' := by
    intro r w' hold hgone
    refine hold.effect fun token hlogout => ?_
    exact hgone (hpath.unique hlogout.path) hlogout.status token hlogout.cookie
  unfold dispatch
  split
  · rename_i hlogin
    have hne : path ≠ lit "/logout" := by
      rw [hlogin]
      decide
    split
    · exact haway (NoneAdded.refl w) fun h => absurd h hne
    · apply wp_mono (wp_aside aside_showLogin) _ fun _ _ => trivial
      exact fun _ _ h => haway h.noneAdded fun h => absurd h hne
  split
  · rename_i hlogin
    have hne : path ≠ lit "/logout" := by
      rw [hlogin]
      decide
    split
    · exact haway (NoneAdded.refl w) fun h => absurd h hne
    · rename_i hmethod
      apply wp_mono wp_login_granted _ fun _ h => h
      intro r w' hr
      rcases hr with hold | ⟨token, csrf, hsent, hreply, hcreated⟩
      · exact haway hold fun h => absurd h hne
      · obtain ⟨time, hlookup, hearly, hlate⟩ := hcreated.stored
        refine ⟨fun other record h => ?_, fun _ hlogout => absurd (hpath.unique hlogout.path) hne⟩
        by_cases hother : other = token
        · subst hother
          rw [hlookup] at h
          cases h
          refine Or.inr ⟨⟨hlogin ▸ hpath, not_not.mp hmethod, hsent⟩, ?_, ?_, ?_⟩
          · exact congrArg Response.secured hreply
          · exact Int.add_le_add_right hearly _
          · exact Int.add_le_add_right hlate _
        · exact Or.inl (hcreated.others other record hother h)
  · apply wp_seq wp_authenticate_old fun _ h => h
    intro auth w₁ hauth
    obtain ⟨hold, -, -⟩ := hauth
    cases auth with
    | none => exact haway hold fun _ h => absurd h (unauthenticated_status path)
    | some auth =>
      apply wp_mono wp_route_old _ fun _ h => h
      exact fun _ _ h => haway (hold.trans h.1) h.2

theorem wp_handleRequest_sessions :
    wp (System A) (handleRequest cfg libs request)
      (fun r w' => SessionEffect cfg libs (exchange request w r w') w w') (fun _ => True) w := by
  have hrefused : ∀ r : Response, r.status ≠ 200 →
      SessionEffect cfg libs (exchange request w r w) w w := fun r hr =>
    (NoneAdded.refl w).effect fun _ hlogout => absurd hlogout.status hr
  unfold handleRequest
  split
  · exact hrefused _ (by decide)
  · rename_i rawPath hraw
    split
    · exact hrefused _ (by decide)
    · rename_i path hdecoded
      exact wp_seq (wp_dispatch_sessions ⟨rawPath, hraw, hdecoded⟩) (fun _ h => h)
        fun response w' h => h

theorem Handles.sessions {e : Exchange} (h : Handles A cfg libs w e w') :
    SessionEffect cfg libs e w w' := by
  have heffect := wp_runs wp_handleRequest_sessions h.runs
  rw [exchange, ← h.begun, ← h.ended] at heffect
  exact heffect

/-! ### Runs -/

theorem GrantedBy.snoc {log : List Exchange} {e : Exchange} {token : Bytes}
    {record : SessionRecord} (h : GrantedBy cfg libs log token record) (hlogout : ¬LogsOut e token) :
    GrantedBy cfg libs (log ++ [e]) token record := by
  obtain ⟨before, grant, after, rfl, hgrant, hafter⟩ := h
  refine ⟨before, grant, after ++ [e], by simp, hgrant, fun e' he' => ?_⟩
  rcases List.mem_append.mp he' with hin | hlast
  · exact hafter e' hin
  · rw [List.mem_singleton.mp hlast]
    exact hlogout

theorem run_granted {log : List Exchange} (hstart : w.sessions = ∅)
    (hrun : HttpRun A cfg libs w log w') (token : Bytes) (record : SessionRecord)
    (h : w'.sessions.lookup token = some record) : GrantedBy cfg libs log token record := by
  induction hrun generalizing token record with
  | nil =>
    rw [hstart, AList.lookup_empty] at h
    cases h
  | snoc _ hstep ih =>
    have heffect := hstep.sessions
    rcases heffect.origin token record h with hold | hgrant
    · refine (ih token record hold).snoc fun hlogout => ?_
      rw [heffect.logout token hlogout] at h
      cases h
    · exact ⟨_, _, [], rfl, hgrant, fun _ hmem => nomatch hmem⟩

/-- The request carries a token that was granted in the run and is not expired. -/
def Authorised (cfg : Config) (libs : Libs) (log : List Exchange) (e : Exchange)
    (record : SessionRecord) : Prop :=
  ∃ token, e.request.getCookie (lit "session") = some token ∧
    GrantedBy cfg libs log token record ∧ e.begun < record.expires_at

/-- The request carries the other token of the session, in the header and as a cookie. -/
def Confirmed (e : Exchange) (record : SessionRecord) : Prop :=
  e.request.findHeader (lit "X-CSRF-Token") = some record.csrf_token ∧
    e.request.getCookie (lit "csrf") = some record.csrf_token

theorem session_authorised {log : List Exchange} (hstart : w.sessions = ∅)
    (hrun : HttpRun A cfg libs w log w') {e : Exchange} (hbegun : e.begun = w'.clock)
    (h : ¬NoSession e.request w' w'.clock) :
    ∃ record, Authorised cfg libs log e record := by
  unfold NoSession at h
  push Not at h
  obtain ⟨token, record, hcookie, hlookup, hlive⟩ := h
  exact ⟨record, token, hcookie, run_granted hstart hrun token record hlookup, by rw [hbegun]; exact hlive⟩

theorem wp_dispatch_unauthenticated {t : Int} (hno : NoSession request w t) {path : Bytes}
    (hlogin : path ≠ lit "/login") (hapi : path ≠ lit "/api/login") :
    wp (System (Late t)) (dispatch cfg libs request path)
      (fun r _ => r = unauthenticated cfg path) (fun _ => True) w := by
  unfold dispatch
  rw [if_neg hlogin, if_neg hapi]
  apply wp_seq (wp_authenticate_denied hno) fun _ h => h
  intro auth w₁ hauth
  rw [hauth]
  exact rfl

/-- Without a session the reply is that of a guest. -/
theorem guest_reply {t : Int} {r : Response} (hno : NoSession request w t) {path : Bytes}
    (hpath : request.At path) (hlogin : path ≠ lit "/login") (hapi : path ≠ lit "/api/login")
    (hrun : Runs (System (Late t)) (handleRequest cfg libs request) w r w') :
    r = (unauthenticated cfg path).secured := by
  obtain ⟨rawPath, hraw, hdecoded⟩ := hpath
  have hwp : wp (System (Late t)) (handleRequest cfg libs request)
      (fun r _ => r = (unauthenticated cfg path).secured) (fun _ => True) w := by
    simp only [handleRequest, hraw, hdecoded]
    apply wp_seq (wp_dispatch_unauthenticated hno hlogin hapi) fun _ h => h
    intro response w₁ hresponse
    rw [hresponse]
    exact rfl
  have hend := wp_runs hwp hrun
  exact hend

/-- A leftover temporary is at no record's path, unless `mkstemp` makes a record's name. -/
theorem FilesKept.records (h : FilesKept A cfg w w') (hA : A.Sound cfg) {url : Bytes}
    {info : StorageInfo} (hinfo : w.table.lookup url = some info) :
    w'.fs.get (place info.storage_path_) = w.fs.get (place info.storage_path_) := by
  by_contra hne
  obtain ⟨p, hplace, htemp, -⟩ := h.new _ hne
  exact (TempPath.fresh hA htemp).2 url info hinfo hplace.symm

/-- Every session of a server that started without one was granted in the run. Table and files
are changed by nobody but the holder of such a session, read by nobody else, and changed
beyond a leftover temporary only with its other token; so is what is at a record's path. -/
theorem requests_authorised {log : List Exchange} (hstart : w.sessions = ∅)
    (hrun : HttpRun A cfg libs w log w') :
    (∀ token record, w'.sessions.lookup token = some record →
      GrantedBy cfg libs log token record) ∧
    ∀ e w'', Handles A cfg libs w' e w'' →
      (∀ path, e.request.At path → path ≠ lit "/login" → path ≠ lit "/api/login" →
        e.response ≠ (unauthenticated cfg path).secured →
        ∃ record, Authorised cfg libs log e record) ∧
      (¬Untouched w' w'' → ∃ record, Authorised cfg libs log e record) ∧
      (¬FilesKept A cfg w' w'' → ∃ record, Authorised cfg libs log e record ∧ Confirmed e record) ∧
      (A.Sound cfg → ∀ url info, w'.table.lookup url = some info →
        w''.fs.get (place info.storage_path_) ≠ w'.fs.get (place info.storage_path_) →
        ∃ record, Authorised cfg libs log e record ∧ Confirmed e record) := by
  refine ⟨run_granted hstart hrun, fun e w'' hstep => ?_⟩
  have hlate := late_steps (Int.le_refl _) hstep.runs
  have hsession : ¬Untouched w' w'' → ¬NoSession e.request w' w'.clock := by
    intro hchanged hno
    have hend := wp_runs (wp_handleRequest_denied hno) hlate
    exact hchanged hend
  have hconfirmed : ¬FilesKept A cfg w' w'' →
      ∃ record, Authorised cfg libs log e record ∧ Confirmed e record := by
    intro hchanged
    have hcsrf : ¬NoCsrf e.request w' := by
      intro hno
      have hend := wp_runs (wp_handleRequest_refused hno) hstep.runs
      exact hchanged hend.files
    have huntouched : ¬Untouched w' w'' := fun h => hchanged h.kept
    have hlive := hsession huntouched
    unfold NoSession at hlive
    unfold NoCsrf at hcsrf
    push Not at hlive hcsrf
    obtain ⟨token, record, hcookie, hlookup, hexpires⟩ := hlive
    obtain ⟨token', record', hcookie', hlookup', hboth⟩ := hcsrf
    rw [hcookie] at hcookie'
    cases hcookie'
    rw [hlookup] at hlookup'
    cases hlookup'
    refine ⟨record, ⟨token, hcookie, run_granted hstart hrun token record hlookup, ?_⟩, hboth⟩
    rw [hstep.begun]
    exact hexpires
  refine ⟨fun path hpath hlogin hapi hreply => ?_, fun hchanged => ?_, hconfirmed,
    fun hA url info hinfo hchanged => ?_⟩
  · apply session_authorised hstart hrun hstep.begun
    exact fun hno => hreply (guest_reply hno hpath hlogin hapi hlate)
  · exact session_authorised hstart hrun hstep.begun (hsession hchanged)
  · exact hconfirmed fun hkept => hchanged (hkept.records hA hinfo)

/-! ### A recorded run -/

/-- Requests handled one after the other, with answers to their calls. -/
def nextExchange (cfg : Config) (libs : Libs) (w : World) (q : Request × List Choice) :
    Option (Exchange × World) :=
  let played := playUnder Anything (handleRequest cfg libs q.1) q.2 w
  played.1.result.map fun r => (exchange q.1 w r played.2, played.2)

theorem nextExchange_handles {q : Request × List Choice} {e : Exchange}
    (h : nextExchange cfg libs w q = some (e, w')) : Handles Anything cfg libs w e w' := by
  obtain ⟨r, hr, he⟩ := Option.map_eq_some_iff.mp h
  cases he
  exact ⟨playUnder_runs Anything hr, rfl, rfl⟩

theorem httpRun_of_play {requests : List (Request × List Choice)} {log : List Exchange}
    (h : Transition.Run.play (nextExchange cfg libs) w requests = some (log, w')) :
    HttpRun Anything cfg libs w log w' := by
  refine Transition.Run.of_play ?_ h
  intro w q e w' hnext
  exact nextExchange_handles hnext

/-- The bytes whose digits are the digest configured. -/
def samplePassword : Bytes := [
  0x7a, 0xf3, 0x02, 0x93, 0x40, 0xd2, 0x20, 0x98, 0x47, 0xc0, 0x0e, 0x95, 0x47, 0xda, 0x3c, 0x14,
  0x29, 0xf4, 0xb4, 0xca, 0xfb, 0xe3, 0xd7, 0xcf, 0x2a, 0x75, 0xa0, 0x52, 0x18, 0xa9, 0xef, 0xe5]

def sessionBytes : Bytes := List.replicate 32 0xaa
def csrfBytes : Bytes := List.replicate 32 0xbb

def loginRequest (password : Bytes) : Request where
  path := some (lit "/api/login")
  method := .post
  body := some password

def loginFine : List Choice :=
  [fine, fine, named sessionBytes, named csrfBytes] ++ List.replicate 6 fine

/-- An upload of `x` with the tokens of a session. -/
def heldUpload : Request where
  path := some (lit "/upload")
  method := .post
  findHeader := findIn [(lit "FileName", lit "eA=="), (lit "StorageType", low),
    (lit "Cookie", lit "session=" ++ hexDigits sessionBytes ++ lit "; csrf=" ++ hexDigits csrfBytes),
    (lit "X-CSRF-Token", hexDigits csrfBytes)]
  body := some (lit "abc")

def heldUploadFine : List Choice :=
  List.replicate 3 fine ++ uploadFine (lit "AAAAAA") (lit "BBBBBB")

theorem requests_authorised_upload : ∃ log w e w',
    Transition.Run.play (nextExchange settledConfig keptLibs) World.empty
      [(loginRequest samplePassword, loginFine)] = some (log, w) ∧
    nextExchange settledConfig keptLibs w (heldUpload, heldUploadFine) = some (e, w') ∧
    w'.table.lookup (lit "/download/x") = some (recordAt settledConfig (lit "x")) ∧
    ∃ record, Authorised settledConfig keptLibs log e record ∧ Confirmed e record := by
  have hplay : (Transition.Run.play (nextExchange settledConfig keptLibs) World.empty
      [(loginRequest samplePassword, loginFine)]).any (fun out =>
        decide (out.2.table.lookup (lit "/download/x") = none) &&
        (nextExchange settledConfig keptLibs out.2 (heldUpload, heldUploadFine)).any fun next =>
          decide (next.2.table.lookup (lit "/download/x") =
            some (recordAt settledConfig (lit "x")))) = true := by decide +kernel
  obtain ⟨⟨log, w⟩, hrun, hnext⟩ := (Option.any_eq_true _ _).mp hplay
  simp only [Bool.and_eq_true, decide_eq_true_eq] at hnext
  obtain ⟨hnone, hnext⟩ := hnext
  obtain ⟨⟨e, w'⟩, hnext, hsome⟩ := (Option.any_eq_true _ _).mp hnext
  have hsome := of_decide_eq_true hsome
  have hauthorised := requests_authorised rfl (httpRun_of_play hrun)
  have hchanged := (hauthorised.2 e w' (nextExchange_handles hnext)).2.2.1
  refine ⟨log, w, e, w', hrun, hnext, hsome, hchanged fun hkept => ?_⟩
  rw [hkept.table, hnone] at hsome
  cases hsome

end CloudStorage
