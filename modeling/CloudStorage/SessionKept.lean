import CloudStorage.Authority

/-!
# How long a session lasts

The reply of a login goes with a record in the store, and the record stays until it
expires, unless somebody logs out with its token or a later login draws the same one.
-/

namespace CloudStorage
open Posix Interact

/-- The session is in the store, unless it has expired. -/
def Lasts (token : Bytes) (record : SessionRecord) (w : World) : Prop :=
  w.clock < record.expires_at → w.sessions.lookup token = some record

/-- The reply of the exchange hands out the token. -/
def Issues (cfg : Config) (e : Exchange) (token : Bytes) : Prop :=
  ∃ csrf, e.response = (loggedIn cfg token csrf).secured

variable {A : Assumption} {cfg : Config} {libs : Libs} {request : Request} {w w' : World}
  {token : Bytes} {record : SessionRecord}

/-- The same sessions are live, but for those of `changed`, and the clock did not run back. -/
structure StillLive (changed : Set Bytes) (w w' : World) : Prop where
  live : SameLive changed w w'
  clock : w.clock ≤ w'.clock

theorem StillLive.lasts {changed : Set Bytes} (h : StillLive changed w w') (htoken : token ∉ changed)
    (hlasts : Lasts token record w) : Lasts token record w' := by
  intro hearly
  have hbefore := hlasts (Int.lt_of_le_of_lt h.clock hearly)
  have hlive := h.live token w'.clock htoken (Int.le_refl _)
  rw [hbefore, SessionStore.liveAt, SessionStore.liveAt, Option.filter_some] at hlive
  simp only [hearly, decide_true, if_true] at hlive
  exact (Option.filter_eq_some_iff.mp hlive).1

theorem SameSessions.lasts (h : SameSessions w w') (hlasts : Lasts token record w) :
    Lasts token record w' := by
  intro hearly
  rw [h.sessions]
  exact hlasts (Int.lt_of_le_of_lt h.clock hearly)

theorem SameGuests.lasts (h : SameGuests w w') (hlasts : Lasts token record w) :
    Lasts token record w' :=
  SameSessions.lasts ⟨h.sessions, h.clock⟩ hlasts

/-- Tokens as the store draws them. -/
def Drawn (session csrf : Bytes) : Prop :=
  ∃ bytes bytes', session = hexDigits bytes ∧ csrf = hexDigits bytes'

/-! ### The calls of the store -/

theorem wp_authenticate_lasts (hlasts : Lasts token record w) :
    wp (System A) (authenticate request)
      (fun r w' => Lasts token record w' ∧ ∀ auth, r = some auth →
        request.getCookie (lit "session") = some auth.session_token) (fun _ => True) w := by
  apply wp_mono (wp_and wp_authenticate wp_authenticate_old) _ fun _ _ => trivial
  intro r w' h
  obtain ⟨⟨hlive, hsome⟩, hold, -, -⟩ := h
  have hstill : StillLive ∅ w w' := ⟨hlive, hold.clock⟩
  exact ⟨hstill.lasts (Set.notMem_empty token) hlasts, fun auth hauth => (hsome auth hauth).1⟩

/-- Only the session of the new token is another. -/
theorem wp_createSession_live {ttl : Int} :
    wp (System A) (createSession ttl)
      (fun r w' => match r with
        | none => SameSessions w w'
        | some (session, csrf) => StillLive {session} w w' ∧ Drawn session csrf)
      (fun _ => True) w := by
  unfold createSession
  rw [wp_bind]
  apply wp_randBytes trivial
  intro session w₁ hD₁
  have h₁ := hD₁.sameSessions
  cases session with
  | none => exact h₁
  | some session =>
    dsimp only
    rw [wp_bind]
    apply wp_randBytes trivial
    intro csrf w₂ hD₂
    have h₂ := h₁.trans hD₂.sameSessions
    cases csrf with
    | none => exact h₂
    | some csrf =>
      dsimp only
      rw [wp_bind]
      apply wp_loadSessions trivial
      intro w₃ hD₃
      rw [wp_bind]
      apply wp_now trivial
      intro swept w₄ _ hD₄ hswept
      rw [wp_bind]
      apply wp_now trivial
      intro expiry w₅ _ hD₅ _
      rw [wp_bind]
      apply wp_storeSessions trivial
      intro w₆ hsessions hclock
      have hlater : w₄.clock ≤ w₆.clock := Int.le_trans hD₅.clock hclock
      have hbefore : w.clock ≤ w₄.clock :=
        Int.le_trans h₂.clock (Int.le_trans hD₃.clock hD₄.clock)
      refine ⟨⟨fun other time hother htime => ?_, Int.le_trans hbefore hlater⟩, ⟨_, _, rfl, rfl⟩⟩
      have hswept : swept ≤ time := by
        rw [← hswept]
        exact Int.le_trans hlater htime
      rw [hsessions, h₂.sessions]
      simp only [SessionStore.create, SessionStore.randomToken, Option.map_some]
      rw [AList.lookup_insert_ne hother, SessionStore.removeExpired_lookup]
      exact SessionStore.liveAt_later hswept

/-! ### Login and logout -/

/-- A login that succeeds has stored the session of its reply, and no other login answers 200. -/
theorem wp_login_stored :
    wp (System A) (login cfg libs request)
      (fun r w' => r.status ≠ 200 ∧ SameSessions w w' ∨
        ∃ session csrf, r = loggedIn cfg session csrf ∧ StillLive {session} w w' ∧
          Drawn session csrf ∧ Created cfg.sessionTtlSeconds session csrf w w')
      (fun _ => True) w := by
  unfold login
  apply wp_seq (wp_aside (aside_allowLogin _)) fun _ _ => trivial
  intro allowed w₁ h₁
  cases allowed with
  | false => exact Or.inl ⟨by decide, h₁⟩
  | true =>
    simp only [ite_true]
    apply wp_seq (wp_aside (aside_readRequestBody request 1024)) fun _ _ => trivial
    intro body w₂ h₂
    have h₂ := h₁.trans h₂
    cases body with
    | none => exact Or.inl ⟨by decide, h₂⟩
    | some password =>
      dsimp only
      split
      · apply wp_seq (wp_and wp_createSession_live wp_createSession_stored) fun _ _ => trivial
        intro tokens w₃ hcreated
        cases tokens with
        | none => exact Or.inl ⟨by decide, h₂.trans hcreated.1⟩
        | some tokens =>
          obtain ⟨session, csrf⟩ := tokens
          obtain ⟨⟨hlive, hdrawn⟩, hothers, ⟨time, hlookup, hearly, hlate⟩, hclock⟩ := hcreated
          apply wp_seq (wp_aside (aside_succeedLogin _)) fun _ _ => trivial
          intro _ w₄ h₄
          refine Or.inr ⟨session, csrf, rfl, ⟨?_, ?_⟩, hdrawn, ?_, ⟨time, ?_, ?_, ?_⟩, ?_⟩
          · exact h₄.after (h₂.before hlive.live)
          · exact Int.le_trans h₂.clock (Int.le_trans hlive.clock h₄.clock)
          · intro other found hother h
            rw [h₄.sessions] at h
            rw [← h₂.sessions]
            exact hothers other found hother h
          · rw [h₄.sessions, hlookup]
          · exact Int.le_trans h₂.clock hearly
          · exact Int.le_trans hlate h₄.clock
          · exact Int.le_trans h₂.clock (Int.le_trans hclock h₄.clock)
      · apply wp_seq (wp_aside (aside_failLogin _)) fun _ _ => trivial
        intro _ w₃ h₃
        exact Or.inl ⟨by decide, h₂.trans h₃⟩

theorem wp_logout_lasts (hlasts : Lasts token record w) :
    wp (System A) (logout cfg request)
      (fun r w' => Lasts token record w' ∨
        r.status = 200 ∧ request.getCookie (lit "session") = some token) (fun _ => True) w := by
  unfold logout
  apply wp_seq (wp_authenticate_lasts hlasts) fun _ _ => trivial
  intro auth w₁ hauth
  obtain ⟨hlasts, hcookie⟩ := hauth
  cases auth with
  | none => exact Or.inl hlasts
  | some auth =>
    apply wp_seq wp_removeSession fun _ _ => trivial
    intro _ w₂ hremoved
    obtain ⟨hsessions, hclock⟩ := hremoved
    by_cases htoken : auth.session_token = token
    · exact Or.inr ⟨rfl, htoken ▸ hcookie auth rfl⟩
    · left
      intro hearly
      rw [hsessions, AList.lookup_erase_ne fun h => htoken h.symm]
      exact hlasts (Int.lt_of_le_of_lt hclock hearly)

/-! ### One request -/

theorem wp_onlyStorage_lasts {p : Program Response} (hp : OnlyStorage p)
    (hlasts : Lasts token record w) (P : Response → Prop) :
    wp (System A) p (fun r w' => Lasts token record w' ∨ P r) (fun _ => True) w := by
  apply wp_mono (wp_onlyStorage hp) _ fun _ _ => trivial
  exact fun _ _ h => Or.inl (h.lasts hlasts)

theorem wp_guarded_lasts {auth : AuthContext} {handler : Program Response} {P : Response → Prop}
    (hlasts : Lasts token record w)
    (h : request.method = .post →
      wp (System A) handler (fun r w' => Lasts token record w' ∨ P r) (fun _ => True) w) :
    wp (System A) (guarded request auth handler) (fun r w' => Lasts token record w' ∨ P r)
      (fun _ => True) w := by
  unfold guarded
  split
  · exact Or.inl hlasts
  rename_i hmethod
  split
  · exact Or.inl hlasts
  · exact h (not_not.mp hmethod)

/-- A `POST` to `/logout` with the token that is answered 200. -/
def Removes (request : Request) (path token : Bytes) (r : Response) : Prop :=
  path = lit "/logout" ∧ request.method = .post ∧ r.status = 200 ∧
    request.getCookie (lit "session") = some token

theorem wp_route_lasts {auth : AuthContext} {path : Bytes} (hlasts : Lasts token record w) :
    wp (System A) (route cfg libs request auth path)
      (fun r w' => Lasts token record w' ∨ Removes request path token r) (fun _ => True) w := by
  unfold route
  split
  · split
    · exact Or.inl hlasts
    · exact wp_onlyStorage_lasts storage_listFiles hlasts _
  split
  · exact wp_guarded_lasts hlasts fun _ => wp_onlyStorage_lasts storage_upload hlasts _
  split
  · exact wp_guarded_lasts hlasts fun _ => wp_onlyStorage_lasts storage_delete hlasts _
  split
  · rename_i hpath
    apply wp_guarded_lasts hlasts
    intro hmethod
    apply wp_mono (wp_logout_lasts hlasts) _ fun _ h => h
    exact fun _ _ h => h.imp_right fun h => ⟨hpath, hmethod, h.1, h.2⟩
  split
  · split
    · exact Or.inl hlasts
    · exact wp_onlyStorage_lasts (storage_download path) hlasts _
  · exact Or.inl hlasts

/-- What a request leaves of a session. -/
def SessionKept (cfg : Config) (e : Exchange) (token : Bytes) (record : SessionRecord)
    (w' : World) : Prop :=
  Lasts token record w' ∨ LogsOut e token ∨ Issues cfg e token

theorem wp_dispatch_lasts {path : Bytes} (hpath : request.At path)
    (hlasts : Lasts token record w) :
    wp (System A) (dispatch cfg libs request path)
      (fun r w' => SessionKept cfg (exchange request w r.secured w') token record w')
      (fun _ => True) w := by
  unfold dispatch
  split
  · split
    · exact Or.inl hlasts
    · apply wp_mono (wp_aside aside_showLogin) _ fun _ _ => trivial
      exact fun _ _ h => Or.inl (h.lasts hlasts)
  split
  · split
    · exact Or.inl hlasts
    · apply wp_mono wp_login_stored _ fun _ h => h
      intro r w' h
      rcases h with ⟨-, hsame⟩ | ⟨session, csrf, hreply, hlive, -⟩
      · exact Or.inl (hsame.lasts hlasts)
      by_cases hsession : token = session
      · exact Or.inr (Or.inr ⟨csrf, by rw [hsession, exchange, hreply]⟩)
      · exact Or.inl (hlive.lasts hsession hlasts)
  · apply wp_seq (wp_authenticate_lasts hlasts) fun _ _ => trivial
    intro auth w₁ hauth
    obtain ⟨hlasts, -⟩ := hauth
    cases auth with
    | none => exact Or.inl hlasts
    | some auth =>
      apply wp_mono (wp_route_lasts hlasts) _ fun _ h => h
      intro r w' h
      apply h.imp_right
      rintro ⟨rfl, hmethod, hstatus, hcookie⟩
      exact Or.inl ⟨hpath, hmethod, hcookie, hstatus⟩

theorem wp_handleRequest_lasts (hlasts : Lasts token record w) :
    wp (System A) (handleRequest cfg libs request)
      (fun r w' => SessionKept cfg (exchange request w r w') token record w') (fun _ => True) w := by
  unfold handleRequest
  split
  · exact Or.inl hlasts
  rename_i rawPath hraw
  split
  · exact Or.inl hlasts
  rename_i path hdecoded
  apply wp_seq (wp_dispatch_lasts ⟨rawPath, hraw, hdecoded⟩ hlasts) fun _ h => h
  exact fun _ _ h => h

theorem Handles.lasts {e : Exchange} (h : Handles A cfg libs w e w')
    (hlasts : Lasts token record w) (hout : ¬LogsOut e token) (hissued : ¬Issues cfg e token) :
    Lasts token record w' := by
  have hkept := wp_runs (wp_handleRequest_lasts hlasts) h.runs
  rw [exchange, ← h.begun, ← h.ended] at hkept
  rcases hkept with hlasts | hgone | hissue
  · exact hlasts
  · exact absurd hgone hout
  · exact absurd hissue hissued

theorem run_lasts {log : List Exchange} (hrun : HttpRun A cfg libs w log w')
    (hlasts : Lasts token record w)
    (hkept : ∀ e ∈ log, ¬LogsOut e token ∧ ¬Issues cfg e token) : Lasts token record w' := by
  induction hrun with
  | nil => exact hlasts
  | snoc _ hstep ih =>
    rename_i log e _
    have hbefore := ih fun e' he' => hkept e' (List.mem_append_left _ he')
    have hlast := hkept e (List.mem_append_right _ (List.mem_singleton.mpr rfl))
    exact hstep.lasts hbefore hlast.1 hlast.2

/-! ### The reply of a login -/

/-- The two cookies of a login. -/
def loginCookies (cfg : Config) (session csrf : Bytes) : Headers := [
  (lit "Set-Cookie", lit "session=" ++ session ++ cookieSuffix cfg true),
  (lit "Set-Cookie", lit "csrf=" ++ csrf ++ cookieSuffix cfg false)]

theorem loggedIn_headers (session csrf : Bytes) :
    (loggedIn cfg session csrf).secured.headers = securityHeaders ++ (noCache ++
      loginCookies cfg session csrf ++ [(lit "Content-Type", lit "text/plain;charset=utf-8")]) := rfl

theorem loggedIn_inj {session csrf session' csrf' : Bytes}
    (h : (loggedIn cfg session csrf).secured = (loggedIn cfg session' csrf').secured) :
    session = session' ∧ csrf = csrf' := by
  have hheaders := congrArg Response.headers h
  rw [loggedIn_headers, loggedIn_headers] at hheaders
  have hcookies := List.append_cancel_right (List.append_cancel_left hheaders)
  simp only [loginCookies, List.append_assoc, List.append_cancel_left_eq, List.cons.injEq,
    Prod.mk.injEq, true_and, and_true, List.append_cancel_right_eq] at hcookies
  exact hcookies

/-- The session of a login that was answered with it. -/
structure LoggedInWith (cfg : Config) (e : Exchange) (token csrf : Bytes) : Prop where
  path : e.request.At (lit "/api/login")
  reply : e.response = (loggedIn cfg token csrf).secured

theorem wp_dispatch_stored {path csrf : Bytes} (hpath : path = lit "/api/login") :
    wp (System A) (dispatch cfg libs request path)
      (fun r w' => r.secured = (loggedIn cfg token csrf).secured →
        Drawn token csrf ∧ Created cfg.sessionTtlSeconds token csrf w w') (fun _ => True) w := by
  unfold dispatch
  rw [if_neg (by rw [hpath]; decide), if_pos hpath]
  split
  · intro hreply
    exact absurd (congrArg Response.status hreply) (by decide : (405 : Nat) ≠ 200)
  · apply wp_mono wp_login_stored _ fun _ h => h
    intro r w' h hreply
    rcases h with ⟨hstatus, -⟩ | ⟨session, csrf', rfl, -, hdrawn, hcreated⟩
    · exact absurd (congrArg Response.status hreply) hstatus
    · obtain ⟨rfl, rfl⟩ := loggedIn_inj hreply
      exact ⟨hdrawn, hcreated⟩

theorem Handles.stored {e : Exchange} {csrf : Bytes} (h : Handles A cfg libs w e w')
    (hlogin : LoggedInWith cfg e token csrf) :
    Drawn token csrf ∧ ∃ record, record.csrf_token = csrf ∧
      e.begun + cfg.sessionTtlSeconds * second ≤ record.expires_at ∧ Lasts token record w' := by
  obtain ⟨rawPath, hraw, hdecoded⟩ := hlogin.path
  have hwp : wp (System A) (handleRequest cfg libs e.request)
      (fun r w' => r = (loggedIn cfg token csrf).secured →
        Drawn token csrf ∧ Created cfg.sessionTtlSeconds token csrf w w') (fun _ => True) w := by
    simp only [handleRequest, hraw, hdecoded]
    apply wp_seq (wp_dispatch_stored rfl) fun _ h => h
    exact fun _ _ h => h
  have hcreated := wp_runs hwp h.runs
  obtain ⟨hdrawn, -, ⟨time, hlookup, hearly, -⟩, -⟩ := hcreated hlogin.reply
  refine ⟨hdrawn, ⟨csrf, time + cfg.sessionTtlSeconds * second⟩, rfl, ?_, fun _ => hlookup⟩
  rw [h.begun]
  exact Int.add_le_add_right hearly _

end CloudStorage
