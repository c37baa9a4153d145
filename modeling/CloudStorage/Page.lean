import CloudStorage.Browser
import CloudStorage.SessionKept

/-!
# The pages and the server

The requests of the scripts in `index.html`, from a browser that has kept the cookies
of a login. As long as the session lasts, each of them is answered by the handler it is
for, with exactly the name, the file or the URL that the script was given.
-/

namespace CloudStorage
open Posix Interact JsText

/-! ### The scripts -/

/-- The standard base64 of a string of bytes. -/
def btoa (s : CodeUnits) : Option CodeUnits :=
  (latin1 s).map fun bytes => byteUnits (encodeGroups false bytes)

/-- A request of a page. -/
structure Fetch where
  method : Method
  path : Bytes
  headers : List (Bytes × CodeUnits) := []
  body : Bytes := []
  deriving DecidableEq, Repr

namespace Page

def csrfHeader (document : CodeUnits) : Bytes × CodeUnits :=
  (lit "X-CSRF-Token", Browser.getCookie document (byteUnits (lit "csrf")))

/-- `encodedFilename`; it throws on a name that is no text. -/
def encodedFilename (name : CodeUnits) : Option CodeUnits :=
  (encodeURIComponent name).bind fun encoded => btoa (unescape encoded)

def uploadFile (document storageType name : CodeUnits) (file : Bytes) : Option Fetch :=
  (encodedFilename name).map fun encodedFilename => {
    method := .post
    path := lit "/upload"
    headers := [(lit "StorageType", storageType), (lit "FileName", encodedFilename),
      csrfHeader document]
    body := file }

def deleteFile (document url : CodeUnits) : Fetch where
  method := .post
  path := lit "/delete"
  headers := [(lit "DeleteUrl", url), csrfHeader document]

def logout (document : CodeUnits) : Fetch where
  method := .post
  path := lit "/logout"
  headers := [csrfHeader document]

/-- `location.reload()`, and the end of the login page. -/
def reload : Fetch where
  method := .get
  path := lit "/"

/-- `window.location=this.dataset.url`; the link is a path. -/
def openLink (path : Bytes) : Fetch where
  method := .get
  path := path

end Page

/-- The request of the fetch, with the cookies, as the server gets it. -/
structure Fetch.Reaches (fetch : Fetch) (cookies : Bytes) (request : Request) : Prop where
  method : request.method = fetch.method
  path : request.path = some fetch.path
  /-- among other headers -/
  headers : ∀ h ∈ fetch.headers, ∃ value, latin1 h.2 = some value ∧
    request.findHeader h.1 = some value
  cookies : request.findHeader (lit "Cookie") = some cookies
  body : request.body = some fetch.body

/-- The handler gives the reply, on table and files as they were. -/
def AnsweredBy (A : Assumption) (handler : Program Response) (w : World) (e : Exchange)
    (w' : World) : Prop :=
  ∃ w₁ r, Untouched w w₁ ∧ Runs (System A) handler w₁ r w' ∧ e.response = r.secured

variable {A : Assumption} {cfg : Config} {libs : Libs} {request : Request} {w w' : World}
  {token : Bytes} {record : SessionRecord}

/-! ### The cookies of a login -/

theorem hexDigits_hex {digest : Bytes} {b : Byte} (h : b ∈ hexDigits digest) :
    48 ≤ b.toNat ∧ b.toNat ≤ 57 ∨ 97 ≤ b.toNat ∧ b.toNat ≤ 102 := by
  have hdigit : ∀ n < 16, 48 ≤ (if n < 10 then UInt8.ofNat (48 + n) else UInt8.ofNat (87 + n)).toNat ∧
      (if n < 10 then UInt8.ofNat (48 + n) else UInt8.ofNat (87 + n)).toNat ≤ 57 ∨
      97 ≤ (if n < 10 then UInt8.ofNat (48 + n) else UInt8.ofNat (87 + n)).toNat ∧
      (if n < 10 then UInt8.ofNat (48 + n) else UInt8.ofNat (87 + n)).toNat ≤ 102 := by decide
  obtain ⟨c, -, hb⟩ := List.mem_flatMap.mp h
  have hlt := c.toNat_lt
  simp only [List.mem_cons, List.not_mem_nil, or_false] at hb
  rcases hb with rfl | rfl
  · exact hdigit (c.toNat / 16) (by omega)
  · exact hdigit (c.toNat % 16) (by omega)

theorem hexDigits_mark {digest : Bytes} {mark : Byte} (h : mark.toNat < 48 ∨ 57 < mark.toNat ∧ mark.toNat < 97) :
    mark ∉ hexDigits digest := by
  intro hmem
  have hhex := hexDigits_hex hmem
  omega

theorem hexDigits_value (digest : Bytes) : CookieValue (hexDigits digest) := by
  have hblank : ∀ b ∈ hexDigits digest, isBlank b = false := by
    intro b hb
    have hhex := hexDigits_hex hb
    simp only [isBlank, Bool.or_eq_false_iff, beq_eq_false_iff_ne]
    omega
  refine ⟨hexDigits_mark (Or.inr (by decide)), fun b hb => ?_, fun b hb => ?_⟩
  · exact hblank b (List.mem_of_head? hb)
  · exact hblank b (List.mem_of_getLast? hb)

theorem CookieValue.trim {value : Bytes} (h : CookieValue value) : trim value = value := by
  have htrim := @trim_padded [] value [] (fun _ h => (nomatch h)) (fun _ h => (nomatch h))
    h.first h.last
  rwa [List.nil_append, List.append_nil] at htrim

theorem trim_blankless {text : Bytes} (h : ∀ b ∈ text, isBlank b = false) : trim text = text := by
  have htrim := @trim_padded [] text [] (fun _ h => (nomatch h)) (fun _ h => (nomatch h))
    (fun b hb => h b (List.mem_of_head? hb)) fun b hb => h b (List.mem_of_getLast? hb)
  rwa [List.nil_append, List.append_nil] at htrim

/-- What follows the pair in the cookies of a login. -/
def loginAttributes (cfg : Config) (httpOnly : Bool) : List Bytes :=
  [lit " Path=/", lit " SameSite=Strict", lit " Max-Age=" ++ decimal cfg.sessionTtlSeconds] ++
    (if httpOnly then [lit " HttpOnly"] else []) ++ (if cfg.cookieSecure then [lit " Secure"] else [])

theorem cookieSuffix_items (pair : Bytes) (httpOnly : Bool) :
    pair ++ cookieSuffix cfg httpOnly =
      [semicolon].intercalate (pair :: loginAttributes cfg httpOnly) := by
  have hstart : lit "; Path=/; SameSite=Strict; Max-Age=" = semicolon :: (lit " Path=/" ++
      semicolon :: (lit " SameSite=Strict" ++ semicolon :: lit " Max-Age=")) := by decide
  have honly : lit "; HttpOnly" = semicolon :: lit " HttpOnly" := by decide
  have hsecure : lit "; Secure" = semicolon :: lit " Secure" := by decide
  unfold cookieSuffix secureSuffix loginAttributes
  cases httpOnly <;> cases cfg.cookieSecure <;>
    simp [hstart, honly, hsecure, List.intercalate_cons_cons]

theorem loginAttributes_marks (httpOnly : Bool) :
    ∀ text ∈ loginAttributes cfg httpOnly, semicolon ∉ text := by
  have hage : semicolon ∉ lit " Max-Age=" ++ decimal cfg.sessionTtlSeconds := by
    intro hmem
    rcases List.mem_append.mp hmem with hname | hdigit
    · exact absurd hname (by decide)
    · exact absurd (decimal_digit hdigit).2 (by decide)
  intro text htext
  simp only [loginAttributes, List.mem_append, List.mem_cons, List.not_mem_nil, or_false] at htext
  rcases htext with ((rfl | rfl | rfl) | hhttp) | hsecure
  · decide
  · decide
  · exact hage
  · split at hhttp
    · rw [List.mem_singleton.mp hhttp]
      decide
    · cases hhttp
  · split at hsecure
    · rw [List.mem_singleton.mp hsecure]
      decide
    · cases hsecure

/-- The attributes as a browser reads them. -/
theorem loginAttributes_read (httpOnly : Bool) :
    (loginAttributes cfg httpOnly).map Browser.cookieAttribute =
      [(lit "path", lit "/"), (lit "samesite", lit "Strict"),
        (lit "max-age", decimal cfg.sessionTtlSeconds)] ++
      (if httpOnly then [(lit "httponly", [])] else []) ++
        (if cfg.cookieSecure then [(lit "secure", [])] else []) := by
  have hage : Browser.cookieAttribute (lit " Max-Age=" ++ decimal cfg.sessionTtlSeconds) =
      (lit "max-age", decimal cfg.sessionTtlSeconds) := by
    have hname : equalSign ∉ lit " Max-Age" := by decide
    have htext : lit " Max-Age=" ++ decimal cfg.sessionTtlSeconds =
        lit " Max-Age" ++ equalSign :: decimal cfg.sessionTtlSeconds := rfl
    have htrim : trim (decimal cfg.sessionTtlSeconds) = decimal cfg.sessionTtlSeconds := by
      apply trim_blankless
      intro b hb
      have hdigit := decimal_digit hb
      simp only [isBlank, Bool.or_eq_false_iff, beq_eq_false_iff_ne]
      omega
    rw [Browser.cookieAttribute, Browser.splitPair, htext, dropWhile_mark hname, takeWhile_mark hname]
    simp only [htrim]
    exact congrArg (fun name => (name, decimal cfg.sessionTtlSeconds)) (by decide)
  have hpath : Browser.cookieAttribute (lit " Path=/") = (lit "path", lit "/") := by decide
  have hsite : Browser.cookieAttribute (lit " SameSite=Strict") = (lit "samesite", lit "Strict") := by
    decide
  have honly : Browser.cookieAttribute (lit " HttpOnly") = (lit "httponly", []) := by decide
  have hsecure : Browser.cookieAttribute (lit " Secure") = (lit "secure", []) := by decide
  unfold loginAttributes
  cases httpOnly <;> cases cfg.cookieSecure <;> simp [hage, hpath, hsite, honly, hsecure]

/-- The attributes that matter to the browser. -/
theorem loginAttributes_meant (httpOnly : Bool) :
    let attributes := (loginAttributes cfg httpOnly).map Browser.cookieAttribute
    Browser.maxAge attributes = some (cfg.sessionTtlSeconds : Int) ∧
      (attributes.any fun a => decide (a.1 = lit "httponly")) = httpOnly ∧
      (attributes.any fun a => decide (a.1 = lit "secure")) = cfg.cookieSecure := by
  have hage := Browser.delta_decimal cfg.sessionTtlSeconds
  have hnames : lit "path" ≠ lit "max-age" ∧ lit "samesite" ≠ lit "max-age" ∧
      lit "httponly" ≠ lit "max-age" ∧ lit "secure" ≠ lit "max-age" := by decide
  have hothers : lit "path" ≠ lit "httponly" ∧ lit "samesite" ≠ lit "httponly" ∧
      lit "max-age" ≠ lit "httponly" ∧ lit "secure" ≠ lit "httponly" := by decide
  have hsecure : lit "path" ≠ lit "secure" ∧ lit "samesite" ≠ lit "secure" ∧
      lit "max-age" ≠ lit "secure" ∧ lit "httponly" ≠ lit "secure" := by decide
  dsimp only
  rw [loginAttributes_read]
  cases httpOnly <;> cases cfg.cookieSecure <;>
    simp [Browser.maxAge, hage, hnames, hothers, hsecure]

theorem set_cookie {https : Bool} {now : Int} {jar : Browser.Jar} {name value : Bytes} {httpOnly : Bool}
    (hname : CookieName name) (hvalue : CookieValue value) (hchannel : cfg.cookieSecure = true → https = true)
    (httl : 0 < cfg.sessionTtlSeconds) :
    Browser.Jar.set https now jar (name ++ equalSign :: value ++ cookieSuffix cfg httpOnly) =
      jar.put ⟨name, value, httpOnly, some (now + cfg.sessionTtlSeconds)⟩ := by
  have hpair : semicolon ∉ name ++ equalSign :: value := by
    intro hmem
    rcases List.mem_append.mp hmem with hmem | hmem
    · exact hname.semicolon hmem
    · rcases List.mem_cons.mp hmem with hequal | hmem
      · exact absurd hequal (by decide)
      · exact hvalue.semicolon hmem
  have hmarks : ∀ text ∈ (name ++ equalSign :: value) :: loginAttributes cfg httpOnly,
      semicolon ∉ text := by
    intro text htext
    rcases List.mem_cons.mp htext with rfl | htext
    · exact hpair
    · exact loginAttributes_marks httpOnly text htext
  have hsplit : Browser.splitPair (name ++ equalSign :: value) = some (name, value) := by
    rw [Browser.splitPair, dropWhile_mark hname.equal, takeWhile_mark hname.equal]
    simp only [hname.trim, hvalue.trim]
  have hage : ¬(cfg.sessionTtlSeconds : Int) ≤ 0 := by omega
  obtain ⟨hmax, honly, hsecure⟩ := @loginAttributes_meant cfg httpOnly
  have hsent : (cfg.cookieSecure && !https) = false := by
    cases hcookie : cfg.cookieSecure with
    | false => rfl
    | true => rw [hchannel hcookie]; rfl
  rw [cookieSuffix_items, Browser.Jar.set,
    List.splitOn_intercalate semicolon hmarks (List.cons_ne_nil _ _)]
  simp only [hsplit, hname.ne_nil, if_false, hmax, honly, hsecure, hsent, Bool.false_eq_true, hage]

/-- The cookie of a token, received at a time. -/
def tokenCookie (cfg : Config) (name token : Bytes) (httpOnly : Bool) (received : Int) : Browser.Cookie :=
  ⟨name, token, httpOnly, some (received + cfg.sessionTtlSeconds)⟩

theorem tokenCookie_plain {name digest : Bytes} {httpOnly : Bool} {received : Int}
    (hname : CookieName name)
    (hprintable : (name.all fun b => decide (32 ≤ b.toNat ∧ b.toNat < 127)) = true) :
    (tokenCookie cfg name (hexDigits digest) httpOnly received).Plain := by
  refine ⟨hname, hexDigits_value digest, fun b hb => ?_⟩
  rcases List.mem_append.mp hb with hmem | hmem
  · exact of_decide_eq_true (List.all_eq_true.mp hprintable b hmem)
  · rcases List.mem_cons.mp hmem with rfl | hmem
    · decide
    · have hhex := hexDigits_hex hmem
      omega

theorem cookieName_of {name : Bytes} (hne : name ≠ []) (hequal : equalSign ∉ name)
    (hsemicolon : semicolon ∉ name) (hblank : (name.all fun b => !isBlank b) = true) :
    CookieName name := by
  refine ⟨hne, hequal, hsemicolon, fun b hb => ?_⟩
  have hb := List.all_eq_true.mp hblank b hb
  rwa [Bool.not_eq_true'] at hb

theorem session_name : CookieName (lit "session") := by
  apply cookieName_of
  · decide
  · decide
  · decide
  · decide

theorem csrf_name : CookieName (lit "csrf") := by
  apply cookieName_of
  · decide
  · decide
  · decide
  · decide

/-- The tokens that go with the requests of a page. -/
structure Carries (document : CodeUnits) (cookies session csrf : Bytes) : Prop where
  session_cookie : ∀ request : Request, request.findHeader (lit "Cookie") = some cookies →
    request.getCookie (lit "session") = some session
  csrf_cookie : ∀ request : Request, request.findHeader (lit "Cookie") = some cookies →
    request.getCookie (lit "csrf") = some csrf
  script : Browser.getCookie document (byteUnits (lit "csrf")) = byteUnits csrf

/-- A jar after the reply of a login. -/
def loginJar (cfg : Config) (https : Bool) (received : Int) (jar : Browser.Jar) (session csrf : Bytes) :
    Browser.Jar :=
  jar.receive https received (loggedIn cfg session csrf).secured.headers

theorem loginJar_eq {https : Bool} {received : Int} {jar : Browser.Jar} {session csrf : Bytes}
    (hdrawn : Drawn session csrf) (hchannel : cfg.cookieSecure = true → https = true)
    (httl : 0 < cfg.sessionTtlSeconds) :
    loginJar cfg https received jar session csrf =
      (jar.put (tokenCookie cfg (lit "session") session true received)).put
        (tokenCookie cfg (lit "csrf") csrf false received) := by
  obtain ⟨bytes, bytes', rfl, rfl⟩ := hdrawn
  have hkept : ((loggedIn cfg (hexDigits bytes) (hexDigits bytes')).secured.headers.filter fun h =>
      decide (h.1.map lowercase = lit "set-cookie")) =
        loginCookies cfg (hexDigits bytes) (hexDigits bytes') := rfl
  rw [loginJar, Browser.Jar.receive, hkept, loginCookies, List.foldl_cons, List.foldl_cons, List.foldl_nil]
  have hsession : lit "session=" = lit "session" ++ [equalSign] := by decide
  have hcsrf : lit "csrf=" = lit "csrf" ++ [equalSign] := by decide
  simp only [hsession, hcsrf, List.append_assoc _ [equalSign], List.singleton_append]
  rw [set_cookie session_name (hexDigits_value bytes) hchannel httl,
    set_cookie csrf_name (hexDigits_value bytes') hchannel httl]
  rfl

theorem loginJar_carries {https : Bool} {received sent : Int} {jar : Browser.Jar} {session csrf : Bytes}
    (hjar : ∀ c ∈ jar, c.Plain) (hdrawn : Drawn session csrf)
    (hchannel : cfg.cookieSecure = true → https = true) (hreceived : received ≤ sent)
    (hsent : sent < received + cfg.sessionTtlSeconds) :
    Carries ((loginJar cfg https received jar session csrf).document sent)
      ((loginJar cfg https received jar session csrf).header sent) session csrf := by
  rw [loginJar_eq hdrawn hchannel (by omega)]
  obtain ⟨bytes, bytes', rfl, rfl⟩ := hdrawn
  have hlive : ∀ name token httpOnly,
      (tokenCookie cfg name token httpOnly received).live sent = true := by
    intro name token httpOnly
    exact decide_eq_true hsent
  have hplain : ∀ c ∈ (jar.put (tokenCookie cfg (lit "session") (hexDigits bytes) true received)).put
      (tokenCookie cfg (lit "csrf") (hexDigits bytes') false received), c.Plain := by
    apply Browser.put_plain
    · exact Browser.put_plain hjar (tokenCookie_plain session_name (by decide))
    · exact tokenCookie_plain csrf_name (by decide)
  refine ⟨fun request hheader => ?_, fun request hheader => ?_, ?_⟩
  · apply Browser.getCookie_header hplain hheader
    have hne : lit "csrf" ≠ lit "session" := by decide
    have hkept := @Browser.put_lookup_ne
      (jar.put (tokenCookie cfg (lit "session") (hexDigits bytes) true received))
      (tokenCookie cfg (lit "csrf") (hexDigits bytes') false received)
      (fun c => c.live sent) (lit "session") hne
    have hfound := @Browser.put_lookup jar
      (tokenCookie cfg (lit "session") (hexDigits bytes) true received)
      (fun c => c.live sent) (hlive ..)
    exact hkept.trans hfound
  · apply Browser.getCookie_header hplain hheader
    exact @Browser.put_lookup
      (jar.put (tokenCookie cfg (lit "session") (hexDigits bytes) true received))
      (tokenCookie cfg (lit "csrf") (hexDigits bytes') false received)
      (fun c => c.live sent) (hlive ..)
  · rw [Browser.getCookie_document hplain (by decide), Browser.Jar.live, List.filter_filter]
    have hfound := @Browser.put_lookup
      (jar.put (tokenCookie cfg (lit "session") (hexDigits bytes) true received))
      (tokenCookie cfg (lit "csrf") (hexDigits bytes') false received)
      (fun c => !c.httpOnly && c.live sent) (hlive ..)
    exact congrArg (fun found => byteUnits (found.getD [])) hfound

/-! ### Requests of a session -/

theorem Validated.answer {r : Option SessionRecord} (h : Validated A w token r w') :
    ∃ time, (w.sessions.lookup token = none ∨ time ≤ w'.clock) ∧
      r = SessionStore.liveAt time (w.sessions.lookup token) := by
  cases h with
  | unknown hnone => exact ⟨0, Or.inl hnone, by rw [hnone]; rfl⟩
  | @known _ time _ _ _ _ hclock _ =>
    exact ⟨time, Or.inr hclock, SessionStore.validate_answer _ _ _⟩

theorem Validated.lasts {r : Option SessionRecord} (h : Validated A w token r w')
    (hlasts : Lasts token record w) (hclock : w.clock ≤ w'.clock)
    (hearly : w'.clock < record.expires_at) : r = some record := by
  obtain ⟨time, htime, rfl⟩ := h.answer
  have hfound := hlasts (Int.lt_of_le_of_lt hclock hearly)
  rw [hfound] at htime ⊢
  have hle : time ≤ w'.clock := htime.resolve_left (Option.some_ne_none _)
  rw [SessionStore.liveAt, Option.filter_some, if_pos]
  exact decide_eq_true (Int.lt_of_le_of_lt hle hearly)

/-- The session is found while it lasts. -/
theorem wp_authenticate_served (hcookie : request.getCookie (lit "session") = some token)
    (hlasts : Lasts token record w) :
    wp (System A) (authenticate request)
      (fun r w' => Untouched w w' ∧ (w'.clock < record.expires_at → r = some ⟨token, record⟩))
      (fun _ => True) w := by
  unfold authenticate
  rw [hcookie]
  apply wp_seq (wp_and (wp_and wp_validateSession wp_validateSession_old)
    (wp_private (private_validateSession token))) fun _ _ => trivial
  intro r w' h
  obtain ⟨⟨hvalidated, hold, -⟩, hsame⟩ := h
  have hfound := hvalidated.lasts hlasts hold.clock
  cases r with
  | none => exact ⟨hsame, fun hearly => absurd (hfound hearly) (Option.some_ne_none _).symm⟩
  | some found =>
    refine ⟨hsame, fun hearly => ?_⟩
    cases hfound hearly
    rfl

/-- Paths that need no session. -/
def Public (path : Bytes) : Prop := path = lit "/login" ∨ path = lit "/api/login"

theorem wp_dispatch_served {path : Bytes} (hpath : ¬Public path)
    (hcookie : request.getCookie (lit "session") = some token) (hlasts : Lasts token record w) :
    wp (System A) (dispatch cfg libs request path)
      (fun r w' => w'.clock < record.expires_at → ∃ w₁, Untouched w w₁ ∧
        Runs (System A) (route cfg libs request ⟨token, record⟩ path) w₁ r w')
      (fun _ => True) w := by
  unfold dispatch
  rw [if_neg fun h => hpath (Or.inl h), if_neg fun h => hpath (Or.inr h)]
  apply wp_seq (wp_authenticate_served hcookie hlasts) fun _ _ => trivial
  intro auth w₁ h
  obtain ⟨hsame, hfound⟩ := h
  cases auth with
  | none => exact fun hearly => absurd (hfound hearly) (Option.some_ne_none _).symm
  | some auth =>
    apply wp_mono (wp_self _ w₁) _ fun _ h => h
    intro r w' hrun hearly
    have hbefore := Int.lt_of_le_of_lt (clock_steps hrun) hearly
    cases hfound hbefore
    exact ⟨w₁, hsame, hrun⟩

/-- A request with the token of a session that lasts is answered by its route. -/
theorem Handles.served {e : Exchange} {path : Bytes} (h : Handles A cfg libs w e w')
    (hat : e.request.At path) (hpath : ¬Public path)
    (hcookie : e.request.getCookie (lit "session") = some token) (hlasts : Lasts token record w)
    (hearly : e.ended < record.expires_at) :
    AnsweredBy A (route cfg libs e.request ⟨token, record⟩ path) w e w' := by
  obtain ⟨rawPath, hraw, hdecoded⟩ := hat
  have hwp : wp (System A) (handleRequest cfg libs e.request)
      (fun r w' => w'.clock < record.expires_at → ∃ w₁ r₁, Untouched w w₁ ∧
        Runs (System A) (route cfg libs e.request ⟨token, record⟩ path) w₁ r₁ w' ∧ r = r₁.secured)
      (fun _ => True) w := by
    simp only [handleRequest, hraw, hdecoded]
    apply wp_seq (wp_dispatch_served hpath hcookie hlasts) fun _ _ => trivial
    intro r w' hserved hearly
    obtain ⟨w₁, hsame, hrun⟩ := hserved hearly
    exact ⟨w₁, r, hsame, hrun, rfl⟩
  have hserved := wp_runs hwp h.runs
  rw [h.ended] at hearly
  exact hserved hearly

/-! ### The requests of the scripts -/

theorem encodeGroups_length (url : Bool) (bytes : Bytes) :
    (encodeGroups url bytes).length = (bytes.length + 2) / 3 * 4 := by
  induction bytes using encodeGroups.induct with
  | case1 => rfl
  | case2 b₀ => simp [encodeGroups, encodeChunk]
  | case3 b₀ b₁ => simp [encodeGroups, encodeChunk]
  | case4 b₀ b₁ b₂ rest ih =>
    have hchunk : (encodeChunk url b₀ (some b₁) (some b₂)).length = 4 := rfl
    rw [encodeGroups, List.length_append, ih, hchunk]
    simp only [List.length_cons]
    omega

theorem base64Decode_encodeGroups (url : Bool) (bytes : Bytes) :
    base64Decode (encodeGroups url bytes) = some bytes := by
  have hvalid := text_isValidBase64 (encodeGroups_text url bytes)
  rw [base64Decode, if_pos hvalid, decode_encodeGroups]

/-- The header of a name is the base64 of its UTF-8. -/
theorem encodedFilename_eq {name : CodeUnits} {text : List Char} (h : chars name = some text) :
    Page.encodedFilename name = some (byteUnits (encodeGroups false (utf8 text))) := by
  have hescaped := unescape_encodeURIComponent name
  rw [h, Option.map_some] at hescaped
  obtain ⟨encoded, hencoded, hunescaped⟩ := Option.map_eq_some_iff.mp hescaped
  rw [Page.encodedFilename, hencoded, Option.bind_some, hunescaped, btoa, latin1_byteUnits]
  rfl

/-- Names that make one header are the same. -/
theorem encodedFilename_inj {name name' header : CodeUnits}
    (h : Page.encodedFilename name = some header) (h' : Page.encodedFilename name' = some header) :
    name = name' := by
  have htext : ∀ {s : CodeUnits}, Page.encodedFilename s = some header →
      ∃ text, chars s = some text ∧ header = byteUnits (encodeGroups false (utf8 text)) := by
    intro s hs
    obtain ⟨encoded, hencoded, -⟩ := Option.bind_eq_some_iff.mp hs
    have hescaped := unescape_encodeURIComponent s
    rw [hencoded, Option.map_some] at hescaped
    obtain ⟨text, htext, -⟩ := Option.map_eq_some_iff.mp hescaped.symm
    rw [encodedFilename_eq htext] at hs
    exact ⟨text, htext, (Option.some.inj hs).symm⟩
  obtain ⟨text, hname, hheader⟩ := htext h
  obtain ⟨text', hname', hheader'⟩ := htext h'
  have hgroups : encodeGroups false (utf8 text) = encodeGroups false (utf8 text') := by
    have hlatin := congrArg latin1 (hheader.symm.trans hheader')
    rw [latin1_byteUnits, latin1_byteUnits] at hlatin
    exact Option.some.inj hlatin
  have hbytes : utf8 text = utf8 text' := by
    have hdecoded := congrArg base64Decode hgroups
    rw [base64Decode_encodeGroups, base64Decode_encodeGroups] at hdecoded
    exact Option.some.inj hdecoded
  cases utf8_inj hbytes
  exact chars_inj hname hname'

/-- A header of bytes arrives as these bytes. -/
theorem Fetch.Reaches.header {fetch : Fetch} {cookies name value : Bytes}
    (h : fetch.Reaches cookies request) (hmem : (name, byteUnits value) ∈ fetch.headers) :
    request.findHeader name = some value := by
  obtain ⟨found, hlatin, hheader⟩ := h.headers _ hmem
  rw [latin1_byteUnits] at hlatin
  cases hlatin
  exact hheader

section
variable {document : CodeUnits} {cookies csrf : Bytes} {fetch : Fetch}

theorem csrfHeader_eq (h : Carries document cookies token csrf) :
    Page.csrfHeader document = (lit "X-CSRF-Token", byteUnits csrf) := by
  rw [Page.csrfHeader, h.script]

/-- The tokens of the page are those of the session. -/
theorem guarded_page {handler : Program Response} (hcarries : Carries document cookies token record.csrf_token)
    (hreaches : fetch.Reaches cookies request) (hmethod : fetch.method = .post)
    (hcsrf : Page.csrfHeader document ∈ fetch.headers) :
    guarded request ⟨token, record⟩ handler = handler := by
  rw [csrfHeader_eq hcarries] at hcsrf
  have hpost : request.method = .post := hreaches.method.trans hmethod
  have hvalid : validateCsrf request ⟨token, record⟩ = true := by
    rw [validateCsrf, hreaches.header hcsrf, hcarries.csrf_cookie request hreaches.cookies]
    simp only [secureEqual_iff, Bool.and_self]
  rw [guarded, if_neg (not_not.mpr hpost), hvalid]
  rfl

theorem checkUpload_page {name : CodeUnits} {type file : Bytes} {text : List Char}
    (hfetch : Page.uploadFile document (byteUnits type) name file = some fetch)
    (hreaches : fetch.Reaches cookies request) (hlegal : type = low ∨ type = deep)
    (hname : chars name = some text) (hsafe : isSafeFileName (utf8 text) = true) (hne : file ≠ [])
    (hlength : file.length ≤ cfg.maxUploadSize) :
    checkUpload cfg request = .ok ⟨utf8 text, type, file⟩ := by
  rw [Page.uploadFile, encodedFilename_eq hname, Option.map_some] at hfetch
  cases hfetch
  have hbody : request.body = some file := hreaches.body
  have hfile : request.findHeader (lit "FileName") = some (encodeGroups false (utf8 text)) :=
    hreaches.header (List.mem_cons_of_mem _ (List.mem_cons_self ..))
  have htype : request.findHeader (lit "StorageType") = some type :=
    hreaches.header (List.mem_cons_self ..)
  have hempty : ¬file.length = 0 := fun h => hne (List.eq_nil_of_length_eq_zero h)
  have hshort : ¬file.length > cfg.maxUploadSize := Nat.not_lt.mpr hlength
  have hplain := isSafeFileName_plain hsafe
  have hsize : (utf8 text).length ≤ 255 := by
    unfold isSafeFileName at hsafe
    split at hsafe
    · cases hsafe
    · omega
  have hpositive : 0 < (utf8 text).length := List.length_pos_iff.mpr hplain.1
  have hencoded := encodeGroups_length false (utf8 text)
  have hheader : ¬(encodeGroups false (utf8 text) = [] ∨
      (encodeGroups false (utf8 text)).length > 1024) := by
    rintro (hnil | hlong)
    · rw [hnil, List.length_nil] at hencoded
      omega
    · omega
  simp only [checkUpload, hbody, hempty, if_false, hshort, hfile, hheader, base64Decode_encodeGroups,
    hsafe, Bool.not_true, Bool.false_eq_true, htype, hlegal, if_true]

theorem uploadFile_fetch {storageType name : CodeUnits} {file : Bytes}
    (hfetch : Page.uploadFile document storageType name file = some fetch) :
    fetch.method = .post ∧ fetch.path = lit "/upload" ∧ Page.csrfHeader document ∈ fetch.headers := by
  obtain ⟨encoded, -, rfl⟩ := Option.map_eq_some_iff.mp hfetch
  exact ⟨rfl, rfl, by simp⟩

end

theorem urlEncode_no_nul (url : Bytes) : (0 : Byte) ∉ urlEncode url true := by
  intro hmem
  exact absurd (urlEncode_bytes url true 0 hmem) (by decide)

theorem checkDelete_page {url : Bytes} (hurl : (0 : Byte) ∉ url) (hpath : isDownloadPath cfg url = true)
    (hlength : (urlEncode url true).length ≤ 4096)
    (hheader : request.findHeader (lit "DeleteUrl") = some (urlEncode url true)) :
    checkDelete cfg request = .ok url := by
  have hdecoded := urlDecode_urlEncode hurl true
  have hok : ¬(urlEncode url true = [] ∨ (urlEncode url true).length > 4096) := by
    rintro (hnil | hlong)
    · rw [hnil] at hdecoded
      cases hdecoded
      simp [isDownloadPath] at hpath
    · omega
  simp only [checkDelete, hheader, hok, if_false, hdecoded, hpath, if_true]

/-- The paths that are no links to files. -/
def routes : List Bytes := [lit "/", lit "/upload", lit "/delete", lit "/logout", lit "/login", lit "/api/login"]

theorem at_link {url : Bytes} (hurl : (0 : Byte) ∉ url)
    (h : request.path = some (urlEncode url true)) : request.At url := by
  refine ⟨_, h, ?_⟩
  rw [cString_eq (urlEncode_no_nul url), urlDecode_urlEncode hurl]

/-- What becomes of the requests of a page that has a session. -/
structure PageAnswered (A : Assumption) (cfg : Config) (libs : Libs) (document : CodeUnits)
    (cookies : Bytes) (w : World) (e : Exchange) (w' : World) : Prop where
  list : Page.reload.Reaches cookies e.request → AnsweredBy A (listFiles libs) w e w'
  upload : ∀ (type : Bytes) (name : CodeUnits) (text : List Char) (file : Bytes) (fetch : Fetch),
    type = low ∨ type = deep → chars name = some text → isSafeFileName (utf8 text) = true →
    file ≠ [] → file.length ≤ cfg.maxUploadSize →
    Page.uploadFile document (byteUnits type) name file = some fetch →
    fetch.Reaches cookies e.request →
    AnsweredBy A (storeUpload cfg libs ⟨utf8 text, type, file⟩) w e w'
  delete : ∀ url : Bytes, (0 : Byte) ∉ url → isDownloadPath cfg url = true →
    (urlEncode url true).length ≤ 4096 →
    (Page.deleteFile document (byteUnits (urlEncode url true))).Reaches cookies e.request →
    AnsweredBy A (deleteUrl cfg libs url) w e w'
  download : ∀ url : Bytes, (0 : Byte) ∉ url → isDownloadPath cfg url = true → url ∉ routes →
    (Page.openLink (urlEncode url true)).Reaches cookies e.request →
    AnsweredBy A (download cfg libs e.request url) w e w'
  logout : (Page.logout document).Reaches cookies e.request →
    AnsweredBy A (logout cfg e.request) w e w'

theorem Handles.page {e : Exchange} {document : CodeUnits} {cookies : Bytes}
    (h : Handles A cfg libs w e w') (hcarries : Carries document cookies token record.csrf_token)
    (hlasts : Lasts token record w) (hearly : e.ended < record.expires_at) :
    PageAnswered A cfg libs document cookies w e w' := by
  have hserved : ∀ {fetch : Fetch} {path : Bytes}, fetch.Reaches cookies e.request →
      e.request.At path → ¬Public path →
      AnsweredBy A (route cfg libs e.request ⟨token, record⟩ path) w e w' := by
    intro fetch path hreaches hat hpath
    exact h.served hat hpath (hcarries.session_cookie e.request hreaches.cookies) hlasts hearly
  constructor
  · intro hreaches
    have hanswer := hserved hreaches ⟨_, hreaches.path, by decide⟩
      (show ¬Public (lit "/") by unfold Public; decide)
    have hget : e.request.method = .get := hreaches.method
    rwa [route, if_pos rfl, if_neg (not_not.mpr hget)] at hanswer
  · intro type name text file fetch htype hname hsafe hne hlength hfetch hreaches
    obtain ⟨hmethod, hpath, hcsrf⟩ := uploadFile_fetch hfetch
    have hanswer := hserved hreaches ⟨_, hreaches.path.trans (congrArg some hpath), by decide⟩
      (show ¬Public (lit "/upload") by unfold Public; decide)
    rw [route, if_neg (by decide), if_pos rfl, guarded_page hcarries hreaches hmethod hcsrf,
      upload, checkUpload_page hfetch hreaches htype hname hsafe hne hlength] at hanswer
    exact hanswer
  · intro url hurl hdownload hlength hreaches
    have hdecoded : urlDecode (cString (lit "/delete")) = some (lit "/delete") := by decide
    have hanswer := hserved hreaches ⟨_, hreaches.path, hdecoded⟩
      (show ¬Public (lit "/delete") by unfold Public; decide)
    have hheader : e.request.findHeader (lit "DeleteUrl") = some (urlEncode url true) :=
      hreaches.header (List.mem_cons_self ..)
    rw [route, if_neg (by decide), if_neg (by decide), if_pos rfl,
      guarded_page hcarries hreaches rfl (by simp [Page.deleteFile]), delete,
      checkDelete_page hurl hdownload hlength hheader] at hanswer
    exact hanswer
  · intro url hurl hdownload hroutes hreaches
    simp only [routes, List.mem_cons, List.not_mem_nil, or_false, not_or] at hroutes
    obtain ⟨hroot, hupload, hdelete, hlogout, hlogin, hapi⟩ := hroutes
    have hanswer := hserved hreaches (at_link hurl hreaches.path)
      (show ¬Public url from fun h => h.elim hlogin hapi)
    have hget : e.request.method = .get := hreaches.method
    rw [route, if_neg hroot, if_neg hupload, if_neg hdelete, if_neg hlogout, if_pos hdownload,
      if_neg fun hmethod => hmethod.1 hget] at hanswer
    exact hanswer
  · intro hreaches
    have hdecoded : urlDecode (cString (lit "/logout")) = some (lit "/logout") := by decide
    have hanswer := hserved hreaches ⟨_, hreaches.path, hdecoded⟩
      (show ¬Public (lit "/logout") by unfold Public; decide)
    rw [route, if_neg (by decide), if_neg (by decide), if_neg (by decide), if_pos rfl,
      guarded_page hcarries hreaches rfl (by simp [Page.logout])] at hanswer
    exact hanswer

/-- After a login, and until the session may have expired, somebody logs out with the token or it
is issued again, every request of the page is answered by its handler with what the script
was given. -/
theorem page_answered {before after : List Exchange} {e e' : Exchange} {w'' : World}
    {csrf : Bytes} {https : Bool} {received sent : Int} {jar : Browser.Jar}
    (hrun : HttpRun A cfg libs w (before ++ e :: after) w') (hlogin : LoggedInWith cfg e token csrf)
    (hkept : ∀ e ∈ after, ¬LogsOut e token ∧ ¬Issues cfg e token)
    (hjar : ∀ c ∈ jar, c.Plain) (hchannel : cfg.cookieSecure = true → https = true)
    (hreceived : received ≤ sent) (hsent : sent < received + cfg.sessionTtlSeconds)
    (hstep : Handles A cfg libs w' e' w'')
    (hearly : e'.ended < e.begun + cfg.sessionTtlSeconds * second) :
    let kept := jar.receive https received e.response.headers
    PageAnswered A cfg libs (kept.document sent) (kept.header sent) w' e' w'' := by
  obtain ⟨w₁, w₂, -, hgrant, hafter⟩ := hrun.split
  obtain ⟨hdrawn, record, rfl, hexpires, hlasts⟩ := hgrant.stored hlogin
  have hcarries := loginJar_carries hjar hdrawn hchannel hreceived hsent
  rw [loginJar, ← hlogin.reply] at hcarries
  exact hstep.page hcarries (run_lasts hafter hlasts hkept) (Int.lt_of_lt_of_le hearly hexpires)

/-! ### A page at work -/

theorem nextExchange_request {q : Request × List Choice} {e : Exchange}
    (h : nextExchange cfg libs w q = some (e, w')) : e.request = q.1 := by
  obtain ⟨r, -, he⟩ := Option.map_eq_some_iff.mp h
  cases he
  rfl

/-- The name is one character outside ASCII. -/
def wordLibs : Libs := .plain (textsOf [tableOf settledConfig [lit "文"]])

def wordJar : Browser.Jar := Browser.Jar.receive false 100 []
  (loggedIn settledConfig (hexDigits sessionBytes) (hexDigits csrfBytes)).secured.headers

def wordFetch : Fetch where
  method := .post
  path := lit "/upload"
  headers := [(lit "StorageType", byteUnits low), (lit "FileName", byteUnits (lit "5paH")),
    (lit "X-CSRF-Token", byteUnits (hexDigits csrfBytes))]
  body := lit "abc"

/-- The upload of the page, with a header of the browser before its own. -/
def wordUpload : Request where
  path := some (lit "/upload")
  method := .post
  findHeader := findIn [(lit "Host", lit "cloud"), (lit "StorageType", low),
    (lit "FileName", lit "5paH"), (lit "X-CSRF-Token", hexDigits csrfBytes),
    (lit "Cookie", wordJar.header 105)]
  body := some (lit "abc")

theorem wordUpload_reaches : wordFetch.Reaches (wordJar.header 105) wordUpload := by
  have hheaders : (wordFetch.headers.all fun h =>
      (latin1 h.2).any fun value => decide (wordUpload.findHeader h.1 = some value)) = true := by
    decide +kernel
  refine ⟨rfl, rfl, fun h hmem => ?_, by decide +kernel, rfl⟩
  obtain ⟨value, hlatin, hfound⟩ := (Option.any_eq_true _ _).mp (List.all_eq_true.mp hheaders h hmem)
  exact ⟨value, hlatin, of_decide_eq_true hfound⟩

theorem page_answered_upload : ∃ e w e' w',
    nextExchange settledConfig wordLibs World.empty (loginRequest samplePassword, loginFine) =
      some (e, w) ∧
    nextExchange settledConfig wordLibs w (wordUpload, heldUploadFine) = some (e', w') ∧
    w'.table.lookup (lit "/download/文") = some (recordAt settledConfig (lit "文")) ∧
    AnsweredBy Anything (storeUpload settledConfig wordLibs ⟨lit "文", low, lit "abc"⟩) w e' w' := by
  have hplay : (nextExchange settledConfig wordLibs World.empty
      (loginRequest samplePassword, loginFine)).any (fun one =>
        decide (one.1.response =
          (loggedIn settledConfig (hexDigits sessionBytes) (hexDigits csrfBytes)).secured) &&
        (nextExchange settledConfig wordLibs one.2 (wordUpload, heldUploadFine)).any fun two =>
          decide (two.1.ended < one.1.begun + settledConfig.sessionTtlSeconds * second) &&
          decide (two.2.table.lookup (lit "/download/文") =
            some (recordAt settledConfig (lit "文")))) = true := by decide +kernel
  obtain ⟨⟨e, w⟩, hlogin, hnext⟩ := (Option.any_eq_true _ _).mp hplay
  simp only [Bool.and_eq_true, decide_eq_true_eq] at hnext
  obtain ⟨hreply, hnext⟩ := hnext
  obtain ⟨⟨e', w'⟩, hupload, hdone⟩ := (Option.any_eq_true _ _).mp hnext
  simp only [Bool.and_eq_true, decide_eq_true_eq] at hdone
  obtain ⟨hearly, hstored⟩ := hdone
  have hrequest := nextExchange_request hlogin
  have hrequest' := nextExchange_request hupload
  have hpath : e.request.At (lit "/api/login") := by
    rw [hrequest]
    exact ⟨_, rfl, by decide⟩
  have hanswered := @page_answered Anything settledConfig wordLibs World.empty w
    (hexDigits sessionBytes) [] [] e e' w' (hexDigits csrfBytes) false 100 105 []
    (.single (nextExchange_handles hlogin)) ⟨hpath, hreply⟩ (fun _ h => nomatch h)
    (fun _ h => nomatch h) (fun h => absurd h (by decide)) (by decide) (by decide)
    (nextExchange_handles hupload) hearly
  dsimp only at hanswered
  rw [hreply] at hanswered
  have hreaches : wordFetch.Reaches (wordJar.header 105) e'.request := hrequest' ▸ wordUpload_reaches
  exact ⟨e, w, e', w', hlogin, hupload, hstored, hanswered.upload low [0x6587] ['文'] (lit "abc")
    wordFetch (Or.inl rfl) (by decide) (by decide) (by decide) (by decide) (by decide +kernel) hreaches⟩

end CloudStorage
