import CloudStorage.Upload
import CloudStorage.Delete
import CloudStorage.Download
import CloudStorage.SessionStore
import CloudStorage.RateLimiter

/-!
# The dispatcher (`Service::HandleRequest`)

The session store and the login limiter are read and written by calls; their
methods are those of `SessionStore` and `LoginRateLimiter`. The event loop is
one thread, so no other request comes between the calls of one method.
-/

namespace CloudStorage
open Posix Interact

/-! ### Sessions and the limiter, by calls -/

def now : Program Int := perform .now
def randBytes : Program (Option Bytes) := perform .randBytes
def loadSessions : Program Sessions := perform .loadSessions
def storeSessions (sessions : Sessions) : Program Unit := perform (.storeSessions sessions)
def loadAttempts : Program Attempts := perform .loadAttempts
def storeAttempts (attempts : Attempts) : Program Unit := perform (.storeAttempts attempts)
def template (name : Bytes) : Program (Option Bytes) := perform (.template name)

/-- `Sessions().Create`: both tokens are drawn before the lock is taken. -/
def createSession (ttl : Int) : Program (Option (Bytes × Bytes)) := do
  match ← randBytes with
  | none => return none
  | some session =>
    match ← randBytes with
    | none => return none
    | some csrf =>
      let sessions ← loadSessions
      let swept ← now
      let expiry ← now
      let out := SessionStore.create sessions ttl (some session) (some csrf) swept expiry
      storeSessions out.2
      return out.1

/-- `Sessions().Validate`: the clock is read once the token is found. -/
def validateSession (token : Bytes) : Program (Option SessionRecord) := do
  let sessions ← loadSessions
  match sessions.lookup token with
  | none => return none
  | some _ =>
    let time ← now
    let out := SessionStore.validate sessions token time
    storeSessions out.2
    return out.1

/-- `Sessions().Remove`. -/
def removeSession (token : Bytes) : Program Unit := do
  let sessions ← loadSessions
  storeSessions (SessionStore.remove sessions token)

/-- `LoginLimiter().Allow`. -/
def allowLogin (address : Bytes) : Program Bool := do
  let attempts ← loadAttempts
  match attempts.lookup address with
  | none => return true
  | some _ =>
    let time ← now
    let out := LoginRateLimiter.allow attempts address time
    storeAttempts out.2
    return out.1

/-- `LoginLimiter().Failure`. -/
def failLogin (address : Bytes) : Program Unit := do
  let time ← now
  let attempts ← loadAttempts
  storeAttempts (LoginRateLimiter.failure attempts address time)

/-- `LoginLimiter().Success`. -/
def succeedLogin (address : Bytes) : Program Unit := do
  let attempts ← loadAttempts
  storeAttempts (LoginRateLimiter.success attempts address)

/-! ### Authentication -/

structure AuthContext where
  session_token : Bytes
  session : SessionRecord

def authenticate (request : Request) : Program (Option AuthContext) := do
  match request.getCookie (lit "session") with
  | none => return none
  | some token =>
    match ← validateSession token with
    | none => return none
    | some record => return some ⟨token, record⟩

def validateCsrf (request : Request) (auth : AuthContext) : Bool :=
  match request.findHeader (lit "X-CSRF-Token"), request.getCookie (lit "csrf") with
  | some header, some cookie =>
    secureEqual header auth.session.csrf_token && secureEqual cookie auth.session.csrf_token
  | _, _ => false

def derivePasswordHash (cfg : Config) (libs : Libs) (password : Bytes) : Option Bytes :=
  if password.length > 2 ^ 31 - 1 then none
  else (libs.pbkdf2 password cfg.authSalt cfg.authIterations).map hexDigits

/-- The password whose digest is configured. -/
def passwordMatches (cfg : Config) (libs : Libs) (password : Bytes) : Bool :=
  match derivePasswordHash cfg libs password with
  | none => false
  | some hash => secureEqual hash cfg.authHash

def peerAddress (request : Request) : Bytes := request.peer.getD (lit "unknown")

def secureSuffix (cfg : Config) : Bytes := if cfg.cookieSecure then lit "; Secure" else []

def cookieSuffix (cfg : Config) (httpOnly : Bool) : Bytes :=
  lit "; Path=/; SameSite=Strict; Max-Age=" ++ decimal cfg.sessionTtlSeconds ++
    (if httpOnly then lit "; HttpOnly" else []) ++ secureSuffix cfg

def clearAuthCookies (cfg : Config) : Headers :=
  let suffix := lit "; Path=/; SameSite=Strict; Max-Age=0" ++ secureSuffix cfg
  [(lit "Set-Cookie", lit "session=" ++ suffix ++ lit "; HttpOnly"),
    (lit "Set-Cookie", lit "csrf=" ++ suffix)]

/-! ### Pages and logins -/

def htmlPage (content : Bytes) : Response :=
  ⟨200, lit "OK", noCache ++ [(lit "Content-Type", lit "text/html;charset=utf-8")], content⟩

def showLogin : Program Response := do
  match ← template (lit "login.html") with
  | none => return internalError noCache (lit "login template unavailable")
  | some content => return htmlPage content

def login (cfg : Config) (libs : Libs) (request : Request) : Program Response := do
  let peer := peerAddress request
  if ← allowLogin peer then
    match ← readRequestBody request 1024 with
    | none => return sendText noCache 400 (lit "Bad Request") (lit "invalid password body")
    | some password =>
      if passwordMatches cfg libs password then
        match ← createSession cfg.sessionTtlSeconds with
        | none => return internalError noCache (lit "cannot create session")
        | some (session, csrf) =>
          succeedLogin peer
          return sendText (noCache ++
            [(lit "Set-Cookie", lit "session=" ++ session ++ cookieSuffix cfg true),
              (lit "Set-Cookie", lit "csrf=" ++ csrf ++ cookieSuffix cfg false)])
            200 (lit "OK") (lit "login successful")
      else
        failLogin peer
        return sendText noCache 401 (lit "Unauthorized") (lit "authentication failed")
  else
    return sendText (noCache ++ [(lit "Retry-After", lit "60")]) 429 (lit "Too Many Requests")
      (lit "try again later")

def logout (cfg : Config) (request : Request) : Program Response := do
  match ← authenticate request with
  | none => return sendText (clearAuthCookies cfg ++ noCache) 200 (lit "OK") (lit "logged out")
  | some auth =>
    removeSession auth.session_token
    return sendText (clearAuthCookies cfg ++ noCache) 200 (lit "OK") (lit "logged out")

/-! ### The file list -/

def htmlEscape (text : Bytes) : Bytes :=
  text.flatMap fun b =>
    if b = 38 then lit "&amp;"
    else if b = 60 then lit "&lt;"
    else if b = 62 then lit "&gt;"
    else if b = 34 then lit "&quot;"
    else if b = 39 then lit "&#39;"
    else [b]

def fileItem (libs : Libs) (file : StorageInfo) : Bytes :=
  let encodedUrl := htmlEscape (urlEncode file.url_ true)
  lit "<div class='file-item'><div class='file-info'><span>📄" ++
    htmlEscape (fileName file.storage_path_) ++ lit "</span><span class='file-type'>" ++
    (if file.storage_type_ = deep then lit "深度存储" else lit "普通存储") ++
    lit "</span><span>" ++ libs.formatSize file.fsize_ ++ lit "</span><span>" ++
    libs.formatTime file.mtime_ ++ lit "</span></div><div class='file-actions'>" ++
    lit "<button data-url=\"" ++ encodedUrl ++
    lit "\" onclick=\"window.location=this.dataset.url\">⬇️ 下载</button>" ++
    lit "<button data-url=\"" ++ encodedUrl ++
    lit "\" onclick=\"deleteFile(this.dataset.url)\" class='delete-btn'>🗑️ 删除</button>" ++
    lit "</div></div>"

def generateFileList (libs : Libs) (files : List StorageInfo) : Bytes :=
  lit "<div class='file-list'><h3>已上传文件</h3>" ++ files.flatMap (fileItem libs) ++ lit "</div>"

/-- `ReplaceOnce`: the first occurrence. -/
def replaceOnce (placeholder replacement : Bytes) : Bytes → Option Bytes
  | [] => if placeholder = [] then some replacement else none
  | b :: rest =>
    if placeholder.isPrefixOf (b :: rest) then
      some (replacement ++ (b :: rest).drop placeholder.length)
    else (replaceOnce placeholder replacement rest).map fun replaced => b :: replaced

/-- The items in another order: each is put at the place that its number says. -/
def arrange {α : Type} : List Nat → List α → List α
  | _, [] => []
  | order, item :: items =>
    (arrange order.tail items).insertIdx (order.headD 0 % (items.length + 1)) item

theorem length_arrange {α : Type} (order : List Nat) (items : List α) :
    (arrange order items).length = items.length := by
  induction items generalizing order with
  | nil => rfl
  | cons item items ih =>
    have hle : order.headD 0 % (items.length + 1) ≤ (arrange order.tail items).length := by
      rw [ih]
      exact Nat.lt_succ_iff.mp (Nat.mod_lt _ (Nat.succ_pos _))
    rw [arrange, List.length_insertIdx_of_le_length hle, ih, List.length_cons]

theorem arrange_perm {α : Type} (order : List Nat) (items : List α) :
    (arrange order items).Perm items := by
  induction items generalizing order with
  | nil => exact .refl _
  | cons item items ih =>
    refine (List.perm_insertIdx item _ ?_).trans ((ih order.tail).cons item)
    rw [length_arrange]
    exact Nat.lt_succ_iff.mp (Nat.mod_lt _ (Nat.succ_pos _))

theorem insertIdx_length {α : Type} (before after : List α) (item : α) :
    (before ++ after).insertIdx before.length item = before ++ item :: after := by
  induction before with
  | nil => rfl
  | cons first before ih =>
    rw [List.cons_append, List.length_cons, List.insertIdx_succ_cons, ih, List.cons_append]

/-- Every order is one of these. -/
theorem exists_arrange {α : Type} {items arranged : List α} (h : arranged.Perm items) :
    ∃ order, arrange order items = arranged := by
  induction items generalizing arranged with
  | nil => exact ⟨[], (List.perm_nil.mp h).symm⟩
  | cons item items ih =>
    obtain ⟨before, after, rfl⟩ := List.append_of_mem (h.mem_iff.mpr (List.mem_cons_self ..))
    have hrest : (before ++ after).Perm items :=
      (List.perm_middle.symm.trans h).cons_inv
    obtain ⟨order, horder⟩ := ih hrest
    have hlt : before.length < items.length + 1 := by
      rw [← hrest.length_eq, List.length_append]
      omega
    refine ⟨before.length :: order, ?_⟩
    rw [arrange, List.headD_cons, List.tail_cons, horder, Nat.mod_eq_of_lt hlt]
    exact insertIdx_length before after item

/-- The order of `std::sort` in `ListFiles`. -/
def byFileName (left right : StorageInfo) : Bool :=
  !decide (fileName right.storage_path_ < fileName left.storage_path_)

def listFiles (libs : Libs) : Program Response := do
  let files ← getAll
  -- a hash table is gone through in any order, and `std::sort` is not stable: what it may
  -- make of one order are the stable sorts of all
  let order ← iteration
  let files := (arrange order files).mergeSort byFileName
  match ← template (lit "index.html") with
  | none => return internalError noCache (lit "index template unavailable")
  | some content =>
    match replaceOnce (lit "\x7b\x7bFILE_LIST\x7d\x7d") (generateFileList libs files) content with
    | none => return internalError noCache (lit "index template is invalid")
    | some page => return htmlPage page

/-- The reply of `ListFiles` from the template and the sorted records. -/
def listPage (libs : Libs) (content : Option Bytes) (files : List StorageInfo) : Response :=
  match content with
  | none => internalError noCache (lit "index template unavailable")
  | some content =>
    match replaceOnce (lit "\x7b\x7bFILE_LIST\x7d\x7d") (generateFileList libs files) content with
    | none => internalError noCache (lit "index template is invalid")
    | some page => htmlPage page

theorem wp_template {A : Assumption} {w : World} {C : World → Prop} {name : Bytes}
    {Q : Option Bytes → World → Prop} (hC : C w)
    (hQ : ∀ w', Did w (.template name) (w.templates name) w' → w'.fs = w.fs →
      Q (w.templates name) w') :
    wp (System A) (template name) Q C w := by
  refine wp_perform hC fun r w' ch _ h => ?_
  obtain ⟨rfl, rfl⟩ := Prod.mk.injEq .. ▸ h
  exact hQ _ ⟨rfl, rfl, rfl, rfl, rfl, Int.le_max_left ..⟩ rfl

/-- The three calls come first, and the reply is a function of their answers. -/
theorem listFiles_eq (libs : Libs) : listFiles libs = (do
    let files ← getAll
    let order ← iteration
    let content ← template (lit "index.html")
    return listPage libs content ((arrange order files).mergeSort byFileName)) := by
  refine congrArg (getAll >>= ·) (funext fun files => ?_)
  refine congrArg (iteration >>= ·) (funext fun order => ?_)
  refine congrArg (template (lit "index.html") >>= ·) (funext fun content => ?_)
  cases content with
  | none => rfl
  | some content =>
    simp only [listPage]
    cases replaceOnce (lit "\x7b\x7bFILE_LIST\x7d\x7d")
      (generateFileList libs ((arrange order files).mergeSort byFileName)) content with
    | none => rfl
    | some page => rfl

theorem wp_listFiles {A : Assumption} {w : World} {libs : Libs} :
    wp (System A) (listFiles libs)
      (fun r w' => (∃ order, r = listPage libs (w.templates (lit "index.html"))
          ((arrange order (w.table.entries.map fun entry => entry.2)).mergeSort byFileName)) ∧
        Same w w')
      (fun _ => True) w := by
  rw [listFiles_eq]
  refine wp_seq wp_getAll (fun _ h => h) ?_
  rintro files w₀ ⟨rfl, h₀⟩
  rw [wp_bind]
  refine wp_iteration trivial fun order w₁ hD₁ hfs₁ => ?_
  have h₁ := h₀.trans (hD₁.same hfs₁)
  rw [wp_bind]
  refine wp_template trivial fun w₂ hD hfs => ?_
  have h₂ := h₁.trans (hD.same hfs)
  rw [h₁.frame.templates]
  exact ⟨⟨order, rfl⟩, h₂⟩

/-! ### Dispatch -/

/-- A route that changes something: `POST` only, with the token of the session. -/
def guarded (request : Request) (auth : AuthContext) (handler : Program Response) :
    Program Response :=
  if request.method ≠ .post then return sendMethodNotAllowed (lit "POST")
  else if !validateCsrf request auth then return invalidCsrf
  else handler

/-- The routes of an authenticated request. -/
def route (cfg : Config) (libs : Libs) (request : Request) (auth : AuthContext) (path : Bytes) :
    Program Response :=
  if path = lit "/" then
    if request.method ≠ .get then return sendMethodNotAllowed (lit "GET")
    else listFiles libs
  else if path = lit "/upload" then guarded request auth (upload cfg libs request)
  else if path = lit "/delete" then guarded request auth (delete cfg libs request)
  else if path = lit "/logout" then guarded request auth (logout cfg request)
  else if isDownloadPath cfg path then
    if request.method ≠ .get ∧ request.method ≠ .head then
      return sendMethodNotAllowed (lit "GET, HEAD")
    else download cfg libs request path
  else return sendText [] 404 (lit "Not Found") (lit "not found")

/-- The reply without a session. -/
def unauthenticated (cfg : Config) (path : Bytes) : Response :=
  if path = lit "/" ∨ isDownloadPath cfg path then
    ⟨302, lit "Redirect", [(lit "Location", lit "/login")], []⟩
  else sendText [] 401 (lit "Unauthorized") (lit "authentication required")

def dispatch (cfg : Config) (libs : Libs) (request : Request) (path : Bytes) :
    Program Response := do
  if path = lit "/login" then
    if request.method ≠ .get then return sendMethodNotAllowed (lit "GET")
    else showLogin
  else if path = lit "/api/login" then
    if request.method ≠ .post then return sendMethodNotAllowed (lit "POST")
    else login cfg libs request
  else
    match ← authenticate request with
    | none => return unauthenticated cfg path
    | some auth => route cfg libs request auth path

/-- The reply with the headers of `AddSecurityHeaders` before its own. -/
def Response.secured (response : Response) : Response :=
  { response with headers := securityHeaders ++ response.headers }

/-- `Service::HandleRequest`. -/
def handleRequest (cfg : Config) (libs : Libs) (request : Request) : Program Response := do
  match request.path with
  | none => return (badRequest (lit "invalid path")).secured
  | some rawPath =>
    match urlDecode (cString rawPath) with
    | none => return (badRequest (lit "invalid URL encoding")).secured
    | some path =>
      let response ← dispatch cfg libs request path
      return response.secured

end CloudStorage
