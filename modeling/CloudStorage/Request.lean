import CloudStorage.Bundle
import CloudStorage.DataManager
import CloudStorage.Range
import CloudStorage.Url
import CloudStorage.Base64

/-!
# Requests, responses and their helpers (`Service.cpp`)

A request is what the HTTP library hands to the handler; how it finds a header is its
own affair. A response is what the handler hands back. The libraries the handlers
call are gathered in `Libs`; `formatSize` and `formatTime` stand for two texts
of the file list that depend on floating point and on the local time zone.
-/

namespace CloudStorage
open Posix Interact

structure Libs where
  json : JsonText
  bundle : Bundle
  /-- `EVP_Digest` with SHA-256 -/
  sha256 : Bytes → Option Bytes
  /-- `PKCS5_PBKDF2_HMAC`: password, salt, iterations -/
  pbkdf2 : Bytes → Bytes → Nat → Option Bytes
  formatSize : Nat → Bytes
  formatTime : Int → Bytes

/-- Libraries that compute: packing stores, and a digest is its input. -/
def Libs.plain (json : JsonText) : Libs where
  json := json
  bundle := .raw
  sha256 := some
  pbkdf2 password _ _ := some password
  formatSize := decimal
  formatTime time := decimal time.natAbs

/-- `evhttp_cmd_type`; the server allows three of them. -/
inductive Method
  | get
  | post
  | head
  | other
  deriving DecidableEq, Repr

abbrev Headers := List (Bytes × Bytes)

structure Request where
  /-- `evhttp_uri_get_path` -/
  path : Option Bytes := none
  method : Method := .get
  /-- `evhttp_find_header` on the input headers -/
  findHeader : Bytes → Option Bytes := fun _ => none
  /-- the input buffer -/
  body : Option Bytes := some []
  peer : Option Bytes := none

/-- The status and headers the handler sets, and the body. -/
structure Response where
  status : Nat
  reason : Bytes
  headers : Headers := []
  body : Bytes := []
  deriving DecidableEq, Repr

def lowercase (b : Byte) : Byte :=
  if 65 ≤ b.toNat ∧ b.toNat ≤ 90 then UInt8.ofNat (b.toNat + 32) else b

/-- The search on given headers: the first with the name, in letters of either case. -/
def findIn (headers : Headers) (name : Bytes) : Option Bytes :=
  (headers.find? fun h =>
    decide (h.1.map lowercase = name.map lowercase)).map fun h => cString h.2

/-! ### Replies -/

def contentLength : Bytes := lit "Content-Length"

/-- `SendText`, after the headers added before. -/
def sendText (headers : Headers) (status : Nat) (reason body : Bytes) : Response where
  status := status
  reason := reason
  headers :=
    (headers.filter fun h => decide (h.1 ≠ contentLength)) ++
      (if body = [] then [] else [(lit "Content-Type", lit "text/plain;charset=utf-8")])
  body := body

def badRequest (body : Bytes) : Response := sendText [] 400 (lit "Bad Request") body

def internalError (headers : Headers) (body : Bytes) : Response :=
  sendText headers 500 (lit "Internal Server Error") body

def conflict : Response :=
  sendText [] 409 (lit "Conflict") (lit "a file with this name already exists")

def fileNotFound (headers : Headers) : Response :=
  sendText headers 404 (lit "Not Found") (lit "file not found")

def sendMethodNotAllowed (allowed : Bytes) : Response :=
  sendText [(lit "Allow", allowed)] 405 (lit "Method Not Allowed") (lit "method not allowed")

def invalidCsrf : Response := sendText [] 403 (lit "Forbidden") (lit "invalid CSRF token")

/-- `AddSecurityHeaders`. -/
def securityHeaders : Headers := [
  (lit "X-Content-Type-Options", lit "nosniff"),
  (lit "X-Frame-Options", lit "DENY"),
  (lit "Referrer-Policy", lit "same-origin")]

/-- `SetNoCache`. -/
def noCache : Headers := [
  (lit "Cache-Control", lit "no-cache, no-store, must-revalidate"),
  (lit "Pragma", lit "no-cache"),
  (lit "Expires", lit "0")]

/-! ### Cookies -/

def isBlank (b : Byte) : Bool := b.toNat == 32 || b.toNat == 9

def trim (input : Bytes) : Bytes := (input.dropWhile isBlank).rdropWhile isBlank

def semicolon : Byte := 59
def equalSign : Byte := 61

/-- The value of one item of the cookie header, if it has the name. -/
def cookieValue (name item : Bytes) : Option Bytes :=
  match item.dropWhile fun b => decide (b ≠ equalSign) with
  | [] => none
  | _ :: value =>
    if trim (item.takeWhile fun b => decide (b ≠ equalSign)) = name then some value else none

/-- `GetCookie`: the first item with the name. -/
def Request.getCookie (request : Request) (name : Bytes) : Option Bytes := do
  let cookies ← request.findHeader (lit "Cookie")
  (cookies.splitOn semicolon).findSome? fun item => cookieValue name (trim item)

/-- `SecureEqual`: equal lengths and equal bytes. -/
def secureEqual (left right : Bytes) : Bool :=
  decide (left.length = right.length) && decide (left = right)

@[simp] theorem secureEqual_iff (left right : Bytes) :
    secureEqual left right = true ↔ left = right := by
  simp only [secureEqual, Bool.and_eq_true, decide_eq_true_eq, and_iff_right_iff_imp]
  exact fun h => congrArg List.length h

/-! ### Names and tags -/

def backslash : Byte := 92

def isSafeFileName (filename : Bytes) : Bool :=
  if filename = [] ∨ filename.length > 255 ∨ filename = dot ∨ filename = dotdot then false
  else !filename.any fun ch =>
    decide (ch = sep ∨ ch = backslash ∨ ch.toNat < 0x20 ∨ ch.toNat = 0x7f)

theorem isSafeFileName_plain {f : Bytes} (h : isSafeFileName f = true) : Plain f := by
  unfold isSafeFileName at h
  split at h
  · cases h
  · rename_i hne
    simp only [not_or] at hne
    simp only [Bool.not_eq_true', List.any_eq_false, decide_eq_true_eq] at h
    exact ⟨hne.1, hne.2.2.1, hne.2.2.2, fun hs => h _ hs (Or.inl rfl)⟩

theorem isSafeFileName_no_nul {f : Bytes} (h : isSafeFileName f = true) : (0 : Byte) ∉ f := by
  unfold isSafeFileName at h
  split at h
  · cases h
  · simp only [Bool.not_eq_true', List.any_eq_false, decide_eq_true_eq] at h
    exact fun hz => h _ hz (Or.inr (Or.inr (Or.inl (by decide))))

def hexDigits (digest : Bytes) : Bytes :=
  digest.flatMap fun b =>
    let digit := fun n => if n < 10 then UInt8.ofNat (48 + n) else UInt8.ofNat (87 + n)
    [digit (b.toNat / 16), digit (b.toNat % 16)]

/-- `Sha256Hex`. -/
def sha256Hex (libs : Libs) (input : Bytes) : Bytes :=
  match libs.sha256 input with
  | none => []
  | some digest => hexDigits digest

def colon : Byte := 58
def quote : Byte := 34

/-- What the tag of a record is a digest of. -/
def tagInput (info : StorageInfo) : Bytes :=
  info.storage_path_ ++ colon :: (decimal info.fsize_ ++ colon :: decimalInt info.mtime_)

def entityTag (libs : Libs) (info : StorageInfo) : Bytes :=
  quote :: (sha256Hex libs (tagInput info) ++ [quote])

def isDownloadPath (cfg : Config) (path : Bytes) : Bool :=
  decide (path.length > cfg.downloadPrefix.length) &&
    decide (path.take cfg.downloadPrefix.length = cfg.downloadPrefix)

/-! ### Programs every handler uses -/

def readRequestBody (request : Request) (maximum : Nat) : Program (Option Bytes) := do
  match request.body with
  | none => return none
  | some input =>
    if input.length = 0 ∨ input.length > maximum then return none
    else if ← copyOut then return some input
    else return none

/-- The destructor of a `TempFileGuard` that holds `path`. -/
def removeGuarded (path : Bytes) : Program Unit := do
  let _ ← unlink path

theorem wp_removeGuarded {A : Assumption} {P : Bytes → Prop} {p : Bytes} {w₀ w : World}
    (h : Pending P p w₀ w) :
    wp (System A) (removeGuarded p) (fun _ w' => Leaves P w₀ w') (fun w' => w' = w) w :=
  wp_seq (wp_unlink_pending h) (fun _ h' => h') fun _ _ h' => h'

end CloudStorage
