import CloudStorage.Json
import CloudStorage.Lib.LexPath

/-!
# Configuration (`Config.hpp`)

`readConfig` is `Config::ReadConfig`: it takes the content of the configuration
file (absent when it cannot be read), the two environment overrides, and returns
the configuration or the text of the exception.
-/

namespace CloudStorage
open Posix

structure Config where
  serverPort : Nat
  serverIp : Bytes
  downloadPrefix : Bytes
  deepStorageDir : Bytes
  lowStorageDir : Bytes
  tempDir : Bytes
  storageInfo : Bytes
  authSalt : Bytes
  authHash : Bytes
  bundleFormat : Nat
  authIterations : Nat
  sessionTtlSeconds : Nat
  maxUploadSize : Nat
  cookieSecure : Bool
  deriving DecidableEq, Repr

namespace Config

def readString (root : Json) (name : Bytes) : Except Bytes Bytes :=
  if !root.isMember name || !(root.member name).isString ||
      (root.member name).asString.isEmpty then
    .error (name ++ lit " must be a non-empty string")
  else .ok (root.member name).asString

def readPort (root : Json) (name : Bytes) : Except Bytes Nat :=
  if !root.isMember name || !(root.member name).isUInt then
    .error (name ++ lit " must be an integer")
  else
    let value := (root.member name).asWhole
    if value = 0 ∨ value > 65535 then .error (name ++ lit " must be in 1..65535")
    else .ok value.toNat

def readPositiveInt (root : Json) (name : Bytes) (minimum maximum : Int) : Except Bytes Nat :=
  if !root.isMember name || !(root.member name).isInt then
    .error (name ++ lit " must be an integer")
  else
    let value := (root.member name).asWhole
    if value < minimum ∨ value > maximum then .error (name ++ lit " is out of range")
    else .ok value.toNat

def readSize (root : Json) (name : Bytes) (minimum maximum : Int) : Except Bytes Nat :=
  if !root.isMember name || !(root.member name).isUInt64 then
    .error (name ++ lit " must be an unsigned integer")
  else
    let value := (root.member name).asWhole
    if value < minimum ∨ value > maximum ∨ value > 2 ^ 64 - 1 then
      .error (name ++ lit " is out of range")
    else .ok value.toNat

/-- A non-empty override of the environment replaces the configured value. -/
def override (env : Option Bytes) (configured : Bytes) : Bytes :=
  match env with
  | some v => if v = [] then configured else v
  | none => configured

/-- A digit of the lowercase digest. -/
def isLowerHex (b : Byte) : Bool :=
  (48 ≤ b.toNat && b.toNat ≤ 57) || (97 ≤ b.toNat && b.toNat ≤ 102)

/-- `CLOUD_STORAGE_AUTH_SALT` and `CLOUD_STORAGE_AUTH_HASH`. -/
structure Environment where
  salt : Option Bytes := none
  hash : Option Bytes := none

/-- The checks made once every member is read. -/
def validate (cfg : Config) : Except Bytes Config :=
  let low := normal (parse cfg.lowStorageDir)
  let deep := normal (parse cfg.deepStorageDir)
  let temporary := normal (parse cfg.tempDir)
  if cfg.downloadPrefix.head? ≠ some sep ∨ cfg.downloadPrefix.getLast? ≠ some sep then
    .error (lit "download_prefix must start and end with '/'")
  else if cfg.authHash.length ≠ 64 then
    .error (lit "auth_hash must be a 32-byte lowercase hex digest")
  else if !cfg.authHash.all isLowerHex then
    .error (lit "auth_hash contains non-hex characters")
  else if low = deep ∨ low = temporary ∨ deep = temporary then
    .error (lit "storage and temporary directories must be different")
  else .ok cfg

def readMembers (root : Json) (env : Environment) : Except Bytes Config := do
  let serverPort ← readPort root (lit "server_port")
  let serverIp ← readString root (lit "server_ip")
  let downloadPrefix ← readString root (lit "download_prefix")
  let deepStorageDir ← readString root (lit "deep_storage_dir")
  let lowStorageDir ← readString root (lit "low_storage_dir")
  let tempDir ← readString root (lit "temp_dir")
  let storageInfo ← readString root (lit "storage_info")
  let authSalt ← readString root (lit "auth_salt")
  let authHash ← readString root (lit "auth_hash")
  let bundleFormat ← readPositiveInt root (lit "bundle_format") 0 5
  let authIterations ← readPositiveInt root (lit "auth_iterations") 10000 10000000
  let sessionTtlSeconds ← readPositiveInt root (lit "session_ttl_seconds") 60 (86400 * 30)
  let maxUploadSize ← readSize root (lit "max_upload_size") 1 (4 * 1024 * 1024 * 1024)
  if !root.isMember (lit "cookie_secure") || !(root.member (lit "cookie_secure")).isBool then
    throw (lit "cookie_secure must be boolean")
  return {
    serverPort, serverIp, downloadPrefix, deepStorageDir, lowStorageDir, tempDir, storageInfo
    authSalt := override env.salt authSalt
    authHash := override env.hash authHash
    bundleFormat, authIterations, sessionTtlSeconds, maxUploadSize
    cookieSecure := (root.member (lit "cookie_secure")).asBool }

/-- `Config::ReadConfig` on the configuration file at `path`. -/
def readConfig (text : JsonText) (path : Bytes) (content : Option Bytes) (env : Environment) :
    Except Bytes Config :=
  match content with
  | none => .error (lit "cannot read storage config: " ++ path)
  | some body =>
    match text.parse body with
    | .ok root =>
      if root.isObject then readMembers root env >>= validate
      else .error (lit "invalid storage config: ")
    | .error e => .error (lit "invalid storage config: " ++ e)

/-- Some configuration file is read as `cfg`. -/
def Accepted (cfg : Config) : Prop :=
  ∃ text path content env, readConfig text path content env = .ok cfg

/-- What the checks of `ReadConfig` establish about directories and prefix. -/
structure Checked (cfg : Config) : Prop where
  prefix_head : cfg.downloadPrefix.head? = some sep
  prefix_last : cfg.downloadPrefix.getLast? = some sep
  low_ne : cfg.lowStorageDir ≠ []
  deep_ne : cfg.deepStorageDir ≠ []
  temp_ne : cfg.tempDir ≠ []
  info_ne : cfg.storageInfo ≠ []
  low_deep : normal (parse cfg.lowStorageDir) ≠ normal (parse cfg.deepStorageDir)
  low_temp : normal (parse cfg.lowStorageDir) ≠ normal (parse cfg.tempDir)
  deep_temp : normal (parse cfg.deepStorageDir) ≠ normal (parse cfg.tempDir)

theorem readString_ne {root : Json} {name v : Bytes} (h : readString root name = .ok v) :
    v ≠ [] := by
  unfold readString at h
  split at h
  · cases h
  · rename_i hc
    simp only [Bool.or_eq_true, not_or, Bool.not_eq_true, List.isEmpty_eq_false_iff] at hc
    cases h
    exact hc.2

theorem validate_ok {cfg cfg' : Config} (h : validate cfg = .ok cfg') :
    cfg' = cfg ∧ cfg.downloadPrefix.head? = some sep ∧ cfg.downloadPrefix.getLast? = some sep ∧
      normal (parse cfg.lowStorageDir) ≠ normal (parse cfg.deepStorageDir) ∧
      normal (parse cfg.lowStorageDir) ≠ normal (parse cfg.tempDir) ∧
      normal (parse cfg.deepStorageDir) ≠ normal (parse cfg.tempDir) := by
  simp only [validate] at h
  split at h
  · cases h
  · rename_i hprefix
    split at h
    · cases h
    · split at h
      · cases h
      · split at h
        · cases h
        · rename_i hdirs
          cases h
          simp only [not_or, not_not] at hprefix hdirs
          exact ⟨rfl, hprefix.1, hprefix.2, hdirs.1, hdirs.2.1, hdirs.2.2⟩

theorem readMembers_ne {root : Json} {env : Environment} {cfg : Config}
    (h : readMembers root env = .ok cfg) :
    cfg.lowStorageDir ≠ [] ∧ cfg.deepStorageDir ≠ [] ∧ cfg.tempDir ≠ [] ∧
      cfg.storageInfo ≠ [] := by
  unfold readMembers at h
  obtain ⟨port, -, h⟩ := bind_ok h
  obtain ⟨ip, -, h⟩ := bind_ok h
  obtain ⟨pre, -, h⟩ := bind_ok h
  obtain ⟨deep, hdeep, h⟩ := bind_ok h
  obtain ⟨low, hlow, h⟩ := bind_ok h
  obtain ⟨temp, htemp, h⟩ := bind_ok h
  obtain ⟨info, hinfo, h⟩ := bind_ok h
  obtain ⟨salt, -, h⟩ := bind_ok h
  obtain ⟨hash, -, h⟩ := bind_ok h
  obtain ⟨format, -, h⟩ := bind_ok h
  obtain ⟨iterations, -, h⟩ := bind_ok h
  obtain ⟨ttl, -, h⟩ := bind_ok h
  obtain ⟨size, -, h⟩ := bind_ok h
  split at h
  · cases h
  · cases h
    exact ⟨readString_ne hlow, readString_ne hdeep, readString_ne htemp, readString_ne hinfo⟩

theorem Accepted.checked {cfg : Config} (h : Accepted cfg) : Checked cfg := by
  obtain ⟨text, path, content, env, h⟩ := h
  unfold readConfig at h
  cases content with
  | none => cases h
  | some body =>
    simp only at h
    split at h
    · split at h
      · obtain ⟨read, hread, h⟩ := bind_ok h
        obtain ⟨rfl, hhead, hlast, hld, hlt, hdt⟩ := validate_ok h
        obtain ⟨hlow, hdeep, htemp, hinfo⟩ := readMembers_ne hread
        exact ⟨hhead, hlast, hlow, hdeep, htemp, hinfo, hld, hlt, hdt⟩
      · cases h
    · cases h

/-! ### The shipped file (`Storage.conf`), with the paths left open -/

def conf (deep low temp info : Bytes) : Json := .obj [
  (lit "server_port", .int 8081),
  (lit "server_ip", .str (lit "127.0.0.1")),
  (lit "download_prefix", .str (lit "/download/")),
  (lit "deep_storage_dir", .str deep),
  (lit "low_storage_dir", .str low),
  (lit "temp_dir", .str temp),
  (lit "bundle_format", .int 4),
  (lit "max_upload_size", .int 104857600),
  (lit "storage_info", .str info),
  (lit "auth_salt", .str (lit "CloudStorageSalt2026")),
  (lit "auth_iterations", .int 120000),
  (lit "auth_hash",
    .str (lit "7af3029340d2209847c00e9547da3c1429f4b4cafbe3d7cf2a75a05218a9efe5")),
  (lit "session_ttl_seconds", .int 3600),
  (lit "cookie_secure", .bool false)]

/-- Its text. -/
def confText (deep low temp info : Bytes) : Bytes :=
  lit "\x7b\n    \"server_port\" : 8081,\n    \"server_ip\" : \"127.0.0.1\", \n" ++
  lit "    \"download_prefix\" : \"/download/\", \n    \"deep_storage_dir\" : \"" ++ deep ++
  lit "\",   \n    \"low_storage_dir\" : \"" ++ low ++
  lit "\", \n    \"temp_dir\" : \"" ++ temp ++
  lit "\",\n    \"bundle_format\":4,\n    \"max_upload_size\":104857600,\n" ++
  lit "    \"storage_info\" : \"" ++ info ++
  lit "\",\n    \"auth_salt\" : \"CloudStorageSalt2026\",\n    \"auth_iterations\":120000,\n" ++
  lit "    \"auth_hash\" : \"7af3029340d2209847c00e9547da3c1429f4b4cafbe3d7cf2a75a05218a9efe5\",\n" ++
  lit "    \"session_ttl_seconds\":3600,\n    \"cookie_secure\":false\n\x7d\n"

/-- What is read from it. -/
def shipped (deep low temp info : Bytes) : Config where
  serverPort := 8081
  serverIp := lit "127.0.0.1"
  downloadPrefix := lit "/download/"
  deepStorageDir := deep
  lowStorageDir := low
  tempDir := temp
  storageInfo := info
  authSalt := lit "CloudStorageSalt2026"
  authHash := lit "7af3029340d2209847c00e9547da3c1429f4b4cafbe3d7cf2a75a05218a9efe5"
  bundleFormat := 4
  authIterations := 120000
  sessionTtlSeconds := 3600
  maxUploadSize := 104857600
  cookieSecure := false

theorem readMembers_conf {deep low temp info : Bytes} (hdeep : deep ≠ []) (hlow : low ≠ [])
    (htemp : temp ≠ []) (hinfo : info ≠ []) :
    readMembers (conf deep low temp info) {} = .ok (shipped deep low temp info) := by
  obtain ⟨_, _, rfl⟩ := List.exists_cons_of_ne_nil hdeep
  obtain ⟨_, _, rfl⟩ := List.exists_cons_of_ne_nil hlow
  obtain ⟨_, _, rfl⟩ := List.exists_cons_of_ne_nil htemp
  obtain ⟨_, _, rfl⟩ := List.exists_cons_of_ne_nil hinfo
  rfl

/-- With different directories the file is accepted. -/
theorem shipped_accepted {deep low temp info : Bytes}
    (hne : deep ≠ [] ∧ low ≠ [] ∧ temp ≠ [] ∧ info ≠ [])
    (hdirs : normal (parse low) ≠ normal (parse deep) ∧ normal (parse low) ≠ normal (parse temp) ∧
      normal (parse deep) ≠ normal (parse temp)) :
    Accepted (shipped deep low temp info) := by
  have hprefix : (shipped deep low temp info).downloadPrefix.head? = some sep ∧
      (shipped deep low temp info).downloadPrefix.getLast? = some sep := ⟨rfl, rfl⟩
  have hhash : (shipped deep low temp info).authHash.length = 64 ∧
      (shipped deep low temp info).authHash.all isLowerHex = true := ⟨rfl, rfl⟩
  have hvalid : validate (shipped deep low temp info) = .ok (shipped deep low temp info) := by
    simp only [validate, hprefix, hhash]
    simp [shipped, hdirs]
  refine ⟨JsonText.ofPairs [(conf deep low temp info, confText deep low temp info)],
    lit "Storage.conf", some (confText deep low temp info), {}, ?_⟩
  have hread : (readMembers (conf deep low temp info) {} >>= validate) =
      .ok (shipped deep low temp info) := by
    rw [readMembers_conf hne.1 hne.2.1 hne.2.2.1 hne.2.2.2]
    exact hvalid
  simpa [readConfig, JsonText.ofPairs, conf, Json.isObject] using hread

end Config
end CloudStorage
