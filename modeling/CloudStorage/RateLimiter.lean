import CloudStorage.World

/-!
# `LoginRateLimiter`

Each method under its lock, with the clock reading it makes. A login asks
`Allow` first and, when allowed, ends in `Failure`, in `Success`, or in neither
(a body that cannot be read, a session that cannot be created).
-/

namespace CloudStorage
open Posix Transition

namespace LoginRateLimiter

/-- `std::chrono::minutes(1)`. -/
def minute : Int := 60 * second

/-- The answer, and `attempts_` after a possible erasure. -/
def allow (attempts : Attempts) (address : Bytes) (now : Int) : Bool × Attempts :=
  match attempts.lookup address with
  | none => (true, attempts)
  | some attempt =>
    if attempt.blocked_until > now then (false, attempts)
    else if now - attempt.window_started > minute then (true, attempts.erase address)
    else (true, attempts)

/-- A window that was never started, or is over, starts now. -/
def Attempt.current (attempt : Attempt) (now : Int) : Attempt :=
  if attempt.window_started = 0 ∨ now - attempt.window_started > minute then
    { attempt with window_started := now, failures := 0 }
  else attempt

def Attempt.failed (attempt : Attempt) (now : Int) : Attempt :=
  let attempt := Attempt.current attempt now
  let attempt := { attempt with failures := attempt.failures + 1 }
  if attempt.failures ≥ 5 then { attempt with blocked_until := now + minute } else attempt

def failure (attempts : Attempts) (address : Bytes) (now : Int) : Attempts :=
  attempts.insert address (Attempt.failed ((attempts.lookup address).getD {}) now)

def success (attempts : Attempts) (address : Bytes) : Attempts :=
  attempts.erase address

/-! ### Logins -/

inductive Result
  | failure
  | success
  | neither
  deriving DecidableEq, Repr

structure Login where
  address : Bytes
  /-- clock of `Allow` -/
  asked : Int
  /-- clock of `Failure` or `Success` -/
  ended : Int
  result : Result
  deriving DecidableEq, Repr

/-- `attempts_` after the password check. -/
def conclude (attempts : Attempts) (l : Login) : Attempts :=
  match l.result with
  | .failure => failure attempts l.address l.ended
  | .success => success attempts l.address
  | .neither => attempts

def login (attempts : Attempts) (l : Login) : Bool × Attempts :=
  let allowed := allow attempts l.address l.asked
  if allowed.1 then (true, conclude allowed.2 l) else (false, allowed.2)

structure State where
  attempts : Attempts
  clock : Int

/-- One login and the answer of `Allow`. -/
structure Step (s : State) (e : Login × Bool) (s' : State) : Prop where
  asked : s.clock ≤ e.1.asked
  ended : e.1.asked ≤ e.1.ended
  clock : s'.clock = e.1.ended
  answer : (login s.attempts e.1).1 = e.2
  attempts : s'.attempts = (login s.attempts e.1).2

abbrev LoginRun := Run Step

/-! ### One address alone -/

/-- What the map keeps of one address, through one login of that address. -/
def Entry.allow (entry : Option Attempt) (now : Int) : Bool × Option Attempt :=
  match entry with
  | none => (true, none)
  | some attempt =>
    if attempt.blocked_until > now then (false, some attempt)
    else if now - attempt.window_started > minute then (true, none)
    else (true, some attempt)

def Entry.conclude (entry : Option Attempt) (l : Login) : Option Attempt :=
  match l.result with
  | .failure => some (Attempt.failed (entry.getD {}) l.ended)
  | .success => none
  | .neither => entry

def Entry.login (entry : Option Attempt) (l : Login) : Bool × Option Attempt :=
  let allowed := Entry.allow entry l.asked
  if allowed.1 then (true, Entry.conclude allowed.2 l) else (false, allowed.2)

theorem lookup_same {attempts : Attempts} {address : Bytes} {entry : Option Attempt}
    (h : attempts.lookup address = entry) (other : Bytes) :
    attempts.lookup other = if other = address then entry else attempts.lookup other := by
  split
  · rename_i he
    rw [he, h]
  · rfl

theorem lookup_erase (attempts : Attempts) (address other : Bytes) :
    (attempts.erase address).lookup other =
      if other = address then none else attempts.lookup other := by
  split
  · rename_i he
    rw [he, AList.lookup_erase]
  · rename_i hne
    rw [AList.lookup_erase_ne hne]

theorem lookup_insert (attempts : Attempts) (address other : Bytes) (attempt : Attempt) :
    (attempts.insert address attempt).lookup other =
      if other = address then some attempt else attempts.lookup other := by
  split
  · rename_i he
    rw [he, AList.lookup_insert]
  · rename_i hne
    rw [AList.lookup_insert_ne hne]

theorem allow_entry (attempts : Attempts) (address : Bytes) (now : Int) :
    (allow attempts address now).1 = (Entry.allow (attempts.lookup address) now).1 ∧
      ∀ other, (allow attempts address now).2.lookup other =
        if other = address then (Entry.allow (attempts.lookup address) now).2
        else attempts.lookup other := by
  unfold allow Entry.allow
  cases h : attempts.lookup address with
  | none => exact ⟨rfl, lookup_same h⟩
  | some attempt =>
    by_cases hblocked : attempt.blocked_until > now
    · simp only [hblocked, if_true]
      exact ⟨trivial, lookup_same h⟩
    · by_cases hover : now - attempt.window_started > minute
      · simp only [hblocked, hover, if_true, if_false]
        exact ⟨trivial, lookup_erase attempts address⟩
      · simp only [hblocked, hover, if_false]
        exact ⟨trivial, lookup_same h⟩

theorem conclude_entry (attempts : Attempts) (l : Login) (other : Bytes) :
    (conclude attempts l).lookup other =
      if other = l.address then Entry.conclude (attempts.lookup l.address) l
      else attempts.lookup other := by
  unfold conclude Entry.conclude
  cases l.result with
  | failure => exact lookup_insert attempts l.address other _
  | success => exact lookup_erase attempts l.address other
  | neither => exact lookup_same rfl other

theorem login_entry (attempts : Attempts) (l : Login) :
    (login attempts l).1 = (Entry.login (attempts.lookup l.address) l).1 ∧
      ∀ other, (login attempts l).2.lookup other =
        if other = l.address then (Entry.login (attempts.lookup l.address) l).2
        else attempts.lookup other := by
  obtain ⟨hanswer, hlookup⟩ := allow_entry attempts l.address l.asked
  unfold login Entry.login
  simp only [hanswer]
  split
  · constructor
    · rfl
    · intro other
      simp only [conclude_entry, hlookup, if_true]
      split
      · rfl
      · rfl
  · exact ⟨rfl, hlookup⟩

end LoginRateLimiter
end CloudStorage
