import Lodging.Calendar.Instant

/-!
What a caller is told when a request fails: the kinds of failure with their HTTP status and code,
and the envelope in which a response carries them.
-/

namespace Lodging

inductive FailureKind where
  | badRequest
  | unauthorized
  | notFound
  | conflict
  | unavailable
  | internal
deriving DecidableEq

namespace FailureKind

def status : FailureKind → Nat
  | badRequest => 400
  | unauthorized => 401
  | notFound => 404
  | conflict => 409
  | unavailable => 503
  | internal => 500

/-- The code in an envelope. -/
def code : FailureKind → String
  | badRequest => "BAD_REQUEST"
  | unauthorized => "UNAUTHORIZED"
  | notFound => "NOT_FOUND"
  | conflict => "CONFLICT"
  | unavailable => "SERVICE_UNAVAILABLE"
  | internal => "INTERNAL_ERROR"

instance : ToString FailureKind := ⟨code⟩

def all : List FailureKind := [badRequest, unauthorized, notFound, conflict, unavailable, internal]

/-- The name of a kind by itself: its code, but for the kind of internal failures. -/
def name : FailureKind → String
  | internal => "INTERNAL"
  | k => k.code

def ofName? (s : String) : Option FailureKind := all.find? fun k => k.name = s

theorem ofName?_name (k : FailureKind) : ofName? k.name = some k := by cases k <;> rfl

end FailureKind

/-- A request turned down, with the status, code and message of the answer. -/
structure Refusal where
  status : Nat
  code : String
  message : String
deriving DecidableEq

namespace Refusal

def ofKind (k : FailureKind) (message : String) : Refusal := ⟨k.status, k.code, message⟩

def badRequest (message : String) : Refusal := ofKind .badRequest message

def unauthorized (message : String) : Refusal := ofKind .unauthorized message

/-- Input that could not be decoded. -/
def validation (message : String) : Refusal := ⟨400, "VALIDATION_ERROR", message⟩

end Refusal

/-- The error envelope. Path and correlation are filled in where they are known. -/
structure Problem where
  timestamp : Instant
  status : Nat
  code : String
  message : Option String
  path : Option String
  correlation : Option String
deriving DecidableEq

namespace Problem

/-- An envelope; an empty message is left out. -/
def make (now : Instant) (status : Nat) (code message : String) : Problem where
  timestamp := now
  status := status
  code := code
  message := if message = "" then none else some message
  path := none
  correlation := none

def ofRefusal (now : Instant) (r : Refusal) : Problem := make now r.status r.code r.message

def ofKind (now : Instant) (k : FailureKind) (message : String) : Problem :=
  make now k.status k.code message

end Problem

end Lodging
