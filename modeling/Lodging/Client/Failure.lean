import Lodging.Problem

/-!
The three operations of the inventory that the bookings need, and how a call of one can fail.
-/

namespace Lodging

inductive Operation where
  | recommend
  | confirm
  | release
deriving DecidableEq

namespace Operation

def name : Operation → String
  | recommend => "recommend"
  | confirm => "confirm-availability"
  | release => "release"

instance : ToString Operation := ⟨name⟩

def ofName? (s : String) : Option Operation := [recommend, confirm, release].find? (·.name = s)

theorem ofName?_name (o : Operation) : ofName? o.name = some o := by cases o <;> rfl

end Operation

inductive CallFailure where
  | badRequest (message : Option String)
  | unauthorized
  | notFound
  | conflict (message : Option String)
  /-- The request or its answer was lost, or the answer made no sense. -/
  | transport (message : String)
  /-- The answer has a status that stands for no other failure. -/
  | unexpected (status : Nat) (message : Option String)
  /-- All attempts failed. -/
  | unavailable (operation : Operation) (attempts : Nat)
deriving DecidableEq

namespace CallFailure

/-- The failure behind an answer that is no success. -/
def ofStatus (status : Nat) (message : Option String) : CallFailure :=
  if status = 400 then badRequest message
  else if status = 401 ∨ status = 403 then unauthorized
  else if status = 404 then notFound
  else if status = 409 then conflict message
  else unexpected status message

/-- Another attempt may succeed. -/
def retryable : CallFailure → Bool
  | transport _ | unexpected .. => true
  | _ => false

def kind : CallFailure → FailureKind
  | badRequest _ => .badRequest
  | unauthorized => .unauthorized
  | notFound => .notFound
  | conflict _ => .conflict
  | transport _ | unexpected .. | unavailable .. => .unavailable

def message : CallFailure → String
  | badRequest m => m.getD "Bad request to inventory service"
  | unauthorized => "Inventory service rejected service token"
  | notFound => "Inventory service resource not found"
  | conflict m => m.getD "Inventory service conflict"
  | transport m => s!"Inventory service transport failure: {m}"
  | unexpected status _ => s!"Inventory service responded with status {Decimal.nat status}"
  | unavailable operation attempts =>
    let n := Decimal.nat attempts
    s!"Inventory service is unavailable during '{operation}' after {n} attempt(s)"

/-- The text that came with an answer, kept as it came. -/
def payload? : CallFailure → Option String
  | badRequest m | conflict m | unexpected _ m => m
  | _ => none

end CallFailure

end Lodging
