import Lodging.Bookings.Booking
import Lodging.Client.Failure

/-!
How an order to the booking ledger can fail, and the check of the dates of a request.
-/

namespace Lodging

inductive BookingFailure where
  /-- The request makes no sense. -/
  | invalid (message : String)
  | duplicate (request : RequestId)
  | noRoom
  | notFound (id : BookingId)
  /-- Someone else has changed the status meanwhile. -/
  | stale (id : BookingId) (expected : Status)
  | inventory (f : CallFailure)
  | storage
  | migration
deriving DecidableEq

namespace BookingFailure

def kind : BookingFailure → FailureKind
  | invalid _ => .badRequest
  | duplicate _ | noRoom | stale .. => .conflict
  | notFound _ => .notFound
  | inventory f => f.kind
  | storage | migration => .internal

def message : BookingFailure → String
  | invalid m => m
  | duplicate r => s!"Duplicate request: X-Request-Id={r}"
  | noRoom => "No available rooms for this period"
  | notFound id => s!"Booking {id} not found"
  | stale id expected => s!"Booking {id} is no longer {expected}"
  | inventory f => f.message
  | storage | migration => "Internal storage error"

def refusal (f : BookingFailure) : Refusal := .ofKind f.kind f.message

def datesMissing : BookingFailure := invalid "startDate and endDate are required"

def datesReversed : BookingFailure := invalid "Invalid dates: startDate must be before endDate"

def datesPast : BookingFailure := invalid "Invalid dates: startDate must be today or later"

def roomMissing : BookingFailure := invalid "roomId is required when autoSelect=false"

end BookingFailure

/-- The stay that is asked for: both dates in their order, and none of its nights gone by. -/
def Stay.requested (arrival departure : Option Date) (today : Date) : Except BookingFailure Stay :=
  match arrival, departure with
  | some a, some d =>
    match Stay.ofDates a d with
    | .ok stay => if a < today then .error .datesPast else .ok stay
    | .error _ => .error .datesReversed
  | _, _ => .error .datesMissing

end Lodging
