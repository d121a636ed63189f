import Lodging.Client.Failure

/-!
The meters: events that are counted, and the names under which their counts are shown.
-/

namespace Lodging

/-- How an attempt to lock a room came out. -/
inductive LockOutcome where
  | locked
  | idempotent
  | unavailable
  | notOperational
  | error
deriving DecidableEq

def LockOutcome.label : LockOutcome → String
  | locked => "locked"
  | idempotent => "idempotent"
  | unavailable => "unavailable"
  | notOperational => "not_operational"
  | error => "error"

inductive Meter where
  | lockAttempt (outcome : LockOutcome)
  | lockReleased
  | bookingStarted
  | duplicateRequest
  | bookingConfirmed
  | bookingCancelled
  | compensation (reason : FailureKind)
  | statusLost
  | releaseFailed
  /-- A sample of how long a booking took. -/
  | bookingTimed
  | retry (operation : Operation)
  | exhausted (operation : Operation)
  | answered (status : Nat)
deriving DecidableEq

namespace Meter

/-- A name with one label. -/
def labelled (name label value : String) : String := name ++ "\x7b" ++ label ++ "=\"" ++ value ++ "\"\x7d"

def text : Meter → String
  | lockAttempt o => labelled "room_lock_confirm_total" "outcome" o.label
  | lockReleased => "room_lock_release_total"
  | bookingStarted => "booking_saga_executions_total"
  | duplicateRequest => "booking_duplicate_requests_total"
  | bookingConfirmed => "booking_confirmed_total"
  | bookingCancelled => "booking_cancelled_total"
  | compensation k => labelled "booking_compensations_total" "reason" k.code
  | statusLost => "booking_status_write_failures_total"
  | releaseFailed => "booking_release_failures_total"
  | bookingTimed => "booking_saga_duration_seconds_count"
  | retry o => labelled "inventory_client_retries_total" "operation" o.name
  | exhausted o => labelled "inventory_client_exhausted_total" "operation" o.name
  | answered status => labelled "http_responses_total" "status" (Decimal.nat status)

/-- Each name that occurs in a record of events, with its count. -/
def tally (events : List Meter) : List (String × Nat) :=
  (events.map text).eraseDups.map fun name => (name, (events.map text).count name)

end Meter

end Lodging
