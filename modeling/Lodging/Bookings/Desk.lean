import Lodging.Client.Gateway

/-!
The booking desk. A new booking is written down as pending before the inventory is asked to lock its
room, and its outcome is a write of its own: confirmed, or cancelled with the room released. So a
booking whose making was cut short stays visible as pending.
-/

namespace Lodging.Desk

abbrev Task := ExceptT BookingFailure Process

def ask (call : LedgerCall) : Task call.Value := ExceptT.mk (Process.ledger call)

def note (event : Meter) : Task Unit := ExceptT.lift (Process.meter event)

/-- A call to the inventory, whose failure is passed on. -/
def invoke (p : Process (Except CallFailure α)) : Task α :=
  ExceptT.mk do return (← p).mapError .inventory

/-- Accepts a request, once. -/
def accept (r : RequestId) : Task Unit := do
  match ← ExceptT.lift (Process.ledger (.accept r)) with
  | .ok () => return ()
  | .error (.duplicate r') =>
    note .duplicateRequest
    throw (.duplicate r')
  | .error f => throw f

/-- The room that is asked for, or the one that the inventory recommends first. -/
def chooseRoom (g : Gateway) (q : BookingRequest) (stay : Stay) (r : RequestId) : Task RoomId :=
  if q.anyRoom then do
    match ← invoke (g.recommend stay r) with
    | room :: _ => return room.id
    | [] => throw .noRoom
  else
    match q.room with
    | some room => return room
    | none => throw .roomMissing

/-- Moves a booking on, which fails if it is no longer where it was. -/
def move (b : Booking) (expected next : Status) : Task Booking := do
  match ← ask (.updateStatus b.id expected next) with
  | some b' => return b'
  | none => throw (.stale b.id expected)

/-- Releases a room; a failure is only counted. -/
def releaseQuietly (g : Gateway) (b : Booking) (r : RequestId) : Process Unit := do
  match ← g.release b.room b.uid r with
  | .ok () => return ()
  | .error _ => Process.meter .releaseFailed

/-- Undoes a booking that could not be confirmed. -/
def compensate (g : Gateway) (b : Booking) (r : RequestId) : Process Unit := do
  match ← (move b .pending .cancelled).run with
  | .ok _ => releaseQuietly g b r
  | .error _ =>
    Process.meter .statusLost
    releaseQuietly g b r

/-- Has the room of a pending booking locked, and confirms the booking. -/
def secure (g : Gateway) (b : Booking) (r : RequestId) : Task Booking := do
  invoke (g.confirm b.room ⟨b.stay.arrival, b.stay.departure, b.uid, r⟩)
  move b .pending .confirmed

/-- Brings a pending booking to its end. -/
def settle (g : Gateway) (b : Booking) (r : RequestId) :
    Process (Except BookingFailure BookingSummary) := do
  match ← (secure g b r).run with
  | .ok b' =>
    Process.meter .bookingConfirmed
    return .ok b'.summary
  | .error f =>
    Process.meter (.compensation f.kind)
    compensate g b r
    return .error f

/-- Books a room for a user, under an identifier that no other booking has. -/
def create (g : Gateway) (user : UserId) (q : BookingRequest) (r : RequestId) (today : Date)
    (uid : Uid) : Task BookingSummary := do
  note .bookingStarted
  match Stay.requested q.arrival q.departure today with
  | .error f => throw f
  | .ok stay =>
    accept r
    let room ← chooseRoom g q stay r
    let b ← ask (.insertPending ⟨uid, user, room, stay⟩)
    ExceptT.mk ((settle g b r).metered fun _ => .bookingTimed)

/-- A booking of a user. Those of others count as missing. -/
def owned (id : BookingId) (user : UserId) : Task Booking := do
  match ← ask (.get id) with
  | some b => if b.user = user then return b else throw (.notFound id)
  | none => throw (.notFound id)

/-- Marks a booking cancelled. It is no failure if someone else has done so meanwhile. -/
def markCancelled (b : Booking) : Task Booking := do
  match ← ask (.updateStatus b.id b.status .cancelled) with
  | some b' => return b'
  | none =>
    match ← ask (.get b.id) with
    | some b' => if b'.status = .cancelled then return b' else throw (.stale b.id b.status)
    | none => throw (.stale b.id b.status)

/-- Cancels a booking of a user: its room is released, and whatever comes of that the booking is
marked. A cancelled booking is left alone. -/
def cancel (g : Gateway) (id : BookingId) (user : UserId) (r : RequestId) :
    Task BookingSummary := do
  let b ← owned id user
  if b.status = .cancelled then return b.summary
  else
    ExceptT.lift (releaseQuietly g b r)
    let b' ← markCancelled b
    note .bookingCancelled
    return b'.summary

def get (id : BookingId) (user : UserId) : Task BookingSummary := return (← owned id user).summary

/-- A page of the bookings of a user, newest first. -/
def list (user : UserId) (p : PageRequest) : Task (Page BookingSummary) :=
  return (← ask (.pageOf user p)).map (·.summary)

end Lodging.Desk
