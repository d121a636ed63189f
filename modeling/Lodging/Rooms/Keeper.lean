import Lodging.Process

/-!
The keeper of the rooms: places a lock on a room for a stay, releases it, and finds the rooms that
are free. Placing and releasing a lock happen while holding the room, so that a look at its locks
stays true until the lock is placed.
-/

namespace Lodging.Keeper

/-- A lock that is in place: a new one, or the one placed before for the same request. -/
inductive Placement where
  | locked (lock : Lock)
  | alreadyLocked (lock : Lock)
deriving DecidableEq

def Placement.lock : Placement → Lock
  | locked l | alreadyLocked l => l

inductive Removal where
  | released
  | nothingToRelease
deriving DecidableEq

abbrev Task := ExceptT RoomFailure Process

def ask (call : RoomCall) : Task call.Value := ExceptT.mk (Process.rooms call)

def getRoom (id : RoomId) : Task Room := do
  match ← ask (.getRoom id) with
  | some r => return r
  | none => throw (.notFound id)

/-- What became of the attempt to place a lock, for the meter. -/
def outcome : Except RoomFailure Placement → LockOutcome
  | .ok (.locked _) => .locked
  | .ok (.alreadyLocked _) => .idempotent
  | .error (.unavailable ..) => .unavailable
  | .error (.notOperational _) => .notOperational
  | .error _ => .error

/-- Places a lock. If someone has placed one for the same request meanwhile, that one counts. -/
def placeNew (n : NewLock) : Task Placement := do
  match ← ExceptT.lift (Process.rooms (.insertLock n)) with
  | .ok l => return .locked l
  | .error (.duplicate constraint) =>
    match ← ask (.lockByRequest n.request) with
    | some l => return .alreadyLocked l
    | none => throw (.duplicate constraint)
  | .error f => throw f

/-- Places a lock on a room that is held, unless the request has one already, the room is out of
service or a lock overlaps. -/
def place (n : NewLock) : Task Placement := do
  let r ← getRoom n.room
  match ← ask (.lockByRequest n.request) with
  | some l => return .alreadyLocked l
  | none =>
    if ! r.operational then throw (.notOperational n.room)
    else
      match ← ask (.overlapping n.room n.stay) with
      | [] => placeNew n
      | _ :: _ => throw (.unavailable n.room n.stay)

/-- Locks a room for a stay. -/
def confirm (n : NewLock) : Process (Except RoomFailure Placement) :=
  (Process.within n.room (place n).run).metered fun r => .lockAttempt (outcome r)

/-- Removes the lock of a booking from a room that is held. -/
def remove (room : RoomId) (uid : Uid) : Task Removal := do
  let _ ← getRoom room
  match ← ask (.lockByUid uid) with
  | none => return .nothingToRelease
  | some l =>
    if l.room ≠ room then return .nothingToRelease
    else if ← ask (.deleteLock l.id l.room) then
      ExceptT.lift (Process.meter .lockReleased)
      return .released
    else return .nothingToRelease

/-- Releases a room from a booking. -/
def release (room : RoomId) (uid : Uid) : Process (Except RoomFailure Removal) :=
  Process.within room (remove room uid).run

/-- The rooms with no lock that overlaps a stay. -/
def free (stay : Stay) : List Room → Task (List Room)
  | [] => return []
  | r :: rest => do
    match ← ask (.overlapping r.id stay) with
    | [] => return r :: (← free stay rest)
    | _ :: _ => free stay rest

/-- The rooms in service that are free for a stay, by ascending id. -/
def available (stay : Stay) : Task (List RoomSummary) := do
  let rooms ← free stay (← ask .operationalRooms)
  return (rooms.map (·.summary)).mergeSort fun a b => a.id.number ≤ b.id.number

/-- The less booked first, and of the equally booked the lower id. -/
def prefers (a b : RoomSummary) : Bool :=
  a.timesBooked < b.timesBooked || (a.timesBooked = b.timesBooked && a.id.number ≤ b.id.number)

/-- The rooms that are free for a stay, least booked first. -/
def recommend (stay : Stay) : Task (List RoomSummary) := do
  return (← available stay).mergeSort prefers

/-- The rooms of the demonstration, with their hotels. -/
def demoRooms : List (Int × String) :=
  [(1, "101"), (1, "102"), (1, "201"), (2, "10"), (2, "11"), (3, "1A"), (3, "1B"), (3, "2A"),
    (3, "2B")]

/-- Furnishes an empty inventory with the rooms of the demonstration; the number of rooms added. -/
def furnish : Task Nat := do
  if (← ask .roomCount) > 0 then return 0
  else
    demoRooms.forM fun (hotel, number) => discard <| ask (.insertRoom ⟨⟨hotel⟩, number, true⟩)
    return demoRooms.length

end Lodging.Keeper
