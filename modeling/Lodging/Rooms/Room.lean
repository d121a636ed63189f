import Lodging.Identity
import Lodging.Problem
import Lodging.Calendar.Stay

/-!
Rooms, the locks that keep a room for a booking, and the failures of what is done with them.
-/

namespace Lodging

/-- A room. It counts the locks held on it, so that the least booked rooms can be offered first. -/
structure Room where
  id : RoomId
  hotel : HotelId
  number : String
  operational : Bool
  timesBooked : Int
deriving DecidableEq

structure NewRoom where
  hotel : HotelId
  number : String
  operational : Bool
deriving DecidableEq

/-- What callers see of a room. -/
structure RoomSummary where
  id : RoomId
  hotel : HotelId
  number : String
  available : Bool
  timesBooked : Int
deriving DecidableEq

def Room.summary (r : Room) : RoomSummary := ⟨r.id, r.hotel, r.number, r.operational, r.timesBooked⟩

/-- A room kept for a stay of a booking. -/
structure Lock where
  id : Int
  room : RoomId
  stay : Stay
  uid : Uid
  request : RequestId
  createdAt : Instant
deriving DecidableEq

structure NewLock where
  room : RoomId
  stay : Stay
  uid : Uid
  request : RequestId
deriving DecidableEq

/-- The order for a lock as callers send it, whose dates may be in any order. The room is named
apart from it. -/
structure LockOrder where
  arrival : Date
  departure : Date
  uid : Uid
  request : RequestId
deriving DecidableEq

/-- What no two locks may have in common. -/
inductive LockKey where
  | uid
  | request
deriving DecidableEq

def LockKey.constraint : LockKey → String
  | uid => "room_locks_booking_uid_key"
  | request => "room_locks_request_id_key"

inductive RoomFailure where
  | noNights (e : NoNights)
  | notFound (room : RoomId)
  | notOperational (room : RoomId)
  /-- Another lock covers part of the stay. -/
  | unavailable (room : RoomId) (stay : Stay)
  | duplicate (constraint : String)
  | storage
  | migration
deriving DecidableEq

namespace RoomFailure

def kind : RoomFailure → FailureKind
  | noNights _ => .badRequest
  | notFound _ => .notFound
  | notOperational _ | unavailable _ _ | duplicate _ => .conflict
  | storage | migration => .internal

/-- The text for a log, which a failure of the storage has of its own. -/
def detail? : RoomFailure → Option String
  | noNights e => some s!"Invalid period: {e.message}"
  | notFound room => some s!"Room {room} not found"
  | notOperational room => some s!"Room {room} is not operational"
  | unavailable room stay => some s!"Room {room} is not available for {stay}"
  | duplicate constraint => some s!"Duplicate room lock: {constraint}"
  | storage | migration => none

/-- The text for a caller, which names neither room nor stay where they are taken. -/
def message : RoomFailure → String
  | notOperational _ => "Room is not operational"
  | unavailable _ _ => "Room is not available for this period"
  | f => f.detail?.getD "Internal storage error"

def refusal (f : RoomFailure) : Refusal := .ofKind f.kind f.message

end RoomFailure

end Lodging
