import Lodging.Bookings.Desk
import Lodging.Client.Remote
import Lodging.Service.Router

/-!
The two services: the bookings, for users, and the inventory, whose rooms anyone may look at, while
only those who know its token may lock and release them.
-/

namespace Lodging

namespace Exchange

variable (x : Exchange)

/-- The dates in a query. -/
def stay : Except Refusal Stay := do
  let start ← x.queryField "start" Date.ofChars?
  let stop ← x.queryField "end" Date.ofChars?
  match start, stop with
  | some a, some b =>
    (Stay.ofDates a b).mapError fun _ => .badRequest "Invalid dates: start must be before end"
  | _, _ => throw (.badRequest "start and end are required")

/-- The page in a query. -/
def page : Except Refusal PageRequest := do
  let page ← x.queryField "page" (Decimal.below? (Decimal.capacity 32))
  let size ← x.queryField "size" (Decimal.below? (Decimal.capacity 32))
  return .ofQuery page size

/-- The booking whose room is to be released. -/
def releasedUid : Except Refusal Uid := do
  match ← x.queryField "bookingId" Uid.ofChars? with
  | some uid => return uid
  | none => throw (.validation "Missing bookingId in the query")

end Exchange

/-- The lock on a room that is ordered. -/
def LockOrder.newLock (o : LockOrder) (room : RoomId) : Except Refusal NewLock :=
  match Stay.ofDates o.arrival o.departure with
  | .ok stay => .ok ⟨room, stay, o.uid, o.request⟩
  | .error _ => .error (.badRequest "Invalid dates: startDate must be before endDate")

namespace Service

/-- What a handler takes from the request. -/
def take (e : Except Refusal α) : ExceptT Refusal Process α := ExceptT.mk (pure e)

def rooms (t : Keeper.Task α) : ExceptT Refusal Process α := t.adapt RoomFailure.refusal

def bookings (t : Desk.Task α) : ExceptT Refusal Process α := t.adapt BookingFailure.refusal

def createBooking (g : Gateway) : Handler := fun x => do
  let user ← take x.caller
  let q ← take (x.body BookingRequest)
  let o := x.occasion
  return .ofValue (← bookings (Desk.create g user q x.correlation o.now.date o.uid))

def listBookings : Handler := fun x => do
  let user ← take x.caller
  let page ← take x.page
  return .ofValue (← bookings (Desk.list user page))

def getBooking : Handler := fun x => do
  let user ← take x.caller
  let id ← take x.number
  return .ofValue (← bookings (Desk.get ⟨id⟩ user))

def cancelBooking (g : Gateway) : Handler := fun x => do
  let user ← take x.caller
  let id ← take x.number
  let _ ← bookings (Desk.cancel g ⟨id⟩ user x.correlation)
  return .bare 204

def availableRooms : Handler := fun x => do
  return .ofValue (← rooms (Keeper.available (← take x.stay)))

def recommendedRooms : Handler := fun x => do
  return .ofValue (← rooms (Keeper.recommend (← take x.stay)))

def getRoom : Handler := fun x => do
  let id ← take x.number
  return .ofValue (← rooms (Keeper.getRoom ⟨id⟩)).summary

def confirmLock (token : String) : Handler := fun x => do
  take (x.authorize token)
  let id ← take x.number
  let order ← take (x.body LockOrder)
  let lock ← take (order.newLock ⟨id⟩)
  let _ ← rooms (ExceptT.mk (Keeper.confirm lock))
  return .bare 200

def releaseLock (token : String) : Handler := fun x => do
  take (x.authorize token)
  let id ← take x.number
  let uid ← take x.releasedUid
  let _ ← rooms (ExceptT.mk (Keeper.release ⟨id⟩ uid))
  return .bare 200

def health : Handler := fun _ => return .json (Json.object [("status", .text "ok")]).compact

def metricsType : String := "text/plain; version=0.0.4; charset=utf-8"

/-- The counts of all meters, one a line, after a comment. -/
def metrics : Handler := fun _ => do
  let counts ← ExceptT.lift Process.readings
  let lines := counts.map fun (name, n) => s!"{name} {Decimal.nat n}\n"
  return ⟨200, [(Header.contentType, metricsType)], "# events so far\n" ++ String.join lines, none⟩

def bookingCreation (g : Gateway) : Route :=
  ⟨["api", "booking"], [(.post, createBooking g)]⟩

def bookingList : Route := ⟨["api", "bookings"], [(.get, listBookings)]⟩

def singleBooking (g : Gateway) : Route :=
  ⟨["api", "booking", .param], [(.get, getBooking), (.delete, cancelBooking g)]⟩

def roomList : Route := ⟨["api", "rooms"], [(.get, availableRooms)]⟩

def recommendation : Route := ⟨["api", "rooms", "recommend"], [(.get, recommendedRooms)]⟩

def singleRoom : Route := ⟨["api", "rooms", .param], [(.get, getRoom)]⟩

def roomLocking (token : String) : Route :=
  ⟨["api", "rooms", .param, "confirm-availability"], [(.post, confirmLock token)]⟩

def roomRelease (token : String) : Route :=
  ⟨["api", "rooms", .param, "release"], [(.post, releaseLock token)]⟩

/-- The routes that every framed service has. -/
def common : List Route := [⟨["health"], [(.get, health)]⟩, ⟨["metrics"], [(.get, metrics)]⟩]

/-- The service of the bookings. -/
def booking (g : Gateway) : Service :=
  ⟨common ++ [bookingCreation g, bookingList, singleBooking g], true⟩

/-- The service of the inventory. -/
def inventory (token : String) : Service :=
  ⟨common ++ [roomList, recommendation, singleRoom, roomLocking token, roomRelease token], true⟩

/-- Bookings one at a time, without a frame. -/
def bareBooking (g : Gateway) : Service := ⟨[bookingCreation g, singleBooking g], false⟩

/-- Rooms one at a time, without a frame and without a way to release them. -/
def bareInventory (token : String) : Service := ⟨[singleRoom, roomLocking token], false⟩

end Service

/-- A link that ends in the same process, at the service of the inventory. -/
def Link.inventory (token : String) (o : Occasion) : Link := fun r => do
  let a ← (Service.inventory token).answer o r
  return .answered a.status (some a.body)

/-- A link that leads nowhere. -/
def Link.dead : Link := fun _ => return .lost

end Lodging
