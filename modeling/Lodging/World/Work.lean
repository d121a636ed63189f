import Lodging.Service.App

/-!
Pieces of work that a world can be given: single calls of its parts, what their keepers do with
them, and requests to its services.
-/

namespace Lodging

/-- What a piece of work brings about, if it does not fail. -/
inductive Reply where
  | nothing
  | flag (b : Bool)
  | count (n : Nat)
  | room (r : Room)
  | rooms (rs : List Room)
  | summary (r : RoomSummary)
  | summaries (rs : List RoomSummary)
  | placement (p : Keeper.Placement)
  | removal (r : Keeper.Removal)
  | lock (l : Option Lock)
  | locks (ls : List Lock)
  | booking (b : Option Booking)
  | bookingSummary (b : BookingSummary)
  | page (p : Page BookingSummary)
  | response (r : Response)
  /-- A room is held under a name, which was in use or not. -/
  | held (name : String) (ticket : Ticket)

inductive Failure where
  | room (f : RoomFailure)
  | booking (f : BookingFailure)
  | call (f : CallFailure)
deriving DecidableEq

abbrev Outcome := Except Failure Reply

/-- The services of a world, and which of them have a frame. -/
inductive ServiceName where
  | booking
  | inventory
  | bareBooking
  | bareInventory
deriving DecidableEq

/-- Dates that may be in any order. -/
structure Dates where
  arrival : Date
  departure : Date

inductive Work where
  | addRoom (room : NewRoom)
  | furnish
  | confirm (room : RoomId) (dates : Dates) (uid : Uid) (request : RequestId)
  | release (room : RoomId) (uid : Uid)
  | available (dates : Dates)
  | recommend (dates : Dates)
  | getRoom (room : RoomId)
  | insertLock (room : RoomId) (dates : Dates) (uid : Uid) (request : RequestId)
  | deleteLock (id : Int) (room : RoomId)
  | lockByRequest (request : RequestId)
  | lockByUid (uid : Uid)
  | overlapping (room : RoomId) (dates : Dates)
  | locksOf (room : RoomId)
  | operationalRooms
  | roomCount
  | create (user : UserId) (request : RequestId) (booking : BookingRequest)
  | cancel (id : BookingId) (user : UserId) (request : RequestId)
  | get (id : BookingId) (user : UserId)
  | list (user : UserId) (page : PageRequest)
  | accept (request : RequestId)
  | updateStatus (id : BookingId) (expected next : Status)
  | gatewayRecommend (dates : Dates) (request : RequestId)
  | gatewayConfirm (room : RoomId) (order : LockOrder)
  | gatewayRelease (room : RoomId) (uid : Uid) (request : RequestId)
  | hold (name : String) (room : RoomId)
  | http (service : ServiceName) (request : Request)

/-- What the pieces of work of one world share: the way to the inventory, and the token that its
service expects. -/
structure Site where
  gateway : Gateway
  token : String

def Site.service (s : Site) : ServiceName → Service
  | .booking => .booking s.gateway
  | .inventory => .inventory s.token
  | .bareBooking => .bareBooking s.gateway
  | .bareInventory => .bareInventory s.token

namespace Work

abbrev Task := ExceptT Failure Process

def byKeeper (t : Keeper.Task α) : Task α := t.adapt .room

def byDesk (t : Desk.Task α) : Task α := t.adapt .booking

def byGateway (p : Process (Except CallFailure α)) : Task α := (ExceptT.mk p).adapt .call

/-- The stay between two dates. -/
def stay (d : Dates) : Task Stay :=
  match Stay.ofDates d.arrival d.departure with
  | .ok s => return s
  | .error e => throw (.room (.noNights e))

def task (s : Site) (o : Occasion) : Work → Task Reply
  | addRoom n => return .room (← byKeeper (Keeper.ask (.insertRoom n)))
  | furnish => return .count (← byKeeper Keeper.furnish)
  | confirm room d uid r => do
    return .placement (← byKeeper (ExceptT.mk (Keeper.confirm ⟨room, ← stay d, uid, r⟩)))
  | release room uid => return .removal (← byKeeper (ExceptT.mk (Keeper.release room uid)))
  | available d => do return .summaries (← byKeeper (Keeper.available (← stay d)))
  | recommend d => do return .summaries (← byKeeper (Keeper.recommend (← stay d)))
  | getRoom room => return .summary (← byKeeper (Keeper.getRoom room)).summary
  | insertLock room d uid r => do
    return .lock (some (← byKeeper (Keeper.ask (.insertLock ⟨room, ← stay d, uid, r⟩))))
  | deleteLock id room => return .flag (← byKeeper (Keeper.ask (.deleteLock id room)))
  | lockByRequest r => return .lock (← byKeeper (Keeper.ask (.lockByRequest r)))
  | lockByUid uid => return .lock (← byKeeper (Keeper.ask (.lockByUid uid)))
  | overlapping room d => do
    return .locks (← byKeeper (Keeper.ask (.overlapping room (← stay d))))
  | locksOf room => return .locks (← byKeeper (Keeper.ask (.locksOf room)))
  | operationalRooms => return .rooms (← byKeeper (Keeper.ask .operationalRooms))
  | roomCount => return .count (← byKeeper (Keeper.ask .roomCount))
  | create user r q =>
    return .bookingSummary (← byDesk (Desk.create s.gateway user q r o.now.date o.uid))
  | cancel id user r => return .bookingSummary (← byDesk (Desk.cancel s.gateway id user r))
  | get id user => return .bookingSummary (← byDesk (Desk.get id user))
  | list user p => return .page (← byDesk (Desk.list user p))
  | accept r => do
    byDesk (Desk.accept r)
    return .nothing
  | updateStatus id expected next =>
    return .booking (← byDesk (Desk.ask (.updateStatus id expected next)))
  | gatewayRecommend d r => do
    return .summaries (← byGateway (s.gateway.recommend (← stay d) r))
  | gatewayConfirm room order => do
    byGateway (s.gateway.confirm room order)
    return .nothing
  | gatewayRelease room uid r => do
    byGateway (s.gateway.release room uid r)
    return .nothing
  | hold name room => ExceptT.lift (Process.enter room fun t => .done (.held name t))
  | http name r => do return .response (← ExceptT.lift ((s.service name).answer o r))

def process (s : Site) (o : Occasion) (w : Work) : Process Outcome := (w.task s o).run

end Work

end Lodging
