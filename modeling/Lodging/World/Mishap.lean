import Lodging.Bookings.Ledger
import Lodging.Rooms.Inventory

/-!
Mishaps: calls of the inventory or the ledger that go wrong as planned. Most calls that go wrong
leave everything as it was.
-/

namespace Lodging

/-- The kinds of calls that can go wrong. -/
inductive CallKind where
  | insertRoom | getRoom | operationalRooms | roomCount | lockByRequest | lockByUid | overlapping
  | insertLock | deleteLock | accept | insertPending | updateStatus | getBooking | pageOf
deriving DecidableEq

inductive Mishap where
  /-- The storage fails. -/
  | storage
  | duplicate
  | notFound
  | unavailable
  /-- Nothing is found. -/
  | nothing
  | gone
  /-- Someone else moves the booking to a status just before. -/
  | overtaken (status : Status)
deriving DecidableEq

/-- The plan of a mishap: how many calls of its kind it lets pass, and how many it then spoils. One
for changes of status may be meant for a certain new status only. -/
structure Plan where
  kind : CallKind
  mishap : Mishap
  target : Option Status
  skip : Nat
  times : Nat
deriving DecidableEq

namespace Plan

/-- Meant for a call, and not used up. -/
def awaits (p : Plan) (kind : CallKind) (target : Option Status) : Bool :=
  p.kind = kind && 0 < p.times && (p.target.isNone || p.target = target)

/-- What becomes of a call, and of the plans, of which the first that awaits it takes part. -/
def meet (kind : CallKind) (target : Option Status) : List Plan → Option Mishap × List Plan
  | [] => (none, [])
  | p :: rest =>
    if p.awaits kind target then
      if 0 < p.skip then (none, { p with skip := p.skip - 1 } :: rest)
      else (some p.mishap, { p with times := p.times - 1 } :: rest)
    else
      let (m, rest') := meet kind target rest
      (m, p :: rest')

end Plan

def RoomCall.kind? : RoomCall → Option CallKind
  | insertRoom _ => some .insertRoom
  | getRoom _ => some .getRoom
  | operationalRooms => some .operationalRooms
  | roomCount => some .roomCount
  | lockByRequest _ => some .lockByRequest
  | lockByUid _ => some .lockByUid
  | overlapping .. => some .overlapping
  | locksOf _ => none
  | insertLock _ => some .insertLock
  | deleteLock .. => some .deleteLock

/-- The failure in a mishap of a call that concerns a room. -/
def Mishap.roomFailure (room : RoomId) : Mishap → RoomFailure
  | duplicate => .duplicate LockKey.request.constraint
  | notFound => .notFound room
  | _ => .storage

/-- A room that is nowhere. -/
def RoomId.nowhere : RoomId := ⟨-1⟩

/-- The answer to a call that goes wrong. -/
def RoomCall.spoiled (m : Mishap) : (c : RoomCall) → c.Answer
  | lockByRequest _ => if m = .nothing then .ok none else .error .storage
  | overlapping .. => if m = .nothing then .ok [] else .error .storage
  | insertLock n =>
    .error (if m = .unavailable then .unavailable n.room n.stay else m.roomFailure n.room)
  | deleteLock .. => if m = .gone then .ok false else .error .storage
  | insertRoom _ | getRoom _ | operationalRooms | roomCount | lockByUid _ =>
    .error (m.roomFailure .nowhere)
  | locksOf _ => .error .storage

def LedgerCall.kind : LedgerCall → CallKind
  | accept _ => .accept
  | insertPending _ => .insertPending
  | updateStatus .. => .updateStatus
  | get _ => .getBooking
  | pageOf .. => .pageOf

/-- The status that a call is to bring about. -/
def LedgerCall.target? : LedgerCall → Option Status
  | updateStatus _ _ next => some next
  | _ => none

/-- The answer to a call that goes wrong, and the ledger after it. -/
def Ledger.spoiled (now : Instant) (l : Ledger) (m : Mishap) :
    (c : LedgerCall) → c.Answer × Ledger
  | .get _ => (if m = .nothing then .ok none else .error .storage, l)
  | .updateStatus id expected next =>
    match m with
    | .nothing => (.ok none, l)
    | .overtaken status =>
      (l.updateStatus id expected status).2.answer now (.updateStatus id expected next)
    | _ => (.error .storage, l)
  | .accept _ | .insertPending _ | .pageOf .. => (.error .storage, l)

end Lodging
