import Lodging.Bookings.Desk
import Lodging.World.Scene

/-!
The calls that scenes are made of: orders to the keeper of the rooms, and orders to the booking desk
whose gateway asks the keeper directly.
-/

namespace Lodging

namespace Keeper

inductive Call where
  | addRoom (room : NewRoom)
  | confirm (lock : NewLock)
  | release (room : RoomId) (uid : Uid)
  | available (stay : Stay)
  | recommend (stay : Stay)
deriving DecidableEq

inductive Reply where
  | room (r : Except RoomFailure Room)
  | placement (r : Except RoomFailure Placement)
  | removal (r : Except RoomFailure Removal)
  | rooms (r : Except RoomFailure (List RoomSummary))

def Call.process : Call → Process Reply
  | .addRoom n => return .room (← (ask (.insertRoom n)).run)
  | .confirm n => return .placement (← Keeper.confirm n)
  | .release room uid => return .removal (← Keeper.release room uid)
  | .available stay => return .rooms (← (Keeper.available stay).run)
  | .recommend stay => return .rooms (← (Keeper.recommend stay).run)

end Keeper

namespace Desk

/-- Each order comes with the policy of repetition of the desk that it was given to. -/
inductive Call where
  | create (policy : RetryPolicy) (user : UserId) (wish : BookingRequest) (request : RequestId)
      (today : Date) (uid : Uid)
  | cancel (policy : RetryPolicy) (id : BookingId) (user : UserId) (request : RequestId)
deriving DecidableEq

def Call.process : Call → Process (Except BookingFailure BookingSummary)
  | .create p user q r today uid => (Desk.create (.direct p) user q r today uid).run
  | .cancel p id user r => (Desk.cancel (.direct p) id user r).run

/-- The identifier that a new booking is to have. -/
def Call.uid? : Call → Option Uid
  | .create _ _ _ _ _ uid => some uid
  | .cancel .. => none

/-- The booking that is to be cancelled. -/
def Call.target? : Call → Option BookingId
  | .create .. => none
  | .cancel _ id _ _ => some id

end Desk

/-- An inventory of new rooms. -/
def Inventory.furnished (rooms : List NewRoom) : Inventory :=
  rooms.foldl (fun v n => (v.insertRoom n).2) .empty

/-- A world with rooms in which nothing else has happened. -/
def World.furnished (now : Instant) (rooms : List NewRoom) : World :=
  { World.atTime now with inventory := .furnished rooms }

end Lodging
