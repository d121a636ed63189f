import Lodging.World.House
import Lodging.World.Journal

/-!
Several people want the same room for stays that overlap, and book it at the same time.
-/

namespace Lodging

/-- An attempt of the direct gateway at an operation. -/
def Deed.attempts (o : Operation) : Deed → Bool
  | .did (.attempt o') _ => o' = o
  | _ => false

namespace Desk

/-- An order to book a certain room, for dates that make sense. -/
structure Bid (room : RoomId) where
  policy : RetryPolicy
  user : UserId
  arrival : Date
  departure : Date
  request : RequestId
  today : Date
  uid : Uid
  stay : Stay
  timely : Stay.requested (some arrival) (some departure) today = .ok stay

namespace Bid

variable {room : RoomId}

def call (x : Bid room) : Call :=
  .create x.policy x.user (.ofRoom room x.arrival x.departure) x.request x.today x.uid

def process (x : Bid room) : Process (Except BookingFailure BookingSummary) := x.call.process

/-- The lock that is wanted. -/
def lock (x : Bid room) : NewLock := ⟨room, x.stay, x.uid, x.request⟩

/-- The row of the bid in the ledger, at a stage of its life. -/
def row (x : Bid room) (id : BookingId) (now : Instant) (s : Status) : Booking :=
  ⟨id, x.uid, x.user, room, x.stay, s, now⟩

end Bid

/-- Bids that exclude each other, for a room that is free for any of them. -/
structure Rivals {room : RoomId} (w : World) (xs : List (Bid room)) : Prop where
  requests : (xs.map (·.request)).Nodup
  uids : (xs.map (·.uid)).Nodup
  overlap : ∀ x ∈ xs, ∀ y ∈ xs, x.stay.overlaps y.stay = true
  unclaimed : ∀ x ∈ xs, x.request ∉ w.ledger.requests
  unlocked : ∀ x ∈ xs, ∀ l ∈ w.inventory.locks, l.uid ≠ x.uid ∧ l.request ≠ x.request
  vacant : ∀ x ∈ xs, w.inventory.overlapping room x.stay = []

/-- The room is to be had by bids, in a world in which nobody else calls. -/
abbrev contest (room : RoomId) (w : World) : Scene (@Bid.process room) := .opening _ w

end Desk

end Lodging
