import Lodging.Wire

/-!
Stays and locks before their dates are known to be in order: what is written of them, and what is
made of it.
-/

namespace Lodging

/-- A lock as it is written, with two dates in any order. -/
structure LockDraft where
  id : Int
  room : RoomId
  dates : Date × Date
  uid : Uid
  request : RequestId
  createdAt : Instant
deriving DecidableEq

/-- The lock, if the dates make a stay. -/
def LockDraft.lock (d : LockDraft) : Except NoNights Lock := do
  let stay ← Stay.ofDates d.dates.1 d.dates.2
  return ⟨d.id, d.room, stay, d.uid, d.request, d.createdAt⟩

namespace Wire

instance : Wire (Date × Date) where
  encode d := .object [("start", encode d.1), ("end", encode d.2)]
  decode := dates.decoder

instance : Wire LockDraft where
  encode l := .object [("id", encode l.id), ("room_id", encode l.room), ("range", encode l.dates),
    ("booking_uid", encode l.uid), ("request_id", encode l.request),
    ("created_at", encode l.createdAt)]
  decode := Record.decoder (LockDraft.mk <$> field "id" <*> field "room_id" <*> field "range" <*>
    field "booking_uid" <*> field "request_id" <*> field "created_at")

end Wire

end Lodging
