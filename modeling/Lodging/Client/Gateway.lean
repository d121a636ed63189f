import Lodging.Client.Retry
import Lodging.Rooms.Keeper

/-!
The way from the bookings to the inventory: three operations that can fail. The direct gateway
asks the keeper of the rooms within the same process, under the same policy of repetition as any
other.
-/

namespace Lodging

structure Gateway where
  recommend : Stay → RequestId → Process (Except CallFailure (List RoomSummary))
  confirm : RoomId → LockOrder → Process (Except CallFailure Unit)
  release : RoomId → Uid → RequestId → Process (Except CallFailure Unit)

/-- What a failure of the inventory looks like from afar. -/
def RoomFailure.seen (f : RoomFailure) : CallFailure :=
  match f.kind with
  | .badRequest => .badRequest (some f.message)
  | .unauthorized => .unauthorized
  | .notFound => .notFound
  | .conflict => .conflict (some f.message)
  | .unavailable | .internal => .unexpected f.kind.status (some f.message)

namespace Gateway

/-- Repetitions are counted, and take time. -/
def effects : RetryPolicy.Effects Process :=
  ⟨fun o => .meter (.retry o), fun o => .meter (.exhausted o), .sleep⟩

/-- One attempt of the direct gateway: it is counted, and fails if a failure is planned for it. -/
def directly (o : Operation) (p : Process (Except CallFailure α)) :
    Process (Except CallFailure α) := do
  Process.attempt o
  match ← Process.planned o with
  | some f => return .error f
  | none => p

def recommendDirectly (stay : Stay) : Process (Except CallFailure (List RoomSummary)) :=
  return (← (Keeper.recommend stay).run).mapError RoomFailure.seen

def confirmDirectly (room : RoomId) (o : LockOrder) : Process (Except CallFailure Unit) :=
  match Stay.ofDates o.arrival o.departure with
  | .ok stay => do
    let r ← Keeper.confirm ⟨room, stay, o.uid, o.request⟩
    return (r.map fun _ => ()).mapError RoomFailure.seen
  | .error e => return .error (.badRequest (some e.message))

def releaseDirectly (room : RoomId) (uid : Uid) : Process (Except CallFailure Unit) := do
  let r ← Keeper.release room uid
  return (r.map fun _ => ()).mapError RoomFailure.seen

def direct (p : RetryPolicy) : Gateway where
  recommend stay _ := p.run effects .recommend fun _ => do
    Process.attempt .recommend
    recommendDirectly stay
  confirm room o := p.run effects .confirm fun _ => directly .confirm (confirmDirectly room o)
  release room uid _ := p.run effects .release fun _ =>
    directly .release (releaseDirectly room uid)

end Gateway

end Lodging
