import Lodging.Service.App
import Lodging.World.World

/-!
When one way to the inventory is as good as another: whatever is asked of them, they come to the
same and leave the same behind. They may be counted differently.
-/

namespace Lodging

/-- A world without what was counted in it. -/
def World.uncounted (w : World) : World := { w with attempts := ⟨0, 0, 0⟩, events := [] }

namespace Process

variable {α : Type}

/-- The same end, or a wait under the same ticket, in worlds that differ in what was counted only. -/
def SameOutcome : (α ⊕ Waiting α) × World → (α ⊕ Waiting α) × World → Prop
  | (.inl a, v), (.inl b, w) => a = b ∧ v.uncounted = w.uncounted
  | (.inr x, v), (.inr y, w) => x.ticket = y.ticket ∧ v.uncounted = w.uncounted
  | _, _ => False

/-- In one and the same world of a kind, but for what was counted, two processes have the same
outcome. If that is a wait, they are interchangeable again afterwards, whatever has become of the
world meanwhile. -/
inductive Interchangeable (Kind : World → Prop) : Process α → Process α → Prop
  | intro {p q : Process α}
    (same : ∀ v w, v.uncounted = w.uncounted → Kind v → SameOutcome (p.advance v) (q.advance w))
    (later : ∀ v w x y, v.uncounted = w.uncounted → Kind v → (p.advance v).1 = .inr x →
      (q.advance w).1 = .inr y → Interchangeable Kind (x.next x.ticket) (y.next y.ticket)) :
    Interchangeable Kind p q

end Process

namespace Remote

/-- The inventory is at the root of a server, whatever slashes stand behind its address. -/
def Peer.AtRoot (p : Peer) : Prop := ∃ scheme authority : List Char,
  p.base.toList = scheme ++ ':' :: '/' :: '/' :: authority ∧
    (∀ c ∈ scheme, c ≠ ':' ∧ c ≠ '/' ∧ c ≠ '#') ∧
    (∀ c ∈ authority, c ≠ '/' ∧ c ≠ '?' ∧ c ≠ '#')

/-- The token is text that arrives in a header as it was sent. -/
structure Peer.Credible (p : Peer) : Prop where
  token_ne : p.token ≠ ""
  visible : p.token.toList.all Header.visible = true
  trimmed_token : trimmed p.token = p.token

/-- The inventory has a route for a request, and what its handler reads there is what the sender
meant. -/
def Understood {α : Type} (token : String) (o : Occasion) (request : Request) (route : Route)
    (reading : Exchange → Except Refusal α) (meant : α) : Prop :=
  ∃ params, (Service.inventory token).find? request.path = some (route, params) ∧
    reading ⟨o, request, params⟩ = .ok meant

end Remote

namespace Exchange

/-- The room and the order in a request for a lock. -/
def orderedLock (x : Exchange) : Except Refusal (RoomId × LockOrder) := do
  let id ← x.number
  let order ← x.body LockOrder
  return (⟨id⟩, order)

/-- The room and the booking in a request to release one from the other. -/
def orderedRelease (x : Exchange) : Except Refusal (RoomId × Uid) := do
  let id ← x.number
  let uid ← x.releasedUid
  return (⟨id⟩, uid)

end Exchange

/-- The order for a lock that keeps a room for a stay. -/
def Stay.order (s : Stay) (uid : Uid) (r : RequestId) : LockOrder :=
  ⟨s.arrival, s.departure, uid, r⟩

/-- The numbers of a room fit the integers of its JSON. -/
structure RoomSummary.Fits (r : RoomSummary) : Prop where
  id : Decimal.fits64 r.id.number = true
  hotel : Decimal.fits64 r.hotel.number = true
  timesBooked : Decimal.fits64 r.timesBooked = true

/-- All rooms of an inventory do so. -/
def Inventory.Fits (v : Inventory) : Prop := ∀ r ∈ v.rooms, r.summary.Fits

end Lodging
