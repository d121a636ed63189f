import Lodging.World.Likeness

/-!
The documents that are exchanged or stored, and which values they can hold: numbers have so many
bits, and an instant within a leap second may have the text of another.
-/

namespace Lodging

/-- The instant is not within a leap second. -/
def Instant.Plain (t : Instant) : Prop := t.nano < 1000000000

instance (t : Instant) : Decidable t.Plain := inferInstanceAs (Decidable (_ < _))

/-- What a JSON form asks of the values that it is to hold. -/
class Bounded (α : Type) where
  /-- The numbers have the bits that are meant for them. -/
  Fits : α → Prop := fun _ => True
  /-- The instants in a value. -/
  instants : α → List Instant := fun _ => []

namespace Bounded

/-- No instant in a value is within a leap second. -/
def Dated {α : Type} [Bounded α] (a : α) : Prop := ∀ t ∈ instants a, t.Plain

instance {α : Type} [Bounded α] (a : α) : Decidable (Dated a) :=
  inferInstanceAs (Decidable (∀ t ∈ instants a, t.Plain))

instance : Bounded Date := {}

instance : Bounded Stay := {}

instance : Bounded Uid := {}

instance : Bounded RequestId := {}

instance : Bounded FailureKind := {}

instance : Bounded Status := {}

instance : Bounded LockOrder := {}

instance : Bounded RoomId where
  Fits id := Decimal.fits64 id.number = true

instance : Bounded Problem := ⟨fun p => p.status < Decimal.capacity 16, fun p => [p.timestamp]⟩

instance : Bounded RoomSummary where
  Fits := RoomSummary.Fits

instance : Bounded Room where
  Fits r := r.summary.Fits

instance : Bounded Lock where
  Fits l := Decimal.fits64 l.id = true ∧ Decimal.fits64 l.room.number = true
  instants l := [l.createdAt]

instance : Bounded BookingSummary where
  Fits b := Decimal.fits64 b.id.number = true ∧ Decimal.fits64 b.room.number = true

instance : Bounded BookingRequest where
  Fits q := ∀ id ∈ q.room, Decimal.fits64 id.number = true

instance {α : Type} [Bounded α] : Bounded (Page α) where
  Fits p := (∀ a ∈ p.content, Fits a) ∧ p.page < Decimal.capacity 32 ∧
    p.size < Decimal.capacity 32 ∧ p.total < Decimal.capacity 64
  instants p := p.content.flatMap instants

end Bounded

/-- The kinds of documents. -/
inductive Form where
  | date
  | stay
  | uid
  | requestId
  | roomId
  | failureKind
  | problem
  | lock
  | lockOrder
  | roomSummary
  | room
  | status
  | bookingSummary
  | bookingRequest
  | bookingPage
deriving DecidableEq

namespace Form

/-- What a document of a kind holds. -/
abbrev Value : Form → Type
  | date => Date
  | stay => Stay
  | uid => Uid
  | requestId => RequestId
  | roomId => RoomId
  | failureKind => FailureKind
  | problem => Problem
  | lock => Lock
  | lockOrder => LockOrder
  | roomSummary => RoomSummary
  | room => Room
  | status => Status
  | bookingSummary => BookingSummary
  | bookingRequest => BookingRequest
  | bookingPage => Page BookingSummary

instance : (f : Form) → Wire f.Value
  | date => inferInstanceAs (Wire Date)
  | stay => inferInstanceAs (Wire Stay)
  | uid => inferInstanceAs (Wire Uid)
  | requestId => inferInstanceAs (Wire RequestId)
  | roomId => inferInstanceAs (Wire RoomId)
  | failureKind => inferInstanceAs (Wire FailureKind)
  | problem => inferInstanceAs (Wire Problem)
  | lock => inferInstanceAs (Wire Lock)
  | lockOrder => inferInstanceAs (Wire LockOrder)
  | roomSummary => inferInstanceAs (Wire RoomSummary)
  | room => inferInstanceAs (Wire Room)
  | status => inferInstanceAs (Wire Status)
  | bookingSummary => inferInstanceAs (Wire BookingSummary)
  | bookingRequest => inferInstanceAs (Wire BookingRequest)
  | bookingPage => inferInstanceAs (Wire (Page BookingSummary))

instance : (f : Form) → Bounded f.Value
  | date => inferInstanceAs (Bounded Date)
  | stay => inferInstanceAs (Bounded Stay)
  | uid => inferInstanceAs (Bounded Uid)
  | requestId => inferInstanceAs (Bounded RequestId)
  | roomId => inferInstanceAs (Bounded RoomId)
  | failureKind => inferInstanceAs (Bounded FailureKind)
  | problem => inferInstanceAs (Bounded Problem)
  | lock => inferInstanceAs (Bounded Lock)
  | lockOrder => inferInstanceAs (Bounded LockOrder)
  | roomSummary => inferInstanceAs (Bounded RoomSummary)
  | room => inferInstanceAs (Bounded Room)
  | status => inferInstanceAs (Bounded Status)
  | bookingSummary => inferInstanceAs (Bounded BookingSummary)
  | bookingRequest => inferInstanceAs (Bounded BookingRequest)
  | bookingPage => inferInstanceAs (Bounded (Page BookingSummary))

end Form

end Lodging
