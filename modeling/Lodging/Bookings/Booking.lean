import Lodging.Calendar.Instant
import Lodging.Calendar.Stay
import Lodging.Identity

/-!
Bookings and the stages of their life, requests for bookings, and pages of lists of bookings.
-/

namespace Lodging

inductive Status where
  | pending
  | confirmed
  | cancelled
deriving DecidableEq

namespace Status

def name : Status → String
  | pending => "PENDING"
  | confirmed => "CONFIRMED"
  | cancelled => "CANCELLED"

instance : ToString Status := ⟨name⟩

def all : List Status := [pending, confirmed, cancelled]

def ofName? (s : String) : Option Status := all.find? (·.name = s)

theorem ofName?_name (s : Status) : ofName? s.name = some s := by cases s <;> rfl

/-- What to say of a name that no stage has. -/
def unknown (name : String) : String := s!"unknown booking status: {name}"

/-- The stage that may come next. -/
def allows : Status → Status → Bool
  | pending, confirmed | pending, cancelled | confirmed, cancelled => true
  | _, _ => false

/-- No stage comes after. -/
def final (s : Status) : Bool := s = cancelled

end Status

structure Booking where
  id : BookingId
  uid : Uid
  user : UserId
  room : RoomId
  stay : Stay
  status : Status
  createdAt : Instant
deriving DecidableEq

structure NewBooking where
  uid : Uid
  user : UserId
  room : RoomId
  stay : Stay
deriving DecidableEq

/-- What callers see of a booking. -/
structure BookingSummary where
  id : BookingId
  uid : Uid
  room : RoomId
  arrival : Date
  departure : Date
  status : Status
deriving DecidableEq

def Booking.summary (b : Booking) : BookingSummary :=
  ⟨b.id, b.uid, b.room, b.stay.arrival, b.stay.departure, b.status⟩

/-- The wish for a booking: of a certain room, or of any that is free. -/
structure BookingRequest where
  arrival : Option Date
  departure : Option Date
  anyRoom : Bool
  room : Option RoomId
deriving DecidableEq

def BookingRequest.ofAnyRoom (arrival departure : Date) : BookingRequest :=
  ⟨some arrival, some departure, true, none⟩

def BookingRequest.ofRoom (room : RoomId) (arrival departure : Date) : BookingRequest :=
  ⟨some arrival, some departure, false, some room⟩

/-- Which stretch of a list is wanted: the number of a page, from zero, and the size of pages. -/
structure PageRequest where
  page : Nat
  size : Nat
  size_pos : 1 ≤ size
  size_le : size ≤ 100

namespace PageRequest

/-- The nearest size from 1 to 100. -/
def make (page size : Nat) : PageRequest :=
  ⟨page, max 1 (min size 100), Nat.le_max_left .., by omega⟩

def defaultSize : Nat := 20

/-- The first page, in the default size, unless said otherwise. -/
def ofQuery (page size : Option Nat) : PageRequest := make (page.getD 0) (size.getD defaultSize)

/-- The number of items on the pages before. -/
def offset (p : PageRequest) : Nat := p.page * p.size

end PageRequest

structure Page (α : Type) where
  content : List α
  page : Nat
  size : Nat
  total : Nat
deriving DecidableEq

/-- The page of a list that is wanted. -/
def Page.ofList (items : List α) (p : PageRequest) : Page α :=
  ⟨(items.drop p.offset).take p.size, p.page, p.size, items.length⟩

def Page.map (f : α → β) (p : Page α) : Page β := { p with content := p.content.map f }

end Lodging
