import Lodging.Bookings.Failure

/-!
The ledger of bookings, and of the requests that were accepted. Bookings are never removed, and
nothing of them changes but the status.
-/

namespace Lodging

structure Ledger where
  requests : List RequestId
  /-- By ascending id. -/
  bookings : List Booking
  lastBooking : Int

namespace Ledger

def empty : Ledger := ⟨[], [], 0⟩

def booking? (l : Ledger) (id : BookingId) : Option Booking := l.bookings.find? (·.id = id)

/-- Accepts a request once. -/
def accept (l : Ledger) (r : RequestId) : Except BookingFailure Unit × Ledger :=
  if r ∈ l.requests then (.error (.duplicate r), l)
  else (.ok (), { l with requests := r :: l.requests })

def insertPending (now : Instant) (l : Ledger) (n : NewBooking) : Booking × Ledger :=
  let b : Booking := ⟨⟨l.lastBooking + 1⟩, n.uid, n.user, n.room, n.stay, .pending, now⟩
  (b, { l with bookings := l.bookings ++ [b], lastBooking := l.lastBooking + 1 })

/-- Moves a booking to another status, if it still has the one that is expected. -/
def updateStatus (l : Ledger) (id : BookingId) (expected next : Status) :
    Option Booking × Ledger :=
  match l.booking? id with
  | some b =>
    if b.status = expected then
      let moved := { b with status := next }
      (some moved, { l with bookings := l.bookings.map fun c => if c.id = id then moved else c })
    else (none, l)
  | none => (none, l)

/-- The order of lists: the later first, and of those of one instant the higher id. -/
def later (a b : Booking) : Bool :=
  b.createdAt < a.createdAt || (a.createdAt = b.createdAt && b.id.number ≤ a.id.number)

/-- All bookings of a user, newest first. -/
def bookingsOf (l : Ledger) (user : UserId) : List Booking :=
  (l.bookings.filter (·.user = user)).mergeSort later

def pageOf (l : Ledger) (user : UserId) (p : PageRequest) : Page Booking :=
  .ofList (l.bookingsOf user) p

end Ledger

/-- What can be asked of the ledger in one atomic step. -/
inductive LedgerCall where
  | accept (request : RequestId)
  | insertPending (booking : NewBooking)
  | updateStatus (id : BookingId) (expected next : Status)
  | get (id : BookingId)
  | pageOf (user : UserId) (page : PageRequest)

/-- What the ledger answers if it does not fail. -/
abbrev LedgerCall.Value : LedgerCall → Type
  | accept _ => Unit
  | insertPending _ => Booking
  | updateStatus .. | get _ => Option Booking
  | pageOf .. => Page Booking

abbrev LedgerCall.Answer (c : LedgerCall) : Type := Except BookingFailure c.Value

def Ledger.answer (now : Instant) (l : Ledger) : (c : LedgerCall) → c.Answer × Ledger
  | .accept r => l.accept r
  | .insertPending n => let (b, l') := l.insertPending now n; (.ok b, l')
  | .updateStatus id expected next => let (b, l') := l.updateStatus id expected next; (.ok b, l')
  | .get id => (.ok (l.booking? id), l)
  | .pageOf user p => (.ok (l.pageOf user p), l)

end Lodging
