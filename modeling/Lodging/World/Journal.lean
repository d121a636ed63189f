import Lodging.World.Trail

/-!
The journal of a run: who did what, with the answers. It holds the atomic actions of all calls and
the rooms for which they lined up, in the order in which all this happened.
-/

namespace Lodging

inductive Deed where
  | did (action : Action) (answer : action.Answer)
  | linedUp (room : RoomId) (ticket : Ticket)

namespace Deed

/-- What the ledger was asked. -/
def ledger? : Deed → Option LedgerCall
  | did (.ledger c) _ => some c
  | _ => none

/-- What became of the acceptance of a request, if this is what was done. -/
def claim? (r : RequestId) : Deed → Option (Except BookingFailure Unit)
  | did (.ledger (.accept q)) a => if q = r then some a else none
  | _ => none

/-- The booking that was written down. -/
def insert? : Deed → Option NewBooking
  | did (.ledger (.insertPending n)) _ => some n
  | _ => none

/-- The booking that was written down, as it was then. -/
def made? : Deed → Option Booking
  | did (.ledger (.insertPending _)) (.ok b) => some b
  | _ => none

/-- The booking that was written down or moved on. -/
def written? : Deed → Option Booking
  | did (.ledger (.insertPending _)) (.ok b) => some b
  | did (.ledger (.updateStatus ..)) (.ok b) => b
  | _ => none

end Deed

/-- What a call does next, if it can go on and is not at its end. -/
def Job.deed? (w : World) : Job α → Option Deed
  | running (.act x _) _ => some (.did x (w.perform x).1)
  | running (.enter room _) _ => some (.linedUp room (w.holds.request room).1)
  | _ => none

namespace Scene

variable {κ α : Type} {code : κ → Process α}

/-- What an event does, and by which call. -/
def deeds (s : Scene code) : Event κ → List (Nat × Deed)
  | .advance i =>
    match s.jobs[i]? with
    | some (_, j) => (j.deed? s.world).toList.map fun d => (i, d)
    | none => []
  | _ => []

def journal (s : Scene code) (es : List (Event κ)) : List (Nat × Deed) := s.trail deeds es

end Scene

/-- What one call did. -/
def Deed.doneBy (i : Nat) (ds : List (Nat × Deed)) : List Deed := (ds.filter (·.1 = i)).map (·.2)

/-- A booking as it was written at first and each time that it moved on. -/
def Deed.writes (id : BookingId) (ds : List (Nat × Deed)) : List Booking :=
  ds.filterMap fun x => x.2.written?.filter (·.id = id)

/-- The statuses that were written for a booking. -/
def Deed.history (id : BookingId) (ds : List (Nat × Deed)) : List Status :=
  (writes id ds).map (·.status)

end Lodging
