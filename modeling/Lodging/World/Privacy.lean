import Lodging.World.World

/-!
What the users of one ledger have to do with one another: when two worlds look the same to one of
them, and when a process of theirs neither depends on what the others have nor changes any of it.
-/

namespace Lodging

namespace Ledger

/-- No two bookings have an id in common. -/
def Distinct (l : Ledger) : Prop := (l.bookings.map (·.id)).Nodup

instance (l : Ledger) : Decidable l.Distinct := inferInstanceAs (Decidable (List.Nodup _))

/-- A user has a booking under an id. -/
def Has (l : Ledger) (user : UserId) (id : BookingId) : Prop :=
  ∃ b ∈ l.bookings, b.id = id ∧ b.user = user

instance (l : Ledger) (user : UserId) (id : BookingId) : Decidable (l.Has user id) :=
  inferInstanceAs (Decidable (∃ b ∈ l.bookings, _))

/-- Two ledgers hold the same bookings of a user, whatever they hold of others. -/
structure SameFor (user : UserId) (k l : Ledger) : Prop where
  left : k.Distinct
  right : l.Distinct
  shared : ∀ b : Booking, b.user = user → (b ∈ k.bookings ↔ b ∈ l.bookings)

end Ledger

namespace World

/-- Two worlds differ in their ledgers only, which hold the same bookings of a user. -/
structure SameFor (user : UserId) (v w : World) : Prop where
  ledger : v.ledger.SameFor user w.ledger
  rest : w = { v with ledger := w.ledger }

/-- What a user had under an id is still there, at whichever stage of its life. -/
def Retains (user : UserId) (past w : World) : Prop :=
  ∀ id, past.ledger.Has user id → w.ledger.Has user id

end World

namespace Process

variable {α : Type}

/-- Two processes go side by side in two worlds that look the same to a user, and do so again after
each action. They take the same actions and come to the same end, whatever others have and do
meanwhile, provided that nothing of the user's gets lost. No action touches what others have. -/
inductive Alike (user : UserId) : World → Process α → Process α → Prop
  | done {past : World} (a : α) : Alike user past (.done a) (.done a)
  | act {past : World} {x : Action} {f g : x.Answer → Process α}
    (same : ∀ v w, v.SameFor user w → past.Retains user v →
      (v.perform x).2.SameFor user (w.perform x).2)
    (others : ∀ v, v.ledger.Distinct → past.Retains user v → ∀ other, other ≠ user →
      v.ledger.SameFor other (v.perform x).2.ledger)
    (next : ∀ v w, v.SameFor user w → past.Retains user v →
      Alike user (v.perform x).2 (f (v.perform x).1) (g (w.perform x).1)) :
    Alike user past (.act x f) (.act x g)
  | enter {past : World} {room : RoomId} {f g : Ticket → Process α}
    (next : ∀ t, Alike user past (f t) (g t)) : Alike user past (.enter room f) (.enter room g)

/-- A process of a user has nothing to do with the bookings of others. -/
def Discreet (user : UserId) (p : Process α) : Prop := ∀ past, Alike user past p p

/-- In a world a process takes one action and comes to its end. -/
def EndsAfter (x : Action) (w : World) (p : Process α) (a : α) : Prop :=
  ∃ next, p = .act x next ∧ next (w.perform x).1 = .done a

end Process

end Lodging
