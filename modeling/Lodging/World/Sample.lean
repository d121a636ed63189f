import Lodging.World.Calls

/-!
A small house with one room, and people who want it, to try things on.
-/

namespace Lodging.Sample

def newYear : Instant := ⟨⟨2300, 1, 1, by decide⟩, 0, 0, by decide, by decide⟩

def twoNights : Stay := ⟨⟨2300, 1, 1, by decide⟩, ⟨2300, 1, 3, by decide⟩, by decide⟩

/-- The uid of one digit repeated. -/
def uid (digit : Nat) : Uid :=
  ⟨List.replicate 32 ⟨digit % 16, Nat.mod_lt digit (Nat.succ_pos 15)⟩, List.length_replicate⟩

def room : NewRoom := ⟨⟨1⟩, "101", true⟩

/-- Orders for the same nights, which cannot both be met. -/
def order (digit : Nat) : NewLock := ⟨⟨1⟩, twoNights, uid digit, ⟨toString digit⟩⟩

/-- The same as orders to the booking desk. -/
def booking (digit : Nat) : Desk.Call :=
  .create .once ⟨1⟩ (.ofRoom ⟨1⟩ twoNights.arrival twoNights.departure) ⟨toString digit⟩
    newYear.date (uid digit)

def cancellation (id : Int) : Desk.Call := .cancel .once ⟨id⟩ ⟨1⟩ ⟨"cancel"⟩

/-- Two calls that go on by turns. -/
def byTurns {κ : Type} (n : Nat) : List (Event κ) := (List.range n).map fun k => .advance (k % 2)

end Lodging.Sample
