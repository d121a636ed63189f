import Lodging.World.Calls

/-!
All that may go on in a house: calls to the keeper of the rooms and orders to the booking desk, side
by side over the same rooms and the same ledger.
-/

namespace Lodging.House

inductive Call where
  | keeper (call : Keeper.Call)
  | desk (call : Desk.Call)

/-- What a call comes to is of no interest here, only what it leaves behind. -/
def Call.process : Call → Process Unit
  | .keeper c => do let _ ← c.process
  | .desk c => do let _ ← c.process

/-- A house that was empty at a time, and what has become of it since. -/
abbrev after (now : Instant) (es : List (Event Call)) : Scene Call.process :=
  (Scene.opening Call.process (.atTime now)).run es

/-- A world that a house may have come to, with no call under way and no failure in store. -/
structure Ready (w : World) : Prop where
  reached : ∃ now es, (after now es).Quiet ∧ (after now es).world = w
  raced : w.inventory.raced = false
  confirmFailure : w.confirmFailure = none
  releaseFailure : w.releaseFailure = none

end Lodging.House
