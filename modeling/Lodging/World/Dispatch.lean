import Lodging.Client.Gateway
import Lodging.World.Calls

/-!
Orders for a lock that are sent over a link that loses messages. An attempt may be lost on its way
there, or its answer on the way back, and whoever sent it cannot tell the one from the other. Other
calls to the keeper go on meanwhile.
-/

namespace Lodging

/-- What becomes of an attempt. A loss shows by a text. -/
inductive Fate where
  | lost (text : String)
  /-- The order is carried out, but the answer is lost. -/
  | unanswered (text : String)
  | answered

namespace Dispatch

/-- One attempt, as it looks to the one who sent it. -/
def attempt (n : NewLock) : Fate → Process (Except CallFailure Unit)
  | .lost text => return .error (.transport text)
  | .unanswered text => do
    let _ ← Keeper.confirm n
    return .error (.transport text)
  | .answered => do
    let r ← Keeper.confirm n
    return (r.map fun _ => ()).mapError RoomFailure.seen

/-- Attempts under a policy of repetition, each of which meets its own fate. -/
def deliver (p : RetryPolicy) (n : NewLock) (fate : Nat → Fate) :
    Process (Except CallFailure Unit) :=
  p.run Gateway.effects .confirm fun k => attempt n (fate k)

inductive Call where
  | deliver (policy : RetryPolicy) (lock : NewLock) (fate : Nat → Fate)
  | keeper (call : Keeper.Call)

inductive Reply where
  | delivery (r : Except CallFailure Unit)
  | keeper (r : Keeper.Reply)

def Call.process : Call → Process Reply
  | .deliver p n fate => return .delivery (← Dispatch.deliver p n fate)
  | .keeper c => return .keeper (← c.process)

end Dispatch

end Lodging
