import Lodging.World.Calls
import Lodging.World.Trail

/-!
Traffic in a house: orders to the keeper of the rooms, to the direct gateway and to the booking
desk, side by side over the same rooms, the same holds and the same ledger. A call makes a stride when it
takes a step and does not only go on waiting; its span is the number of strides in which it must
come to its end.
-/

namespace Lodging

namespace Job

variable {α : Type}

/-- The call is under way and need not wait. -/
def ready (w : World) : Job α → Bool
  | running .. => true
  | waiting t _ _ => w.holds.granted t
  | finished _ | dropped => false

/-- Where a call lines up for a room, waits for one or sleeps, it holds no room. -/
def Unburdened : Job α → Prop
  | waiting _ _ held | running (.enter ..) held | running (.act (.sleep _) _) held => held = []
  | _ => True

end Job

/-- Nobody gives a call up. -/
def Event.kept {κ : Type} : Event κ → Bool
  | .drop _ => false
  | _ => true

namespace Scene

variable {κ α : Type} {code : κ → Process α}

/-- The call that makes a stride with an event. -/
def strider? (s : Scene code) : Event κ → Option Nat
  | .advance i =>
    match s.jobs[i]? with
    | some (_, j) => if j.ready s.world then some i else none
    | none => none
  | _ => none

/-- The strides of a run, each by the call that makes it. -/
def strides (s : Scene code) (es : List (Event κ)) : List Nat :=
  s.trail (fun s e => (s.strider? e).toList) es

end Scene

/-- The strides of attempts that take so many strides each, with those of their repetition. -/
def RetryPolicy.span (p : RetryPolicy) (n : Nat) : Nat := p.maxAttempts * (n + 2)

namespace Traffic

inductive Call where
  | confirm (lock : NewLock)
  | release (room : RoomId) (uid : Uid)
  | recommend (stay : Stay)
  | gatewayRecommend (policy : RetryPolicy) (stay : Stay) (request : RequestId)
  | gatewayConfirm (policy : RetryPolicy) (room : RoomId) (order : LockOrder)
  | gatewayRelease (policy : RetryPolicy) (room : RoomId) (uid : Uid) (request : RequestId)
  | desk (call : Desk.Call)
deriving DecidableEq

namespace Call

/-- What a call comes to is of no interest here, only that it comes to its end. -/
def process : Call → Process Unit
  | confirm n => do let _ ← Keeper.confirm n
  | release room uid => do let _ ← Keeper.release room uid
  | recommend stay => do let _ ← (Keeper.recommend stay).run
  | gatewayRecommend p stay r => do let _ ← (Gateway.direct p).recommend stay r
  | gatewayConfirm p room o => do let _ ← (Gateway.direct p).confirm room o
  | gatewayRelease p room uid r => do let _ ← (Gateway.direct p).release room uid r
  | desk c => do let _ ← c.process

/-- The strides of a call where there are so many rooms; the last one brings it to its end. -/
def span (rooms : Nat) : Call → Nat
  | confirm _ => 10
  | release .. => 8
  | recommend _ => rooms + 2
  | gatewayRecommend p .. => p.span (rooms + 2) + 1
  | gatewayConfirm p .. => p.span 11 + 1
  | gatewayRelease p .. => p.span 9 + 1
  | desk (.create p ..) => p.span (rooms + 2) + p.span 11 + p.span 9 + 11
  | desk (.cancel p ..) => p.span 9 + 6

end Call

end Traffic

end Lodging
