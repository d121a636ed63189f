import Lodging.Client.Gateway
import Lodging.World.World

/-!
The course of a call that is repeated: its attempts, what is counted and the waits between them, in
the order in which they come about.
-/

namespace Lodging

inductive Beat where
  | attempt (number : Nat)
  | retrying
  | sleep (duration : Nat)
  | exhausted
deriving DecidableEq

namespace Beat

def number? : Beat → Option Nat
  | attempt n => some n
  | _ => none

/-- Does what a beat stands for. -/
def play {m : Type → Type} (e : RetryPolicy.Effects m) (o : Operation) (touch : Nat → m Unit) :
    Beat → m Unit
  | attempt n => touch n
  | retrying => e.retrying o
  | sleep d => e.sleep d
  | exhausted => e.exhausted o

/-- What a beat other than an attempt counts. -/
def counts (o : Operation) : Beat → List Meter
  | retrying => [.retry o]
  | exhausted => [.exhausted o]
  | _ => []

end Beat

namespace RetryPolicy

/-- No attempt follows one with this outcome. -/
def settles {α : Type} : Except CallFailure α → Bool
  | .ok _ => true
  | .error f => !f.retryable

/-- What comes between a failed attempt and the next one. -/
def pause (p : RetryPolicy) (attempt : Nat) : List Beat :=
  .retrying :: if p.delayAfter attempt = 0 then [] else [.sleep (p.delayAfter attempt)]

/-- The attempts from a first one, each with the pause after it, and then the last one. -/
def courseFrom (p : RetryPolicy) (first before : Nat) : List Beat :=
  (List.range' first before).flatMap (fun i => .attempt i :: p.pause i) ++
    [.attempt (first + before)]

/-- So many attempts, at least one, with the pauses between them. -/
def course (p : RetryPolicy) (attempts : Nat) : List Beat := p.courseFrom 1 (attempts - 1)

/-- A run whose attempts come out in this way takes a course and then returns a result. It does so
by any effects; where they are those of a world, the meters there show what the course counts. -/
structure Takes {α : Type} (p : RetryPolicy) (o : Operation) (out : Nat → Except CallFailure α)
    (course : List Beat) (result : Except CallFailure α) : Prop where
  plays : ∀ (m : Type → Type) [Monad m] [LawfulMonad m] (e : Effects m) (touch : Nat → m Unit),
    p.run e o (fun n => do touch n; return out n) = do
      forM course (Beat.play e o touch)
      return result
  metered : ∀ touch : Nat → Process Unit,
    (∀ n (w : World), ∃ v : World, (touch n).advance w = (.inl (), v) ∧ v.events = w.events) →
      ∀ w : World, ∃ v : World,
        (p.run Gateway.effects o fun n => do touch n; return out n).advance w = (.inl result, v) ∧
          v.events = (course.flatMap (Beat.counts o)).reverse ++ w.events

end RetryPolicy

end Lodging
