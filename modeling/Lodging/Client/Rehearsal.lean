import Lodging.Client.Retry
import Lodging.Meter
import Lodging.Timer

/-!
A policy of repetition by itself, tried on a list of outcomes instead of a service, with a clock
that only its waits move.
-/

namespace Lodging

/-- What has happened: the attempts, each with its number and time, the time, and the events
counted. Of attempts and events the latest comes first. -/
structure Rehearsal where
  attempts : List (Nat × Nat)
  clock : Nat
  events : List Meter
deriving DecidableEq

namespace Rehearsal

def start : Rehearsal := ⟨[], 0, []⟩

def count (m : Meter) : StateM Rehearsal Unit := modify fun r => { r with events := m :: r.events }

def effects : RetryPolicy.Effects (StateM Rehearsal) where
  retrying o := count (.retry o)
  exhausted o := count (.exhausted o)
  sleep n := modify fun r => { r with clock := r.clock + Timer.wait n }

/-- An attempt comes out as the outcomes say, of which the last one lasts. -/
def attempt (first : Except CallFailure α) (rest : List (Except CallFailure α)) (n : Nat) :
    StateM Rehearsal (Except CallFailure α) := do
  modify fun r => { r with attempts := (n, r.clock) :: r.attempts }
  return (first :: rest)[min (n - 1) rest.length]?.getD first

/-- Runs a policy to its end. -/
def run (p : RetryPolicy) (o : Operation) (first : Except CallFailure α)
    (rest : List (Except CallFailure α)) : Except CallFailure α × Rehearsal :=
  (p.run effects o (attempt first rest)).run start

end Rehearsal

end Lodging
