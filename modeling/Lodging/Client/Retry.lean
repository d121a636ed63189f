import Lodging.Client.Failure

/-!
Repeating a call that failed in a way that may pass. A policy bounds the attempts and says how
long to wait after each failed one but the last.
-/

namespace Lodging

structure RetryPolicy where
  maxAttempts : Nat
  /-- Milliseconds to wait after the first attempt, the second and so on; the last entry goes on for
  all later ones. -/
  backoff : List Nat
  attempts_pos : 1 ≤ maxAttempts
deriving DecidableEq

namespace RetryPolicy

/-- At least one attempt. -/
def make (maxAttempts : Nat) (backoff : List Nat) : RetryPolicy :=
  ⟨max maxAttempts 1, backoff, Nat.le_max_right ..⟩

def defaultBackoff : List Nat := [200, 500, 1000]

def standard : RetryPolicy := make 3 defaultBackoff

/-- One attempt. -/
def once : RetryPolicy := make 1 []

instance : Inhabited RetryPolicy := ⟨once⟩

/-- The wait after a failed attempt, counted from one. -/
def delayAfter (p : RetryPolicy) (attempt : Nat) : Nat :=
  p.backoff[min (attempt - 1) (p.backoff.length - 1)]?.getD 0

/-- A list of milliseconds between commas. White space and empty entries do not count. The default
list stands in for a blank text and for one with any other entry. -/
def parseBackoff (csv : String) : List Nat :=
  if blank csv then defaultBackoff
  else
    let entries := (csv.toList.splitOn ',').map trim |>.filter (· ≠ [])
    (entries.mapM (Decimal.below? (Decimal.capacity 64))).getD defaultBackoff

/-- What a run does apart from its attempts. -/
structure Effects (m : Type → Type) where
  retrying : Operation → m Unit
  exhausted : Operation → m Unit
  sleep : Nat → m Unit

variable {m : Type → Type} [Monad m] {α : Type}

/-- Attempts with so many more to come after this one. -/
def attemptFrom (p : RetryPolicy) (e : Effects m) (o : Operation)
    (call : Nat → m (Except CallFailure α)) : (more attempt : Nat) → m (Except CallFailure α)
  | more, attempt => do
    match ← call attempt with
    | .ok a => return .ok a
    | .error f =>
      if f.retryable then
        match more with
        | 0 =>
          e.exhausted o
          return .error (.unavailable o attempt)
        | more + 1 =>
          e.retrying o
          if p.delayAfter attempt ≠ 0 then e.sleep (p.delayAfter attempt)
          attemptFrom p e o call more (attempt + 1)
      else return .error f
termination_by structural more => more

/-- What follows an attempt that failed in a way that may pass, with so many more to come. -/
def afterFailure (p : RetryPolicy) (e : Effects m) (o : Operation)
    (call : Nat → m (Except CallFailure α)) (attempt : Nat) :
    (more : Nat) → m (Except CallFailure α)
  | 0 => do
    e.exhausted o
    return .error (.unavailable o attempt)
  | more + 1 => do
    e.retrying o
    if p.delayAfter attempt ≠ 0 then e.sleep (p.delayAfter attempt)
    p.attemptFrom e o call more (attempt + 1)

theorem attemptFrom_eq (p : RetryPolicy) (e : Effects m) (o : Operation)
    (call : Nat → m (Except CallFailure α)) (more attempt : Nat) :
    p.attemptFrom e o call more attempt = do
      match ← call attempt with
      | .ok a => return .ok a
      | .error f =>
        if f.retryable then p.afterFailure e o call attempt more else return .error f := by
  unfold attemptFrom
  apply congrArg (call attempt >>= ·)
  funext r
  cases r with
  | ok a => rfl
  | error f => cases more <;> rfl

/-- Attempts a call until one succeeds, one fails for good, or none is left. -/
def run (p : RetryPolicy) (e : Effects m) (o : Operation)
    (call : Nat → m (Except CallFailure α)) : m (Except CallFailure α) :=
  p.attemptFrom e o call (p.maxAttempts - 1) 1

end RetryPolicy

end Lodging
