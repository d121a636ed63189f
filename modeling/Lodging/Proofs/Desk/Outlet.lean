import Lodging.Bookings.Desk
import Lodging.Client.Remote
import Lodging.Proofs.Keeper.Actions
import Lodging.World.Calls

/-!
Orders to the booking desk through any gateway. All that is asked of a gateway is that the ledger
is out of its reach; it may answer or fail as it likes. The direct gateway is one, and so is the one
to a service elsewhere.
-/

namespace Lodging

namespace Process

variable {α : Type} {kind : Action → Prop}

/-- Repetitions are attempts one after the other, with counts and waits between them. -/
theorem attemptFrom_ind {P : Process (Except CallFailure α) → Prop} (p : RetryPolicy)
    (o : Operation) {call : Nat → Process (Except CallFailure α)}
    (hcall : ∀ k f, (∀ x, P (f x)) → P (call k >>= f)) (hdone : ∀ x, P (.done x))
    (hmeter : ∀ m (next : Unit → _), m = .retry o ∨ m = .exhausted o → P (next ()) →
      P (.act (.meter m) next))
    (hsleep : ∀ n (next : Unit → _), P (next ()) → P (.act (.sleep n) next)) (more attempt : Nat) :
    P (p.attemptFrom Gateway.effects o call more attempt) := by
  -- an attempt, and then whatever may follow it
  have hround : ∀ more attempt, P (p.afterFailure Gateway.effects o call attempt more) →
      P (p.attemptFrom Gateway.effects o call more attempt) := by
    intro more attempt hafter
    rw [RetryPolicy.attemptFrom_eq]
    refine hcall attempt _ fun r => ?_
    cases r with
    | ok a => exact hdone _
    | error f =>
      cases hf : f.retryable with
      | false =>
        simp only [hf]
        exact hdone _
      | true =>
        simp only [hf]
        exact hafter
  induction more generalizing attempt with
  | zero => exact hround 0 attempt (hmeter _ _ (.inr rfl) (hdone _))
  | succ more ih =>
    refine hround _ attempt (hmeter _ _ (.inl rfl) ?_)
    by_cases hd : p.delayAfter attempt = 0
    · simp only [hd]
      exact ih (attempt + 1)
    · simp only [ne_eq, hd, not_false_eq_true, if_true]
      exact hsleep _ _ (ih (attempt + 1))

/-- Repetitions do nothing else than the attempts, but for counting them and waiting. -/
theorem uses_attemptFrom (p : RetryPolicy) (o : Operation)
    {call : Nat → Process (Except CallFailure α)} (hmeter : ∀ m, kind (.meter m))
    (hsleep : ∀ n, kind (.sleep n)) (hcall : ∀ k, (call k).Uses kind) (more attempt : Nat) :
    (p.attemptFrom Gateway.effects o call more attempt).Uses kind :=
  attemptFrom_ind p o (fun k _ hf => (hcall k).bind hf) (fun _ => trivial)
    (fun m _ _ h => ⟨hmeter m, fun _ => h⟩) (fun n _ h => ⟨hsleep n, fun _ => h⟩) more attempt

end Process

/-- An action that concerns neither the inventory nor the ledger. -/
def Action.Idle : Action → Prop
  | rooms _ | ledger _ => False
  | _ => True

theorem Action.Idle.offLedger {x : Action} (h : x.Idle) : x.OffLedger := by
  cases x with
  | ledger c => cases h
  | _ => trivial

/-- The lock that is wanted by an order for a room. -/
def NewLock.Meets (room : RoomId) (o : LockOrder) (n : NewLock) : Prop :=
  n.room = room ∧ n.uid = o.uid ∧ n.stay.arrival = o.arrival ∧ n.stay.departure = o.departure

namespace Gateway

open Process (Uses)

section Direct

variable {α : Type} {kind : Action → Prop} (p : RetryPolicy) (hidle : ∀ x, x.Idle → kind x)

include hidle

theorem uses_directly (o : Operation) {q : Process (Except CallFailure α)} (hq : q.Uses kind) :
    (p.run effects o fun _ => directly o q).Uses kind := by
  refine Process.uses_attemptFrom p o (fun _ => hidle _ trivial) (fun _ => hidle _ trivial)
    (fun k => ?_) _ _
  refine ⟨hidle _ trivial, fun _ => ⟨hidle _ trivial, fun f => ?_⟩⟩
  cases f with
  | some f => trivial
  | none => exact hq

theorem uses_direct_recommend (hlook : ∀ x, x.Looking → kind x) (stay : Stay) (r : RequestId) :
    ((direct p).recommend stay r).Uses kind := by
  refine Process.uses_attemptFrom p _ (fun _ => hidle _ trivial) (fun _ => hidle _ trivial)
    (fun k => ?_) _ _
  refine ⟨hidle _ trivial, fun _ => ?_⟩
  change (recommendDirectly stay).Uses kind
  exact Uses.bind ((Keeper.uses_recommend stay).mono hlook) fun _ => trivial

theorem uses_direct_confirm {room : RoomId} {o : LockOrder}
    (hplace : ∀ n, n.Meets room o → ∀ x : Action, x.Placing n → kind x) :
    ((direct p).confirm room o).Uses kind := by
  refine uses_directly p hidle _ ?_
  unfold confirmDirectly
  cases hstay : Stay.ofDates o.arrival o.departure with
  | error e => trivial
  | ok stay =>
    obtain ⟨ha, hd⟩ := Stay.ofDates_eq_ok.mp hstay
    exact Uses.bind ((Keeper.uses_confirm _).mono (hplace _ ⟨rfl, rfl, ha, hd⟩)) fun _ => trivial

theorem uses_direct_release (hremove : ∀ x : Action, x.Removing → kind x) (room : RoomId)
    (uid : Uid) (r : RequestId) : ((direct p).release room uid r).Uses kind :=
  uses_directly p hidle _
    (Uses.bind ((Keeper.uses_release room uid).mono hremove) fun _ => trivial)

end Direct

/-- The ledger is out of reach of all that a gateway does. -/
structure OffLedger (g : Gateway) : Prop where
  recommend : ∀ stay r, (g.recommend stay r).Uses Action.OffLedger
  confirm : ∀ room o, (g.confirm room o).Uses Action.OffLedger
  release : ∀ room uid r, (g.release room uid r).Uses Action.OffLedger

theorem offLedger_direct (p : RetryPolicy) : (direct p).OffLedger where
  recommend :=
    uses_direct_recommend p (fun _ => Action.Idle.offLedger) fun _ => Action.Looking.offLedger
  confirm _ _ :=
    uses_direct_confirm p (fun _ => Action.Idle.offLedger) fun _ _ _ => Action.Placing.offLedger
  release :=
    uses_direct_release p (fun _ => Action.Idle.offLedger) fun _ => Action.Removing.offLedger

/-- To send a request takes no more than its link does. -/
theorem uses_send {kind : Action → Prop} {link : Link} (hlink : ∀ x, (link x).Uses kind)
    (x : Request) : (Remote.send link x).Uses kind := by
  unfold Remote.send
  split
  · exact Uses.bind (hlink x) fun _ => trivial
  · trivial

/-- The ledger is out of reach from a service elsewhere, if it is from the way there. -/
theorem offLedger_remote {link : Link} (hlink : ∀ x, (link x).Uses Action.OffLedger)
    (peer : Remote.Peer) (p : RetryPolicy) : (Remote.gateway link peer p).OffLedger where
  recommend stay r := by
    refine Process.uses_attemptFrom p _ (fun _ => trivial) (fun _ => trivial) (fun k => ?_) _ _
    exact Uses.bind (uses_send hlink _) fun _ => trivial
  confirm room o := by
    refine Process.uses_attemptFrom p _ (fun _ => trivial) (fun _ => trivial) (fun k => ?_) _ _
    exact Uses.bind (uses_send hlink _) fun _ => trivial
  release room uid r := by
    refine Process.uses_attemptFrom p _ (fun _ => trivial) (fun _ => trivial) (fun k => ?_) _ _
    exact Uses.bind (uses_send hlink _) fun _ => trivial

end Gateway

namespace Desk

/-- A gateway from which the ledger is out of reach. -/
structure Outlet where
  gateway : Gateway
  offLedger : gateway.OffLedger

def Outlet.direct (p : RetryPolicy) : Outlet := ⟨.direct p, Gateway.offLedger_direct p⟩

/-- An order to a desk that has a certain outlet. -/
inductive Order where
  | create (outlet : Outlet) (user : UserId) (wish : BookingRequest) (request : RequestId)
      (today : Date) (uid : Uid)
  | cancel (outlet : Outlet) (id : BookingId) (user : UserId) (request : RequestId)

def Order.process : Order → Process (Except BookingFailure BookingSummary)
  | .create o user q r today uid => (Desk.create o.gateway user q r today uid).run
  | .cancel o id user r => (Desk.cancel o.gateway id user r).run

/-- The same order to a desk that has the direct gateway. -/
def Order.ofCall : Call → Order
  | .create p user q r today uid => .create (.direct p) user q r today uid
  | .cancel p id user r => .cancel (.direct p) id user r

def Order.gateway : Order → Gateway
  | .create o .. | .cancel o .. => o.gateway

/-- The identifier that a new booking is to have. -/
def Order.uid? : Order → Option Uid
  | .create _ _ _ _ _ uid => some uid
  | .cancel .. => none

/-- Orders from a world in which nobody has ordered anything yet. -/
abbrev orders (w : World) : Scene Order.process := .opening Order.process w

end Desk

end Lodging
