import Lodging.Proofs.Desk.Outlet

/-!
What is counted at the booking desk only: how its orders go. The keeper of the rooms counts other
things, and so do those who repeat their attempts. A gateway is beside the books of the desk if it
neither asks the ledger anything nor counts what only the desk counts.
-/

namespace Lodging

/-- Nobody counts this but the booking desk. -/
def Meter.ofDesk : Meter → Bool
  | bookingStarted | duplicateRequest | bookingConfirmed | bookingCancelled | compensation _
  | statusLost | releaseFailed | bookingTimed => true
  | lockAttempt _ | lockReleased | retry _ | exhausted _ | answered _ => false

/-- An action of which the books of the desk know nothing. -/
def Action.Aside : Action → Prop
  | ledger _ => False
  | meter m => m.ofDesk = false
  | _ => True

theorem Action.Aside.offLedger {x : Action} (h : x.Aside) : x.OffLedger := by
  cases x with
  | ledger c => cases h
  | _ => trivial

namespace Keeper

open Process (Uses)

theorem aside_confirm (n : NewLock) : (confirm n).Uses Action.Aside :=
  uses_confirm_of (fun _ _ => trivial) trivial (fun _ => trivial) fun _ => rfl

theorem aside_release (room : RoomId) (uid : Uid) : (release room uid).Uses Action.Aside := by
  have hmeter : Action.Aside (.meter .lockReleased) := rfl
  exact uses_release_of (fun _ _ => trivial) (fun _ _ => trivial) (fun _ => trivial) hmeter room uid

/-- Looking for rooms counts nothing. -/
theorem aside_recommend (stay : Stay) : (recommend stay).run.Uses Action.Aside :=
  (solely_recommend (fun _ _ => trivial) stay).uses

end Keeper

namespace Gateway

open Process (Uses)

/-- Whatever a gateway does, the books of the desk know nothing of it. -/
structure Aside (g : Gateway) : Prop where
  recommend : ∀ stay r, (g.recommend stay r).Uses Action.Aside
  confirm : ∀ room o, (g.confirm room o).Uses Action.Aside
  release : ∀ room uid r, (g.release room uid r).Uses Action.Aside

theorem Aside.offLedger {g : Gateway} (h : g.Aside) : g.OffLedger where
  recommend stay r := (h.recommend stay r).mono fun _ => Action.Aside.offLedger
  confirm room o := (h.confirm room o).mono fun _ => Action.Aside.offLedger
  release room uid r := (h.release room uid r).mono fun _ => Action.Aside.offLedger

/-- Repetitions count nothing of the desk. -/
theorem aside_run {α : Type} (p : RetryPolicy) (o : Operation)
    {call : Nat → Process (Except CallFailure α)} (hcall : ∀ k, (call k).Uses Action.Aside) :
    (p.run effects o call).Uses Action.Aside := by
  refine Process.attemptFrom_ind p o (fun k _ hf => (hcall k).bind hf) (fun _ => trivial)
    (fun m _ hm h => ⟨?_, fun _ => h⟩) (fun _ _ h => ⟨trivial, fun _ => h⟩) _ _
  rcases hm with rfl | rfl <;> rfl

theorem aside_directly {α : Type} (o : Operation) {q : Process (Except CallFailure α)}
    (hq : q.Uses Action.Aside) : (directly o q).Uses Action.Aside := by
  refine ⟨trivial, fun _ => ⟨trivial, fun f => ?_⟩⟩
  cases f with
  | some f => trivial
  | none => exact hq

theorem aside_direct (p : RetryPolicy) : (direct p).Aside where
  recommend stay _ := by
    refine aside_run p _ fun _ => ⟨trivial, fun _ => ?_⟩
    change (recommendDirectly stay).Uses Action.Aside
    exact Uses.bind (Keeper.aside_recommend stay) fun _ => trivial
  confirm room o := by
    refine aside_run p _ fun _ => aside_directly _ ?_
    unfold confirmDirectly
    cases Stay.ofDates o.arrival o.departure with
    | error e => trivial
    | ok stay => exact Uses.bind (Keeper.aside_confirm _) fun _ => trivial
  release room uid _ := by
    refine aside_run p _ fun _ => aside_directly _ ?_
    exact Uses.bind (Keeper.aside_release room uid) fun _ => trivial

/-- So is a gateway to a service elsewhere, if the way there is. -/
theorem aside_remote {link : Link} (hlink : ∀ x, (link x).Uses Action.Aside) (peer : Remote.Peer)
    (p : RetryPolicy) : (Remote.gateway link peer p).Aside where
  recommend _ _ := aside_run p _ fun _ => Uses.bind (uses_send hlink _) fun _ => trivial
  confirm _ _ := aside_run p _ fun _ => Uses.bind (uses_send hlink _) fun _ => trivial
  release _ _ _ := aside_run p _ fun _ => Uses.bind (uses_send hlink _) fun _ => trivial

end Gateway

end Lodging
