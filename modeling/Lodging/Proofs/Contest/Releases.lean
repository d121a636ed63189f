import Lodging.Proofs.Desk.Requests
import Lodging.Proofs.Tally

/-!
How often a bid asks for a release. Whoever books a certain room never asks for one before the room
could not be had, and where nothing goes wrong the keeper is asked once.
-/

namespace Lodging

open Process (Uses Tallies)

namespace Keeper

variable {α : Type} {o : Operation} {n : ℕ}

theorem tallies_ask {Q : Except RoomFailure α → ℕ → Prop} {c : RoomCall} {f : c.Value → Task α}
    (hok : ∀ now v, ∃ a, (Inventory.answer now v c).1 = .ok a)
    (h : ∀ a, (f a).run.Tallies o Q n) : (ask c >>= f).run.Tallies o Q n := by
  refine Tallies.rooms (f := fun r => ExceptT.bindCont f r) fun now v => ?_
  obtain ⟨a, ha⟩ := hok now v
  rw [ha]
  exact h a

/-- Nothing but a missing room keeps a lock from being removed. -/
theorem tallies_remove (room : RoomId) (uid : Uid) :
    (remove room uid).run.Tallies o (fun r m => m = n ∧ ∀ f, r = .error f → f = .notFound room)
      n := by
  refine Tallies.bind (Q := fun r m => m = n ∧ ∀ f, r = .error f → f = .notFound room) ?_ ?_
  · refine tallies_ask (fun now v => ⟨_, rfl⟩) fun r => ?_
    cases r with
    | some r => exact ⟨rfl, fun f hf => by cases hf⟩
    | none => exact ⟨rfl, fun f hf => (Except.error.inj hf).symm⟩
  · rintro r m ⟨rfl, hr⟩
    cases r with
    | error f => exact ⟨rfl, fun g hg => hr g (congrArg Except.error (Except.error.inj hg))⟩
    | ok r =>
      refine tallies_ask (fun now v => ⟨_, rfl⟩) fun l => ?_
      cases l with
      | none => exact ⟨rfl, fun f hf => by cases hf⟩
      | some l =>
        by_cases hl : l.room = room
        · simp only [hl, ne_eq, not_true_eq_false, if_false]
          refine tallies_ask (fun now v => ⟨_, rfl⟩) fun b => ?_
          cases b with
          | true => exact fun _ _ => ⟨rfl, fun f hf => by cases hf⟩
          | false => exact ⟨rfl, fun f hf => by cases hf⟩
        · simp only [ne_eq, hl, not_false_eq_true, if_true]
          exact ⟨rfl, fun f hf => by cases hf⟩

theorem tallies_release (room : RoomId) (uid : Uid) :
    (release room uid).Tallies o (fun r m => m = n ∧ ∀ f, r = .error f → f = .notFound room) n := by
  intro t
  refine Tallies.bind (tallies_remove room uid) fun r m hr => ?_
  exact fun _ _ => hr

end Keeper

namespace Desk

variable {n : ℕ} (policy : RetryPolicy) (b : Booking) (r : RequestId)

/-- Where nothing goes wrong, a room is released at the first attempt. -/
theorem tallies_releaseQuietly :
    (releaseQuietly (.direct policy) b r).Tallies .release (fun _ m => m = n + 1) n := by
  have hdirect : (Gateway.releaseDirectly b.room b.uid).Tallies .release
      (fun r m => m = n + 1 ∧ ∀ f, r = .error f → f.retryable = false) (n + 1) := by
    refine Tallies.bind (Keeper.tallies_release b.room b.uid) ?_
    rintro r m ⟨rfl, hr⟩
    refine ⟨rfl, fun f hf => ?_⟩
    cases r with
    | ok a => cases hf
    | error g =>
      obtain rfl := hr g rfl
      obtain rfl := Except.error.inj hf
      rfl
  have hrelease : ((Gateway.direct policy).release b.room b.uid r).Tallies .release
      (fun _ m => m = n + 1) n :=
    Tallies.attemptFrom policy _ _ (Tallies.directly hdirect)
  refine Tallies.bind hrelease fun x m hm => ?_
  cases x with
  | ok a => exact hm
  | error f => exact fun _ _ => hm

theorem tallies_compensate :
    (compensate (.direct policy) b r).Tallies .release (fun _ m => m = n + 1) n := by
  have hmove : (move b .pending .cancelled).run.Uses fun x => x.attempts .release = 0 := by
    refine Uses.task_bind ⟨rfl, fun _ => trivial⟩ fun c => ?_
    cases c <;> trivial
  refine Tallies.bind (hmove.tallies n) ?_
  rintro x _ rfl
  cases x with
  | ok c => exact tallies_releaseQuietly policy b r
  | error f => exact fun _ _ => tallies_releaseQuietly policy b r

theorem uses_secure_direct :
    (secure (.direct policy) b r).run.Uses fun x => x.attempts .release = 0 := by
  have hplacing : ∀ n (x : Action), x.Placing n → x.attempts .release = 0 := by
    rintro n x (hx | rfl)
    · cases x with
      | attempt o => cases hx
      | _ => rfl
    · rfl
  refine uses_secure rfl ?_
  refine Process.uses_attemptFrom policy _ (fun _ => rfl) (fun _ => rfl) (fun k => ?_) _ _
  refine ⟨rfl, fun _ => ⟨rfl, fun f => ?_⟩⟩
  cases f with
  | some f => trivial
  | none =>
    change (Gateway.confirmDirectly b.room _).Uses _
    unfold Gateway.confirmDirectly
    cases Stay.ofDates b.stay.arrival b.stay.departure with
    | error e => trivial
    | ok stay => exact Uses.bind ((Keeper.uses_confirm _).mono (hplacing _)) fun _ => trivial

/-- A booking is confirmed, or its room is released once. -/
theorem tallies_settle : (settle (.direct policy) b r).Tallies .release
    (fun x m => ∀ f, x = .error f → m = n + 1) n := by
  refine Tallies.bind ((uses_secure_direct policy b r).tallies n) ?_
  rintro x _ rfl
  cases x with
  | ok c => exact fun _ _ f hf => by cases hf
  | error f =>
    intro _ _
    change (compensate (.direct policy) b r >>= _).Tallies _ _ _
    refine Tallies.bind (tallies_compensate policy b r) fun _ m hm => ?_
    exact fun _ _ => hm

theorem Bid.tallies {room : RoomId} (x : Bid room) :
    x.process.Tallies .release (fun a m => ∀ f, a = .error (.inventory f) → m = 1) 0 := by
  have hcreate : x.process = _ := create_eq x.timely
  rw [hcreate]
  intro _ _
  refine Tallies.ledger fun now l => ?_
  simp only [Ledger.answer, Ledger.accept]
  split
  · exact fun _ _ f hf => by cases hf
  · -- the room is the one that was asked for
    change (Process.act (.ledger (.insertPending ⟨x.uid, x.user, room, x.stay⟩)) fun a =>
      ExceptT.bindCont (fun b => ExceptT.mk ((settle (.direct x.policy) b x.request).metered
        fun _ => .bookingTimed)) a).Tallies _ _ _
    refine Tallies.ledger fun now l => ?_
    refine Tallies.bind (tallies_settle x.policy _ x.request) fun a m hm => ?_
    exact fun _ _ f hf => hm _ hf

end Desk

end Lodging
