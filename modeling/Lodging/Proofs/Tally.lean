import Lodging.Client.Gateway
import Lodging.Proofs.Journal
import Lodging.Proofs.Script
import Lodging.World.Contest

/-!
How often a call attempts an operation. Where nothing goes wrong, the answers to a process are those
of a world that has no failure in store, and so the attempts that it makes can be counted along its
code.
-/

namespace Lodging

namespace World

/-- No failure is in store. -/
structure Faultless (w : World) : Prop where
  undisturbed : w.Undisturbed
  planned : ∀ o, w.planned o = none

variable {w : World}

theorem Faultless.perform (hw : w.Faultless) (x : Action) : (w.perform x).2.Faultless := by
  refine ⟨hw.undisturbed.perform x, fun o => ?_⟩
  rw [← hw.planned o]
  cases x with
  | rooms c =>
    change (w.callRooms c).2.planned o = _
    rw [hw.undisturbed.callRooms]
    cases o <;> rfl
  | ledger c =>
    change (w.callLedger c).2.planned o = _
    rw [hw.undisturbed.callLedger]
    cases o <;> rfl
  | _ => cases o <;> rfl

theorem Faultless.of_holds (hw : w.Faultless) (h : Holds) : { w with holds := h }.Faultless :=
  ⟨hw.undisturbed, fun o => (by cases o <;> rfl : _ = w.planned o).trans (hw.planned o)⟩

theorem Faultless.clock (hw : w.Faultless) (now : Instant) : (w.turn (.clock now)).Faultless :=
  ⟨hw.undisturbed, fun o => (by cases o <;> rfl : _ = w.planned o).trans (hw.planned o)⟩

end World

/-- Answered as in a world in which nothing goes wrong. -/
def Deed.Fair : Deed → Prop
  | .did x a => ∃ w : World, w.Faultless ∧ a = (w.perform x).1
  | .linedUp .. => True

namespace Job

variable {α : Type} {w : World}

theorem faultless_advance (hw : w.Faultless) (j : Job α) : (j.advance w).2.Faultless := by
  cases j with
  | running p held =>
    cases p with
    | done a => exact hw
    | act x next => exact hw.perform x
    | enter room next => exact hw.of_holds _
  | waiting t next held =>
    simp only [Job.advance]
    split <;> exact hw
  | finished a => exact hw
  | dropped => exact hw

theorem fair_of_deed? (hw : w.Faultless) {j : Job α} {d : Deed} (h : j.deed? w = some d) :
    d.Fair := by
  cases j with
  | running p held =>
    cases p with
    | done a => cases h
    | act x next =>
      obtain rfl := Option.some.inj h
      exact ⟨w, hw, rfl⟩
    | enter room next =>
      obtain rfl := Option.some.inj h
      trivial
  | _ => cases h

end Job

namespace Scene

variable {κ α : Type} {code : κ → Process α} {s : Scene code} {es : List (Event κ)}

theorem faultless_step (hw : s.world.Faultless) {e : Event κ} (he : e.Calm) :
    (s.step e).world.Faultless := by
  cases e with
  | start c => exact hw
  | drop i => cases he
  | turn t =>
    cases t with
    | clock now => exact hw.clock now
    | _ => cases he
  | advance i =>
    simp only [step, update]
    split
    next c j hj => exact j.faultless_advance hw
    next => exact hw

/-- All that is done in a run without mishaps is answered fairly. -/
theorem fair_of_mem_journal (hw : s.world.Faultless) (he : ∀ e ∈ es, e.Calm) {x : ℕ × Deed}
    (hx : x ∈ s.journal es) : x.2.Fair := by
  induction es generalizing s with
  | nil => cases hx
  | cons e rest ih =>
    have hcalm := he e List.mem_cons_self
    rcases List.mem_append.mp hx with hx | hx
    · obtain ⟨-, c, j, -, hd⟩ := of_mem_deeds hx
      exact Job.fair_of_deed? hw hd
    · exact ih (faultless_step hw hcalm) (fun e he' => he e (List.mem_cons_of_mem _ he')) hx

end Scene

def Action.attempts (o : Operation) : Action → ℕ
  | .attempt o' => if o' = o then 1 else 0
  | _ => 0

theorem Deed.attempts_did (o : Operation) (x : Action) (a : x.Answer) :
    (if (Deed.did x a).attempts o then 1 else 0) = x.attempts o := by
  cases x with
  | attempt o' => simp [Deed.attempts, Action.attempts]
  | _ => rfl

namespace Process

variable {α β : Type} {o : Operation} {Q : α → ℕ → Prop} {R : β → ℕ → Prop} {n : ℕ}
  {p q : Process α}

/-- What a process comes to, and the number of its attempts at an operation till then, are as
demanded. -/
def Tallies (o : Operation) (Q : α → ℕ → Prop) : ℕ → Process α → Prop
  | n, .done a => Q a n
  | n, .act x next =>
    ∀ w : World, w.Faultless → Tallies o Q (n + x.attempts o) (next (w.perform x).1)
  | n, .enter _ next => ∀ t, Tallies o Q n (next t)

theorem Tallies.of_leads {ds : List Deed} {a : α} (h : p.Tallies o Q n)
    (hl : Leads p ds (.done a)) (hfair : ∀ d ∈ ds, d.Fair) :
    Q a (n + ds.countP (·.attempts o)) := by
  generalize hq : Process.done a = q at hl
  induction hl generalizing n with
  | stay p =>
    subst hq
    exact h
  | @did x next b ds q hl ih =>
    obtain ⟨w, hw, rfl⟩ := hfair _ List.mem_cons_self
    have hrest := ih (h w hw) (fun d hd => hfair d (List.mem_cons_of_mem _ hd)) hq
    rwa [List.countP_cons, Deed.attempts_did, Nat.add_comm (ds.countP _), ← Nat.add_assoc]
  | @linedUp room next t ds q hl ih =>
    have hrest := ih (h t) (fun d hd => hfair d (List.mem_cons_of_mem _ hd)) hq
    rwa [List.countP_cons_of_neg (by exact Bool.false_ne_true)]

theorem Tallies.bind {f : α → Process β} (hp : p.Tallies o Q n)
    (hf : ∀ a m, Q a m → (f a).Tallies o R m) : (p >>= f).Tallies o R n := by
  change (p.bind f).Tallies o R n
  induction p generalizing n with
  | done a => exact hf a n hp
  | act x next ih => exact fun w hw => ih _ (hp w hw)
  | enter room next ih => exact fun t => ih t (hp t)

/-- Whoever makes no attempts adds none. -/
theorem Uses.tallies (hp : p.Uses fun x => x.attempts o = 0) (n : ℕ) :
    p.Tallies o (fun _ m => m = n) n := by
  induction p with
  | done a => rfl
  | act x next ih =>
    intro w _
    rw [hp.1]
    exact ih _ (hp.2 _)
  | enter room next ih => exact fun t => ih t (hp t)

theorem Tallies.rooms {c : RoomCall} {f : c.Answer → Process α}
    (h : ∀ now v, (f (Inventory.answer now v c).1).Tallies o Q n) :
    (Process.act (.rooms c) f).Tallies o Q n := by
  intro w hw
  change (f (w.callRooms c).1).Tallies o Q n
  rw [hw.undisturbed.callRooms]
  exact h w.now w.inventory

theorem Tallies.ledger {c : LedgerCall} {f : c.Answer → Process α}
    (h : ∀ now l, (f (Ledger.answer now l c).1).Tallies o Q n) :
    (Process.act (.ledger c) f).Tallies o Q n := by
  intro w hw
  change (f (w.callLedger c).1).Tallies o Q n
  rw [hw.undisturbed.callLedger]
  exact h w.now w.ledger

/-- An attempt of the direct gateway, where no failure is planned for it. -/
theorem Tallies.directly {Q : Except CallFailure α → ℕ → Prop}
    {p : Process (Except CallFailure α)} (h : p.Tallies o Q (n + 1)) :
    (Gateway.directly o p).Tallies o Q n := by
  intro _ _ w hw
  have hnone : (w.perform (.planned o)).1 = none := hw.planned o
  have hone : n + (Action.attempt o).attempts o + (Action.planned o).attempts o = n + 1 := by
    simp [Action.attempts]
  rw [hone, hnone]
  exact h

/-- The first attempt is the only one, unless it fails in a way that may pass. -/
theorem Tallies.attemptFrom {Q : Except CallFailure α → ℕ → Prop} (policy : RetryPolicy)
    {o' : Operation} {call : ℕ → Process (Except CallFailure α)} (more attempt : ℕ)
    (h : (call attempt).Tallies o (fun r m => Q r m ∧ ∀ f, r = .error f → f.retryable = false) n) :
    (policy.attemptFrom Gateway.effects o' call more attempt).Tallies o Q n := by
  rw [RetryPolicy.attemptFrom_eq]
  refine Tallies.bind h fun r m hr => ?_
  cases r with
  | ok a => exact hr.1
  | error f =>
    simp only [hr.2 f rfl]
    exact hr.1

end Process

end Lodging
