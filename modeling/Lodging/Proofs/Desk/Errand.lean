import Lodging.Proofs.Keeper.Course
import Lodging.Client.Gateway

/-!
Errands of the booking desk to the keeper of the rooms. Each attempt is denied by a failure that is
planned, or takes the course of a call to the keeper. After a failure another attempt may follow.
-/

namespace Lodging

section Attempts

variable {σ α : Type} {S : Script σ} {s : σ} {held : Script.Held}
  {A Q : Except CallFailure α → σ → Prop} {call : ℕ → Process (Except CallFailure α)}
  {p : Process (Except CallFailure α)} {o : Operation}

/-- Attempts, each of which begins at one point. A failure that may pass leads back there, and any
may be the last one. -/
theorem runs_attempts (policy : RetryPolicy) (hcall : ∀ k, S.Runs held A s (call k))
    (hok : ∀ a s', A (.ok a) s' → Q (.ok a) s')
    (herror : ∀ f s', A (.error f) s' → f.retryable = false → Q (.error f) s')
    (hagain : ∀ f s', A (.error f) s' → f.retryable = true →
      (∀ b, S.Step s' b s b) ∧ S.Stays s' s)
    (hexhausted : ∀ f s' k, A (.error f) s' → f.retryable = true →
      ∃ s'', (∀ b, S.Step s' b s'' b) ∧ S.Stays s' s'' ∧ Q (.error (.unavailable o k)) s'')
    (more attempt : ℕ) :
    S.Runs held Q s (policy.attemptFrom Gateway.effects o call more attempt) := by
  -- an attempt, and then whatever may follow a failure that may pass
  have hround : ∀ more attempt, (∀ f s', A (.error f) s' → f.retryable = true →
        S.Runs held Q s' (policy.afterFailure Gateway.effects o call attempt more)) →
      S.Runs held Q s (policy.attemptFrom Gateway.effects o call more attempt) := by
    intro more attempt hafter
    rw [RetryPolicy.attemptFrom_eq]
    refine Script.Runs.bind (hcall attempt) fun r s' ha => ?_
    cases r with
    | ok a => exact Script.Runs.done (hok a s' ha)
    | error f =>
      cases hf : f.retryable with
      | false =>
        simp only [hf]
        exact Script.Runs.done (herror f s' ha hf)
      | true =>
        simp only [hf]
        exact hafter f s' ha hf
  -- on the attempts that are left, each of which begins where the first one did
  induction more generalizing attempt with
  | zero =>
    refine hround 0 attempt fun f s' ha hf => ?_
    obtain ⟨s'', hs, hi, hq⟩ := hexhausted f s' attempt ha hf
    exact Script.Runs.meter hs hi (Script.Runs.done hq)
  | succ more ih =>
    refine hround _ attempt fun f s' ha hf => ?_
    obtain ⟨hs, hi⟩ := hagain f s' ha hf
    apply Script.Runs.meter hs hi
    by_cases hd : policy.delayAfter attempt = 0
    · simp only [hd]
      exact ih (attempt + 1)
    · simp only [ne_eq, hd, not_false_eq_true, if_true]
      exact Script.Runs.sleep (ih (attempt + 1))

/-- Attempts at what is done from one point on, if failures lead back to that point. -/
theorem runs_attemptFrom (policy : RetryPolicy) (hp : S.Runs held Q s p)
    (hagain : ∀ f s', Q (.error f) s' → (∀ b, S.Step s' b s b) ∧ S.Stays s' s)
    (hany : ∀ f f' s', Q (.error f) s' → Q (.error f') s') (more attempt : Nat) :
    S.Runs held Q s (policy.attemptFrom Gateway.effects o (fun _ => p) more attempt) := by
  refine runs_attempts policy (fun _ => hp) (fun _ _ hq => hq) (fun _ _ hq _ => hq)
    (fun f s' hq _ => hagain f s' hq) (fun f s' k hq _ => ?_) more attempt
  exact ⟨s', .stay S s', .refl s', hany f _ s' hq⟩

end Attempts

/-- The call has come to its end, well or not. -/
def Keeper.Point.Ended (ok : Bool) : Keeper.Point → Prop
  | .placed _ r => r.isOk = ok
  | .removed _ _ r => r.isOk = ok
  | _ => False

theorem Keeper.Point.Ended.unique {a b : Bool} {k : Keeper.Point} (h : k.Ended a)
    (h' : k.Ended b) : a = b := by
  cases k <;> first | exact Eq.trans (Eq.symm h) h' | cases h

theorem Keeper.Move.not_ended {ok : Bool} {k k' : Keeper.Point} {v v' : Inventory}
    (h : Keeper.Move k v k' v') : ¬ k.Ended ok := by
  cases h <;> exact id

namespace Desk

inductive Errand where
  | ready
  | denied
  | on (k : Keeper.Point)

namespace Errand

/-- The point of the call to the keeper, at rest between attempts. -/
def keeper : Errand → Keeper.Point
  | on k => k
  | _ => .rest

/-- No attempt is under way, and the last one went well or not. -/
def Ended (ok : Bool) : Errand → Prop
  | ready => False
  | denied => ok = false
  | on k => k.Ended ok

/-- Attempts of an operation, each of which begins at a point of the keeper's. -/
inductive Move (o : Operation) (first : Keeper.Point) : Errand → Stock → Errand → Stock → Prop
  | deny {b : Stock} {f : CallFailure} (h : b.planned o = some f) : Move o first ready b denied b
  | go {b : Stock} (h : b.planned o = none) : Move o first ready b (on first) b
  | keeper {k k' : Keeper.Point} {b : Stock} {v : Inventory}
    (h : Keeper.Move k b.inventory k' v) :
    Move o first (on k) b (on k') { b with inventory := v }
  | again {e : Errand} (b : Stock) (h : e.Ended false) : Move o first e b ready b

variable {o : Operation} {first : Keeper.Point} {e e' : Errand} {s s' : Stock}

theorem Move.ledger (h : Move o first e s e' s') : s'.ledger = s.ledger := by
  cases h <;> rfl

theorem Ended.unique {a b : Bool} (h : e.Ended a) (h' : e.Ended b) : a = b := by
  cases e with
  | ready => cases h
  | denied => exact Eq.trans h (Eq.symm h')
  | on k => exact Keeper.Point.Ended.unique h h'

/-- Once it has gone well, there is no other attempt. -/
theorem Move.not_ended (h : Move o first e s e' s') : ¬ e.Ended true := by
  cases h with
  | deny => exact id
  | go => exact id
  | keeper hk => exact hk.not_ended
  | again s he => exact fun h => nomatch he.unique h

theorem Move.planned (h : Move o first e s e' s') (o' : Operation) :
    s'.planned o' = s.planned o' := by
  cases h <;> cases o' <;> rfl

theorem Move.ne_denied (h : Move o first e s e' s') (hp : s.planned o = none) :
    e' ≠ .denied := by
  rintro rfl
  cases h with
  | deny hf =>
    rw [hp] at hf
    cases hf

def script (o : Operation) (first : Keeper.Point) : Script Errand where
  Move := Move o first
  inside e := e.keeper.inside
  rest := ready
  inside_rest := rfl

variable {p : Process (Except CallFailure Unit)}

/-- What came of the last attempt, if the keeper tells it as demanded. -/
def Tells (A : Except CallFailure Unit → Keeper.Point → Prop) (r : Except CallFailure Unit) :
    Errand → Prop
  | ready => False
  | denied => r.isOk = false
  | on k => A r k

/-- What came of all attempts. Those that failed in a way that may pass leave another failure. -/
def Came (A : Except CallFailure Unit → Keeper.Point → Prop) (r : Except CallFailure Unit)
    (e : Errand) : Prop :=
  Tells A r e ∨ ∃ f f', r = .error f' ∧ f.retryable = true ∧ Tells A (.error f) e

variable {A : Except CallFailure Unit → Keeper.Point → Prop}

theorem Tells.ended {r : Except CallFailure Unit} (hA : ∀ r k, A r k → k.Ended r.isOk)
    (h : Tells A r e) : e.Ended r.isOk := by
  cases e with
  | ready => cases h
  | denied => exact h
  | on k => exact hA r k h

theorem Came.ended {r : Except CallFailure Unit} (hA : ∀ r k, A r k → k.Ended r.isOk)
    (h : Came A r e) : e.Ended r.isOk := by
  rcases h with h | ⟨f, f', rfl, -, h⟩
  · exact h.ended hA
  · have hf : e.Ended (Except.error f : Except CallFailure Unit).isOk := h.ended hA
    exact hf

theorem runs_directly (hfirst : first.inside = none) (hp : Keeper.script.Runs [] A first p) :
    (script o first).Runs [] (Tells A) .ready (Gateway.directly o p) := by
  refine Script.Runs.attempt (Script.Runs.planned fun b => ?_)
  cases h : b.planned o with
  | some f => exact ⟨denied, .inl (.deny h), Script.stays_out rfl, Script.Runs.done rfl⟩
  | none =>
    refine ⟨on first, .inl (.go h), Script.stays_out hfirst, ?_⟩
    have hplay := Script.Follows.embed (T := script o first) on ?_ (fun _ => rfl) hp
    · apply hplay.mono
      rintro held r _ ⟨k, rfl, hheld, hk⟩
      exact ⟨hheld, hk⟩
    · rintro k b k' _ ⟨v, hm, rfl⟩
      exact .keeper hm

theorem runs_came (policy : RetryPolicy) (hfirst : first.inside = none)
    (hA : ∀ r k, A r k → k.Ended r.isOk) (hp : Keeper.script.Runs [] A first p) :
    (script o first).Runs [] (Came A) .ready
      (policy.run Gateway.effects o fun _ => Gateway.directly o p) := by
  refine runs_attempts policy (fun _ => runs_directly hfirst hp) ?_ ?_ ?_ ?_ _ _
  · exact fun a e he => .inl he
  · exact fun f e he _ => .inl he
  · exact fun f e he _ => ⟨fun b => .inl (.again b (he.ended hA)), Script.stays_out rfl⟩
  · exact fun f e k he hf => ⟨e, .stay _ e, .refl e, .inr ⟨f, _, rfl, hf, he⟩⟩

theorem runs_errand (policy : RetryPolicy) (hfirst : first.inside = none)
    (hp : Keeper.script.Runs [] (fun r k => k.Ended r.isOk) first p) :
    (script o first).Runs [] (fun r e => e.Ended r.isOk) .ready
      (policy.run Gateway.effects o fun _ => Gateway.directly o p) :=
  (runs_came policy hfirst (fun _ _ hk => hk) hp).mono fun _ _ he => he.ended fun _ _ hk => hk

end Errand

end Desk

end Lodging
