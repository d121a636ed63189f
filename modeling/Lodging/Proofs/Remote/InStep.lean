import Lodging.Proofs.Script
import Lodging.World.Likeness

/-!
Processes in step. In worlds of the same kind they take the same actions, but for what they count and
for failures that are not planned there, and what they come to is related. Processes in step that
come to equal ends are interchangeable.
-/

namespace Lodging

namespace World

/-- Worlds that differ in what was counted only. -/
theorem eq_of_uncounted_eq {v w : World} (h : v.uncounted = w.uncounted) :
    v = { w with attempts := v.attempts, events := v.events } := by
  cases v
  cases w
  simp only [uncounted, mk.injEq] at h
  simp only [mk.injEq]
  exact h

theorem stock_eq_of_uncounted_eq {v w : World} (h : v.uncounted = w.uncounted) :
    v.stock = w.stock := by
  rw [eq_of_uncounted_eq h]
  rfl

/-- What was counted has no part in the lines before rooms. -/
theorem uncounted_withHolds {v w : World} (h : v.uncounted = w.uncounted) :
    w.holds = v.holds ∧ ∀ holds : Holds,
      { v with holds := holds }.uncounted = { w with holds := holds }.uncounted := by
  rw [eq_of_uncounted_eq h]
  exact ⟨rfl, fun _ => rfl⟩

/-- What was counted has no part in an action, unless it reads the meters. -/
theorem perform_uncounted {v w : World} (h : v.uncounted = w.uncounted) {x : Action}
    (hx : x ≠ .readings) : (v.perform x).1 = (w.perform x).1 ∧
      (v.perform x).2.uncounted = (w.perform x).2.uncounted := by
  rw [eq_of_uncounted_eq h]
  cases x with
  | rooms c =>
    simp only [perform, callRooms]
    cases c.kind? with
    | none => exact ⟨rfl, rfl⟩
    | some kind =>
      simp only
      split <;> exact ⟨rfl, rfl⟩
  | ledger c =>
    simp only [perform, callLedger]
    split <;> exact ⟨rfl, rfl⟩
  | readings => exact absurd rfl hx
  | planned o => cases o <;> exact ⟨rfl, rfl⟩
  | _ => exact ⟨rfl, rfl⟩

end World

namespace Process

variable {α β γ δ : Type} {Kind : Stock → Prop}

/-- A process goes in step with another one while the stock stays of a kind. The first may count
what the second does not; the second may count attempts, and look for failures that are not
planned. -/
inductive InStep (Kind : Stock → Prop) (R : α → β → Prop) : Process α → Process β → Prop
  | done {a : α} {b : β} (h : R a b) : InStep Kind R (.done a) (.done b)
  | act {x : Action} {f : x.Answer → Process α} {g : x.Answer → Process β} (hx : x ≠ .readings)
    (hkind : ∀ w : World, Kind w.stock → Kind (w.perform x).2.stock)
    (h : ∀ w : World, Kind w.stock → InStep Kind R (f (w.perform x).1) (g (w.perform x).1)) :
    InStep Kind R (.act x f) (.act x g)
  | enter {room : RoomId} {f : Ticket → Process α} {g : Ticket → Process β}
    (h : ∀ t, InStep Kind R (f t) (g t)) : InStep Kind R (.enter room f) (.enter room g)
  | counted {m : Meter} {f : Unit → Process α} {q : Process β} (h : InStep Kind R (f ()) q) :
    InStep Kind R (.act (.meter m) f) q
  | attempted {o : Operation} {p : Process α} {g : Unit → Process β} (h : InStep Kind R p (g ())) :
    InStep Kind R p (.act (.attempt o) g)
  | unplanned {o : Operation} {p : Process α} {g : Option CallFailure → Process β}
    (hnone : ∀ b, Kind b → b.planned o = none) (h : InStep Kind R p (g none)) :
    InStep Kind R p (.act (.planned o) g)

variable {R : α → β → Prop} {p : Process α} {q : Process β}

theorem InStep.bind {S : γ → δ → Prop} {f : α → Process γ} {g : β → Process δ}
    (h : InStep Kind R p q) (hfg : ∀ a b, R a b → InStep Kind S (f a) (g b)) :
    InStep Kind S (p >>= f) (q >>= g) := by
  change InStep Kind S (p.bind f) (q.bind g)
  induction h with
  | done h => exact hfg _ _ h
  | act hx hkind _ ih => exact .act hx hkind ih
  | enter _ ih => exact .enter ih
  | counted _ ih => exact .counted ih
  | attempted _ ih => exact .attempted ih
  | unplanned hnone _ ih => exact .unplanned hnone ih

section

variable {Kind : World → Prop} {p q : Process α}

/-- It does not matter how processes get to where they are interchangeable. -/
theorem Interchangeable.of_advance
    (h : ∀ v w, v.uncounted = w.uncounted → Kind v → ∃ p' q' v' w',
      p.advance v = p'.advance v' ∧ q.advance w = q'.advance w' ∧
        v'.uncounted = w'.uncounted ∧ Kind v' ∧ Interchangeable Kind p' q') :
    Interchangeable Kind p q := by
  constructor
  · intro v w huncounted hkind
    obtain ⟨p', q', v', w', hp, hq, hsame, hkind', ⟨same, -⟩⟩ := h v w huncounted hkind
    rw [hp, hq]
    exact same v' w' hsame hkind'
  · intro v w x y huncounted hkind hx hy
    obtain ⟨p', q', v', w', hp, hq, hsame, hkind', ⟨-, later⟩⟩ := h v w huncounted hkind
    rw [hp] at hx
    rw [hq] at hy
    exact later v' w' x y hsame hkind' hx hy

end

/-- Whoever lines up for a room goes on at once or waits; it is the same for both. -/
theorem Interchangeable.enter {room : RoomId} {f g : Ticket → Process α}
    (h : ∀ t, Interchangeable (fun w => Kind w.stock) (f t) (g t)) :
    Interchangeable (fun w => Kind w.stock) (.enter room f) (.enter room g) := by
  constructor
  · intro v w huncounted hv
    obtain ⟨hholds, hlined⟩ := World.uncounted_withHolds huncounted
    obtain ⟨same, -⟩ := h (v.holds.request room).1
    unfold advance
    rw [hholds]
    simp only
    split
    · exact same _ _ (hlined _) hv
    · exact ⟨rfl, hlined _⟩
  · intro v w x y huncounted hv hx hy
    obtain ⟨hholds, hlined⟩ := World.uncounted_withHolds huncounted
    have hturn := h (v.holds.request room).1
    unfold advance at hx hy
    rw [hholds] at hy
    simp only at hx hy
    split at hx
    · next hgranted =>
      rw [if_pos hgranted] at hy
      obtain ⟨-, later⟩ := hturn
      exact later _ _ x y (hlined (v.holds.request room).2) hv hx hy
    · next hgranted =>
      -- both wait under the ticket that they go on with
      rw [if_neg hgranted] at hy
      obtain rfl := Sum.inr.inj hx
      obtain rfl := Sum.inr.inj hy
      exact hturn

/-- Where a process goes in step with another one to equal ends, either may be taken. -/
theorem InStep.interchangeable {p q : Process α} (h : InStep Kind Eq p q) :
    Interchangeable (fun w => Kind w.stock) p q := by
  -- what only one of the two does leaves no trace but in what is counted
  induction h with
  | done h =>
    subst h
    constructor
    · exact fun v w huncounted _ => ⟨rfl, huncounted⟩
    · intro v w x y _ _ hx
      cases hx
  | @act x f g hx hkind _ ih =>
    apply Interchangeable.of_advance
    intro v w huncounted hv
    obtain ⟨hanswer, hafter⟩ := World.perform_uncounted huncounted hx
    refine ⟨f (v.perform x).1, g (v.perform x).1, (v.perform x).2, (w.perform x).2, rfl, ?_, hafter,
      hkind v hv, ih v hv⟩
    rw [hanswer]
    rfl
  | enter _ ih => exact Interchangeable.enter ih
  | @counted m f q _ ih =>
    apply Interchangeable.of_advance
    intro v w huncounted hv
    exact ⟨f (), q, _, w, rfl, rfl, huncounted, hv, ih⟩
  | @attempted o p g _ ih =>
    apply Interchangeable.of_advance
    intro v w huncounted hv
    exact ⟨p, g (), v, _, rfl, rfl, huncounted, hv, ih⟩
  | @unplanned o p g hnone _ ih =>
    apply Interchangeable.of_advance
    intro v w huncounted hv
    have hplanned : w.planned o = none := by
      rw [World.planned_eq, ← World.stock_eq_of_uncounted_eq huncounted]
      exact hnone _ hv
    refine ⟨p, g none, v, w, rfl, ?_, huncounted, hv, ih⟩
    rw [← hplanned]
    rfl

end Process

end Lodging
