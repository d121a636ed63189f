import Lodging.World.Scene

/-!
What a run leaves behind besides its end. A trail collects what each event yields, in the order of
the events: the locks that appear with it, or those that go.
-/

namespace Lodging

deriving instance DecidableEq for Inventory

/-- The locks of one inventory that are not in another one. -/
def Inventory.beyond (v u : Inventory) : List Lock := v.locks.filter (· ∉ u.locks)

/-- What an action of one call makes of the inventory, if it changes anything. -/
def Event.changed {κ : Type} (i : Nat) (v v' : Inventory) : Event κ → List (Inventory × Inventory)
  | .advance k => if k = i ∧ v' ≠ v then [(v, v')] else []
  | _ => []

/-- The call that begins with an event. -/
def Event.begun? {κ : Type} : Event κ → Option κ
  | .start c => some c
  | _ => none

namespace Scene

variable {κ α β : Type} {code : κ → Process α}

/-- What the events of a run yield, each in the scene in which it takes place. -/
def trail (f : Scene code → Event κ → List β) (s : Scene code) : List (Event κ) → List β
  | [] => []
  | e :: es => f s e ++ (s.step e).trail f es

theorem trail_append (f : Scene code → Event κ → List β) (s : Scene code)
    (es fs : List (Event κ)) : s.trail f (es ++ fs) = s.trail f es ++ (s.run es).trail f fs := by
  induction es generalizing s with
  | nil => rfl
  | cons e rest ih =>
    simp only [List.cons_append, trail, ih, run_cons, List.append_assoc]

theorem trail_concat (f : Scene code → Event κ → List β) (s : Scene code) (es : List (Event κ))
    (e : Event κ) : s.trail f (es ++ [e]) = s.trail f es ++ f (s.run es) e := by
  rw [trail_append]
  simp only [trail, List.append_nil]

/-- The locks that an event brings. -/
def gained (s : Scene code) (e : Event κ) : List Lock :=
  (s.step e).world.inventory.beyond s.world.inventory

/-- The locks that an event takes away. -/
def lost (s : Scene code) (e : Event κ) : List Lock :=
  s.world.inventory.beyond (s.step e).world.inventory

/-- The changes of the inventory that are made by one call, each as it was before and after. -/
def changes (i : Nat) (s : Scene code) (e : Event κ) : List (Inventory × Inventory) :=
  e.changed i s.world.inventory (s.step e).world.inventory

/-- In a run, an action of a call brought about a change of the world. -/
def Brings (s : Scene code) (events : List (Event κ)) (change : World → World → Prop) (i : Nat) :
    Prop :=
  ∃ before after, events = before ++ .advance i :: after ∧
    change (s.run before).world (s.run (before ++ [.advance i])).world

theorem not_brings_nil {s : Scene code} (change : World → World → Prop) {i : Nat} :
    ¬ s.Brings [] change i := by
  rintro ⟨before, after, h, -⟩
  exact List.append_ne_nil_of_right_ne_nil before (List.cons_ne_nil _ after) h.symm

theorem brings_concat {s : Scene code} {es : List (Event κ)} {e : Event κ}
    (change : World → World → Prop) {i : Nat} :
    s.Brings (es ++ [e]) change i ↔ s.Brings es change i ∨
      e = .advance i ∧ change (s.run es).world ((s.run es).step e).world := by
  constructor
  · rintro ⟨before, after, h, hchange⟩
    rcases List.eq_nil_or_concat after with rfl | ⟨after, x, rfl⟩
    · obtain ⟨rfl, he⟩ := List.append_inj' h rfl
      obtain rfl := (List.cons.inj he).1
      rw [run_concat] at hchange
      exact .inr ⟨rfl, hchange⟩
    · rw [List.concat_eq_append, ← List.cons_append, ← List.append_assoc] at h
      obtain ⟨rfl, -⟩ := List.append_inj' h rfl
      exact .inl ⟨before, after, rfl, hchange⟩
  · rintro (⟨before, after, rfl, hchange⟩ | ⟨rfl, hchange⟩)
    · refine ⟨before, after ++ [e], ?_, hchange⟩
      rw [List.append_assoc, List.cons_append]
    · rw [← run_concat] at hchange
      exact ⟨es, [], rfl, hchange⟩

/-- The calls of a scene are those that have begun, in this order. -/
theorem calls_run (s : Scene code) (es : List (Event κ)) :
    (s.run es).jobs.map Prod.fst = s.jobs.map Prod.fst ++ es.filterMap Event.begun? := by
  have hupdate : ∀ (f : World → Job α → Job α × World) (s : Scene code) (i : Nat),
      (s.update f i).jobs.map Prod.fst = s.jobs.map Prod.fst := by
    intro f s i
    simp only [update]
    split
    next c j hj =>
      have hlt : i < (s.jobs.map Prod.fst).length := by
        rw [List.length_map]
        exact (List.getElem?_eq_some_iff.mp hj).1
      have hget : (s.jobs.map Prod.fst)[i] = c := by
        rw [List.getElem_map, (List.getElem?_eq_some_iff.mp hj).2]
      rw [List.map_set, ← hget, List.set_getElem_self]
    next => rfl
  induction es generalizing s with
  | nil => exact (List.append_nil _).symm
  | cons e rest ih =>
    rw [run_cons, ih]
    cases e with
    | start c => simp [step, Event.begun?]
    | turn t => rfl
    | advance i => exact congrArg (· ++ _) (hupdate _ s i)
    | drop i => exact congrArg (· ++ _) (hupdate _ s i)

end Scene

end Lodging
