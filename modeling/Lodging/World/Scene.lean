import Lodging.World.World

/-!
Processes side by side in one world. A scene is moved by events: a call begins, one of the calls
under way takes its next atomic action, one is given up where it stands, or the world takes a turn
of its own. Any list of events is a run, for an event that is not possible changes nothing. A call
that is given up lets go of the room it holds, or leaves the line it waits in.
-/

namespace Lodging

/-- What has become of a call, with the tickets of the rooms it holds while it is under way. -/
inductive Job (α : Type) where
  | running (p : Process α) (held : List Ticket)
  | waiting (ticket : Ticket) (next : Ticket → Process α) (held : List Ticket)
  | finished (a : α)
  | dropped

/-- What comes over a world from outside. -/
inductive Turn where
  /-- The next lock placed is reported as a duplicate. -/
  | race
  | failConfirm (f : Option CallFailure)
  | failRelease (f : Option CallFailure)
  | clock (now : Instant)

def World.turn (w : World) : Turn → World
  | .race => { w with inventory := { w.inventory with raced := true } }
  | .failConfirm f => { w with confirmFailure := f }
  | .failRelease f => { w with releaseFailure := f }
  | .clock now => { w with now := now }

/-- Calls of one kind in one world, in the order in which they began. -/
structure Scene {κ α : Type} (code : κ → Process α) where
  world : World
  jobs : List (κ × Job α)

inductive Event (κ : Type) where
  | start (call : κ)
  | advance (i : Nat)
  | drop (i : Nat)
  | turn (t : Turn)

/-- Nothing goes wrong: calls begin and go on, and time passes. -/
def Event.Calm {κ : Type} : Event κ → Prop
  | .start _ | .advance _ | .turn (.clock _) => True
  | .drop _ | .turn _ => False

instance {κ : Type} (e : Event κ) : Decidable e.Calm :=
  match e with
  | .start _ | .advance _ | .turn (.clock _) => .isTrue trivial
  | .drop _ | .turn .race | .turn (.failConfirm _) | .turn (.failRelease _) => .isFalse id

namespace Job

variable {α : Type}

/-- The tickets still held after an action. -/
def keep (held : List Ticket) : Action → List Ticket
  | .leave t => held.filter (· ≠ t)
  | _ => held

/-- The next atomic action of a call, if it has one and need not wait. -/
def advance (w : World) : Job α → Job α × World
  | running (.done a) _ => (finished a, w)
  | running (.act x next) held =>
    let (r, w') := w.perform x
    (running (next r) (keep held x), w')
  | running (.enter room next) held =>
    let (t, h) := w.holds.request room
    (waiting t next held, { w with holds := h })
  | waiting t next held =>
    if w.holds.granted t then (running (next t) (t :: held), w) else (waiting t next held, w)
  | finished a => (finished a, w)
  | dropped => (dropped, w)

def letGo (held : List Ticket) (w : World) : World :=
  { w with holds := held.foldl Holds.leave w.holds }

/-- A call given up where it stands. -/
def drop (w : World) : Job α → Job α × World
  | running _ held => (dropped, letGo held w)
  | waiting t _ held => (dropped, letGo held { w with holds := w.holds.withdraw t })
  | finished a => (finished a, w)
  | dropped => (dropped, w)

/-- The call has begun and not come to an end. -/
def underWay : Job α → Bool
  | running .. | waiting .. => true
  | finished _ | dropped => false

/-- The call was given up. -/
def givenUp : Job α → Bool
  | dropped => true
  | _ => false

/-- What the call has come to, at its end. -/
def answer? : Job α → Option α
  | finished a => some a
  | _ => none

/-- The call has come to its end and has failed. -/
def failed {ε β : Type} : Job (Except ε β) → Bool
  | finished (.error _) => true
  | _ => false

theorem exists_of_failed {ε β : Type} {j : Job (Except ε β)} (h : j.failed = true) :
    ∃ e, j = finished (.error e) := by
  match j with
  | finished (.error e) => exact ⟨e, rfl⟩

end Job

namespace Scene

variable {κ α : Type} {code : κ → Process α}

/-- Nothing has been called yet. -/
def opening (code : κ → Process α) (w : World) : Scene code := ⟨w, []⟩

/-- Changes one call and the world with it. -/
def update (f : World → Job α → Job α × World) (s : Scene code) (i : Nat) : Scene code :=
  match s.jobs[i]? with
  | some (c, j) =>
    let (j', w') := f s.world j
    ⟨w', s.jobs.set i (c, j')⟩
  | none => s

def step (s : Scene code) : Event κ → Scene code
  | .start c => { s with jobs := s.jobs ++ [(c, .running (code c) [])] }
  | .advance i => s.update Job.advance i
  | .drop i => s.update Job.drop i
  | .turn t => { s with world := s.world.turn t }

def run (s : Scene code) (events : List (Event κ)) : Scene code := events.foldl step s

/-- No call is under way. -/
def Quiet (s : Scene code) : Prop := ∀ j ∈ s.jobs, j.2.underWay = false

instance (s : Scene code) : Decidable s.Quiet := List.decidableBAll _ _

theorem run_append (s : Scene code) (es fs : List (Event κ)) :
    s.run (es ++ fs) = (s.run es).run fs :=
  List.foldl_append ..

theorem run_cons (s : Scene code) (e : Event κ) (es : List (Event κ)) :
    s.run (e :: es) = (s.step e).run es := rfl

theorem run_concat (s : Scene code) (es : List (Event κ)) (e : Event κ) :
    s.run (es ++ [e]) = (s.run es).step e := run_append s es [e]

/-- A call has come to its end. -/
def Finished (s : Scene code) (i : Nat) : Prop := ∃ c a, s.jobs[i]? = some (c, .finished a)

/-- In a run, a call had come to its end before another one began. -/
def Precedes (s : Scene code) (events : List (Event κ)) (i k : Nat) : Prop :=
  ∃ es, es <+: events ∧ (s.run es).Finished i ∧ (s.run es).jobs.length ≤ k

theorem length_le_step (s : Scene code) (e : Event κ) : s.jobs.length ≤ (s.step e).jobs.length := by
  cases e with
  | start c => simp [step]
  | turn t => exact Nat.le_refl _
  | advance i =>
    simp only [step, update]
    split <;> simp
  | drop i =>
    simp only [step, update]
    split <;> simp

/-- What a call has come to stays, and so it stays given up. -/
theorem over_step {s : Scene code} {i : Nat} {c : κ} {j : Job α} (h : s.jobs[i]? = some (c, j))
    (hover : j.underWay = false) (e : Event κ) : (s.step e).jobs[i]? = some (c, j) := by
  have hlt : i < s.jobs.length := (List.getElem?_eq_some_iff.mp h).1
  -- a call that is not under way is not changed by what is done to it
  have hupdate : ∀ (f : World → Job α → Job α × World) (k : Nat), (∀ w, (f w j).1 = j) →
      (s.update f k).jobs[i]? = some (c, j) := by
    intro f k hf
    simp only [update]
    split
    next d l hd =>
      by_cases hik : k = i
      · subst hik
        obtain ⟨rfl, rfl⟩ := Prod.mk.inj (Option.some.inj (hd.symm.trans h))
        rw [List.getElem?_set_self hlt, hf]
      · rwa [List.getElem?_set_ne hik]
    next => exact h
  cases e with
  | start d =>
    simp only [step]
    rwa [List.getElem?_append_left hlt]
  | turn t => exact h
  | advance k =>
    refine hupdate _ k fun w => ?_
    cases j <;> first | rfl | cases hover
  | drop k =>
    refine hupdate _ k fun w => ?_
    cases j <;> first | rfl | cases hover

theorem over_run {s : Scene code} {i : Nat} {c : κ} {j : Job α} (h : s.jobs[i]? = some (c, j))
    (hover : j.underWay = false) (es : List (Event κ)) : (s.run es).jobs[i]? = some (c, j) := by
  induction es generalizing s with
  | nil => exact h
  | cons e rest ih => exact ih (over_step h hover e)

theorem finished_run {s : Scene code} {i : Nat} {c : κ} {a : α}
    (h : s.jobs[i]? = some (c, .finished a)) (es : List (Event κ)) :
    (s.run es).jobs[i]? = some (c, .finished a) :=
  over_run h rfl es

theorem Finished.run {s : Scene code} {i : Nat} (h : s.Finished i) (es : List (Event κ)) :
    (s.run es).Finished i := by
  obtain ⟨c, a, h⟩ := h
  exact ⟨c, a, finished_run h es⟩

theorem Precedes.finished {s : Scene code} {es : List (Event κ)} {i k : Nat}
    (h : s.Precedes es i k) : (s.run es).Finished i := by
  obtain ⟨pre, ⟨rest, rfl⟩, hi, -⟩ := h
  rw [run_append]
  exact hi.run rest

/-- What precedes a call that has begun has done so already. -/
theorem Precedes.of_concat {s : Scene code} {es : List (Event κ)} {e : Event κ} {i k : Nat}
    (h : s.Precedes (es ++ [e]) i k) (hk : k < (s.run es).jobs.length) : s.Precedes es i k := by
  obtain ⟨pre, hpre, hi, hle⟩ := h
  rcases List.prefix_concat_iff.mp hpre with rfl | hpre
  · rw [run_concat] at hle
    have := length_le_step (s.run es) e
    omega
  · exact ⟨pre, hpre, hi, hle⟩

end Scene

end Lodging
