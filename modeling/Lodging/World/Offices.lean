import Lodging.World.Calls

/-!
Several offices that let the same rooms. They share the inventory, but not the holds on its rooms:
each call to a keeper works with a table of holds, and calls that work with different tables do not
keep each other out of any room.
-/

namespace Lodging

structure Offices where
  world : World
  tables : Nat → Holds
  /-- The calls in the order in which they began, each with the number of its table. -/
  jobs : List ((Nat × Keeper.Call) × Job Keeper.Reply)

namespace Offices

/-- Nothing has been called yet, there are no rooms, and some calls of the inventory are to go
wrong. -/
def opening (now : Instant) (plans : List Plan) : Offices :=
  ⟨{ World.atTime now with roomPlans := plans }, fun _ => .empty, []⟩

/-- Changes one call, and with it the world and the table with which it works. -/
def update (f : World → Job Keeper.Reply → Job Keeper.Reply × World) (s : Offices) (i : Nat) :
    Offices :=
  match s.jobs[i]? with
  | some (c, j) =>
    let (j', w') := f { s.world with holds := s.tables c.1 } j
    ⟨w', fun k => if k = c.1 then w'.holds else s.tables k, s.jobs.set i (c, j')⟩
  | none => s

def step (s : Offices) : Event (Nat × Keeper.Call) → Offices
  | .start c => { s with jobs := s.jobs ++ [(c, .running c.2.process [])] }
  | .advance i => s.update Job.advance i
  | .drop i => s.update Job.drop i
  | .turn t => { s with world := s.world.turn t }

def run (s : Offices) (events : List (Event (Nat × Keeper.Call))) : Offices :=
  events.foldl step s

end Offices

end Lodging
