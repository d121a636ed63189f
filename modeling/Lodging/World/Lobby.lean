import Lodging.Rooms.Holds

/-!
A table of holds in use. Someone lines up for a room, is let through the gate, goes in and lets go
of the room again, or gives up before having gone in. Any list of such events is a run, for an event
that is not possible changes nothing. It is left open whom a gate lets through next; all that is
known of gates is that nobody passes one while another who has passed it is still about.
-/

namespace Lodging

/-- All who hold a room or wait for it. -/
def Holds.party (h : Holds) (room : RoomId) : List Ticket :=
  (h.visitors.filter (·.room = room)).map (·.ticket)

structure Lobby where
  holds : Holds
  /-- Those about who were let through their gate. -/
  passed : List Ticket
  /-- Those of them who have gone in. -/
  inside : List Ticket

namespace Lobby

inductive Event where
  | lineUp (room : RoomId)
  | pass (t : Ticket)
  | goIn (t : Ticket)
  | leave (t : Ticket)
  /-- Goes away without having gone in, from the line or from behind the gate. -/
  | giveUp (t : Ticket)
deriving DecidableEq

def empty : Lobby := ⟨.empty, [], []⟩

/-- Someone stands at a gate that nobody about has passed. -/
def admits (s : Lobby) (t : Ticket) : Bool :=
  match s.holds.visitor? t with
  | some v => (s.holds.queue v.gate).all (·.ticket ∉ s.passed)
  | none => false

def step (s : Lobby) : Event → Lobby
  | .lineUp room => { s with holds := (s.holds.request room).2 }
  | .pass t => if s.admits t then { s with passed := t :: s.passed } else s
  | .goIn t =>
    if t ∈ s.passed ∧ t ∉ s.inside then { s with inside := t :: s.inside } else s
  | .leave t =>
    if t ∈ s.inside then
      ⟨s.holds.leave t, s.passed.filter (· ≠ t), s.inside.filter (· ≠ t)⟩
    else s
  | .giveUp t =>
    if t ∈ s.inside then s
    else { s with holds := s.holds.withdraw t, passed := s.passed.filter (· ≠ t) }

/-- What has become of an empty table. -/
def after (es : List Event) : Lobby := es.foldl step empty

/-- The last one who was at a room gave up, and nobody has lined up for it since. -/
def Forsaken (room : RoomId) (es : List Event) : Prop :=
  ∃ before t rest, es = before ++ .giveUp t :: rest ∧ (after before).holds.party room = [t] ∧
    t ∉ (after before).inside ∧ .lineUp room ∉ rest

theorem after_concat (es : List Event) (e : Event) : after (es ++ [e]) = (after es).step e :=
  List.foldl_append ..

end Lobby

end Lodging
