import Lodging.Identity

/-!
Exclusive holds on rooms. Whoever works on a room waits at a gate of that room, and those at one
gate pass it one at a time, in the order of their arrival. The table keeps a slot with a gate for
a room while someone holds it or waits for it. The last one at a gate takes the slot away when
leaving; one who gives up waiting never does.
-/

namespace Lodging

/-- A place at a gate. -/
structure Ticket where
  number : Nat
deriving DecidableEq

structure Gate where
  number : Nat
deriving DecidableEq

/-- Someone at a gate. -/
structure Visitor where
  ticket : Ticket
  room : RoomId
  gate : Gate
deriving DecidableEq

structure Holds where
  /-- The gate at which newcomers for a room line up. -/
  slots : List (RoomId × Gate)
  /-- All who hold or wait, by arrival. -/
  visitors : List Visitor
  nextTicket : Nat
  nextGate : Nat

namespace Holds

def empty : Holds := ⟨[], [], 0, 0⟩

/-- The number of rooms in the table. -/
def tracked (h : Holds) : Nat := h.slots.length

def gate? (h : Holds) (room : RoomId) : Option Gate := h.slots.lookup room

def visitor? (h : Holds) (t : Ticket) : Option Visitor := h.visitors.find? (·.ticket = t)

/-- Those at a gate, the first of whom has passed it. -/
def queue (h : Holds) (g : Gate) : List Visitor := h.visitors.filter (·.gate = g)

/-- The ticket's owner has the room. -/
def granted (h : Holds) (t : Ticket) : Bool :=
  match h.visitor? t with
  | some v => (h.queue v.gate).head? = some v
  | none => false

/-- Lines up for a room, at a new gate if the room has none. -/
def request (h : Holds) (room : RoomId) : Ticket × Holds :=
  let t : Ticket := ⟨h.nextTicket⟩
  match h.gate? room with
  | some g =>
    (t, { h with visitors := h.visitors ++ [⟨t, room, g⟩], nextTicket := h.nextTicket + 1 })
  | none =>
    let g : Gate := ⟨h.nextGate⟩
    (t, ⟨(room, g) :: h.slots, h.visitors ++ [⟨t, room, g⟩], h.nextTicket + 1, h.nextGate + 1⟩)

/-- Gives up a place. -/
def withdraw (h : Holds) (t : Ticket) : Holds :=
  { h with visitors := h.visitors.filter (·.ticket ≠ t) }

/-- How many know a gate: all who are at it, and the table if a slot leads there. -/
def references (h : Holds) (g : Gate) : Nat :=
  (h.queue g).length + (h.slots.filter (·.2 = g)).length

/-- Lets go of a room. The slot goes too if nobody but the table still knows the gate. -/
def leave (h : Holds) (t : Ticket) : Holds :=
  match h.visitor? t with
  | none => h
  | some v =>
    { h.withdraw t with
      slots := if h.references v.gate = 2 then h.slots.filter (·.1 ≠ v.room) else h.slots }

end Holds

end Lodging
