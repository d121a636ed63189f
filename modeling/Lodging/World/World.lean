import Lodging.Process
import Lodging.Timer
import Lodging.World.Mishap

/-!
The world in which processes run: the inventory, the holds on its rooms and the ledger, with what is
planned to go wrong and what has been counted. Time passes only while a process sleeps.
-/

namespace Lodging

/-- The attempts of the direct gateway. -/
structure Attempts where
  recommend : Nat
  confirm : Nat
  release : Nat
deriving DecidableEq

def Attempts.add (a : Attempts) : Operation → Attempts
  | .recommend => { a with recommend := a.recommend + 1 }
  | .confirm => { a with confirm := a.confirm + 1 }
  | .release => { a with release := a.release + 1 }

structure World where
  inventory : Inventory
  holds : Holds
  ledger : Ledger
  roomPlans : List Plan
  ledgerPlans : List Plan
  /-- How attempts of the direct gateway to lock a room are to fail. -/
  confirmFailure : Option CallFailure
  releaseFailure : Option CallFailure
  attempts : Attempts
  /-- What was counted, the latest first. -/
  events : List Meter
  elapsed : Nat
  now : Instant

namespace World

/-- The world at a time, before anything has happened. -/
def atTime (now : Instant) : World where
  inventory := .empty
  holds := .empty
  ledger := .empty
  roomPlans := []
  ledgerPlans := []
  confirmFailure := none
  releaseFailure := none
  attempts := ⟨0, 0, 0⟩
  events := []
  elapsed := 0
  now := now

def planned (w : World) : Operation → Option CallFailure
  | .recommend => none
  | .confirm => w.confirmFailure
  | .release => w.releaseFailure

/-- A call of the inventory, as things really stand. -/
def ask (w : World) (c : RoomCall) : c.Answer × World :=
  let (a, v) := w.inventory.answer w.now c
  (a, { w with inventory := v })

/-- A call of the inventory, which may go wrong. -/
def callRooms (w : World) (c : RoomCall) : c.Answer × World :=
  match c.kind? with
  | none => w.ask c
  | some kind =>
    match Plan.meet kind none w.roomPlans with
    | (none, plans) => { w with roomPlans := plans }.ask c
    | (some m, plans) => (c.spoiled m, { w with roomPlans := plans })

/-- A call of the ledger, which may go wrong. -/
def callLedger (w : World) (c : LedgerCall) : c.Answer × World :=
  match Plan.meet c.kind c.target? w.ledgerPlans with
  | (none, plans) =>
    let (a, l) := w.ledger.answer w.now c
    (a, { w with ledger := l, ledgerPlans := plans })
  | (some m, plans) =>
    let (a, l) := w.ledger.spoiled w.now m c
    (a, { w with ledger := l, ledgerPlans := plans })

def perform (w : World) : (x : Action) → x.Answer × World
  | .rooms c => w.callRooms c
  | .ledger c => w.callLedger c
  | .leave t => ((), { w with holds := w.holds.leave t })
  | .meter m => ((), { w with events := m :: w.events })
  | .readings => (Meter.tally w.events, w)
  | .attempt o => ((), { w with attempts := w.attempts.add o })
  | .planned o => (w.planned o, w)
  | .sleep n => ((), { w with elapsed := w.elapsed + Timer.wait n })

end World

/-- A process that lines up for a room. -/
structure Waiting (α : Type) where
  ticket : Ticket
  next : Ticket → Process α

namespace Process

variable {α : Type}

/-- Runs a process until it is done or has to wait. -/
def advance : Process α → World → (α ⊕ Waiting α) × World
  | done a, w => (.inl a, w)
  | act x next, w =>
    let (r, w') := w.perform x
    (next r).advance w'
  | enter room next, w =>
    let (t, h) := w.holds.request room
    let w' := { w with holds := h }
    if h.granted t then (next t).advance w' else (.inr ⟨t, next⟩, w')

end Process

/-- Runs a process on that has been waiting, if it has got the room. -/
def Waiting.resume (p : Waiting α) (w : World) : (α ⊕ Waiting α) × World :=
  if w.holds.granted p.ticket then (p.next p.ticket).advance w else (.inr p, w)

end Lodging
