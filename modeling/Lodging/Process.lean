import Lodging.Bookings.Ledger
import Lodging.Meter
import Lodging.Rooms.Holds
import Lodging.Rooms.Inventory

/-!
What the services do, as processes: sequences of atomic actions, each of which may depend on the
answers to those before. A process waits only where it enters a room. Several processes can so be
run one after the other, or with their actions in any order.
-/

namespace Lodging

/-- One atomic action. -/
inductive Action where
  | rooms (call : RoomCall)
  | ledger (call : LedgerCall)
  /-- Lets go of a room. -/
  | leave (ticket : Ticket)
  | meter (event : Meter)
  /-- Reads all meters. -/
  | readings
  /-- Counts an attempt of the client that works within the process. -/
  | attempt (operation : Operation)
  /-- Asks for the failure that is planned for all such attempts. -/
  | planned (operation : Operation)
  | sleep (milliseconds : Nat)

abbrev Action.Answer : Action → Type
  | rooms call => call.Answer
  | ledger call => call.Answer
  | readings => List (String × Nat)
  | planned _ => Option CallFailure
  | _ => Unit

inductive Process (α : Type) : Type where
  | done (a : α)
  | act (action : Action) (next : action.Answer → Process α)
  /-- Lines up for a room, and goes on once it has it. -/
  | enter (room : RoomId) (next : Ticket → Process α)

namespace Process

variable {α β γ : Type}

def bind (p : Process α) (f : α → Process β) : Process β :=
  match p with
  | done a => f a
  | act x next => act x fun r => (next r).bind f
  | enter room next => enter room fun t => (next t).bind f

instance : Monad Process where
  pure := done
  bind := bind

theorem bind_assoc (p : Process α) (f : α → Process β) (g : β → Process γ) :
    (p.bind f).bind g = p.bind fun a => (f a).bind g := by
  induction p with
  | done a => rfl
  | act x next ih => simp [bind, ih]
  | enter room next ih => simp [bind, ih]

theorem bind_done (p : Process α) : p.bind done = p := by
  induction p with
  | done a => rfl
  | act x next ih => simp [bind, ih]
  | enter room next ih => simp [bind, ih]

instance : LawfulMonad Process :=
  LawfulMonad.mk' Process (fun p => p.bind_done) (fun _ _ => rfl) bind_assoc

def rooms (call : RoomCall) : Process call.Answer := act (.rooms call) done

def ledger (call : LedgerCall) : Process call.Answer := act (.ledger call) done

def meter (event : Meter) : Process Unit := act (.meter event) done

def readings : Process (List (String × Nat)) := act .readings done

def attempt (o : Operation) : Process Unit := act (.attempt o) done

def planned (o : Operation) : Process (Option CallFailure) := act (.planned o) done

def sleep (milliseconds : Nat) : Process Unit := act (.sleep milliseconds) done

/-- Does something while holding a room. -/
def within (room : RoomId) (body : Process α) : Process α :=
  enter room fun t => body.bind fun a => act (.leave t) fun _ => done a

/-- Does something and counts it. -/
def metered (p : Process α) (event : α → Meter) : Process α := do
  let a ← p
  meter (event a)
  return a

end Process

end Lodging
