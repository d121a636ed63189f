import Lodging.World.Work
import Lodging.World.World

/-!
A bench on which a world is worked step by step. An errand may be started without waiting for its
end; what is unfinished is gone on with after every step, in the order in which it was started,
round after round until a round brings nothing to its end.
-/

namespace Lodging

/-- What happens at once, whatever is planned to go wrong. -/
inductive Command where
  /-- The next lock is placed as if someone else had done so. -/
  | race
  | insertPending (user : UserId) (room : RoomId) (dates : Dates) (uid : Uid)
  | failConfirm (f : Option CallFailure)
  | failRelease (f : Option CallFailure)
  | planRooms (p : Plan)
  | planLedger (p : Plan)
  | letGo (name : String)

inductive Errand where
  | work (w : Work)
  | command (c : Command)

/-- What is left of an errand that was started: all of it, or what comes after a wait. -/
inductive Rest where
  | whole (t : Errand)
  | waiting (p : Waiting Outcome)

structure Pending where
  name : String
  rest : Rest

inductive Step where
  | errand (t : Errand)
  | start (name : String) (t : Errand)
  /-- Drops the unfinished errands of a name, after a hold if one is named. -/
  | abandon (name : String) (hold : Option String)

structure Bench where
  site : Site
  /-- The identifiers from this number on are nobody's. -/
  free : Nat
  world : World
  pending : List Pending
  /-- Rooms held under names. -/
  held : List (String × Ticket)
  /-- The occasions used so far, the latest first. -/
  issued : List Occasion

/-- What comes of a step: its outcome, if it has one, and what it brought to an end. -/
structure Report where
  outcome : Option Outcome
  finished : List (String × Outcome)

namespace Bench

def ofSite (site : Site) (now : Instant) (free : Nat) : Bench := ⟨site, free, .atTime now, [], [], []⟩

/-- Identifiers that nobody has used. -/
def occasion (b : Bench) : Occasion :=
  let n := b.free + 2 * b.issued.length
  ⟨b.world.now, .ofNat n, ⟨(Uid.ofNat (n + 1)).text⟩⟩

def leave (b : Bench) (t : Ticket) : Bench :=
  { b with world := { b.world with holds := b.world.holds.leave t } }

/-- Lets go of the room held under a name. -/
def letGo (b : Bench) (name : String) : Bool × Bench :=
  match b.held.lookup name with
  | some t => (true, { b.leave t with held := b.held.filter (·.1 ≠ name) })
  | none => (false, b)

/-- Takes note of a hold that has come about, in the place of another of its name. -/
def settle (b : Bench) : Outcome → Outcome × Bench
  | .ok (.held name t) =>
    let (used, b') := b.letGo name
    (.ok (.flag used), { b' with held := (name, t) :: b'.held })
  | o => (o, b)

/-- The outcome of work that has run as far as it can, or the work that still waits. -/
def conclude (b : Bench) : (Outcome ⊕ Waiting Outcome) × World → (Outcome ⊕ Waiting Outcome) × Bench
  | (.inl o, w) => let (o', b') := { b with world := w }.settle o; (.inl o', b')
  | (.inr p, w) => (.inr p, { b with world := w })

def run (b : Bench) (w : Work) : (Outcome ⊕ Waiting Outcome) × Bench :=
  let o := b.occasion
  { b with issued := o :: b.issued }.conclude ((w.process b.site o).advance b.world)

def setWorld (b : Bench) (w : World) : Bench := { b with world := w }

def obey (b : Bench) : Command → Outcome × Bench
  | .race =>
    let w := b.world
    (.ok .nothing, b.setWorld { w with inventory := { w.inventory with raced := true } })
  | .insertPending user room d uid =>
    match Stay.ofDates d.arrival d.departure with
    | .ok stay =>
      let (c, l) := b.world.ledger.insertPending b.world.now ⟨uid, user, room, stay⟩
      (.ok (.booking (some c)), b.setWorld { b.world with ledger := l })
    | .error _ => (.error (.booking .datesReversed), b)
  | .failConfirm f => (.ok .nothing, b.setWorld { b.world with confirmFailure := f })
  | .failRelease f => (.ok .nothing, b.setWorld { b.world with releaseFailure := f })
  | .planRooms p =>
    (.ok .nothing, b.setWorld { b.world with roomPlans := b.world.roomPlans ++ [p] })
  | .planLedger p =>
    (.ok .nothing, b.setWorld { b.world with ledgerPlans := b.world.ledgerPlans ++ [p] })
  | .letGo name => let (found, b) := b.letGo name; (.ok (.flag found), b)

def perform (b : Bench) : Errand → (Outcome ⊕ Waiting Outcome) × Bench
  | .work w => b.run w
  | .command c => let (o, b) := b.obey c; (.inl o, b)

/-- Goes on with an errand as far as it can. -/
def goOn (b : Bench) : Rest → (Outcome ⊕ Waiting Outcome) × Bench
  | .whole t => b.perform t
  | .waiting p => b.conclude (p.resume b.world)

/-- Goes on with errands one after the other; what comes to its end, and what does not. -/
def round (b : Bench) : List Pending → List (String × Outcome) × List Pending × Bench
  | [] => ([], [], b)
  | p :: rest =>
    let (r, b) := b.goOn p.rest
    let (done, left, b) := b.round rest
    match r with
    | .inl o => ((p.name, o) :: done, left, b)
    | .inr w => (done, ⟨p.name, .waiting w⟩ :: left, b)

/-- Rounds, at most as many as there are errands. -/
def rounds (b : Bench) : Nat → List (String × Outcome) × Bench
  | 0 => ([], b)
  | n + 1 =>
    let (done, left, b) := b.round b.pending
    let b := { b with pending := left }
    match done with
    | [] => ([], b)
    | _ :: _ => let (more, b) := b.rounds n; (done ++ more, b)

/-- Leaves the line that an errand waits in. -/
def withdraw (h : Holds) : Rest → Holds
  | .whole _ => h
  | .waiting p => h.withdraw p.ticket

/-- Drops the unfinished errands of a name. -/
def drop (b : Bench) (name : String) : Nat × Bench :=
  let dropped := b.pending.filter (·.name = name)
  let holds := dropped.foldl (fun h p => withdraw h p.rest) b.world.holds
  (dropped.length,
    { b with pending := b.pending.filter (·.name ≠ name), world := { b.world with holds := holds } })

/-- A step without what it makes possible for others. An errand that cannot be finished is dropped,
unless it is started under a name. -/
def act (b : Bench) : Step → Option Outcome × Bench
  | .errand t =>
    match b.perform t with
    | (.inl o, b) => (some o, b)
    | (.inr p, b) =>
      (none, b.setWorld { b.world with holds := b.world.holds.withdraw p.ticket })
  | .start name t => (none, { b with pending := b.pending ++ [⟨name, .whole t⟩] })
  | .abandon name hold =>
    let b := match hold with
      | some h => (b.letGo h).2
      | none => b
    let (n, b) := b.drop name
    (some (.ok (.count n)), b)

def step (b : Bench) (s : Step) : Report × Bench :=
  let (o, b) := b.act s
  let (done, b) := b.rounds b.pending.length
  (⟨o, done⟩, b)

end Bench

end Lodging
