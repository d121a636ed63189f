import Lodging.Rooms.Room

/-!
The inventory: all rooms, and all locks in the order in which they were placed. It hands out ids in
ascending order and keeps booking uids and request ids of locks distinct.
-/

namespace Lodging

structure Inventory where
  /-- By ascending id. -/
  rooms : List Room
  /-- By ascending id. -/
  locks : List Lock
  lastRoom : Int
  lastLock : Int
  /-- The next lock placed is reported as a duplicate, as if someone else had placed it first. -/
  raced : Bool

namespace Inventory

def empty : Inventory := ⟨[], [], 0, 0, false⟩

def room? (v : Inventory) (id : RoomId) : Option Room := v.rooms.find? (·.id = id)

def operational (v : Inventory) : List Room := v.rooms.filter (·.operational)

def lockByRequest? (v : Inventory) (r : RequestId) : Option Lock := v.locks.find? (·.request = r)

def lockByUid? (v : Inventory) (u : Uid) : Option Lock := v.locks.find? (·.uid = u)

/-- The locks that keep a room for some night of a stay. -/
def overlapping (v : Inventory) (room : RoomId) (stay : Stay) : List Lock :=
  v.locks.filter fun l => l.room = room && l.stay.overlaps stay

/-- The locks of a room by arrival, and of one arrival in the order they were placed. -/
def locksOf (v : Inventory) (room : RoomId) : List Lock :=
  (v.locks.filter (·.room = room)).mergeSort fun a b => a.stay.arrival ≤ b.stay.arrival

/-- The key that a new lock shares with one that is held. -/
def clash? (v : Inventory) (n : NewLock) : Option LockKey :=
  if v.locks.any (·.uid = n.uid) then some .uid
  else if v.locks.any (·.request = n.request) then some .request
  else none

def insertRoom (v : Inventory) (n : NewRoom) : Room × Inventory :=
  let r : Room := ⟨⟨v.lastRoom + 1⟩, n.hotel, n.number, n.operational, 0⟩
  (r, { v with rooms := v.rooms ++ [r], lastRoom := v.lastRoom + 1 })

/-- Changes the count of locks of one room. -/
def recount (f : Int → Int) (id : RoomId) (v : Inventory) : Inventory :=
  { v with
    rooms := v.rooms.map fun r => if r.id = id then { r with timesBooked := f r.timesBooked } else r }

/-- Places a lock, which counts as one more for its room. -/
def insertLock (now : Instant) (v : Inventory) (n : NewLock) :
    Except RoomFailure Lock × Inventory :=
  match v.room? n.room with
  | none => (.error (.notFound n.room), v)
  | some _ =>
    match v.clash? n with
    | some key => (.error (.duplicate key.constraint), v)
    | none =>
      let l : Lock := ⟨v.lastLock + 1, n.room, n.stay, n.uid, n.request, now⟩
      let placed :=
        recount (· + 1) n.room { v with locks := v.locks ++ [l], lastLock := v.lastLock + 1 }
      if v.raced then
        (.error (.duplicate LockKey.request.constraint), { placed with raced := false })
      else (.ok l, placed)

/-- Removes the lock of an id, if it is held; the room that is named counts one lock less, but not
less than none. -/
def deleteLock (v : Inventory) (id : Int) (room : RoomId) : Bool × Inventory :=
  if v.locks.any (·.id = id) then
    (true, recount (fun n => max (n - 1) 0) room { v with locks := v.locks.filter (·.id ≠ id) })
  else (false, v)

end Inventory

/-- What can be asked of the inventory in one atomic step. -/
inductive RoomCall where
  | insertRoom (room : NewRoom)
  | getRoom (id : RoomId)
  | operationalRooms
  | roomCount
  | lockByRequest (request : RequestId)
  | lockByUid (uid : Uid)
  | overlapping (room : RoomId) (stay : Stay)
  | locksOf (room : RoomId)
  | insertLock (lock : NewLock)
  | deleteLock (id : Int) (room : RoomId)

/-- What the inventory answers if it does not fail. -/
abbrev RoomCall.Value : RoomCall → Type
  | insertRoom _ => Room
  | getRoom _ => Option Room
  | operationalRooms => List Room
  | roomCount => Nat
  | lockByRequest _ | lockByUid _ => Option Lock
  | overlapping .. | locksOf _ => List Lock
  | insertLock _ => Lock
  | deleteLock .. => Bool

abbrev RoomCall.Answer (c : RoomCall) : Type := Except RoomFailure c.Value

def Inventory.answer (now : Instant) (v : Inventory) : (c : RoomCall) → c.Answer × Inventory
  | .insertRoom n => let (r, v') := v.insertRoom n; (.ok r, v')
  | .getRoom id => (.ok (v.room? id), v)
  | .operationalRooms => (.ok v.operational, v)
  | .roomCount => (.ok v.rooms.length, v)
  | .lockByRequest r => (.ok (v.lockByRequest? r), v)
  | .lockByUid u => (.ok (v.lockByUid? u), v)
  | .overlapping room stay => (.ok (v.overlapping room stay), v)
  | .locksOf room => (.ok (v.locksOf room), v)
  | .insertLock n => v.insertLock now n
  | .deleteLock id room => let (b, v') := v.deleteLock id room; (.ok b, v')

end Lodging
