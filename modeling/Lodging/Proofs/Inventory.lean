import Lodging.Proofs.Rows
import Lodging.Rooms.Inventory
import Mathlib.Data.List.Pairwise

/-!
What becomes of an inventory when a lock is placed or removed. In a sound inventory the locks have
ids, booking uids and requests of their own, so a lock is known by any of the three.
-/

namespace Lodging

/-- Two locks are not of one room, or do not overlap. -/
def Lock.Apart (l m : Lock) : Prop := l.room = m.room → l.stay.overlaps m.stay = false

instance : Std.Symm Lock.Apart where
  symm l m h hroom := by
    rw [Stay.overlaps_comm]
    exact h hroom.symm

namespace Inventory

variable {v : Inventory} {n : NewLock} {l m : Lock} {now : Instant}

/-- No two locks have an id, a booking uid or a request in common, and ids are never used again. -/
structure Sound (v : Inventory) : Prop where
  counted : ∀ l ∈ v.locks, l.id ≤ v.lastLock
  ids : (v.locks.map (·.id)).Nodup
  uids : (v.locks.map (·.uid)).Nodup
  requests : (v.locks.map (·.request)).Nodup

theorem sound_empty : Sound .empty where
  counted _ hl := absurd hl List.not_mem_nil
  ids := List.nodup_nil
  uids := List.nodup_nil
  requests := List.nodup_nil

theorem Sound.eq_of_uid (hv : v.Sound) (hl : l ∈ v.locks) (hm : m ∈ v.locks) (h : l.uid = m.uid) :
    l = m :=
  Rows.eq_of_key hv.uids hl hm h

theorem Sound.eq_of_id (hv : v.Sound) (hl : l ∈ v.locks) (hm : m ∈ v.locks) (h : l.id = m.id) :
    l = m :=
  Rows.eq_of_key hv.ids hl hm h

/-- The lock of a uid is the only one. -/
theorem Sound.filter_uid (hv : v.Sound) (hl : l ∈ v.locks) :
    v.locks.filter (fun m => m.uid = l.uid) = [l] :=
  Rows.filter_key hv.uids hl

/-- There is a lock for a booking. -/
def HasLock (v : Inventory) (uid : Uid) : Prop := ∃ l ∈ v.locks, l.uid = uid

instance (v : Inventory) (uid : Uid) : Decidable (v.HasLock uid) :=
  inferInstanceAs (Decidable (∃ l ∈ v.locks, l.uid = uid))

theorem lockByRequest?_eq_some {r : RequestId} (h : v.lockByRequest? r = some l) :
    l ∈ v.locks ∧ l.request = r :=
  Rows.of_find?_eq_some h

theorem lockByUid?_eq_some {u : Uid} (h : v.lockByUid? u = some l) : l ∈ v.locks ∧ l.uid = u :=
  Rows.of_find?_eq_some h

theorem lockByRequest?_eq_none {r : RequestId} :
    v.lockByRequest? r = none ↔ ∀ l ∈ v.locks, l.request ≠ r := by
  simp [lockByRequest?]

theorem lockByUid?_eq_none {u : Uid} : v.lockByUid? u = none ↔ ∀ l ∈ v.locks, l.uid ≠ u := by
  simp [lockByUid?]

theorem Sound.lockByUid?_of_mem (hv : v.Sound) (hl : l ∈ v.locks) :
    v.lockByUid? l.uid = some l :=
  Rows.find?_of_mem hv.uids hl

theorem overlapping_eq_nil {room : RoomId} {stay : Stay} :
    v.overlapping room stay = [] ↔ ∀ l ∈ v.locks, l.room = room → l.stay.overlaps stay = false := by
  simp [overlapping]

theorem clash?_eq_none :
    v.clash? n = none ↔ ∀ l ∈ v.locks, l.uid ≠ n.uid ∧ l.request ≠ n.request := by
  unfold clash?
  constructor
  · intro h l hl
    split at h
    next => cases h
    next huid =>
      split at h
      next => cases h
      next hreq =>
        simp only [List.any_eq_true, decide_eq_true_eq, not_exists, not_and] at huid hreq
        exact ⟨huid l hl, hreq l hl⟩
  · intro h
    rw [if_neg, if_neg]
    · simp only [List.any_eq_true, decide_eq_true_eq, not_exists, not_and]
      exact fun l hl => (h l hl).2
    · simp only [List.any_eq_true, decide_eq_true_eq, not_exists, not_and]
      exact fun l hl => (h l hl).1

def newLock (now : Instant) (v : Inventory) (n : NewLock) : Lock :=
  ⟨v.lastLock + 1, n.room, n.stay, n.uid, n.request, now⟩

/-- The inventory with a lock placed, and no race to come. -/
def withLock (now : Instant) (v : Inventory) (n : NewLock) : Inventory :=
  { recount (· + 1) n.room
      { v with locks := v.locks ++ [v.newLock now n], lastLock := v.lastLock + 1 } with
    raced := false }

@[simp] theorem withLock_locks : (v.withLock now n).locks = v.locks ++ [v.newLock now n] := rfl

@[simp] theorem withLock_lastLock : (v.withLock now n).lastLock = v.lastLock + 1 := rfl

theorem insertLock_of_room?_eq_none (h : v.room? n.room = none) :
    v.insertLock now n = (.error (.notFound n.room), v) := by
  simp only [insertLock, h]

theorem insertLock_of_clash? {r : Room} {key : LockKey} (hr : v.room? n.room = some r)
    (h : v.clash? n = some key) : v.insertLock now n = (.error (.duplicate key.constraint), v) := by
  simp only [insertLock, hr, h]

theorem insertLock_of_raced {r : Room} (hr : v.room? n.room = some r) (h : v.clash? n = none)
    (hraced : v.raced = true) : v.insertLock now n =
      (.error (.duplicate LockKey.request.constraint), v.withLock now n) := by
  simp only [insertLock, hr, h, hraced, if_true]
  rfl

theorem insertLock_of_not_raced {r : Room} (hr : v.room? n.room = some r) (h : v.clash? n = none)
    (hraced : v.raced = false) :
    v.insertLock now n = (.ok (v.newLock now n), v.withLock now n) := by
  simp only [insertLock, hr, h, hraced]
  cases v
  subst hraced
  rfl

theorem insertLock_cases (v : Inventory) (now : Instant) (n : NewLock) :
    (v.insertLock now n).2 = v ∨ (∃ r, v.room? n.room = some r) ∧ v.clash? n = none ∧
      (v.insertLock now n).2 = v.withLock now n := by
  cases hr : v.room? n.room with
  | none =>
    rw [insertLock_of_room?_eq_none hr]
    exact .inl rfl
  | some r =>
    cases hc : v.clash? n with
    | some key =>
      rw [insertLock_of_clash? hr hc]
      exact .inl rfl
    | none =>
      refine .inr ⟨⟨r, rfl⟩, rfl, ?_⟩
      cases hraced : v.raced with
      | true => rw [insertLock_of_raced hr hc hraced]
      | false => rw [insertLock_of_not_raced hr hc hraced]

theorem Sound.withLock (hv : v.Sound) (hc : v.clash? n = none) : (v.withLock now n).Sound := by
  have hnew := clash?_eq_none.mp hc
  refine ⟨?_, ?_, ?_, ?_⟩
  · intro l hl
    rw [withLock_lastLock]
    rw [withLock_locks] at hl
    rcases List.mem_append.mp hl with hl | hl
    · have := hv.counted l hl
      omega
    · rw [List.mem_singleton.mp hl]
      exact Int.le_refl _
  · apply Rows.nodup_concat hv.ids
    intro l hl
    have hle := hv.counted l hl
    change l.id ≠ v.lastLock + 1
    omega
  · apply Rows.nodup_concat hv.uids
    exact fun l hl => (hnew l hl).1
  · apply Rows.nodup_concat hv.requests
    exact fun l hl => (hnew l hl).2

/-- The inventory with a lock removed. -/
def withoutLock (v : Inventory) (l : Lock) : Inventory :=
  recount (fun n => max (n - 1) 0) l.room { v with locks := v.locks.filter (·.id ≠ l.id) }

theorem deleteLock_of_exists (h : ∃ m ∈ v.locks, m.id = l.id) :
    v.deleteLock l.id l.room = (true, v.withoutLock l) := by
  have hany : v.locks.any (·.id = l.id) = true := by simpa using h
  simp only [deleteLock, hany, if_true]
  rfl

theorem deleteLock_of_forall {id : Int} (room : RoomId) (h : ∀ m ∈ v.locks, m.id ≠ id) :
    v.deleteLock id room = (false, v) := by
  have hany : v.locks.any (·.id = id) = false := by simpa using h
  simp [deleteLock, hany]

theorem mem_withoutLock : m ∈ (v.withoutLock l).locks ↔ m ∈ v.locks ∧ m.id ≠ l.id := by
  change m ∈ v.locks.filter (·.id ≠ l.id) ↔ _
  rw [List.mem_filter]
  simp

theorem withoutLock_sublist : List.Sublist (v.withoutLock l).locks v.locks := List.filter_sublist

theorem Sound.withoutLock (hv : v.Sound) (l : Lock) : (v.withoutLock l).Sound where
  counted m hm := hv.counted m (mem_withoutLock.mp hm).1
  ids := hv.ids.sublist (withoutLock_sublist.map _)
  uids := hv.uids.sublist (withoutLock_sublist.map _)
  requests := hv.requests.sublist (withoutLock_sublist.map _)

/-- A lock that is held was placed as it was ordered. -/
theorem mem_answer_locks {c : RoomCall} (h : l ∈ (v.answer now c).2.locks) : l ∈ v.locks ∨
    ∃ n, c = .insertLock n ∧ l.uid = n.uid ∧ l.room = n.room ∧ l.stay = n.stay := by
  cases c with
  | insertLock n =>
    change l ∈ (v.insertLock now n).2.locks at h
    rcases v.insertLock_cases now n with heq | ⟨-, -, heq⟩ <;> rw [heq] at h
    · exact .inl h
    · rw [withLock_locks] at h
      rcases List.mem_append.mp h with h | h
      · exact .inl h
      · rw [List.mem_singleton.mp h]
        exact .inr ⟨n, rfl, rfl, rfl, rfl⟩
  | deleteLock id room =>
    change l ∈ (v.deleteLock id room).2.locks at h
    unfold deleteLock at h
    split at h
    · exact .inl (List.mem_of_mem_filter h)
    · exact .inl h
  | _ => exact .inl h

/-- No two locks of one room overlap. -/
def Apart (v : Inventory) : Prop := v.locks.Pairwise Lock.Apart

theorem apart_empty : Apart .empty := List.Pairwise.nil

theorem Apart.withLock (hv : v.Apart) (h : v.overlapping n.room n.stay = []) :
    (v.withLock now n).Apart := by
  unfold Apart
  rw [withLock_locks, List.pairwise_append]
  refine ⟨hv, List.pairwise_singleton .., ?_⟩
  intro l hl m hm hroom
  rw [List.mem_singleton.mp hm] at hroom ⊢
  exact overlapping_eq_nil.mp h l hl hroom

theorem Apart.withoutLock (hv : v.Apart) (l : Lock) : (v.withoutLock l).Apart :=
  List.Pairwise.sublist withoutLock_sublist hv

/-- A room is there and in service, or there and not, whatever is counted for it. -/
def serves? (v : Inventory) (room : RoomId) : Option Bool := (v.room? room).map (·.operational)

/-- The rooms of all locks are there. -/
def Housed (v : Inventory) : Prop := ∀ l ∈ v.locks, v.serves? l.room ≠ none

theorem serves?_eq_none {room : RoomId} :
    v.serves? room = none ↔ v.room? room = none :=
  Option.map_eq_none_iff

theorem serves?_recount (f : Int → Int) (id room : RoomId) :
    (v.recount f id).serves? room = v.serves? room := by
  have hp : ((fun r : Room => decide (r.id = room)) ∘ fun r =>
      if r.id = id then { r with timesBooked := f r.timesBooked } else r) =
        fun r => decide (r.id = room) := by
    funext r
    simp only [Function.comp_apply]
    split <;> rfl
  have ho : ((·.operational) ∘ fun r : Room =>
      if r.id = id then { r with timesBooked := f r.timesBooked } else r) = (·.operational) := by
    funext r
    simp only [Function.comp_apply]
    split <;> rfl
  simp only [serves?, room?, recount, List.find?_map, hp, Option.map_map, ho]

@[simp] theorem serves?_withLock (room : RoomId) :
    (v.withLock now n).serves? room = v.serves? room :=
  serves?_recount
    (v := { v with locks := v.locks ++ [v.newLock now n], lastLock := v.lastLock + 1 })
    (· + 1) n.room room

/-- A room for which something is counted stays the same otherwise. -/
theorem room?_recount {f : Int → Int} {room : RoomId} {r : Room} (h : v.room? room = some r) :
    (v.recount f room).room? room = some { r with timesBooked := f r.timesBooked } := by
  have hid : r.id = room := (Rows.of_find?_eq_some h).2
  have hp : ((fun q : Room => decide (q.id = room)) ∘ fun q =>
      if q.id = room then { q with timesBooked := f q.timesBooked } else q) =
        fun q => decide (q.id = room) := by
    funext q
    simp only [Function.comp_apply]
    split <;> rfl
  unfold room? at h
  simp only [room?, recount, List.find?_map, hp, h, Option.map_some, if_pos hid]

theorem room?_withLock {r : Room} (h : v.room? n.room = some r) :
    (v.withLock now n).room? n.room = some { r with timesBooked := r.timesBooked + 1 } :=
  room?_recount (f := (· + 1))
    (v := { v with locks := v.locks ++ [v.newLock now n], lastLock := v.lastLock + 1 }) h

@[simp] theorem serves?_withoutLock (room : RoomId) :
    (v.withoutLock l).serves? room = v.serves? room :=
  serves?_recount _ _ _

end Inventory

end Lodging
