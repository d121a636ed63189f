import Lodging.Proofs.Exact
import Lodging.Proofs.House
import Lodging.Proofs.Keeper.Alone
import Lodging.World.Sample

/-!
What an order to the keeper leaves alone. An order for a lock that is met adds this lock and counts
it for its room, one for a release that succeeds takes away one lock and its count, and all other
outcomes leave the inventory as it was. A release undoes the order for a lock before it.
-/

namespace Lodging

namespace Inventory

open Keeper (Placement Removal)

variable {v : Inventory} {n : NewLock} {l : Lock} {now : Instant} {room : RoomId} {uid : Uid}

/-- What an order for a lock may come to: one more lock, or nothing new. -/
inductive Places (now : Instant) (v : Inventory) (n : NewLock) :
    Except RoomFailure Placement → Inventory → Prop
  | placed (l : Lock) (hl : l = ⟨v.lastLock + 1, n.room, n.stay, n.uid, n.request, now⟩) :
    Places now v n (.ok (.locked l))
      (recount (· + 1) n.room { v with locks := v.locks ++ [l], lastLock := l.id })
  | kept {x : Except RoomFailure Placement} (h : ∀ l, x ≠ .ok (.locked l)) : Places now v n x v

/-- What an order to release a room may come to: one lock less, or nothing. -/
inductive Evicts (v : Inventory) (room : RoomId) (uid : Uid) :
    Except RoomFailure Removal → Inventory → Prop
  | removed (l : Lock) (hl : l ∈ v.locks) (huid : l.uid = uid) (hroom : l.room = room) :
    Evicts v room uid (.ok .released) (recount (· - 1) room { v with locks := v.locks.erase l })
  | kept {x : Except RoomFailure Removal} (h : x ≠ .ok .released) : Evicts v room uid x v

/-- An order for a lock is met if the room is there and the lock shares no key with another one. -/
theorem place_cases (v : Inventory) (now : Instant) (n : NewLock) :
    ((∃ r, v.room? n.room = some r) ∧ v.clash? n = none ∧
      v.place now n = (.ok (.locked (v.newLock now n)), v.withLock now n)) ∨
    ((∀ l, (v.place now n).1 ≠ .ok (.locked l)) ∧ (v.place now n).2 = v) := by
  unfold place
  cases hroom : v.room? n.room with
  | none => exact .inr ⟨fun _ => nofun, rfl⟩
  | some r =>
    cases hrequest : v.lockByRequest? n.request with
    | some l => exact .inr ⟨fun _ => nofun, rfl⟩
    | none =>
      simp only
      split
      next => exact .inr ⟨fun _ => nofun, rfl⟩
      next =>
        split
        next => exact .inr ⟨fun _ => nofun, rfl⟩
        next =>
          cases hclash : v.clash? n with
          | some key => exact .inr ⟨fun _ => nofun, rfl⟩
          | none => exact .inl ⟨⟨r, rfl⟩, rfl, rfl⟩

theorem withLock_of_not_raced (hraced : v.raced = false) : v.withLock now n =
    recount (· + 1) n.room
      { v with locks := v.locks ++ [v.newLock now n], lastLock := v.lastLock + 1 } := by
  simp only [withLock, recount, hraced]

theorem places_place (hraced : v.raced = false) :
    v.Places now n (v.place now n).1 (v.place now n).2 := by
  rcases v.place_cases now n with ⟨-, -, heq⟩ | ⟨hne, heq⟩
  · rw [heq]
    change v.Places now n _ (v.withLock now n)
    rw [withLock_of_not_raced hraced]
    exact .placed (v.newLock now n) rfl
  · rw [heq]
    exact .kept hne

/-- Another order with the request of a lock is shown this lock. -/
theorem Sound.place_of_request (hv : v.Sound) (hl : l ∈ v.locks) (h : l.request = n.request)
    {r : Room} (hr : v.room? n.room = some r) : v.place now n = (.ok (.alreadyLocked l), v) := by
  have hfind : v.lockByRequest? n.request = some l := h ▸ Rows.find?_of_mem hv.requests hl
  simp [place, hr, hfind]

/-- To take away the locks of an id is to take away one lock. -/
theorem Sound.filter_id (hv : v.Sound) (hl : l ∈ v.locks) :
    v.locks.filter (·.id ≠ l.id) = v.locks.erase l := by
  have hnodup : v.locks.Nodup := List.Nodup.of_map _ hv.ids
  rw [hnodup.erase_eq_filter]
  refine List.filter_congr fun m hm => ?_
  by_cases hid : m.id = l.id
  · simp [hv.eq_of_id hm hl hid]
  · have hne : m ≠ l := fun h => hid (congrArg Lock.id h)
    simp [hid, hne]

theorem Exact.evicts_evict (hv : v.Exact) :
    v.Evicts room uid (v.evict room uid).1 (v.evict room uid).2 := by
  unfold evict
  cases hroom : v.room? room with
  | none => exact .kept nofun
  | some r =>
    cases huid : v.lockByUid? uid with
    | none => exact .kept nofun
    | some l =>
      obtain ⟨hl, hu⟩ := lockByUid?_eq_some huid
      simp only
      by_cases hlr : l.room = room
      · rw [if_neg (not_not.mpr hlr), hv.withoutLock_eq hl, hv.toSound.filter_id hl, hlr]
        exact .removed l hl hu hlr
      · rw [if_pos hlr]
        exact .kept nofun

theorem eq_notFound_of_evict {f : RoomFailure} (h : (v.evict room uid).1 = .error f) :
    f = .notFound room := by
  unfold evict at h
  split at h
  · exact (Except.error.inj h).symm
  · split at h
    · cases h
    · split at h <;> cases h

theorem Sound.withLock_withoutLock_locks (hv : v.Sound) (now : Instant) (n : NewLock) :
    ((v.withLock now n).withoutLock (v.newLock now n)).locks = v.locks := by
  change (v.locks ++ [v.newLock now n]).filter (·.id ≠ (v.newLock now n).id) = v.locks
  have hold : ∀ l ∈ v.locks, decide (l.id ≠ (v.newLock now n).id) = true := by
    intro l hl
    have hle := hv.counted l hl
    have hid : (v.newLock now n).id = v.lastLock + 1 := rfl
    rw [decide_eq_true_eq, hid]
    omega
  rw [List.filter_append, List.filter_eq_self.mpr hold, List.filter_cons_of_neg (by simp),
    List.filter_nil, List.append_nil]

theorem Exact.withLock_withoutLock_rooms (hv : v.Exact) (now : Instant) (n : NewLock) :
    ((v.withLock now n).withoutLock (v.newLock now n)).rooms = v.rooms := by
  have hback : ∀ r ∈ v.rooms, ((fun r : Room => if r.id = n.room then
      { r with timesBooked := max (r.timesBooked - 1) 0 } else r) ∘ fun r =>
        if r.id = n.room then { r with timesBooked := r.timesBooked + 1 } else r) r = r := by
    intro r hr
    -- a count of locks is not negative, so the step down is the step up undone
    have hcount : 0 ≤ r.timesBooked := hv.counts r hr ▸ Int.natCast_nonneg _
    have hmax : max (r.timesBooked + 1 - 1) 0 = r.timesBooked := by omega
    by_cases hid : r.id = n.room
    · simp only [Function.comp_apply, if_pos hid, hmax]
    · simp only [Function.comp_apply, if_neg hid]
  change (v.rooms.map _).map _ = v.rooms
  rw [List.map_map]
  exact (List.map_congr_left hback).trans (List.map_id'' (fun _ => rfl) _)

/-- Nothing is left of a lock that is placed and then removed, but that its id is used up. -/
theorem Exact.evict_withLock (hv : v.Exact) (now : Instant) (hraced : v.raced = false) {r : Room}
    (hr : v.room? n.room = some r) (hclash : v.clash? n = none) :
    (v.withLock now n).evict n.room n.uid =
      (.ok .released, { v with lastLock := v.lastLock + 1 }) := by
  have hsound : (v.withLock now n).Sound := hv.toSound.withLock hclash
  have hnew := hsound.lockByUid?_of_mem (l := v.newLock now n) (by simp)
  have hwithout : (v.withLock now n).withoutLock (v.newLock now n) =
      { v with lastLock := v.lastLock + 1 } := by
    have hlocks := hv.toSound.withLock_withoutLock_locks now n
    have hrooms := hv.withLock_withoutLock_rooms now n
    cases v
    subst hraced
    exact Inventory.mk.injEq .. ▸ ⟨hrooms, hlocks, rfl, rfl, rfl⟩
  change (v.withLock now n).lockByUid? n.uid = _ at hnew
  simp only [evict, room?_withLock hr, hnew, hwithout]
  exact if_neg (not_not.mpr rfl)

end Inventory

namespace Keeper

/-- In a house in which no call is under way, an order for a lock and an order for a release do no
more than they say: the one adds the lock that was ordered and counts it for its room, the other
takes away the one lock of the uid with its count, and nothing else changes, least of all if they do
neither. An order with the request of a lock is shown this lock, whatever room there is that it asks
for, and a release right after an order for a lock that was met restores all locks and counts. -/
theorem orders_frame (now : Instant) (es : List (Event House.Call)) (n : NewLock) (room : RoomId)
    (uid : Uid) (hquiet : (House.after now es).Quiet)
    (hraced : (House.after now es).world.inventory.raced = false) :
    let w := (House.after now es).world
    (∃ x w', (confirm n).advance w = (.inl x, w') ∧
      w.inventory.Places w.now n x w'.inventory ∧
      (∀ l ∈ w.inventory.locks, l.request = n.request → (∃ r ∈ w.inventory.rooms, r.id = n.room) →
        x = .ok (.alreadyLocked l)) ∧
      ((∃ l, x = .ok (.locked l)) → ∃ w'', (release n.room n.uid).advance w' =
        (.inl (.ok .released), w'') ∧
          w''.inventory = { w.inventory with lastLock := w.inventory.lastLock + 1 })) ∧
    ∃ x w', (release room uid).advance w = (.inl x, w') ∧
      w.inventory.Evicts room uid x w'.inventory := by
  intro w
  have htidy := House.tidy_after now es hquiet
  have halone : w.Alone := ⟨htidy.undisturbed, htidy.sound, htidy.visitors⟩
  have hv : w.inventory.Exact := House.exact_after now es
  constructor
  · obtain ⟨w', hconfirm, halone', hv', -⟩ := advance_confirm n halone hraced
    refine ⟨_, w', hconfirm, ?_, fun l hl hrequest hroom => ?_, fun hlocked => ?_⟩
    · rw [hv']
      exact Inventory.places_place hraced
    · obtain ⟨r, hr⟩ : ∃ r, w.inventory.room? n.room = some r := by
        obtain ⟨r, hr, hid⟩ := hroom
        exact Option.isSome_iff_exists.mp (List.find?_isSome.mpr ⟨r, hr, decide_eq_true hid⟩)
      rw [hv.toSound.place_of_request hl hrequest hr]
    · -- the release finds the lock just placed, so only the number of the next lock is another
      rcases w.inventory.place_cases w.now n with ⟨⟨r, hr⟩, hclash, heq⟩ | ⟨hne, -⟩
      · obtain ⟨w'', hrelease, -, hv'', -⟩ := advance_release n.room n.uid halone'
        have hback := hv.evict_withLock w.now hraced hr hclash
        rw [hv', heq, hback] at hrelease hv''
        exact ⟨w'', hrelease, hv''⟩
      · obtain ⟨l, hl⟩ := hlocked
        exact absurd hl (hne l)
  · obtain ⟨w', hrelease, -, hv', -⟩ := advance_release room uid halone
    refine ⟨_, w', hrelease, ?_⟩
    rw [hv']
    exact hv.evicts_evict

/-- A room, and a lock on it. -/
def oneLocked : List (Event House.Call) :=
  [.start (.keeper (.addRoom Sample.room)), .advance 0, .advance 0,
    .start (.keeper (.confirm (Sample.order 1)))] ++ List.replicate 10 (.advance 1)

theorem orders_frame_one_locked :
    let w := (House.after Sample.newYear oneLocked).world
    w.inventory.locks ≠ [] ∧ ∃ x w', (release ⟨1⟩ (Sample.uid 1)).advance w = (.inl x, w') ∧
      w.inventory.Evicts ⟨1⟩ (Sample.uid 1) x w'.inventory :=
  ⟨by decide, (orders_frame Sample.newYear oneLocked (Sample.order 2) ⟨1⟩ (Sample.uid 1)
    (by decide) (by decide)).2⟩

end Keeper

end Lodging
