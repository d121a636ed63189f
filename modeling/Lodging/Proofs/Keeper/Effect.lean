import Lodging.Proofs.Keeper.Alone
import Lodging.Proofs.Keeper.Overlap

/-!
When orders to the keeper take effect. Each does so by one of its actions: the look that turns it
down or finds nothing to do, or the change that it makes. At that moment the whole order, carried
out at once, would come to the same. Only the times at which locks were placed may differ, and so
they are set aside.
-/

namespace Lodging

/-- The lock as if it had been placed at another time. -/
def Lock.dated (t : Instant) (l : Lock) : Lock := { l with createdAt := t }

/-- The inventory as if all locks had been placed at one time. -/
def Inventory.dated (t : Instant) (v : Inventory) : Inventory :=
  { v with locks := v.locks.map (Lock.dated t) }

def Keeper.Placement.dated (t : Instant) : Placement → Placement
  | locked l => locked (l.dated t)
  | alreadyLocked l => alreadyLocked (l.dated t)

def Keeper.Reply.dated (t : Instant) : Reply → Reply
  | placement r => placement (r.map (Placement.dated t))
  | r => r

namespace Inventory

open Keeper (Placement Call)

variable {now t : Instant} {v : Inventory} {n : NewLock}

theorem dated_lockByRequest? (r : RequestId) :
    (v.dated t).lockByRequest? r = (v.lockByRequest? r).map (Lock.dated t) :=
  List.find?_map ..

theorem dated_lockByUid? (u : Uid) :
    (v.dated t).lockByUid? u = (v.lockByUid? u).map (Lock.dated t) :=
  List.find?_map ..

theorem dated_overlapping (room : RoomId) (stay : Stay) :
    (v.dated t).overlapping room stay = (v.overlapping room stay).map (Lock.dated t) :=
  List.filter_map ..

theorem dated_clash? : (v.dated t).clash? n = v.clash? n := by
  simp only [clash?, dated, List.any_map]
  rfl

theorem dated_withLock (now : Instant) : (v.dated t).withLock t n = (v.withLock now n).dated t := by
  simp only [withLock, recount, dated, List.map_append]
  rfl

theorem dated_withoutLock (l : Lock) :
    (v.dated t).withoutLock (l.dated t) = (v.withoutLock l).dated t := by
  simp only [withoutLock, recount, dated, List.filter_map]
  rfl

theorem place_dated (now : Instant) : (v.dated t).place t n =
    ((v.place now n).1.map (Placement.dated t), (v.place now n).2.dated t) := by
  unfold place
  rw [show (v.dated t).room? n.room = v.room? n.room from rfl, dated_lockByRequest?,
    dated_overlapping, dated_clash?]
  cases v.room? n.room with
  | none => rfl
  | some r =>
    cases v.lockByRequest? n.request with
    | some l => rfl
    | none =>
      cases ho : r.operational with
      | false => simp [ho, Except.map]
      | true =>
        cases hover : v.overlapping n.room n.stay with
        | cons l rest => simp [ho, Except.map]
        | nil =>
          cases hc : v.clash? n with
          | some key => simp [ho, Except.map]
          | none =>
            simp [ho, Except.map, dated_withLock now]
            rfl

theorem evict_dated (room : RoomId) (uid : Uid) :
    (v.dated t).evict room uid = ((v.evict room uid).1, (v.evict room uid).2.dated t) := by
  unfold evict
  rw [show (v.dated t).room? room = v.room? room from rfl, dated_lockByUid?]
  cases v.room? room with
  | none => rfl
  | some r =>
    cases v.lockByUid? uid with
    | none => rfl
    | some l =>
      by_cases hl : l.room = room
      · simp [Lock.dated, hl, ← dated_withoutLock]
      · simp [Lock.dated, hl]

/-- What a whole order comes to. -/
def serve (now : Instant) (v : Inventory) : Call → Option (Keeper.Reply × Inventory)
  | .confirm n => some (.placement (v.place now n).1, (v.place now n).2)
  | .release room uid => some (.removal (v.evict room uid).1, (v.evict room uid).2)
  | _ => none

theorem serve_dated (now : Instant) (c : Call) :
    (v.dated t).serve t c = (v.serve now c).map fun x => (x.1.dated t, x.2.dated t) := by
  cases c with
  | confirm n => simp [serve, place_dated now, Keeper.Reply.dated]
  | release room uid => simp [serve, evict_dated, Keeper.Reply.dated]
  | _ => rfl

end Inventory

namespace Keeper

variable {point : ℕ → Point} {v v' : Inventory} {i k : ℕ} {p p' : Point}

/-- What a call will answer, once that is settled. -/
def Point.reply? : Point → Option Reply
  | .refused _ c => some (.placement (.error (.duplicate c)))
  | .placed _ r => some (.placement r)
  | .removed _ _ r => some (.removal r)
  | _ => none

/-- What a call has found out and nobody else can change. -/
def Point.Knows (v : Inventory) : Point → Prop
  | .known n o => v.serves? n.room = some o
  | .unclaimed n | .free n => v.serves? n.room = some true ∧ v.lockByRequest? n.request = none
  | .refused n _ => v.lockByRequest? n.request = none
  | .checked room _ | .removing room _ _ => v.serves? room ≠ none
  | _ => True

/-- Orders for a lock of one request are for one room. -/
def Coherent (point : ℕ → Point) : Prop :=
  ∀ i k n m, (point i).call? = some (.confirm n) → (point k).call? = some (.confirm m) →
    n.request = m.request → n.room = m.room

theorem serves?_eq_some {room : RoomId} {r : Room} (h : v.room? room = some r) :
    v.serves? room = some r.operational := by
  simp [Inventory.serves?, h]

theorem exists_room_of_serves? {room : RoomId} {o : Bool} (h : v.serves? room = some o) :
    ∃ r, v.room? room = some r ∧ r.operational = o :=
  Option.map_eq_some_iff.mp h

theorem exists_room_of_ne_none {room : RoomId} (h : v.serves? room ≠ none) :
    ∃ r, v.room? room = some r :=
  Option.ne_none_iff_exists'.mp (mt Inventory.serves?_eq_none.mpr h)

/-- Whatever a call finds out it knows. -/
theorem Point.Knows.move (hk : p.Knows v) (hraced : v.raced = false) (h : Move p v p' v') :
    p'.Knows v' := by
  cases h with
  | room hr => exact serves?_eq_some hr
  | first hl => exact ⟨hk, hl⟩
  | free => exact hk
  | race now hr hc hrace =>
    rw [hraced] at hrace
    cases hrace
  | clash => exact hk.2
  | check hr => simp [Point.Knows, serves?_eq_some hr]
  | here => exact hk
  | _ => trivial

/-- What a call knows stays true if its rooms are in service as before, and no lock appears for its
request while it is in the room. -/
theorem Point.Knows.of_frame (hk : p.Knows v) (hserves : ∀ room, v'.serves? room = v.serves? room)
    (hreq : ∀ n, p.call? = some (.confirm n) → p.inside = some n.room →
      v.lockByRequest? n.request = none → v'.lockByRequest? n.request = none) : p.Knows v' := by
  cases p with
  | known n o => exact (hserves n.room).trans hk
  | unclaimed n => exact ⟨(hserves n.room).trans hk.1, hreq n rfl rfl hk.2⟩
  | free n => exact ⟨(hserves n.room).trans hk.1, hreq n rfl rfl hk.2⟩
  | refused n c => exact hreq n rfl rfl hk
  | checked room uid => exact fun h => hk ((hserves room).symm.trans h)
  | removing room uid l => exact fun h => hk ((hserves room).symm.trans h)
  | _ => trivial

/-- What a call knows stays true whatever other calls do. -/
theorem Point.Knows.move_of_ne {c : Call} (hk : (point k).Knows v) (hki : k ≠ i)
    (hex : script.Exclusive point) (hco : Coherent point) (hc : (point i).call? = some c)
    (h : Move (point i) v p v') :
    (point k).Knows v' := by
  rcases h.inventory_cases with rfl | ⟨n, hp, -, -⟩ | ⟨n, now, hp, -, -, rfl, -⟩ |
    ⟨room, uid, l, hp, -, rfl⟩
  · exact hk
  · rw [hp] at hc
    cases hc
  · refine hk.of_frame Inventory.serves?_withLock fun m hm hin hnone => ?_
    rw [Inventory.lockByRequest?_eq_none] at hnone ⊢
    intro l hl hlr
    rw [Inventory.withLock_locks] at hl
    rcases List.mem_append.mp hl with hl | hl
    · exact hnone l hl hlr
    · -- the new lock is of another request, as nobody else is in its room
      rw [List.mem_singleton.mp hl] at hlr
      have hroom : n.room = m.room := hco i k n m (by rw [hp]; rfl) hm hlr
      apply hex i k m.room hki.symm _ hin
      rw [hp, ← hroom]
      rfl
  · refine hk.of_frame Inventory.serves?_withoutLock fun m hm hin hnone => ?_
    rw [Inventory.lockByRequest?_eq_none] at hnone ⊢
    exact fun m hm => hnone m (Inventory.mem_withoutLock.mp hm).1

/-- An action leaves the inventory as it is and settles nothing, or it settles the call, which
would come to the same if it were carried out at this moment as a whole. -/
theorem Move.settles {c : Call} (t : Instant) (h : Move (point i) v p' v') (hv : Clear point v)
    (hraced : v.raced = false) (hk : (point i).Knows v) (hc : (point i).call? = some c) :
    v' = v ∧ p'.reply? = (point i).reply? ∨
      (point i).reply? = none ∧ ∃ now r, p'.reply? = some r ∧ v.serve now c = some (r, v') := by
  have hfree := hv.free i
  have hfound := hv.found i
  generalize point i = p at *
  cases h with
  | addRoom n => cases hc
  | enter | room | first | free | comeIn | check | here => exact .inl ⟨rfl, rfl⟩
  -- orders that are turned down, or find their lock in place
  | noRoom hr =>
    obtain rfl := Option.some.inj hc
    refine .inr ⟨rfl, t, _, rfl, ?_⟩
    simp [Inventory.serve, Inventory.place, hr]
  | @repeated n o _ l hl =>
    obtain rfl := Option.some.inj hc
    obtain ⟨r, hr, -⟩ := exists_room_of_serves? hk
    refine .inr ⟨rfl, t, _, rfl, ?_⟩
    simp [Inventory.serve, Inventory.place, hr, hl]
  | outOfService hl =>
    obtain rfl := Option.some.inj hc
    obtain ⟨r, hr, ho⟩ := exists_room_of_serves? hk
    refine .inr ⟨rfl, t, _, rfl, ?_⟩
    simp [Inventory.serve, Inventory.place, hr, hl, ho]
  | taken hover =>
    obtain rfl := Option.some.inj hc
    obtain ⟨r, hr, ho⟩ := exists_room_of_serves? hk.1
    refine .inr ⟨rfl, t, _, rfl, ?_⟩
    simp [Inventory.serve, Inventory.place, hr, hk.2, ho, hover]
  -- the stay is still free, as it was found to be
  | insert now hr hcl _ =>
    obtain rfl := Option.some.inj hc
    obtain ⟨r, hr, ho⟩ := exists_room_of_serves? hk.1
    refine .inr ⟨rfl, now, _, rfl, ?_⟩
    simp [Inventory.serve, Inventory.place, hr, hk.2, ho, hfree _ rfl, hcl]
  | race now hr hcl hrace =>
    rw [hraced] at hrace
    cases hrace
  | clash hr hcl =>
    obtain rfl := Option.some.inj hc
    obtain ⟨r, hr, ho⟩ := exists_room_of_serves? hk.1
    refine .inr ⟨rfl, t, _, rfl, ?_⟩
    simp [Inventory.serve, Inventory.place, hr, hk.2, ho, hfree _ rfl, hcl]
  -- rooms do not vanish, and no lock of the request can have appeared
  | vanished hr =>
    obtain ⟨r, hr', -⟩ := exists_room_of_serves? hk.1
    rw [hr] at hr'
    cases hr'
  | found hl =>
    rw [show _ = none from hk] at hl
    cases hl
  | lost => exact .inl ⟨rfl, rfl⟩
  -- orders to release a room
  | noSuchRoom hr =>
    obtain rfl := Option.some.inj hc
    refine .inr ⟨rfl, t, _, rfl, ?_⟩
    simp [Inventory.serve, Inventory.evict, hr]
  | nothing hl =>
    obtain rfl := Option.some.inj hc
    obtain ⟨r, hr⟩ := exists_room_of_ne_none hk
    refine .inr ⟨rfl, t, _, rfl, ?_⟩
    simp [Inventory.serve, Inventory.evict, hr, hl]
  | elsewhere hl hroom =>
    obtain rfl := Option.some.inj hc
    obtain ⟨r, hr⟩ := exists_room_of_ne_none hk
    refine .inr ⟨rfl, t, _, rfl, ?_⟩
    simp [Inventory.serve, Inventory.evict, hr, hl, hroom]
  | delete hm =>
    obtain rfl := Option.some.inj hc
    obtain ⟨r, hr⟩ := exists_room_of_ne_none hk
    obtain ⟨hl, rfl, rfl⟩ := hfound _ _ _ rfl
    refine .inr ⟨rfl, t, _, rfl, ?_⟩
    simp [Inventory.serve, Inventory.evict, hr, hv.sound.lockByUid?_of_mem hl]
  -- nobody else has removed the lock that was found
  | gone hm => exact absurd rfl (hm _ (hfound _ _ _ rfl).1)

end Keeper

end Lodging
