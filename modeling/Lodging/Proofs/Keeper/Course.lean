import Lodging.Proofs.Inventory
import Lodging.Proofs.Staging
import Lodging.World.Calls

/-!
The course of a call to the keeper of the rooms. A call that places a lock passes from point to
point: on its way into the room, in it, sure that its request has no lock yet, sure that no lock
overlaps. What the answers of the inventory let it do next are the moves, and nothing else ever
changes an inventory.
-/

namespace Lodging.Keeper

inductive Point where
  | rest
  | adding (n : NewRoom)
  | wants (n : NewLock)
  | entered (n : NewLock)
  | known (n : NewLock) (operational : Bool)
  /-- The request has no lock. -/
  | unclaimed (n : NewLock)
  /-- No lock overlaps. -/
  | free (n : NewLock)
  /-- The lock was reported as a duplicate. -/
  | refused (n : NewLock) (constraint : String)
  | placed (n : NewLock) (r : Except RoomFailure Placement)
  | wantsOut (room : RoomId) (uid : Uid)
  | cameIn (room : RoomId) (uid : Uid)
  | checked (room : RoomId) (uid : Uid)
  | removing (room : RoomId) (uid : Uid) (l : Lock)
  | removed (room : RoomId) (uid : Uid) (r : Except RoomFailure Removal)

/-- The room that a call must be in to be at a point. -/
def Point.inside : Point → Option RoomId
  | entered n | known n _ | unclaimed n | free n | refused n _ => some n.room
  | cameIn room _ | checked room _ | removing room _ _ => some room
  | rest | adding _ | wants _ | placed .. | wantsOut .. | removed .. => none

/-- The order that a call is about. -/
def Point.call? : Point → Option Call
  | .wants n | .entered n | .known n _ | .unclaimed n | .free n | .refused n _ | .placed n _ =>
    some (.confirm n)
  | .wantsOut room uid | .cameIn room uid | .checked room uid | .removing room uid _
  | .removed room uid _ => some (.release room uid)
  | .rest | .adding _ => none

inductive Move : Point → Inventory → Point → Inventory → Prop
  | addRoom (n : NewRoom) (v : Inventory) : Move (.adding n) v .rest (v.insertRoom n).2
  | enter (n : NewLock) (v : Inventory) : Move (.wants n) v (.entered n) v
  | noRoom {n : NewLock} {v : Inventory} (h : v.room? n.room = none) :
    Move (.entered n) v (.placed n (.error (.notFound n.room))) v
  | room {n : NewLock} {v : Inventory} {r : Room} (h : v.room? n.room = some r) :
    Move (.entered n) v (.known n r.operational) v
  | repeated {n : NewLock} {o : Bool} {v : Inventory} {l : Lock}
    (h : v.lockByRequest? n.request = some l) :
    Move (.known n o) v (.placed n (.ok (.alreadyLocked l))) v
  | outOfService {n : NewLock} {v : Inventory} (h : v.lockByRequest? n.request = none) :
    Move (.known n false) v (.placed n (.error (.notOperational n.room))) v
  | first {n : NewLock} {v : Inventory} (h : v.lockByRequest? n.request = none) :
    Move (.known n true) v (.unclaimed n) v
  | taken {n : NewLock} {v : Inventory} (h : v.overlapping n.room n.stay ≠ []) :
    Move (.unclaimed n) v (.placed n (.error (.unavailable n.room n.stay))) v
  | free {n : NewLock} {v : Inventory} (h : v.overlapping n.room n.stay = []) :
    Move (.unclaimed n) v (.free n) v
  | insert {n : NewLock} {v : Inventory} {r : Room} (now : Instant) (hr : v.room? n.room = some r)
    (h : v.clash? n = none) (hraced : v.raced = false) :
    Move (.free n) v (.placed n (.ok (.locked (v.newLock now n)))) (v.withLock now n)
  /-- The lock is placed, but reported as a duplicate. -/
  | race {n : NewLock} {v : Inventory} {r : Room} (now : Instant) (hr : v.room? n.room = some r)
    (h : v.clash? n = none) (hraced : v.raced = true) :
    Move (.free n) v (.refused n LockKey.request.constraint) (v.withLock now n)
  | clash {n : NewLock} {v : Inventory} {r : Room} {key : LockKey} (hr : v.room? n.room = some r)
    (h : v.clash? n = some key) : Move (.free n) v (.refused n key.constraint) v
  | vanished {n : NewLock} {v : Inventory} (h : v.room? n.room = none) :
    Move (.free n) v (.placed n (.error (.notFound n.room))) v
  | found {n : NewLock} {c : String} {v : Inventory} {l : Lock}
    (h : v.lockByRequest? n.request = some l) :
    Move (.refused n c) v (.placed n (.ok (.alreadyLocked l))) v
  | lost {n : NewLock} {c : String} {v : Inventory} (h : v.lockByRequest? n.request = none) :
    Move (.refused n c) v (.placed n (.error (.duplicate c))) v
  | comeIn (room : RoomId) (uid : Uid) (v : Inventory) :
    Move (.wantsOut room uid) v (.cameIn room uid) v
  | noSuchRoom {room : RoomId} {uid : Uid} {v : Inventory} (h : v.room? room = none) :
    Move (.cameIn room uid) v (.removed room uid (.error (.notFound room))) v
  | check {room : RoomId} {uid : Uid} {v : Inventory} {r : Room} (h : v.room? room = some r) :
    Move (.cameIn room uid) v (.checked room uid) v
  | nothing {room : RoomId} {uid : Uid} {v : Inventory} (h : v.lockByUid? uid = none) :
    Move (.checked room uid) v (.removed room uid (.ok .nothingToRelease)) v
  | elsewhere {room : RoomId} {uid : Uid} {v : Inventory} {l : Lock}
    (h : v.lockByUid? uid = some l) (hl : l.room ≠ room) :
    Move (.checked room uid) v (.removed room uid (.ok .nothingToRelease)) v
  | here {room : RoomId} {uid : Uid} {v : Inventory} {l : Lock} (h : v.lockByUid? uid = some l)
    (hl : l.room = room) : Move (.checked room uid) v (.removing room uid l) v
  | delete {room : RoomId} {uid : Uid} {v : Inventory} {l : Lock} (h : ∃ m ∈ v.locks, m.id = l.id) :
    Move (.removing room uid l) v (.removed room uid (.ok .released)) (v.withoutLock l)
  | gone {room : RoomId} {uid : Uid} {v : Inventory} {l : Lock} (h : ∀ m ∈ v.locks, m.id ≠ l.id) :
    Move (.removing room uid l) v (.removed room uid (.ok .nothingToRelease)) v

/-- The script that calls to the keeper follow. -/
def script : Script Point where
  Move p b p' b' := ∃ v, Move p b.inventory p' v ∧ b' = { b with inventory := v }
  inside := Point.inside
  rest := .rest
  inside_rest := rfl

theorem Move.call?_eq {p p' : Point} {v v' : Inventory} {c : Call} (h : Move p v p' v')
    (hc : p.call? = some c) :
    p'.call? = some c := by
  cases h <;> exact hc

/-- What a move does to the inventory. -/
theorem Move.inventory_cases {p p' : Point} {v v' : Inventory} (h : Move p v p' v') :
    v' = v ∨ (∃ n, p = .adding n ∧ p' = .rest ∧ v' = (v.insertRoom n).2) ∨
      (∃ n now, p = .free n ∧ v.room? n.room ≠ none ∧ v.clash? n = none ∧ v' = v.withLock now n ∧
        (p' = .placed n (.ok (.locked (v.newLock now n))) ∨
          v.raced = true ∧ p' = .refused n LockKey.request.constraint)) ∨
      ∃ room uid l, p = .removing room uid l ∧ p' = .removed room uid (.ok .released) ∧
        v' = v.withoutLock l := by
  cases h with
  | addRoom n => exact .inr (.inl ⟨n, rfl, rfl, rfl⟩)
  | insert now hr hc hraced =>
    have hne := Option.ne_none_iff_exists'.mpr ⟨_, hr⟩
    exact .inr (.inr (.inl ⟨_, now, rfl, hne, hc, rfl, .inl rfl⟩))
  | race now hr hc hraced =>
    have hne := Option.ne_none_iff_exists'.mpr ⟨_, hr⟩
    exact .inr (.inr (.inl ⟨_, now, rfl, hne, hc, rfl, .inr ⟨hraced, rfl⟩⟩))
  | delete hm => exact .inr (.inr (.inr ⟨_, _, _, rfl, rfl, rfl⟩))
  | _ => exact .inl rfl

theorem Move.sound {p p' : Point} {v v' : Inventory} (h : Move p v p' v') (hs : v.Sound) :
    v'.Sound := by
  rcases h.inventory_cases with rfl | ⟨n, -, -, rfl⟩ | ⟨n, now, -, -, hc, rfl, -⟩ |
    ⟨room, uid, l, -, -, rfl⟩
  · exact hs
  · exact ⟨hs.counted, hs.ids, hs.uids, hs.requests⟩
  · exact hs.withLock hc
  · exact hs.withoutLock l

theorem Move.raced {p p' : Point} {v v' : Inventory} (h : Move p v p' v') (hr : v.raced = false) :
    v'.raced = false := by
  rcases h.inventory_cases with rfl | ⟨n, -, -, rfl⟩ | ⟨n, now, -, -, -, rfl, -⟩ |
    ⟨room, uid, l, -, -, rfl⟩
  · exact hr
  · exact hr
  · rfl
  · exact hr

theorem Move.serves? {p p' : Point} {v v' : Inventory} {room : RoomId} (h : Move p v p' v')
    (hr : v.serves? room ≠ none) :
    v'.serves? room ≠ none := by
  rcases h.inventory_cases with rfl | ⟨n, -, -, rfl⟩ | ⟨n, now, -, -, -, rfl, -⟩ |
    ⟨room', uid, l, -, -, rfl⟩
  · exact hr
  · -- a new room comes after those that are there
    unfold Inventory.serves? Inventory.room? at *
    change Option.map _ (List.find? _ (v.rooms ++ _)) ≠ none
    rw [List.find?_append]
    cases hf : v.rooms.find? (·.id = room) with
    | none =>
      rw [hf] at hr
      exact absurd rfl hr
    | some r => nofun
  · rwa [Inventory.serves?_withLock]
  · rwa [Inventory.serves?_withoutLock]

variable {held : Script.Held} {p : Point} {β : Type}

theorem step_of_move {b : Stock} {p' : Point} (h : Move p b.inventory p' b.inventory) :
    script.Step p b p' b :=
  .inl ⟨b.inventory, h, rfl⟩

theorem runs_throw {f : RoomFailure} {Q : Except RoomFailure β → Point → Prop}
    (h : Q (.error f) p) : script.Runs held Q p (throw f : Task β).run :=
  Script.Runs.done h

theorem runs_return {a : β} {Q : Except RoomFailure β → Point → Prop} (h : Q (.ok a) p) :
    script.Runs held Q p (pure a : Task β).run :=
  Script.Runs.done h

/-- A look at the inventory, by which the call may get to another point. -/
theorem runs_look {Q : Except RoomFailure β → Point → Prop} {c : RoomCall}
    (look : Inventory → c.Value) (hlook : ∀ now v, Inventory.answer now v c = (.ok (look v), v))
    {f : c.Value → Task β}
    (h : ∀ b : Stock, ∃ p', script.Step p b p' b ∧ script.Stays p p' ∧
      script.Runs held Q p' (f (look b.inventory)).run) :
    script.Runs held Q p (ask c >>= f).run := by
  refine Script.Runs.rooms (f := fun r => ExceptT.bindCont f r) fun w => ?_
  obtain ⟨p', hs, hi, hn⟩ := h w.stock
  rw [hlook]
  exact ⟨p', hs, hi, hn⟩

/-- After the report of a duplicate the lock of the request is looked for. -/
theorem runs_refused {n : NewLock} {c : String} {f : Option Lock → Task Placement}
    (hnone : f none = throw (.duplicate c)) (hsome : ∀ l, f (some l) = pure (.alreadyLocked l)) :
    script.Runs held (fun r p => p = .placed n r) (.refused n c)
      (ask (.lockByRequest n.request) >>= f).run := by
  refine runs_look (fun v => v.lockByRequest? n.request) (fun _ _ => rfl) fun b => ?_
  cases hl : b.inventory.lockByRequest? n.request with
  | none =>
    rw [hnone]
    exact ⟨_, step_of_move (.lost hl), Script.stays_out rfl, runs_throw rfl⟩
  | some l =>
    rw [hsome]
    exact ⟨_, step_of_move (.found hl), Script.stays_out rfl, runs_return rfl⟩

/-- A new lock comes out as the point tells that the call gets to. -/
theorem runs_placeNew (n : NewLock) :
    script.Runs held (fun r p => p = .placed n r) (.free n) (placeNew n).run := by
  refine Script.Runs.rooms (c := .insertLock n) fun w => ?_
  cases hr : w.inventory.room? n.room with
  | none =>
    rw [show w.inventory.answer w.now (.insertLock n) = _ from
      Inventory.insertLock_of_room?_eq_none hr]
    exact ⟨_, step_of_move (b := w.stock) (.vanished hr), Script.stays_out rfl, runs_throw rfl⟩
  | some r =>
    cases hc : w.inventory.clash? n with
    | some key =>
      rw [show w.inventory.answer w.now (.insertLock n) = _ from
        Inventory.insertLock_of_clash? hr hc]
      refine ⟨_, step_of_move (b := w.stock) (.clash hr hc), .refl _, ?_⟩
      exact runs_refused rfl fun _ => rfl
    | none =>
      cases hraced : w.inventory.raced with
      | true =>
        rw [show w.inventory.answer w.now (.insertLock n) = _ from
          Inventory.insertLock_of_raced hr hc hraced]
        refine ⟨_, .inl ⟨_, .race w.now hr hc hraced, rfl⟩, .refl _, ?_⟩
        exact runs_refused rfl fun _ => rfl
      | false =>
        rw [show w.inventory.answer w.now (.insertLock n) = _ from
          Inventory.insertLock_of_not_raced hr hc hraced]
        exact ⟨_, .inl ⟨_, .insert w.now hr hc hraced, rfl⟩, Script.stays_out rfl, runs_return rfl⟩

theorem runs_getRoom {n : RoomId} {Q : Except RoomFailure β → Point → Prop} {f : Room → Task β}
    (h : ∀ b : Stock, ∃ p', script.Step p b p' b ∧ script.Stays p p' ∧
      match b.inventory.room? n with
      | some r => script.Runs held Q p' (f r).run
      | none => Q (.error (.notFound n)) p') :
    script.Runs held Q p (getRoom n >>= f).run := by
  refine Script.Runs.rooms (c := .getRoom n) fun w => ?_
  obtain ⟨p', hs, hi, hn⟩ := h w.stock
  refine ⟨p', hs, hi, ?_⟩
  change match w.inventory.room? n with | some r => _ | none => _ at hn
  have ha : w.inventory.answer w.now (.getRoom n) = (.ok (w.inventory.room? n), w.inventory) := rfl
  rw [ha]
  cases hr : w.inventory.room? n with
  | none =>
    rw [hr] at hn
    exact Script.Runs.done hn
  | some r =>
    rw [hr] at hn
    exact hn

theorem runs_place (n : NewLock) :
    script.Runs held (fun r p => p = .placed n r) (.entered n) (place n).run := by
  refine runs_getRoom fun b => ?_
  cases hr : b.inventory.room? n.room with
  | none => exact ⟨_, step_of_move (.noRoom hr), Script.stays_out rfl, rfl⟩
  | some r =>
    refine ⟨_, step_of_move (.room hr), .refl _, ?_⟩
    refine runs_look (fun v => v.lockByRequest? n.request) (fun _ _ => rfl) fun b => ?_
    cases hl : b.inventory.lockByRequest? n.request with
    | some l => exact ⟨_, step_of_move (.repeated hl), Script.stays_out rfl, runs_return rfl⟩
    | none =>
      cases ho : r.operational with
      | false => exact ⟨_, step_of_move (.outOfService hl), Script.stays_out rfl, runs_throw rfl⟩
      | true =>
        refine ⟨_, step_of_move (.first hl), .refl _, ?_⟩
        refine runs_look (fun v => v.overlapping n.room n.stay) (fun _ _ => rfl) fun b => ?_
        cases hover : b.inventory.overlapping n.room n.stay with
        | nil => exact ⟨_, step_of_move (.free hover), .refl _, runs_placeNew n⟩
        | cons l rest =>
          have hne : b.inventory.overlapping n.room n.stay ≠ [] := hover ▸ List.cons_ne_nil l rest
          exact ⟨_, step_of_move (.taken hne), Script.stays_out rfl, runs_throw rfl⟩

theorem runs_confirm (n : NewLock) :
    script.Runs [] (fun r p => p = .placed n r) (.wants n) (confirm n) := by
  refine Script.Runs.bind (Q := fun r p => p = .placed n r) ?_ ?_
  · refine Script.Runs.within (fun b => step_of_move (.enter n _)) rfl fun t => ?_
    exact (runs_place n).mono fun r p hp => ⟨hp ▸ rfl, hp⟩
  · rintro r p rfl
    exact Script.Runs.meter (.stay _ _) (.refl _) (Script.Runs.done rfl)

theorem runs_remove (room : RoomId) (uid : Uid) :
    script.Runs held (fun r p => p = .removed room uid r) (.cameIn room uid)
      (remove room uid).run := by
  refine runs_getRoom fun b => ?_
  cases hr : b.inventory.room? room with
  | none => exact ⟨_, step_of_move (.noSuchRoom hr), Script.stays_out rfl, rfl⟩
  | some r =>
    refine ⟨_, step_of_move (.check hr), .refl _, ?_⟩
    refine runs_look (fun v => v.lockByUid? uid) (fun _ _ => rfl) fun b => ?_
    cases hl : b.inventory.lockByUid? uid with
    | none => exact ⟨_, step_of_move (.nothing hl), Script.stays_out rfl, runs_return rfl⟩
    | some l =>
      by_cases hroom : l.room = room
      · refine ⟨_, step_of_move (.here hl hroom), .refl _, ?_⟩
        simp only [hroom, ne_eq, not_true_eq_false, if_false]
        refine Script.Runs.rooms (c := .deleteLock l.id l.room) fun w => ?_
        -- the lock may be gone by the time it is to be deleted
        by_cases hm : ∃ m ∈ w.inventory.locks, m.id = l.id
        · have ha : w.inventory.answer w.now (.deleteLock l.id l.room) =
              (.ok true, w.inventory.withoutLock l) := by
            simp only [Inventory.answer, Inventory.deleteLock_of_exists hm]
          rw [ha]
          refine ⟨_, .inl ⟨_, .delete hm, rfl⟩, Script.stays_out rfl, ?_⟩
          exact Script.Runs.meter (.stay _ _) (.refl _) (Script.Runs.done rfl)
        · have hm : ∀ m ∈ w.inventory.locks, m.id ≠ l.id := by simpa using hm
          have ha : w.inventory.answer w.now (.deleteLock l.id l.room) =
              (.ok false, w.inventory) := by
            simp only [Inventory.answer, Inventory.deleteLock_of_forall l.room hm]
          rw [ha]
          refine ⟨_, step_of_move (b := w.stock) (.gone hm), Script.stays_out rfl, ?_⟩
          exact Script.Runs.done rfl
      · refine ⟨_, step_of_move (.elsewhere hl hroom), Script.stays_out rfl, ?_⟩
        simp only [ne_eq, hroom, not_false_eq_true, if_true]
        exact runs_return rfl

theorem runs_release (room : RoomId) (uid : Uid) :
    script.Runs [] (fun r p => p = .removed room uid r) (.wantsOut room uid)
      (release room uid) := by
  refine Script.Runs.within (fun b => step_of_move (.comeIn room uid _)) rfl fun t => ?_
  exact (runs_remove room uid).mono fun r p hp => ⟨hp ▸ rfl, hp⟩

section Looking

variable {σ : Type} {S : Script σ} {s : σ}

theorem runs_glance {Q : Except RoomFailure β → σ → Prop} {c : RoomCall}
    (look : Inventory → c.Value) (hlook : ∀ now v, Inventory.answer now v c = (.ok (look v), v))
    {f : c.Value → Task β} (h : ∀ a, S.Runs held Q s (f a).run) :
    S.Runs held Q s (ask c >>= f).run := by
  refine Script.Runs.rooms (f := fun r => ExceptT.bindCont f r) fun w => ?_
  rw [hlook]
  exact ⟨s, .stay S s w.stock, .refl s, h _⟩

theorem runs_free (stay : Stay) (rooms : List Room) :
    S.Runs held (fun _ s' => s' = s) s (free stay rooms).run := by
  induction rooms with
  | nil => exact Script.Runs.done rfl
  | cons r rest ih =>
    refine runs_glance (fun v => v.overlapping r.id stay) (fun _ _ => rfl) fun a => ?_
    cases a with
    | nil =>
      refine Script.Runs.bind (Q := fun _ s' => s' = s) ih ?_
      rintro a _ rfl
      cases a with
      | ok a => exact Script.Runs.done rfl
      | error f => exact Script.Runs.done rfl
    | cons l locks => exact ih

theorem runs_available (stay : Stay) :
    S.Runs held (fun _ s' => s' = s) s (available stay).run := by
  refine runs_glance (fun v => v.operational) (fun _ _ => rfl) fun rooms => ?_
  refine Script.Runs.bind (Q := fun _ s' => s' = s) (runs_free stay rooms) ?_
  rintro a _ rfl
  cases a with
  | ok a => exact Script.Runs.done rfl
  | error f => exact Script.Runs.done rfl

theorem runs_recommend (stay : Stay) :
    S.Runs held (fun _ s' => s' = s) s (recommend stay).run := by
  refine Script.Runs.bind (Q := fun _ s' => s' = s) (runs_available stay) ?_
  rintro a _ rfl
  cases a with
  | ok a => exact Script.Runs.done rfl
  | error f => exact Script.Runs.done rfl

end Looking

/-- Where a call begins. -/
def Call.first : Call → Point
  | .addRoom n => .adding n
  | .confirm n => .wants n
  | .release room uid => .wantsOut room uid
  | .available _ | .recommend _ => .rest

/-- The point at which a call is that has come to its end. -/
def Call.Ends : Call → Reply → Point → Prop
  | .confirm n, r, p => ∃ a, r = .placement a ∧ p = .placed n a
  | .release room uid, r, p => ∃ a, r = .removal a ∧ p = .removed room uid a
  | _, _, _ => True

theorem Call.runs (c : Call) : script.Runs [] c.Ends c.first c.process := by
  cases c with
  | addRoom n =>
    refine Script.Runs.rooms (c := .insertRoom n) fun w => ?_
    exact ⟨.rest, .inl ⟨_, .addRoom n _, rfl⟩, Script.stays_out rfl, Script.Runs.done trivial⟩
  | confirm n =>
    apply Script.Runs.bind (runs_confirm n)
    rintro a p rfl
    exact Script.Runs.done ⟨a, rfl, rfl⟩
  | release room uid =>
    apply Script.Runs.bind (runs_release room uid)
    rintro a p rfl
    exact Script.Runs.done ⟨a, rfl, rfl⟩
  | available stay =>
    exact Script.Runs.bind (runs_available stay) fun a p _ => Script.Runs.done trivial
  | recommend stay =>
    exact Script.Runs.bind (runs_recommend stay) fun a p _ => Script.Runs.done trivial

theorem Call.inside_first (c : Call) : c.first.inside = none := by
  cases c <;> rfl

end Lodging.Keeper
