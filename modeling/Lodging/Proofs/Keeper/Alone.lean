import Lodging.Proofs.Holds
import Lodging.Proofs.Inventory
import Lodging.Proofs.Script
import Lodging.World.Calls

/-!
Calls to the keeper when nobody else is about. Such a call never waits, and what it comes to is a
function of the inventory.
-/

namespace Lodging

namespace World

variable {α : Type}

/-- Whole calls one after the other, with what each comes to. None if one of them has to wait. -/
def inTurn {κ : Type} (code : κ → Process α) : List κ → World → Option (List α × World)
  | [], w => some ([], w)
  | c :: rest, w =>
    match (code c).advance w with
    | (.inl a, w') => (inTurn code rest w').map fun x => (a :: x.1, x.2)
    | (.inr _, _) => none

/-- Nobody is in a room or waits for one, and nothing is planned to go wrong. -/
structure Alone (w : World) : Prop where
  undisturbed : w.Undisturbed
  sound : w.holds.Sound
  visitors : w.holds.visitors = []

theorem inTurn_concat {κ : Type} {code : κ → Process α} {cs : List κ} {c : κ} {w w' w'' : World}
    {as : List α} {a : α} (h : inTurn code cs w = some (as, w'))
    (hc : (code c).advance w' = (.inl a, w'')) :
    inTurn code (cs ++ [c]) w = some (as ++ [a], w'') := by
  induction cs generalizing w as with
  | nil =>
    obtain ⟨rfl, rfl⟩ := Prod.mk.inj (Option.some.inj h)
    simp [inTurn, hc]
  | cons d rest ih =>
    simp only [inTurn, List.cons_append] at h ⊢
    cases hd : (code d).advance w with
    | mk r u =>
      rw [hd] at h
      cases r with
      | inr p => cases h
      | inl b =>
        obtain ⟨⟨bs, u'⟩, hrest, hx⟩ := Option.map_eq_some_iff.mp h
        obtain ⟨rfl, rfl⟩ := Prod.mk.inj hx
        simp [ih hrest]

end World

namespace Process

variable {α β : Type} {w : World}

theorem advance_bind_of_done {p : Process α} {f : α → Process β} {a : α} {w' : World}
    (h : p.advance w = (.inl a, w')) : (p >>= f).advance w = (f a).advance w' := by
  change (p.bind f).advance w = _
  induction p generalizing w with
  | done b =>
    obtain ⟨hb, rfl⟩ := Prod.mk.inj h
    obtain rfl := Sum.inl.inj hb
    rfl
  | act x next ih => exact ih _ h
  | enter room next ih =>
    simp only [advance, bind] at h ⊢
    split at h
    next hg =>
      rw [if_pos hg]
      exact ih _ h
    next => cases (Prod.mk.inj h).1

/-- What a process that enters no room comes to, and what it makes of the inventory. -/
def Yields (now : Instant) (v : Inventory) (p : Process α) (a : α) (v' : Inventory) : Prop :=
  ∀ w : World, w.Undisturbed → w.inventory = v → w.now = now → ∃ w', p.advance w = (.inl a, w') ∧
    w'.Undisturbed ∧ w'.inventory = v' ∧ w'.now = now ∧ w'.holds = w.holds

variable {now : Instant} {v v' : Inventory} {a : α}

theorem Yields.done : Yields now v (.done a) a v := fun w hw hv hn => ⟨w, rfl, hw, hv, hn, rfl⟩

theorem Yields.rooms {c : RoomCall} {next : c.Answer → Process α}
    (h : Yields now (v.answer now c).2 (next (v.answer now c).1) a v') :
    Yields now v (.act (.rooms c) next) a v' := by
  rintro w hw rfl rfl
  obtain ⟨w', hp, hw', hv', hn', hh'⟩ := h { w with inventory := (w.inventory.answer w.now c).2 }
    hw rfl rfl
  refine ⟨w', ?_, hw', hv', hn', hh'⟩
  change (next (w.callRooms c).1).advance (w.callRooms c).2 = _
  rw [hw.callRooms]
  exact hp

theorem Yields.meter {m : Meter} {next : Unit → Process α} (h : Yields now v (next ()) a v') :
    Yields now v (.act (.meter m) next) a v' := by
  rintro w hw rfl rfl
  obtain ⟨w', hp, hrest⟩ := h { w with events := m :: w.events } hw rfl rfl
  exact ⟨w', hp, hrest⟩

theorem Yields.bind {p : Process α} {f : α → Process β} {u : Inventory} {b : β}
    (hp : Yields now v p a v') (hf : Yields now v' (f a) b u) : Yields now v (p >>= f) b u := by
  intro w hw hv hn
  obtain ⟨w', hp, hw', hv', hn', hh'⟩ := hp w hw hv hn
  obtain ⟨w'', hf, hw'', hu, hn'', hh''⟩ := hf w' hw' hv' hn'
  exact ⟨w'', (advance_bind_of_done hp).trans hf, hw'', hu, hn'', hh''.trans hh'⟩

/-- A task that does not fail is followed by the next one. -/
theorem Yields.task_bind {ε : Type} {t : ExceptT ε Process α} {f : α → ExceptT ε Process β}
    {u : Inventory} {y : Except ε β} (ht : Yields now v t.run (.ok a) v')
    (hf : Yields now v' (f a).run y u) : Yields now v (t >>= f).run y u :=
  ht.bind (f := ExceptT.bindCont f) hf

/-- Whoever asks for a room while nobody is about gets it at once, and leaves nobody behind. -/
theorem Yields.within (room : RoomId) {body : Process α} (hw : w.Alone)
    (h : Yields w.now w.inventory body a v') :
    ∃ w', (Process.within room body).advance w = (.inl a, w') ∧ w'.Alone ∧ w'.inventory = v' ∧
      w'.now = w.now := by
  obtain ⟨u, hu, hund, hv, hn, hh⟩ := h { w with holds := (w.holds.request room).2 }
    hw.undisturbed rfl rfl
  refine ⟨{ u with holds := u.holds.leave (w.holds.request room).1 }, ?_, ⟨hund, ?_, ?_⟩, hv, hn⟩
  · -- nobody is about, so the ticket is let in
    simp only [Process.within, advance, Holds.granted_request_of_visitors hw.visitors, if_true]
    exact advance_bind_of_done hu
  · change (u.holds.leave _).Sound
    rw [hh]
    exact (hw.sound.request room).leave _
  · change (u.holds.leave _).visitors = []
    rw [hh]
    -- the only one to have come is the one who goes
    refine List.eq_nil_iff_forall_not_mem.mpr fun x hx => ?_
    obtain ⟨hx, hne⟩ := Holds.mem_leave.mp hx
    obtain ⟨g, hvis, -⟩ := Holds.request_visitors (h := w.holds) room
    change x ∈ (w.holds.request room).2.visitors at hx
    rw [hvis, hw.visitors, List.nil_append, List.mem_singleton] at hx
    rw [hx, Holds.request_ticket] at hne
    exact hne rfl

end Process

namespace Inventory

open Keeper (Placement Removal)

/-- What an order for a lock comes to when nobody else is about and no race is to come. -/
def place (now : Instant) (v : Inventory) (n : NewLock) :
    Except RoomFailure Placement × Inventory :=
  match v.room? n.room with
  | none => (.error (.notFound n.room), v)
  | some r =>
    match v.lockByRequest? n.request with
    | some l => (.ok (.alreadyLocked l), v)
    | none =>
      if ! r.operational then (.error (.notOperational n.room), v)
      else if v.overlapping n.room n.stay ≠ [] then (.error (.unavailable n.room n.stay), v)
      else
        match v.clash? n with
        | some key => (.error (.duplicate key.constraint), v)
        | none => (.ok (.locked (v.newLock now n)), v.withLock now n)

/-- What an order to release a room comes to. -/
def evict (v : Inventory) (room : RoomId) (uid : Uid) : Except RoomFailure Removal × Inventory :=
  match v.room? room with
  | none => (.error (.notFound room), v)
  | some _ =>
    match v.lockByUid? uid with
    | none => (.ok .nothingToRelease, v)
    | some l =>
      if l.room ≠ room then (.ok .nothingToRelease, v) else (.ok .released, v.withoutLock l)

end Inventory

namespace Keeper

open Process (Yields)

variable {now : Instant} {v : Inventory} {w : World}

theorem yields_place (n : NewLock) (hr : v.raced = false) :
    Yields now v (place n).run (v.place now n).1 (v.place now n).2 := by
  unfold Inventory.place
  apply Yields.rooms (c := .getRoom n.room)
  cases hroom : v.room? n.room with
  | none =>
    simp only [Inventory.answer, hroom]
    exact Yields.done
  | some r =>
    simp only [Inventory.answer, hroom]
    apply Yields.rooms (c := .lockByRequest n.request)
    cases hl : v.lockByRequest? n.request with
    | some l =>
      simp only [Inventory.answer, hl]
      exact Yields.done
    | none =>
      simp only [Inventory.answer, hl]
      cases ho : r.operational with
      | false =>
        simp only [Bool.not_false, if_true]
        exact Yields.done
      | true =>
        simp only [Bool.not_true, Bool.false_eq_true, if_false]
        apply Yields.rooms (c := .overlapping n.room n.stay)
        cases hover : v.overlapping n.room n.stay with
        | cons l rest =>
          simp only [Inventory.answer, hover, ne_eq, reduceCtorEq, not_false_eq_true, if_true]
          exact Yields.done
        | nil =>
          simp only [Inventory.answer, hover, ne_eq, not_true_eq_false, if_false]
          apply Yields.rooms (c := .insertLock n)
          cases hc : v.clash? n with
          | some key =>
            -- it is looked for once more, and not there as before
            simp only [Inventory.answer, Inventory.insertLock_of_clash? hroom hc]
            apply Yields.rooms (c := .lockByRequest n.request)
            simp only [Inventory.answer, hl]
            exact Yields.done
          | none =>
            simp only [Inventory.answer, Inventory.insertLock_of_not_raced hroom hc hr]
            exact Yields.done

theorem yields_remove (room : RoomId) (uid : Uid) :
    Yields now v (remove room uid).run (v.evict room uid).1 (v.evict room uid).2 := by
  unfold Inventory.evict
  apply Yields.rooms (c := .getRoom room)
  cases hroom : v.room? room with
  | none =>
    simp only [Inventory.answer, hroom]
    exact Yields.done
  | some r =>
    simp only [Inventory.answer, hroom]
    apply Yields.rooms (c := .lockByUid uid)
    cases hl : v.lockByUid? uid with
    | none =>
      simp only [Inventory.answer, hl]
      exact Yields.done
    | some l =>
      simp only [Inventory.answer, hl]
      change Yields now v (ExceptT.run (if l.room ≠ room then _ else _)) _ _
      by_cases hlr : l.room = room
      · simp only [hlr, ne_eq, not_true_eq_false, if_false]
        apply Yields.rooms (c := .deleteLock l.id l.room)
        have hm := (Inventory.lockByUid?_eq_some hl).1
        simp only [Inventory.answer, Inventory.deleteLock_of_exists ⟨l, hm, rfl⟩]
        exact Yields.meter Yields.done
      · simp only [ne_eq, hlr, not_false_eq_true, if_true]
        exact Yields.done

theorem advance_confirm (n : NewLock) (hw : w.Alone) (hr : w.inventory.raced = false) :
    ∃ w', (confirm n).advance w = (.inl (w.inventory.place w.now n).1, w') ∧ w'.Alone ∧
      w'.inventory = (w.inventory.place w.now n).2 ∧ w'.now = w.now := by
  obtain ⟨u, hu, hal, hv, hn⟩ := Yields.within n.room hw (yields_place n hr)
  refine ⟨_, (Process.advance_bind_of_done hu).trans rfl, ?_, hv, hn⟩
  exact ⟨hal.undisturbed, hal.sound, hal.visitors⟩

theorem advance_release (room : RoomId) (uid : Uid) (hw : w.Alone) :
    ∃ w', (release room uid).advance w = (.inl (w.inventory.evict room uid).1, w') ∧ w'.Alone ∧
      w'.inventory = (w.inventory.evict room uid).2 ∧ w'.now = w.now :=
  Yields.within room hw (yields_remove room uid)

end Keeper

end Lodging
