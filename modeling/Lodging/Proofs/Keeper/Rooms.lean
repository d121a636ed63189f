import Lodging.Proofs.Inventory
import Lodging.Proofs.Journal

/-!
The rooms of an inventory in the course of time. A room is added with the next id, and then it stays
and goes on to be in service, or out of it; only what is counted for it changes. So whatever calls
do, the rooms there were are those that the list of rooms begins with later.
-/

namespace Lodging

namespace Inventory

variable {u v w : Inventory} {room : RoomId} {r : Room} {o : Bool}

/-- What never changes of the rooms, in their order. -/
def plan (v : Inventory) : List (RoomId × Bool) := v.rooms.map fun r => (r.id, r.operational)

/-- Rooms are in the order of their ids, and the ids are used up to the last one. -/
structure Ascending (v : Inventory) : Prop where
  rooms : v.plan.Pairwise (·.1.number < ·.1.number)
  counted : ∀ x ∈ v.plan, x.1.number ≤ v.lastRoom

theorem ascending_empty : Ascending .empty where
  rooms := List.Pairwise.nil
  counted _ hx := absurd hx List.not_mem_nil

/-- What an inventory may become in the course of time. -/
structure Extends (v u : Inventory) : Prop where
  grown : u.plan <+: v.plan
  ascending : u.Ascending → v.Ascending

theorem Extends.refl (v : Inventory) : v.Extends v := ⟨List.prefix_refl _, id⟩

theorem Extends.trans (h : w.Extends v) (h' : v.Extends u) : w.Extends u :=
  ⟨h'.grown.trans h.grown, h.ascending ∘ h'.ascending⟩

theorem Extends.of_eq (hplan : v.plan = u.plan) (hlast : v.lastRoom = u.lastRoom) :
    v.Extends u := by
  refine ⟨hplan ▸ List.prefix_refl _, fun h => ⟨?_, ?_⟩⟩
  · rw [hplan]
    exact h.rooms
  · rw [hplan, hlast]
    exact h.counted

theorem extends_insertRoom (v : Inventory) (n : NewRoom) : (v.insertRoom n).2.Extends v := by
  have hplan : (v.insertRoom n).2.plan = v.plan ++ [(⟨v.lastRoom + 1⟩, n.operational)] :=
    List.map_append
  refine ⟨hplan ▸ List.prefix_append .., fun h => ⟨?_, ?_⟩⟩
  · rw [hplan, List.pairwise_append]
    refine ⟨h.rooms, List.pairwise_singleton .., fun x hx y hy => ?_⟩
    have hle := h.counted x hx
    rw [List.mem_singleton.mp hy]
    change x.1.number < v.lastRoom + 1
    omega
  · rw [hplan]
    intro x hx
    change x.1.number ≤ v.lastRoom + 1
    rcases List.mem_append.mp hx with hx | hx
    · have hle := h.counted x hx
      omega
    · obtain rfl := List.mem_singleton.mp hx
      exact Int.le_refl _

theorem plan_recount (f : Int → Int) (id : RoomId) (v : Inventory) :
    (v.recount f id).plan = v.plan := by
  unfold plan recount
  rw [List.map_map]
  refine List.map_congr_left fun r _ => ?_
  simp only [Function.comp_apply]
  split <;> rfl

/-- Whatever is asked, rooms stay. -/
theorem extends_answer (v : Inventory) (now : Instant) (c : RoomCall) :
    (v.answer now c).2.Extends v := by
  cases c with
  | insertRoom n => exact v.extends_insertRoom n
  | insertLock n =>
    change (v.insertLock now n).2.Extends v
    rcases v.insertLock_cases now n with h | ⟨-, -, h⟩ <;> rw [h]
    · exact .refl v
    · exact .of_eq
        (plan_recount (· + 1) n.room { v with locks := v.locks ++ [v.newLock now n] }) rfl
  | deleteLock id room =>
    change (v.deleteLock id room).2.Extends v
    unfold deleteLock
    split
    · exact .of_eq (plan_recount (fun n => max (n - 1) 0) room
        { v with locks := v.locks.filter (·.id ≠ id) }) rfl
    · exact .refl v
  | _ => exact .refl v

/-- A room is there, in service, and has no lock that overlaps a stay. -/
def Offers (v : Inventory) (room : RoomId) (stay : Stay) : Prop :=
  v.serves? room = some true ∧ v.overlapping room stay = []

instance (v : Inventory) (room : RoomId) (stay : Stay) : Decidable (v.Offers room stay) :=
  inferInstanceAs (Decidable (_ ∧ _))

theorem serves?_eq_find? (v : Inventory) (room : RoomId) :
    v.serves? room = (v.plan.find? (·.1 = room)).map (·.2) := by
  unfold serves? room? plan
  rw [List.find?_map, Option.map_map]
  rfl

theorem Extends.serves? (h : v.Extends u) (hu : u.serves? room = some o) :
    v.serves? room = some o := by
  rw [serves?_eq_find?] at hu ⊢
  obtain ⟨x, hx, rfl⟩ := Option.map_eq_some_iff.mp hu
  obtain ⟨added, hadded⟩ := h.grown
  rw [← hadded, List.find?_append, hx]
  rfl

theorem Extends.length_rooms (h : v.Extends u) : u.rooms.length ≤ v.rooms.length := by
  have hle := h.grown.length_le
  rwa [plan, plan, List.length_map, List.length_map] at hle

theorem Ascending.nodup (h : v.Ascending) : (v.rooms.map (·.id)).Nodup := by
  have hids : v.rooms.map (·.id) = v.plan.map (·.1) := by
    rw [plan, List.map_map]
    rfl
  rw [hids, List.Nodup, List.pairwise_map]
  exact h.rooms.imp fun hlt heq => by
    rw [heq] at hlt
    omega

/-- The rooms in service are those of which the plan says so. -/
theorem Ascending.serves?_of_mem (h : v.Ascending) (hr : r ∈ v.operational) :
    v.serves? r.id = some true := by
  obtain ⟨hmem, ho⟩ := List.mem_filter.mp hr
  have hroom : v.room? r.id = some r := Rows.find?_of_mem h.nodup hmem
  rw [serves?, hroom, Option.map_some, ho]

theorem exists_operational (h : v.serves? room = some true) : ∃ r ∈ v.operational, r.id = room := by
  obtain ⟨r, hr, ho⟩ := Option.map_eq_some_iff.mp h
  obtain ⟨hmem, hid⟩ := Rows.of_find?_eq_some hr
  exact ⟨r, List.mem_filter.mpr ⟨hmem, ho⟩, hid⟩

theorem Ascending.operational (h : v.Ascending) :
    v.operational.Pairwise (·.id.number < ·.id.number) := by
  have hrooms := h.rooms
  rw [plan, List.pairwise_map] at hrooms
  exact hrooms.sublist List.filter_sublist

end Inventory

open Inventory (Extends)

theorem World.extends_perform (w : World) (x : Action) :
    (w.perform x).2.inventory.Extends w.inventory := by
  cases x with
  | rooms c =>
    change (w.callRooms c).2.inventory.Extends w.inventory
    rcases w.callRooms_cases c with ⟨-, h⟩ | ⟨-, h⟩ <;> rw [h]
    · exact w.inventory.extends_answer w.now c
    · exact .refl _
  | ledger c =>
    rw [perform_inventory (x := .ledger c) fun _ => nofun]
    exact .refl _
  | _ => exact .refl _

theorem Job.extends_advance {α : Type} (j : Job α) (w : World) :
    (j.advance w).2.inventory.Extends w.inventory := by
  cases j with
  | running p held =>
    cases p with
    | act x next => exact w.extends_perform x
    | _ => exact .refl _
  | waiting t next held =>
    simp only [Job.advance]
    split <;> exact .refl _
  | _ => exact .refl _

namespace Scene

variable {κ α : Type} {code : κ → Process α}

theorem extends_step (s : Scene code) (e : Event κ) :
    (s.step e).world.inventory.Extends s.world.inventory := by
  have hupdate : ∀ (f : World → Job α → Job α × World) (i : ℕ),
      (∀ j, (f s.world j).2.inventory.Extends s.world.inventory) →
        (s.update f i).world.inventory.Extends s.world.inventory := by
    intro f i hf
    unfold update
    split
    next c j hj => exact hf j
    next => exact .refl _
  cases e with
  | start c => exact .refl _
  | advance i => exact hupdate _ i fun j => j.extends_advance _
  | drop i =>
    refine hupdate _ i fun j => ?_
    cases j <;> exact .refl _
  | turn t => cases t <;> exact .of_eq rfl rfl

theorem extends_run (s : Scene code) (es : List (Event κ)) :
    (s.run es).world.inventory.Extends s.world.inventory := by
  induction es generalizing s with
  | nil => exact .refl _
  | cons e rest ih => exact (ih (s.step e)).trans (s.extends_step e)

end Scene

end Lodging
