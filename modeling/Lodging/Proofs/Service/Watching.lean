import Lodging.Proofs.Keeper.Actions
import Lodging.Proofs.Script
import Lodging.World.Visits

/-!
Processes that only watch: they look at the inventory, count and read what was counted, and enter no
room. However many of them are under way, they spare the world.
-/

namespace Lodging

namespace World

variable {u v w : World}

theorem spared_refl (w : World) : w.Spared w := ⟨rfl, rfl, rfl, rfl, rfl, rfl⟩

theorem Spared.trans (h : u.Spared v) (h' : v.Spared w) : u.Spared w where
  rooms := h'.rooms.trans h.rooms
  locks := h'.locks.trans h.locks
  lastRoom := h'.lastRoom.trans h.lastRoom
  lastLock := h'.lastLock.trans h.lastLock
  holds := h'.holds.trans h.holds
  ledger := h'.ledger.trans h.ledger

/-- A world that differs in none of its parts is spared. -/
theorem spared_of_eq (hinventory : w.inventory = v.inventory) (hholds : w.holds = v.holds)
    (hledger : w.ledger = v.ledger) : v.Spared w := by
  constructor
  · rw [hinventory]
  · rw [hinventory]
  · rw [hinventory]
  · rw [hinventory]
  · exact hholds
  · exact hledger

theorem spared_turn (w : World) (t : Turn) : w.Spared (w.turn t) := by
  cases t <;> exact ⟨rfl, rfl, rfl, rfl, rfl, rfl⟩

end World

/-- A call that looks leaves the inventory as it is. -/
theorem RoomCall.Looks.answer_eq {c : RoomCall} (hc : c.Looks) (now : Instant) (v : Inventory) :
    (v.answer now c).2 = v := by
  cases c <;> first | rfl | cases hc

namespace Action

def Watching : Action → Prop
  | rooms c => c.Looks
  | meter _ | readings => True
  | _ => False

theorem Watching.spared {x : Action} (hx : x.Watching) (w : World) :
    w.Spared (w.perform x).2 := by
  cases x with
  | rooms c =>
    have hinventory : (w.callRooms c).2.inventory = w.inventory := by
      rcases w.callRooms_cases c with ⟨-, h⟩ | ⟨-, h⟩
      · exact h.trans (RoomCall.Looks.answer_eq hx _ _)
      · exact h
    exact World.spared_of_eq hinventory (World.perform_holds (x := .rooms c) nofun)
      (World.perform_offLedger (x := .rooms c) trivial).1
  | meter m => exact World.spared_of_eq rfl rfl rfl
  | readings => exact w.spared_refl
  | _ => cases hx

end Action

namespace Process

variable {α β ε : Type}

/-- The process only looks, counts and reads what was counted. -/
def Watches : Process α → Prop
  | done _ => True
  | act x next => x.Watching ∧ ∀ a, (next a).Watches
  | enter .. => False

theorem Watches.bind {p : Process α} {f : α → Process β} (hp : p.Watches)
    (hf : ∀ a, (f a).Watches) : (p >>= f).Watches := by
  change (p.bind f).Watches
  induction p with
  | done a => exact hf a
  | act x next ih => exact ⟨hp.1, fun a => ih a (hp.2 a)⟩
  | enter room next ih => cases hp

theorem Watches.task_bind {t : ExceptT ε Process α} {f : α → ExceptT ε Process β}
    (ht : t.run.Watches) (hf : ∀ a, (f a).run.Watches) : (t >>= f).run.Watches := by
  refine Watches.bind ht fun r => ?_
  cases r with
  | ok a => exact hf a
  | error f => trivial

theorem watches_meter (m : Meter) : (meter m).Watches := ⟨trivial, fun _ => trivial⟩

end Process

open Process (Watches watches_meter)

namespace Keeper

theorem watches_ask {c : RoomCall} (hc : c.Looks) : (ask c).run.Watches :=
  ⟨hc, fun _ => trivial⟩

theorem watches_getRoom (id : RoomId) : (getRoom id).run.Watches := by
  refine Watches.task_bind (watches_ask trivial) fun r => ?_
  cases r <;> trivial

theorem watches_free (stay : Stay) (rooms : List Room) : (free stay rooms).run.Watches := by
  induction rooms with
  | nil => trivial
  | cons r rest ih =>
    refine Watches.task_bind (watches_ask trivial) fun locks => ?_
    cases locks with
    | nil => exact Watches.task_bind ih fun _ => trivial
    | cons l locks => exact ih

theorem watches_available (stay : Stay) : (available stay).run.Watches := by
  refine Watches.task_bind (watches_ask trivial) fun rooms => ?_
  exact Watches.task_bind (watches_free stay rooms) fun _ => trivial

theorem watches_recommend (stay : Stay) : (recommend stay).run.Watches :=
  Watches.task_bind (watches_available stay) fun _ => trivial

end Keeper

/-- A call that watches or has come to an end, and never held or waited for anything. -/
def Job.Aloof {α : Type} : Job α → Prop
  | running p held => p.Watches ∧ held = []
  | waiting .. => False
  | finished _ | dropped => True

namespace Job

variable {α : Type} {j : Job α}

theorem Aloof.advance (hj : j.Aloof) (w : World) :
    (j.advance w).1.Aloof ∧ w.Spared (j.advance w).2 := by
  match j, hj with
  | running (.done a) _, _ => exact ⟨trivial, w.spared_refl⟩
  | running (.act x next) held, ⟨⟨hx, hnext⟩, hheld⟩ =>
    refine ⟨⟨hnext _, ?_⟩, hx.spared w⟩
    subst hheld
    cases x <;> rfl
  | running (.enter ..) _, ⟨hp, _⟩ => cases hp
  | finished a, _ => exact ⟨trivial, w.spared_refl⟩
  | dropped, _ => exact ⟨trivial, w.spared_refl⟩

theorem Aloof.drop (hj : j.Aloof) (w : World) : (j.drop w).1.Aloof ∧ w.Spared (j.drop w).2 := by
  match j, hj with
  | running p held, ⟨_, hheld⟩ =>
    subst hheld
    exact ⟨trivial, w.spared_refl⟩
  | finished a, _ => exact ⟨trivial, w.spared_refl⟩
  | dropped, _ => exact ⟨trivial, w.spared_refl⟩

end Job

namespace Scene

variable {κ α : Type} {code : κ → Process α} {s : Scene code}

/-- All calls of a scene watch. -/
def Aloof (s : Scene code) : Prop := ∀ x ∈ s.jobs, x.2.Aloof

theorem Aloof.update {f : World → Job α → Job α × World}
    (hf : ∀ w j, j.Aloof → (f w j).1.Aloof ∧ w.Spared (f w j).2) (hs : s.Aloof) (i : ℕ) :
    (s.update f i).Aloof ∧ s.world.Spared (s.update f i).world := by
  simp only [Scene.update]
  split
  next c j hj =>
    obtain ⟨hjob, hworld⟩ := hf s.world j (hs _ (List.mem_of_getElem? hj))
    refine ⟨fun x hx => ?_, hworld⟩
    rcases List.mem_or_eq_of_mem_set hx with hx | rfl
    · exact hs x hx
    · exact hjob
  next => exact ⟨hs, s.world.spared_refl⟩

/-- An event of a scene in which all watch spares the world, and they go on to watch. -/
theorem Aloof.step (hs : s.Aloof) {e : Event κ} (he : ∀ c, e = .start c → (code c).Watches) :
    (s.step e).Aloof ∧ s.world.Spared (s.step e).world := by
  cases e with
  | start c =>
    refine ⟨fun x hx => ?_, s.world.spared_refl⟩
    rcases List.mem_append.mp hx with hx | hx
    · exact hs x hx
    · obtain rfl := List.mem_singleton.mp hx
      exact ⟨he c rfl, rfl⟩
  | advance i => exact hs.update (fun w j hj => hj.advance w) i
  | drop i => exact hs.update (fun w j hj => hj.drop w) i
  | turn t => exact ⟨hs, s.world.spared_turn t⟩

/-- So does a run. -/
theorem Aloof.run (hs : s.Aloof) {es : List (Event κ)}
    (hes : ∀ c, .start c ∈ es → (code c).Watches) :
    (s.run es).Aloof ∧ s.world.Spared (s.run es).world := by
  induction es generalizing s with
  | nil => exact ⟨hs, s.world.spared_refl⟩
  | cons e rest ih =>
    obtain ⟨hnow, hspared⟩ := hs.step fun c hc => hes c (hc ▸ List.mem_cons_self)
    obtain ⟨hlater, hrest⟩ := ih hnow fun c hc => hes c (List.mem_cons_of_mem _ hc)
    rw [run_cons]
    exact ⟨hlater, hspared.trans hrest⟩

end Scene

end Lodging
