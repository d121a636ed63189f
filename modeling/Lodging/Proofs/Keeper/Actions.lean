import Lodging.Proofs.Journal
import Lodging.Rooms.Keeper

/-!
What the keeper of the rooms does at each of its tasks. It looks at the inventory as often as it
likes, and changes it in the one way that the task is for.
-/

namespace Lodging

/-- A call that leaves the inventory as it is. -/
def RoomCall.Looks : RoomCall → Prop
  | insertRoom _ | insertLock _ | deleteLock .. => False
  | _ => True

namespace Action

def Looking : Action → Prop
  | rooms c => c.Looks
  | leave _ | meter _ => True
  | _ => False

def Placing (n : NewLock) (x : Action) : Prop := x.Looking ∨ x = rooms (.insertLock n)

def Removing (x : Action) : Prop := x.Looking ∨ ∃ id room, x = rooms (.deleteLock id room)

variable {x : Action} {n : NewLock}

theorem Looking.offLedger (h : x.Looking) : x.OffLedger := by
  cases x with
  | ledger c => cases h
  | _ => trivial

theorem Placing.offLedger (h : x.Placing n) : x.OffLedger := by
  rcases h with h | rfl
  · exact h.offLedger
  · trivial

theorem Removing.offLedger (h : x.Removing) : x.OffLedger := by
  rcases h with h | ⟨id, room, rfl⟩
  · exact h.offLedger
  · trivial

end Action

theorem Process.Uses.task_bind {α β ε : Type} {kind : Action → Prop} {t : ExceptT ε Process α}
    {f : α → ExceptT ε Process β} (ht : t.run.Uses kind) (hf : ∀ a, (f a).run.Uses kind) :
    (t >>= f).run.Uses kind := by
  refine Uses.bind ht fun r => ?_
  cases r with
  | ok a => exact hf a
  | error f => trivial

theorem Process.Solely.task_bind {α β ε : Type} {kind : Action → Prop} {t : ExceptT ε Process α}
    {f : α → ExceptT ε Process β} (ht : t.run.Solely kind) (hf : ∀ a, (f a).run.Solely kind) :
    (t >>= f).run.Solely kind := by
  refine Solely.bind ht fun r => ?_
  cases r with
  | ok a => exact hf a
  | error f => trivial

/-- Of two tasks one after the other, the second one is only begun if the first does not fail. -/
theorem Process.Leads.of_task_bind_done {α β ε : Type} {t : ExceptT ε Process α}
    {f : α → ExceptT ε Process β} {ds : List Deed} {x : Except ε β}
    (h : Leads (t >>= f).run ds (.done x)) :
    (∃ e, x = .error e ∧ Leads t.run ds (.done (.error e))) ∨
      ∃ a first rest, ds = first ++ rest ∧ Leads t.run first (.done (.ok a)) ∧
        Leads (f a).run rest (.done x) := by
  obtain ⟨y, first, rest, rfl, hfirst, hrest⟩ := Leads.of_bind_done h
  cases y with
  | ok a => exact .inr ⟨a, first, rest, rfl, hfirst, hrest⟩
  | error e =>
    obtain ⟨rfl, hx⟩ := hrest.of_done
    cases hx
    rw [List.append_nil]
    exact .inl ⟨e, rfl, hfirst⟩

namespace Keeper

open Process (Uses Solely)

section Tasks

variable {kind : Action → Prop} (hlook : ∀ c : RoomCall, c.Looks → kind (.rooms c))

include hlook

theorem solely_look {c : RoomCall} (hc : c.Looks) : (ask c).run.Solely kind :=
  ⟨hlook c hc, fun _ => trivial⟩

theorem solely_getRoom (id : RoomId) : (getRoom id).run.Solely kind := by
  refine Solely.task_bind (solely_look hlook trivial) fun r => ?_
  cases r <;> trivial

theorem solely_placeNew {n : NewLock} (hinsert : kind (.rooms (.insertLock n))) :
    (placeNew n).run.Solely kind := by
  refine ⟨hinsert, fun r => ?_⟩
  match r with
  | .ok l => trivial
  | .error (.duplicate c) =>
    refine Solely.task_bind (solely_look hlook (by trivial)) fun l => ?_
    cases l <;> trivial
  | .error (.noNights _) | .error (.notFound _) | .error (.notOperational _)
  | .error (.unavailable ..) | .error .storage | .error .migration => trivial

theorem solely_place {n : NewLock} (hinsert : kind (.rooms (.insertLock n))) :
    (place n).run.Solely kind := by
  refine Solely.task_bind (solely_getRoom hlook _) fun r => ?_
  refine Solely.task_bind (solely_look hlook (by trivial)) fun l => ?_
  cases l with
  | some l => trivial
  | none =>
    cases r.operational with
    | false => trivial
    | true =>
      refine Solely.task_bind (solely_look hlook (by trivial)) fun locks => ?_
      cases locks with
      | nil => exact solely_placeNew hlook hinsert
      | cons l rest => trivial

theorem solely_remove (hdelete : ∀ id room, kind (.rooms (.deleteLock id room)))
    (hmeter : kind (.meter .lockReleased)) (room : RoomId) (uid : Uid) :
    (remove room uid).run.Solely kind := by
  refine Solely.task_bind (solely_getRoom hlook _) fun r => ?_
  refine Solely.task_bind (solely_look hlook (by trivial)) fun l => ?_
  cases l with
  | none => trivial
  | some l =>
    by_cases hl : l.room = room
    · simp only [hl, ne_eq, not_true_eq_false, if_false]
      have hask : (ask (.deleteLock l.id l.room)).run.Solely kind :=
        ⟨hdelete l.id l.room, fun _ => trivial⟩
      refine Solely.task_bind hask fun b => ?_
      cases b with
      | true => exact ⟨hmeter, fun _ => trivial⟩
      | false => trivial
    · simp only [ne_eq, hl, not_false_eq_true, if_true]
      trivial

theorem solely_free (stay : Stay) (rooms : List Room) : (free stay rooms).run.Solely kind := by
  induction rooms with
  | nil => trivial
  | cons r rest ih =>
    refine Solely.task_bind (solely_look hlook (by trivial)) fun locks => ?_
    cases locks with
    | nil => exact Solely.task_bind ih fun _ => trivial
    | cons l locks => exact ih

theorem solely_available (stay : Stay) : (available stay).run.Solely kind := by
  refine Solely.task_bind (solely_look hlook trivial) fun rooms => ?_
  exact Solely.task_bind (solely_free hlook stay rooms) fun _ => trivial

theorem solely_recommend (stay : Stay) : (recommend stay).run.Solely kind :=
  Solely.task_bind (solely_available hlook stay) fun _ => trivial

/-- A lock is placed in a room that is held, and the outcome is counted. -/
theorem uses_confirm_of {n : NewLock} (hinsert : kind (.rooms (.insertLock n)))
    (hleave : ∀ t, kind (.leave t)) (hmeter : ∀ o, kind (.meter (.lockAttempt o))) :
    (confirm n).Uses kind :=
  Uses.bind (Uses.within hleave (solely_place hlook hinsert).uses) fun _ =>
    ⟨hmeter _, fun _ => trivial⟩

theorem uses_release_of (hdelete : ∀ id room, kind (.rooms (.deleteLock id room)))
    (hleave : ∀ t, kind (.leave t)) (hmeter : kind (.meter .lockReleased)) (room : RoomId)
    (uid : Uid) : (release room uid).Uses kind :=
  Uses.within hleave (solely_remove hlook hdelete hmeter room uid).uses

end Tasks

theorem uses_getRoom (id : RoomId) : (getRoom id).run.Uses Action.Looking :=
  (solely_getRoom (fun _ h => h) id).uses

theorem uses_confirm (n : NewLock) : (confirm n).Uses (Action.Placing n) :=
  uses_confirm_of (fun _ => .inl) (.inr rfl) (fun _ => .inl trivial) fun _ => .inl trivial

theorem uses_release (room : RoomId) (uid : Uid) : (release room uid).Uses Action.Removing :=
  uses_release_of (fun _ => .inl) (fun _ _ => .inr ⟨_, _, rfl⟩) (fun _ => .inl trivial)
    (.inl trivial) room uid

theorem uses_available (stay : Stay) : (available stay).run.Uses Action.Looking :=
  (solely_available (fun _ h => h) stay).uses

theorem uses_recommend (stay : Stay) : (recommend stay).run.Uses Action.Looking :=
  (solely_recommend (fun _ h => h) stay).uses

end Keeper

end Lodging
