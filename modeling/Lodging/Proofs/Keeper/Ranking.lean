import Lodging.Rooms.Keeper
import Mathlib.Data.List.Pairwise

/-!
The two orders in which rooms are shown. The ids of rooms decide one of them, and the other where
equally many locks are counted, so rooms with ids of their own come in one order only.
-/

namespace Lodging

/-- A room is offered before another one: it is booked less, or as often and has the lower id. -/
def RoomSummary.Before (a b : RoomSummary) : Prop :=
  a.timesBooked < b.timesBooked ∨ a.timesBooked = b.timesBooked ∧ a.id.number < b.id.number

instance (a b : RoomSummary) : Decidable (a.Before b) := inferInstanceAs (Decidable (_ ∨ _))

namespace Keeper

variable {a b : RoomSummary} {found : List Room}

/-- Rooms as they are shown, by ascending id. -/
def byId (found : List Room) : List RoomSummary :=
  (found.map (·.summary)).mergeSort fun a b => a.id.number ≤ b.id.number

/-- Rooms as they are shown, the least booked first. -/
def ranked (found : List Room) : List RoomSummary := (byId found).mergeSort prefers

theorem prefers_iff : prefers a b = true ↔ a.timesBooked < b.timesBooked ∨
    a.timesBooked = b.timesBooked ∧ a.id.number ≤ b.id.number := by
  simp only [prefers, Bool.or_eq_true, Bool.and_eq_true, decide_eq_true_eq]

theorem prefers_trans (a b c : RoomSummary) (hab : prefers a b = true) (hbc : prefers b c = true) :
    prefers a c = true := by
  rw [prefers_iff] at *
  omega

theorem prefers_total (a b : RoomSummary) : (prefers a b || prefers b a) = true := by
  rw [Bool.or_eq_true, prefers_iff, prefers_iff]
  omega

/-- Between two rooms the order is strict. -/
theorem before_of_prefers (h : prefers a b = true) (hne : a.id ≠ b.id) : a.Before b := by
  have hnumber : a.id.number ≠ b.id.number := fun heq => hne (congrArg RoomId.mk heq)
  rw [prefers_iff] at h
  unfold RoomSummary.Before
  omega

/-- Rooms that come by ascending id are shown as they come. -/
theorem byId_eq (h : found.Pairwise (·.id.number < ·.id.number)) :
    byId found = found.map (·.summary) := by
  apply List.mergeSort_of_pairwise
  rw [List.pairwise_map]
  exact h.imp fun hlt => decide_eq_true (Int.le_of_lt hlt)

theorem ranked_nil : ranked [] = [] := by
  simp [ranked, byId]

theorem mem_byId : a ∈ byId found ↔ ∃ r ∈ found, r.summary = a :=
  List.mem_mergeSort.trans List.mem_map

theorem ranked_perm (found : List Room) : (ranked found).Perm (byId found) :=
  List.mergeSort_perm ..

theorem mem_ranked : a ∈ ranked found ↔ ∃ r ∈ found, r.summary = a :=
  (ranked_perm found).mem_iff.trans mem_byId

theorem byId_ascending (h : found.Pairwise (·.id.number < ·.id.number)) :
    (byId found).Pairwise (·.id.number < ·.id.number) := by
  rw [byId_eq h, List.pairwise_map]
  exact h

theorem ranked_before (h : found.Pairwise (·.id.number < ·.id.number)) :
    (ranked found).Pairwise RoomSummary.Before := by
  have hne : (byId found).Pairwise fun a b => a.id ≠ b.id :=
    (byId_ascending h).imp fun hlt heq => by
      rw [heq] at hlt
      omega
  have hne' : (ranked found).Pairwise fun a b => a.id ≠ b.id :=
    hne.perm (ranked_perm found).symm Ne.symm
  have hsorted := List.pairwise_mergeSort prefers_trans prefers_total (byId found)
  exact (hsorted.and hne').imp fun h => before_of_prefers h.1 h.2

end Keeper

end Lodging
