import Lodging.Bookings.Ledger
import Lodging.Proofs.Calendar.Days
import Lodging.Proofs.Rows

/-!
The order in which bookings are listed. Dates and instants are in a linear order, and of two
bookings of one instant the ids decide. So bookings with ids of their own can be listed in one order
only, however they are kept.
-/

namespace Lodging

namespace Instant

variable {a b c : Instant}

theorem lt_iff : a < b ↔ a.date < b.date ∨
    a.date = b.date ∧ (a.second < b.second ∨ a.second = b.second ∧ a.nano < b.nano) :=
  Iff.rfl

theorem eq_iff : a = b ↔ a.date = b.date ∧ a.second = b.second ∧ a.nano = b.nano := by
  cases a
  cases b
  simp only [mk.injEq]

theorem lt_trans (hab : a < b) (hbc : b < c) : a < c := by
  rw [lt_iff, Date.lt_iff, Date.eq_iff] at *
  omega

theorem lt_irrefl (a : Instant) : ¬ a < a := by
  rw [lt_iff, Date.lt_iff]
  omega

theorem lt_trichotomy (a b : Instant) : a < b ∨ a = b ∨ b < a := by
  rw [eq_iff, lt_iff, lt_iff, Date.lt_iff, Date.lt_iff, Date.eq_iff, Date.eq_iff]
  omega

end Instant

theorem BookingId.eq_of_number {a b : BookingId} (h : a.number = b.number) : a = b := by
  cases a
  cases b
  exact congrArg mk h

namespace Ledger

variable {a b : Booking}

theorem later_iff : later a b = true ↔ b.createdAt < a.createdAt ∨
    a.createdAt = b.createdAt ∧ b.id.number ≤ a.id.number := by
  simp only [later, Bool.or_eq_true, Bool.and_eq_true, decide_eq_true_eq]

theorem later_trans (a b c : Booking) (hab : later a b = true) (hbc : later b c = true) :
    later a c = true := by
  rw [later_iff] at *
  rcases hab with hab | ⟨hab, hid⟩ <;> rcases hbc with hbc | ⟨hbc, hid'⟩
  · exact .inl (Instant.lt_trans hbc hab)
  · exact .inl (hbc ▸ hab)
  · exact .inl (hab ▸ hbc)
  · exact .inr ⟨hab.trans hbc, Int.le_trans hid' hid⟩

theorem later_total (a b : Booking) : (later a b || later b a) = true := by
  rw [Bool.or_eq_true, later_iff, later_iff]
  rcases Instant.lt_trichotomy a.createdAt b.createdAt with h | h | h
  · exact .inr (.inl h)
  · rcases Int.le_total b.id.number a.id.number with hid | hid
    · exact .inl (.inr ⟨h, hid⟩)
    · exact .inr (.inr ⟨h.symm, hid⟩)
  · exact .inl (.inl h)

/-- Only bookings of one id can come in either order. -/
theorem id_eq_of_later (hab : later a b = true) (hba : later b a = true) : a.id = b.id := by
  rw [later_iff] at hab hba
  rcases hab with hab | ⟨hab, hid⟩ <;> rcases hba with hba | ⟨hba, hid'⟩
  · exact absurd (Instant.lt_trans hab hba) (Instant.lt_irrefl _)
  · exact absurd (hba ▸ hab) (Instant.lt_irrefl _)
  · exact absurd (hab ▸ hba) (Instant.lt_irrefl _)
  · exact BookingId.eq_of_number (Int.le_antisymm hid' hid)

theorem pairwise_later (bs : List Booking) :
    (bs.mergeSort later).Pairwise fun a b => later a b = true :=
  List.pairwise_mergeSort later_trans later_total bs

/-- The same bookings, with ids of their own, come in the same order. -/
theorem mergeSort_eq_of_perm {bs cs : List Booking} (hids : (bs.map (·.id)).Nodup)
    (hperm : bs.Perm cs) : bs.mergeSort later = cs.mergeSort later := by
  have hsorted : (bs.mergeSort later).Perm (cs.mergeSort later) :=
    (List.mergeSort_perm bs later).trans (hperm.trans (List.mergeSort_perm cs later).symm)
  refine List.Perm.eq_of_pairwise (fun a b ha hb hab hba => ?_) (pairwise_later bs)
    (pairwise_later cs) hsorted
  have hb := hperm.mem_iff.mpr (List.mem_mergeSort.mp hb)
  exact Rows.eq_of_key hids (List.mem_mergeSort.mp ha) hb (id_eq_of_later hab hba)

end Ledger

end Lodging
