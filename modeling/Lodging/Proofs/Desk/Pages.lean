import Lodging.Proofs.Desk.Privacy
import Lodging.World.Sample
import Mathlib.Algebra.Group.Nat.Defs

/-!
The pages of a list of bookings. A page is a slice of all bookings of its user, newest first. So
pages of one size that follow one another are together what there is, and no booking is on two of
them.
-/

namespace Lodging

namespace PageRequest

/-- A number of a page that fits into 32 bits gives an offset that fits into 64. -/
theorem offset_lt_two_pow (p : PageRequest) (h : p.page < 2 ^ 32) : p.offset < 2 ^ 64 := by
  have hle : p.page * p.size ≤ 2 ^ 32 * 100 := Nat.mul_le_mul (Nat.le_of_lt h) p.size_le
  unfold offset
  omega

end PageRequest

namespace Page

variable {α : Type} (items : List α)

theorem content_ofList (p : PageRequest) :
    (ofList items p).content = items.extract (p.page * p.size) ((p.page + 1) * p.size) := by
  change (items.drop (p.page * p.size)).take p.size =
    (items.drop (p.page * p.size)).take ((p.page + 1) * p.size - p.page * p.size)
  rw [Nat.add_mul, Nat.one_mul, Nat.add_sub_cancel_left]

theorem length_content_ofList_le (p : PageRequest) : (ofList items p).content.length ≤ p.size :=
  List.length_take_le ..

theorem content_ofList_eq_nil {p : PageRequest} (h : items.length ≤ p.offset) :
    (ofList items p).content = [] := by
  change (items.drop p.offset).take p.size = []
  rw [List.drop_eq_nil_of_le h, List.take_nil]

/-- The first pages, one after the other, are the first items. -/
theorem flatMap_ofList (size n : ℕ) :
    (List.range n).flatMap (fun k => (ofList items (.make k size)).content) =
      items.take (n * (PageRequest.make 0 size).size) := by
  induction n with
  | zero => rw [Nat.zero_mul, List.take_zero, List.range_zero, List.flatMap_nil]
  | succ n ih =>
    rw [List.range_succ, List.flatMap_append, ih, List.flatMap_singleton, Nat.succ_mul,
      List.take_add]
    rfl

/-- Every item is on a page of any size. -/
theorem exists_mem_ofList {items : List α} {a : α} (ha : a ∈ items) (size : ℕ) :
    ∃ k, a ∈ (ofList items (.make k size)).content := by
  have hsize := (PageRequest.make 0 size).size_pos
  have hall : items.length ≤ items.length * (PageRequest.make 0 size).size :=
    Nat.le_mul_of_pos_right _ hsize
  rw [← List.take_of_length_le hall, ← flatMap_ofList items size items.length,
    List.mem_flatMap] at ha
  obtain ⟨k, -, hk⟩ := ha
  exact ⟨k, hk⟩

end Page

namespace Ledger

variable {l : Ledger}

/-- The order of lists between bookings that have ids of their own. -/
def Newer (a b : Booking) : Prop :=
  b.createdAt < a.createdAt ∨ a.createdAt = b.createdAt ∧ b.id.number < a.id.number

theorem newer_of_later {a b : Booking} (h : later a b = true) (hid : a.id ≠ b.id) : Newer a b := by
  rcases later_iff.mp h with hlt | ⟨heq, hle⟩
  · exact .inl hlt
  · have hne : b.id.number ≠ a.id.number := fun hn => hid (BookingId.eq_of_number hn.symm)
    exact .inr ⟨heq, by omega⟩

theorem perm_bookingsOf (l : Ledger) (user : UserId) :
    (l.bookingsOf user).Perm (l.bookings.filter (·.user = user)) :=
  List.mergeSort_perm ..

theorem length_bookingsOf (l : Ledger) (user : UserId) :
    (l.bookingsOf user).length = (l.bookings.filter (·.user = user)).length :=
  (l.perm_bookingsOf user).length_eq

theorem mem_bookingsOf {user : UserId} {b : Booking} :
    b ∈ l.bookingsOf user ↔ b ∈ l.bookings ∧ b.user = user := by
  rw [(l.perm_bookingsOf user).mem_iff, List.mem_filter, decide_eq_true_eq]

theorem Distinct.nodup_bookingsOf (hl : l.Distinct) (user : UserId) :
    ((l.bookingsOf user).map (·.id)).Nodup := by
  have hids : ((l.bookings.filter (·.user = user)).map (·.id)).Nodup :=
    hl.sublist (List.filter_sublist.map _)
  exact ((l.perm_bookingsOf user).map _).nodup_iff.mpr hids

theorem Distinct.pairwise_newer (hl : l.Distinct) (user : UserId) :
    (l.bookingsOf user).Pairwise Newer := by
  have hids : (l.bookingsOf user).Pairwise fun a b => a.id ≠ b.id :=
    List.pairwise_map.mp (hl.nodup_bookingsOf user)
  exact ((pairwise_later _).and hids).imp fun h => newer_of_later h.1 h.2

end Ledger

namespace Desk

variable {w : World}

/-- A list that does not go wrong shows the page and leaves everything as it is. -/
theorem advance_list_eq (hplans : w.ledgerPlans = []) (user : UserId) (p : PageRequest) :
    (list user p).run.advance w = (.inl (.ok ((w.ledger.pageOf user p).map (·.summary))), w) := by
  have hworld : (w.callLedger (.pageOf user p)).2 = w :=
    congrArg Prod.snd (World.perform_ledger hplans (.pageOf user p))
  refine Prod.ext (advance_list_of_plain hplans user p) ?_
  change (Process.advance (ExceptT.bindCont _ (w.callLedger (.pageOf user p)).1)
    (w.callLedger (.pageOf user p)).2).2 = w
  rw [hworld]
  cases (w.callLedger (.pageOf user p)).1 <;> rfl

/-- Pages part the bookings of a user. All bookings of the user, newest first and those of one
instant by descending ids, are cut into slices of the size that is asked for, or the nearest one
from 1 to 100: page `k` of size `n` shows the places from `k * n` up to `(k + 1) * n`, with the
number of all. So no page is longer than its size, those past the end are empty, and the first pages
together show the first bookings, which are all of them, each once, as soon as there are enough
pages. The numbers that are reckoned with fit into 64 bits. -/
theorem pages_part_bookings (hids : w.ledger.Distinct) (user : UserId) :
    (w.ledger.bookingsOf user).Perm (w.ledger.bookings.filter (·.user = user)) ∧
      (w.ledger.bookingsOf user).Pairwise Ledger.Newer ∧
      ∀ page size, let p := PageRequest.make page size
        p.page = page ∧ p.size = max 1 (min size 100) ∧
        (page < 2 ^ 32 → p.offset < 2 ^ 64) ∧
        (w.ledgerPlans = [] → (list user p).run.advance w =
          (.inl (.ok ((w.ledger.pageOf user p).map (·.summary))), w)) ∧
        w.ledger.pageOf user p =
          ⟨(w.ledger.bookingsOf user).extract (page * p.size) ((page + 1) * p.size), page, p.size,
            (w.ledger.bookings.filter (·.user = user)).length⟩ ∧
        (w.ledger.pageOf user p).content.length ≤ p.size ∧
        ((w.ledger.bookings.filter (·.user = user)).length ≤ page * p.size →
          (w.ledger.pageOf user p).content = []) ∧
        ∀ n, let shown := (List.range n).flatMap fun k =>
            (w.ledger.pageOf user (.make k size)).content
          shown = (w.ledger.bookingsOf user).take (n * p.size) ∧
          (shown.map (·.id)).Nodup ∧
          ((w.ledger.bookings.filter (·.user = user)).length ≤ n * p.size →
            shown = w.ledger.bookingsOf user) := by
  refine ⟨w.ledger.perm_bookingsOf user, hids.pairwise_newer user, fun page size => ?_⟩
  have hlength := w.ledger.length_bookingsOf user
  -- a page shows a part of the list and counts the whole
  have hpage : w.ledger.pageOf user (.make page size) =
      ⟨(Page.ofList (w.ledger.bookingsOf user) (.make page size)).content, page,
        (PageRequest.make page size).size, (w.ledger.bookingsOf user).length⟩ := rfl
  refine ⟨rfl, rfl, PageRequest.offset_lt_two_pow (.make page size),
    fun hplans => advance_list_eq hplans user _, ?_, Page.length_content_ofList_le ..,
    fun h => ?_, fun n => ⟨?_, ?_, fun h => ?_⟩⟩
  · rw [hpage, Page.content_ofList, hlength]
    rfl
  · rw [← hlength] at h
    exact Page.content_ofList_eq_nil _ h
  · exact Page.flatMap_ofList _ size n
  · have hshown := Page.flatMap_ofList (w.ledger.bookingsOf user) size n
    exact hshown ▸ (hids.nodup_bookingsOf user).sublist ((List.take_sublist ..).map _)
  · rw [← hlength] at h
    exact (Page.flatMap_ofList _ size n).trans (List.take_of_length_le h)

/-- A booking of two nights, made at the sample instant. -/
def bookedBy (user id : ℕ) : Booking :=
  ⟨⟨id⟩, Sample.uid id, ⟨user⟩, ⟨1⟩, Sample.twoNights, .pending, Sample.newYear⟩

/-- A world with bookings of one instant, the second of another user. -/
def threeBooked : World :=
  { World.atTime Sample.newYear with ledger := ⟨[], [bookedBy 1 1, bookedBy 2 2, bookedBy 1 3], 3⟩ }

/-- Pages of one show the higher id first. -/
theorem third_booking_before_first :
    threeBooked.ledger.Distinct ∧ ((List.range 2).flatMap fun k =>
      (threeBooked.ledger.pageOf ⟨1⟩ (.make k 1)).content.map (·.id)) = [⟨3⟩, ⟨1⟩] := by
  have hids : threeBooked.ledger.Distinct := by decide
  obtain ⟨-, -, hpages⟩ := pages_part_bookings hids ⟨1⟩
  obtain ⟨-, -, -, -, -, -, -, hshown⟩ := hpages 0 1
  obtain ⟨-, -, hall⟩ := hshown 2
  have hsorted : threeBooked.ledger.bookingsOf ⟨1⟩ = [bookedBy 1 3, bookedBy 1 1] :=
    (Ledger.mergeSort_eq_of_perm (by decide) (.swap (bookedBy 1 3) (bookedBy 1 1) [])).trans
      (List.mergeSort_of_pairwise (by decide))
  refine ⟨hids, ?_⟩
  rw [← List.map_flatMap, hall (by decide), hsorted]
  rfl

end Desk

end Lodging
