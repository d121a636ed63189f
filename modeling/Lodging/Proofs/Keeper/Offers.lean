import Lodging.Proofs.House
import Lodging.Proofs.Keeper.Alone
import Lodging.Proofs.Keeper.Ranking
import Lodging.Proofs.Keeper.Rooms
import Lodging.World.Sample

/-!
What is offered and what can be had. When nobody else is about, a search shows the rooms in service
of which no lock overlaps the stay, and an order for a lock is met for these rooms and no others.
-/

namespace Lodging

namespace Inventory

variable {v : Inventory} {room : RoomId} {stay : Stay} {n : NewLock} {now : Instant}

/-- The rooms in service of which no lock overlaps a stay. -/
def offered (v : Inventory) (stay : Stay) : List Room :=
  v.operational.filter fun r => v.overlapping r.id stay = []

theorem mem_offered {r : Room} :
    r ∈ v.offered stay ↔ r ∈ v.operational ∧ v.overlapping r.id stay = [] := by
  rw [offered, List.mem_filter, decide_eq_true_eq]

/-- A room is among them if it is there, in service and free. -/
theorem Ascending.exists_offered (hv : v.Ascending) :
    (∃ r ∈ v.offered stay, r.id = room) ↔ v.Offers room stay := by
  constructor
  · rintro ⟨r, hr, rfl⟩
    obtain ⟨hmem, hover⟩ := mem_offered.mp hr
    exact ⟨hv.serves?_of_mem hmem, hover⟩
  · rintro ⟨hserves, hover⟩
    obtain ⟨r, hr, rfl⟩ := exists_operational hserves
    exact ⟨r, mem_offered.mpr ⟨hr, hover⟩, rfl⟩

theorem Ascending.offered (hv : v.Ascending) (stay : Stay) :
    (v.offered stay).Pairwise (·.id.number < ·.id.number) :=
  hv.operational.sublist List.filter_sublist

section Fresh

variable (hnew : ∀ l ∈ v.locks, l.uid ≠ n.uid ∧ l.request ≠ n.request)

theorem place_of_serves?_eq_none (h : v.serves? n.room = none) :
    v.place now n = (.error (.notFound n.room), v) := by
  simp [place, serves?_eq_none.mp h]

include hnew

/-- What is offered can be had: no key of the new lock is in the way. -/
theorem place_of_offers (h : v.Offers n.room n.stay) :
    v.place now n = (.ok (.locked (v.newLock now n)), v.withLock now n) := by
  obtain ⟨hserves, hover⟩ := h
  obtain ⟨r, hr, ho⟩ := Option.map_eq_some_iff.mp hserves
  have hrequest := lockByRequest?_eq_none.mpr fun l hl => (hnew l hl).2
  have hclash := clash?_eq_none.mpr hnew
  simp [place, hr, hrequest, ho, hover, hclash]

theorem place_of_out_of_service (h : v.serves? n.room = some false) :
    v.place now n = (.error (.notOperational n.room), v) := by
  obtain ⟨r, hr, ho⟩ := Option.map_eq_some_iff.mp h
  have hrequest := lockByRequest?_eq_none.mpr fun l hl => (hnew l hl).2
  simp [place, hr, hrequest, ho]

theorem place_of_taken (h : v.serves? n.room = some true)
    (hover : v.overlapping n.room n.stay ≠ []) :
    v.place now n = (.error (.unavailable n.room n.stay), v) := by
  obtain ⟨r, hr, ho⟩ := Option.map_eq_some_iff.mp h
  have hrequest := lockByRequest?_eq_none.mpr fun l hl => (hnew l hl).2
  simp [place, hr, hrequest, ho, hover]

/-- What is not offered fails in one of three ways. -/
theorem placed_iff_offers :
    (∃ l, (v.place now n).1 = .ok (.locked l)) ↔ v.Offers n.room n.stay := by
  constructor
  · rintro ⟨l, hl⟩
    cases hserves : v.serves? n.room with
    | none =>
      rw [place_of_serves?_eq_none hserves] at hl
      cases hl
    | some o =>
      cases o with
      | false =>
        rw [place_of_out_of_service hnew hserves] at hl
        cases hl
      | true =>
        refine ⟨hserves, ?_⟩
        by_contra hover
        rw [place_of_taken hnew hserves hover] at hl
        cases hl
  · intro hoffers
    rw [place_of_offers hnew hoffers]
    exact ⟨_, rfl⟩

end Fresh

end Inventory

namespace Keeper

open Process (Yields)

variable {now : Instant} {v : Inventory} {w : World}

theorem yields_ask {c : RoomCall} {x : c.Value} (h : v.answer now c = (.ok x, v)) :
    Yields now v (ask c).run (.ok x) v := by
  apply Yields.rooms
  rw [h]
  exact Yields.done

theorem yields_free (stay : Stay) (rooms : List Room) : Yields now v (free stay rooms).run
    (.ok (rooms.filter fun r => v.overlapping r.id stay = [])) v := by
  induction rooms with
  | nil => exact Yields.done
  | cons r rest ih =>
    refine Yields.task_bind (yields_ask (c := .overlapping r.id stay) rfl) ?_
    cases hover : v.overlapping r.id stay with
    | nil =>
      have hkeep : (r :: rest).filter (fun r => v.overlapping r.id stay = []) =
          r :: rest.filter fun r => v.overlapping r.id stay = [] :=
        List.filter_cons_of_pos (decide_eq_true hover)
      rw [hkeep]
      exact Yields.task_bind ih Yields.done
    | cons l locks =>
      have hskip : (r :: rest).filter (fun r => v.overlapping r.id stay = []) =
          rest.filter fun r => v.overlapping r.id stay = [] :=
        List.filter_cons_of_neg (by simp [hover])
      rw [hskip]
      exact ih

/-- A search that nobody interferes with shows what is offered. -/
theorem yields_available (stay : Stay) :
    Yields now v (available stay).run (.ok (byId (v.offered stay))) v :=
  Yields.task_bind (yields_ask (c := .operationalRooms) rfl)
    (Yields.task_bind (yields_free stay v.operational) Yields.done)

theorem yields_recommend (stay : Stay) :
    Yields now v (recommend stay).run (.ok (ranked (v.offered stay))) v :=
  Yields.task_bind (yields_available stay) Yields.done

theorem mem_byId_offered (hv : v.Ascending) {room : RoomId} {stay : Stay} :
    room ∈ (byId (v.offered stay)).map (·.id) ↔ v.Offers room stay := by
  rw [← hv.exists_offered, List.mem_map]
  simp only [mem_byId, exists_exists_and_eq_and]
  rfl

/-- In a house in which no call is under way, an order with a uid and a request that no lock has is
met for a room that a search shows, and for no other. Otherwise the answer tells whether the room is
not there, out of service or taken. -/
theorem listed_iff_lockable (now : Instant) (es : List (Event House.Call)) (n : NewLock)
    (hquiet : (House.after now es).Quiet)
    (hraced : (House.after now es).world.inventory.raced = false)
    (hnew : ∀ l ∈ (House.after now es).world.inventory.locks,
      l.uid ≠ n.uid ∧ l.request ≠ n.request) :
    let w := (House.after now es).world
    ∃ p xs, (∃ u, (confirm n).advance w = (.inl p, u)) ∧
      (∃ u, (available n.stay).run.advance w = (.inl (.ok xs), u)) ∧
      ((∃ l, p = .ok (.locked l)) ↔ n.room ∈ xs.map (·.id)) ∧
      (w.inventory.serves? n.room = none → p = .error (.notFound n.room)) ∧
      (w.inventory.serves? n.room = some false → p = .error (.notOperational n.room)) ∧
      (w.inventory.serves? n.room = some true → w.inventory.overlapping n.room n.stay ≠ [] →
        p = .error (.unavailable n.room n.stay)) := by
  intro w
  have htidy := House.tidy_after now es hquiet
  have hv : w.inventory.Ascending :=
    ((Scene.opening House.Call.process (.atTime now)).extends_run es).ascending
      Inventory.ascending_empty
  obtain ⟨u, hconfirm, -⟩ :=
    advance_confirm (w := w) n ⟨htidy.undisturbed, htidy.sound, htidy.visitors⟩ hraced
  obtain ⟨u', hlist, -⟩ := yields_available n.stay w htidy.undisturbed rfl rfl
  refine ⟨_, _, ⟨u, hconfirm⟩, ⟨u', hlist⟩, ?_, fun h => ?_, fun h => ?_, fun h hover => ?_⟩
  · rw [mem_byId_offered hv]
    exact Inventory.placed_iff_offers hnew
  · rw [Inventory.place_of_serves?_eq_none h]
  · rw [Inventory.place_of_out_of_service hnew h]
  · rw [Inventory.place_of_taken hnew h hover]

/-- Two rooms, of which one is taken. -/
def oneTaken : List (Event House.Call) :=
  [.start (.keeper (.addRoom Sample.room)), .advance 0, .advance 0,
    .start (.keeper (.addRoom Sample.room)), .advance 1, .advance 1,
    .start (.keeper (.confirm (Sample.order 1)))] ++ List.replicate 10 (.advance 2)

theorem listed_iff_lockable_taken :
    ∃ xs, (∃ u, (confirm (Sample.order 2)).advance (House.after Sample.newYear oneTaken).world =
        (.inl (.error (.unavailable ⟨1⟩ Sample.twoNights)), u)) ∧
      (∃ u, (available Sample.twoNights).run.advance (House.after Sample.newYear oneTaken).world =
        (.inl (.ok xs), u)) ∧ ⟨1⟩ ∉ xs.map (·.id) := by
  obtain ⟨p, xs, hconfirm, hlist, hiff, -, -, htaken⟩ :=
    listed_iff_lockable Sample.newYear oneTaken (Sample.order 2) (by decide) (by decide) (by decide)
  have hp := htaken (by decide) (by decide)
  rw [hp] at hconfirm hiff
  refine ⟨xs, hconfirm, hlist, fun hmem => ?_⟩
  obtain ⟨l, hl⟩ := hiff.mpr hmem
  cases hl

end Keeper

end Lodging
