import Lodging.Proofs.Calendar.Days
import Lodging.Proofs.Json.Strictness
import Lodging.World.Nights
import Lodging.World.Sample
import Mathlib.Data.Int.Interval
import Mathlib.Data.Set.Card

/-!
A stay is the set of its nights. However it was made, its arrival comes before its departure; the
number of its nights is the number of dates from the one up to the other; and two stays overlap if
and only if they have a night in common.
-/

namespace Lodging

namespace Stay

variable {a b s : Stay} {d : Date}

theorem includes_iff : s.includes d ↔
    s.arrival.number ≤ d.number ∧ d.number < s.departure.number := by
  rw [Date.number_le_iff, Date.number_lt_iff]
  exact Iff.rfl

/-- The nights of a stay are numbered from the arrival up to the departure. -/
theorem image_number (s : Stay) :
    Date.number '' {d | s.includes d} =
      {n | s.arrival.number ≤ n ∧ n < s.departure.number} := by
  ext n
  constructor
  · rintro ⟨d, hd, rfl⟩
    exact includes_iff.mp hd
  · rintro ⟨hfirst, hlast⟩
    -- the date as many days after the arrival as the number is beyond that of the arrival
    obtain ⟨d, hd⟩ := Date.exists_number (a := s.arrival) (b := s.departure)
      (n - s.arrival.number).toNat (by omega)
    have hn : d.number = n := by omega
    refine ⟨d, ?_, hn⟩
    show s.includes d
    rw [includes_iff]
    omega

theorem finite_nights (s : Stay) : {d | s.includes d}.Finite := by
  apply Set.Finite.of_finite_image _ Date.number_injective.injOn
  rw [image_number]
  exact Set.finite_Ico _ _

theorem ncard_nights (s : Stay) : ({d | s.includes d}.ncard : Int) = s.nights := by
  have hcard : {d | s.includes d}.ncard = (s.departure.number - s.arrival.number).toNat := by
    calc {d | s.includes d}.ncard
        = (Date.number '' {d | s.includes d}).ncard :=
          (Set.ncard_image_of_injective _ Date.number_injective).symm
      _ = (Set.Ico s.arrival.number s.departure.number).ncard := by
          rw [image_number]
          rfl
      _ = (Finset.Ico s.arrival.number s.departure.number).card := by
          rw [← Finset.coe_Ico, Set.ncard_coe_finset]
      _ = (s.departure.number - s.arrival.number).toNat := Int.card_Ico _ _
  have hordered := Date.number_lt s.ordered
  unfold nights
  omega

/-- One stay right after another makes a stay of the nights of both. -/
theorem exists_joined (h : a.departure = b.arrival) :
    ∃ c, ofDates a.arrival b.departure = .ok c ∧ c.nights = a.nights + b.nights := by
  have ha := Date.number_lt a.ordered
  have hb := Date.number_lt b.ordered
  have hordered : a.arrival < b.departure := by
    rw [← Date.number_lt_iff]
    rw [h] at ha
    omega
  refine ⟨⟨a.arrival, b.departure, hordered⟩, ofDates_eq_ok.mpr ⟨rfl, rfl⟩, ?_⟩
  show b.departure.number - a.arrival.number =
    (a.departure.number - a.arrival.number) + (b.departure.number - b.arrival.number)
  rw [h]
  omega

/-- Stays overlap in the night of the later arrival. -/
theorem overlaps_iff : a.overlaps b = true ↔ ∃ d, a.includes d ∧ b.includes d := by
  have ha := Date.number_lt a.ordered
  have hb := Date.number_lt b.ordered
  have hdates : a.overlaps b = true ↔
      a.arrival.number < b.departure.number ∧ b.arrival.number < a.departure.number := by
    unfold overlaps
    rw [Bool.and_eq_true, decide_eq_true_iff, decide_eq_true_iff, Date.number_lt_iff,
      Date.number_lt_iff]
  simp only [hdates, includes_iff]
  constructor
  · rintro ⟨hab, hba⟩
    by_cases h : a.arrival.number ≤ b.arrival.number
    · exact ⟨b.arrival, by omega, by omega⟩
    · exact ⟨a.arrival, by omega, by omega⟩
  · rintro ⟨d, hda, hdb⟩
    omega

theorem overlaps_of_joined (h : a.departure = b.arrival) :
    a.overlaps b = false ∧ b.overlaps a = false := by
  have hnone : a.overlaps b = false := by
    rw [← Bool.not_eq_true, overlaps_iff]
    rintro ⟨d, hda, hdb⟩
    rw [includes_iff] at hda hdb
    rw [h] at hda
    omega
  exact ⟨hnone, (overlaps_comm b a).trans hnone⟩

end Stay

namespace Wire

variable {text : String} {dates : Date × Date} {draft : LockDraft}

/-- Two dates that are well written are a stay if they are in order. -/
theorem read_stay (h : read text = .ok dates) :
    read (α := Stay) text = (Stay.ofDates dates.1 dates.2).mapError .noNights := by
  obtain ⟨hdates, halone⟩ := read_eq_ok h
  rw [read_of_alone halone]
  change (Wire.dates.decoder (Document.ofText text).root).bind (fun d =>
    (Stay.ofDates d.1 d.2).mapError DecodeFailure.noNights) = _
  have hdecoder : Wire.dates.decoder (Document.ofText text).root = .ok dates := hdates
  rw [hdecoder]
  rfl

/-- The record of a lock, whose dates are read in one way or another. -/
def lockRecord {δ α : Type} (make : Int → RoomId → δ → Uid → RequestId → Instant → α)
    (dates : Decoder δ) : Record α :=
  make <$> field "id" <*> field "room_id" <*> .field "range" dates <*> field "booking_uid" <*>
    field "request_id" <*> field "created_at"

section LockRecord

variable {δ α : Type} {make : Int → RoomId → δ → Uid → RequestId → Instant → α} {dates : Decoder δ}
  {found : List (String × Node)} {a : α}

/-- The parts of a lock are read one after another. -/
theorem build_lockRecord : (lockRecord make dates).build found = do
    let id ← (field "id").build found
    let room ← (field "room_id").build found
    let dates ← (Record.field "range" dates).build found
    let uid ← (field "booking_uid").build found
    let request ← (field "request_id").build found
    let createdAt ← (field "created_at").build found
    return make id room dates uid request createdAt := by
  have hseq {β γ : Type} (f : Record (β → γ)) (r : Record β) :
      (f <*> r).build found = f.build found >>= fun g => r.build found >>= fun a => pure (g a) :=
    rfl
  have hmap {β γ : Type} (f : β → γ) (r : Record β) :
      (f <$> r).build found = r.build found >>= fun a => pure (f a) := rfl
  unfold lockRecord
  simp only [hseq, hmap, bind_assoc, pure_bind]

theorem build_range {n : Node} (h : found.lookup "range" = some n) :
    (Record.field "range" dates).build found = dates n := by
  simp only [Record.field, h]

/-- The dates of a lock that is read are read from somewhere. -/
theorem exists_range (h : (lockRecord make dates).build found = .ok a) :
    ∃ n, found.lookup "range" = some n := by
  rw [build_lockRecord] at h
  obtain ⟨id, -, h⟩ := exists_of_bind_eq_ok h
  obtain ⟨room, -, h⟩ := exists_of_bind_eq_ok h
  obtain ⟨d, hd, -⟩ := exists_of_bind_eq_ok h
  cases hrange : found.lookup "range" with
  | some n => exact ⟨n, rfl⟩
  | none =>
    simp only [Record.field, hrange] at hd
    cases hd

end LockRecord

/-- A lock that is well written up to the order of its dates is a lock if they are in order. -/
theorem read_lock (h : read text = .ok draft) :
    read (α := Lock) text = draft.lock.mapError .noNights := by
  obtain ⟨hdraft, halone⟩ := read_eq_ok h
  obtain ⟨found, hbuild, hlock⟩ := Record.decoder_replaced [⟨"id", _, _⟩, ⟨"room_id", _, _⟩]
    (r := lockRecord LockDraft.mk decode) (s := lockRecord Lock.mk decode) rfl rfl rfl (by simp)
    hdraft
  obtain ⟨n, hn⟩ := exists_range hbuild
  have hstay : decode (α := Stay) n = decode (α := Date × Date) n >>= fun d =>
      (Stay.ofDates d.1 d.2).mapError .noNights := rfl
  have hdecode : decode (α := Lock) (Document.ofText text).root =
      ((decode (α := Stay) n).map fun _ => ()).bind fun _ =>
        (lockRecord Lock.mk decode).build found := hlock n hn
  rw [read_of_alone halone, hdecode, build_lockRecord, build_range hn]
  -- every part of the lock but its stay is what it is in the draft
  rw [build_lockRecord, build_range hn] at hbuild
  obtain ⟨id, hid, hbuild⟩ := exists_of_bind_eq_ok hbuild
  obtain ⟨room, hroom, hbuild⟩ := exists_of_bind_eq_ok hbuild
  obtain ⟨dates, hdates, hbuild⟩ := exists_of_bind_eq_ok hbuild
  obtain ⟨uid, huid, hbuild⟩ := exists_of_bind_eq_ok hbuild
  obtain ⟨request, hrequest, hbuild⟩ := exists_of_bind_eq_ok hbuild
  obtain ⟨createdAt, hcreatedAt, hbuild⟩ := exists_of_bind_eq_ok hbuild
  cases hbuild
  rw [hstay, hdates, hid, hroom, huid, hrequest, hcreatedAt]
  unfold LockDraft.lock
  cases hdated : Stay.ofDates dates.1 dates.2 with
  | error e => simp [hdated, bind, Except.bind, Except.map, Except.mapError]
  | ok stay => simp [hdated, bind, Except.bind, Except.map, Except.mapError, pure, Except.pure]

/-- A stay is read where its two dates are. -/
theorem read_stay_eq_ok {s : Stay} :
    read text = .ok s ↔ read text = .ok (s.arrival, s.departure) := by
  constructor
  · intro h
    obtain ⟨hstay, halone⟩ := read_eq_ok h
    obtain ⟨dates, hdates, hordered⟩ := exists_of_bind_eq_ok hstay
    have hpair : read (α := Date × Date) text = .ok dates := (read_of_alone halone).trans hdates
    rw [read_stay hpair] at h
    cases hof : Stay.ofDates dates.1 dates.2 with
    | error e =>
      rw [hof] at h
      cases h
    | ok stay =>
      rw [hof] at h
      cases h
      obtain ⟨harrival, hdeparture⟩ := Stay.ofDates_eq_ok.mp hof
      rw [hpair, harrival, hdeparture]
  · intro h
    have hof : Stay.ofDates s.arrival s.departure = .ok s := Stay.ofDates_eq_ok.mpr ⟨rfl, rfl⟩
    rw [read_stay h, hof]
    rfl

end Wire

namespace Stay

/-- Two dates make a stay if and only if the first comes before the second, also where they are read
from a text, by themselves or in a lock. A stay has as many nights as there are dates from its
arrival up to its departure, the nights of stays one right after the other add up, and two stays
overlap if and only if they have a date in common. -/
theorem stays_are_their_nights :
    (∀ arrival departure : Date,
      (∀ s, ofDates arrival departure = .ok s ↔
        arrival < departure ∧ s.arrival = arrival ∧ s.departure = departure) ∧
      ∀ e, ofDates arrival departure = .error e ↔
        departure ≤ arrival ∧ e = ⟨arrival, departure⟩) ∧
    (∀ text,
      (∀ s : Stay, Wire.read text = .ok s ↔
        s.arrival < s.departure ∧ Wire.read text = .ok (s.arrival, s.departure)) ∧
      (∀ l : Lock, Wire.read text = .ok l → l.stay.arrival < l.stay.departure) ∧
      (∀ dates : Date × Date, Wire.read text = .ok dates →
        Wire.read (α := Stay) text = (ofDates dates.1 dates.2).mapError .noNights) ∧
      ∀ draft : LockDraft, Wire.read text = .ok draft →
        Wire.read (α := Lock) text = draft.lock.mapError .noNights) ∧
    ∀ a b : Stay,
      {d | a.includes d}.Finite ∧ ({d | a.includes d}.ncard : Int) = a.nights ∧
      (a.overlaps b = true ↔ ∃ d, a.includes d ∧ b.includes d) ∧ a.overlaps b = b.overlaps a ∧
      (a.departure = b.arrival → a.overlaps b = false ∧ b.overlaps a = false ∧
        ∃ c, ofDates a.arrival b.departure = .ok c ∧ c.nights = a.nights + b.nights) := by
  refine ⟨fun arrival departure => ⟨fun s => ?_, fun e => ofDates_eq_error⟩,
    fun text => ⟨fun s => ?_, fun l _ => l.stay.ordered, fun dates => Wire.read_stay,
      fun draft => Wire.read_lock⟩, fun a b => ?_⟩
  · rw [ofDates_eq_ok]
    constructor
    · rintro ⟨rfl, rfl⟩
      exact ⟨s.ordered, rfl, rfl⟩
    · exact And.right
  · rw [Wire.read_stay_eq_ok]
    exact ⟨fun h => ⟨s.ordered, h⟩, And.right⟩
  · refine ⟨a.finite_nights, a.ncard_nights, overlaps_iff, overlaps_comm a b, fun h => ?_⟩
    obtain ⟨hab, hba⟩ := overlaps_of_joined h
    exact ⟨hab, hba, exists_joined h⟩

/-- The night before the leap day of a full century. -/
def beforeLeapDay : Stay := ⟨⟨2000, 2, 28, by decide⟩, ⟨2000, 2, 29, by decide⟩, by decide⟩

/-- All nights from that leap day to the end of the calendar. -/
def fromLeapDay : Stay := ⟨⟨2000, 2, 29, by decide⟩, ⟨262142, 12, 31, by decide⟩, by decide⟩

/-- Two dates as a row. -/
def datesRow (first last : String) : String := s!"[\"{first}\", \"{last}\"]"

/-- A lock between two dates as a row. -/
def lockRow (first last : String) : String :=
  s!"[1, 1, {datesRow first last}, \"{Sample.uid 1}\", \"r\", \"2300-01-01T00:00:00Z\"]"

def lockedNight : Lock := ⟨1, ⟨1⟩, beforeLeapDay, Sample.uid 1, ⟨"r"⟩, Sample.newYear⟩

/-- The same night the other way round. -/
def reversed : LockDraft :=
  ⟨1, ⟨1⟩, (fromLeapDay.arrival, beforeLeapDay.arrival), Sample.uid 1, ⟨"r"⟩, Sample.newYear⟩

theorem stays_are_their_nights_over_leap_day :
    (Wire.read (lockRow "2000-2-28" "2000-2-29") = .ok lockedNight ∧
      lockedNight.stay.arrival < lockedNight.stay.departure) ∧
    (Wire.read (datesRow "2000-2-29" "2000-2-28") = .ok reversed.dates ∧
      Wire.read (α := Stay) (datesRow "2000-2-29" "2000-2-28") =
        .error (.noNights ⟨fromLeapDay.arrival, beforeLeapDay.arrival⟩)) ∧
    (Wire.read (lockRow "2000-2-29" "2000-2-28") = .ok reversed ∧
      Wire.read (α := Lock) (lockRow "2000-2-29" "2000-2-28") =
        .error (.noNights ⟨fromLeapDay.arrival, beforeLeapDay.arrival⟩)) ∧
    beforeLeapDay.departure = fromLeapDay.arrival ∧ beforeLeapDay.overlaps fromLeapDay = false ∧
      ∃ c, ofDates beforeLeapDay.arrival fromLeapDay.departure = .ok c ∧ c.nights = 95015221 := by
  obtain ⟨-, hread, hnights⟩ := stays_are_their_nights
  have hlock : Wire.read (lockRow "2000-2-28" "2000-2-29") = .ok lockedNight := by decide +kernel
  have hdates : Wire.read (datesRow "2000-2-29" "2000-2-28") = .ok reversed.dates := by
    decide +kernel
  have hdraft : Wire.read (lockRow "2000-2-29" "2000-2-28") = .ok reversed := by decide +kernel
  have hjoined : beforeLeapDay.departure = fromLeapDay.arrival := rfl
  obtain ⟨-, hlocked, -⟩ := hread (lockRow "2000-2-28" "2000-2-29")
  obtain ⟨-, -, hstay, -⟩ := hread (datesRow "2000-2-29" "2000-2-28")
  obtain ⟨-, -, -, hreversed⟩ := hread (lockRow "2000-2-29" "2000-2-28")
  obtain ⟨-, -, -, -, hadds⟩ := hnights beforeLeapDay fromLeapDay
  obtain ⟨hapart, -, c, hc, hsum⟩ := hadds hjoined
  exact ⟨⟨hlock, hlocked _ hlock⟩, ⟨hdates, hstay _ hdates⟩, ⟨hdraft, hreversed _ hdraft⟩, hjoined,
    hapart, c, hc, hsum⟩

end Stay

end Lodging
