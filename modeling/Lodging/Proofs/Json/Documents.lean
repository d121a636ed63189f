import Lodging.Proofs.Json.Bounds
import Lodging.Proofs.Text.Instants

/-!
All documents come back as they were written. A type has an exact JSON form if its bounded values
are faithful and no text has a value out of bounds; then whatever way a document was spelled, its
value is written and read again without a loss.
-/

namespace Lodging

namespace Decoder

variable {α : Type}

theorem nullable_of_ne {d : Decoder α} {n : Node} (h : n ≠ .null) :
    d.nullable n = some <$> d n := by
  cases n with
  | null => exact absurd rfl h
  | _ => rfl

theorem int_ofInt (i : Int) : int (.number (.ofInt i)) = .ok i := by
  unfold int ofOption
  simp only [Numeral.int?_ofInt]

theorem filter_of_ok {d : Decoder α} {p : α → Bool} {n : Node} {a : α} (h : d n = .ok a)
    (hp : p a = true) : d.filter p n = .ok a := by
  unfold filter
  rw [h]
  exact if_pos hp

theorem nat_ofInt {bits k : Nat} (h : k < Decimal.capacity bits) :
    nat bits (.number (.ofInt k)) = .ok k := by
  unfold nat
  rw [filter_of_ok (int_ofInt k) (decide_eq_true (by omega))]
  rfl

theorem name_text {read : String → Option α} {s : String} {a : α} (h : read s = some a) :
    name read (.text s) = .ok a := spelled_text h

end Decoder

namespace Record

variable {α : Type} {es : List (String × Node)} {name : String} {n : Node} {d : Decoder α}
  {o : Option α}

theorem meets_nullable (hmem : (name, n) ∈ es) (hd : d.nullable n = .ok o) :
    (nullable name d).Meets es o := by
  constructor
  · intro f hf
    obtain rfl := List.mem_singleton.mp hf
    exact ⟨n, hmem, by simp only [hd]; rfl⟩
  · intro found hfound
    simp only [nullable, hfound (name, n) hmem, hd]

end Record

namespace Wire

open Bounded (Fits Dated)
open Record (Meets meets_field meets_nullable meets_defaulted)

theorem faithful_bookingId {id : BookingId} (h : Decimal.fits64 id.number = true) : Faithful id :=
  decode_number h

theorem faithful_instant {t : Instant} (h : t.Plain) : Faithful t :=
  Decoder.spelled_text (Instant.ofText?_text h)

theorem faithful_failureKind (k : FailureKind) : Faithful k :=
  Decoder.name_text (FailureKind.ofName?_name k)

theorem faithful_status (s : Status) : Faithful s := Decoder.name_text (Status.ofName?_name s)

theorem faithful_stay (s : Stay) : Faithful s := by
  have hdates : dates.decoder (encode s).node = .ok (s.arrival, s.departure) := by
    refine Meets.decode [("start", encode s.arrival), ("end", encode s.departure)] ?_ rfl
      (by decide)
    refine Meets.seq (Meets.map ?_ Prod.mk) ?_
    · exact meets_field (by simp) (faithful_date s.arrival)
    · exact meets_field (by simp) (faithful_date s.departure)
  have hstay : Stay.ofDates s.arrival s.departure = .ok s := Stay.ofDates_eq_ok.mpr ⟨rfl, rfl⟩
  change (dates.decoder (encode s).node).bind (fun d =>
    (Stay.ofDates d.1 d.2).mapError DecodeFailure.noNights) = _
  rw [hdates]
  change (Stay.ofDates s.arrival s.departure).mapError DecodeFailure.noNights = _
  rw [hstay]
  rfl

/-- What may be absent is null then, and must not be null else. -/
theorem nullable_ofOption {α : Type} [Wire α] {o : Option α}
    (h : ∀ a ∈ o, Faithful a ∧ (encode a).node ≠ .null) :
    Decoder.nullable decode (ofOption o).node = .ok o := by
  cases o with
  | none => rfl
  | some a =>
    obtain ⟨hfaithful, hnode⟩ := h a rfl
    change Decoder.nullable decode (encode a).node = _
    rw [Decoder.nullable_of_ne hnode, hfaithful]
    rfl

theorem nullable_text (o : Option String) :
    Decoder.nullable decode (ofOption o).node = .ok o :=
  nullable_ofOption fun s _ => ⟨faithful_text s, nofun⟩

theorem nullable_date (o : Option Date) : Decoder.nullable decode (ofOption o).node = .ok o :=
  nullable_ofOption fun d _ => ⟨faithful_date d, nofun⟩

theorem faithful_problem {p : Problem} (hfits : Fits p) (hdated : Dated p) : Faithful p := by
  refine Meets.decode [("timestamp", encode p.timestamp), ("httpStatus", .int p.status),
    ("errorCode", encode p.code), ("message", ofOption p.message), ("path", ofOption p.path),
    ("correlationId", ofOption p.correlation)] ?_ rfl (by decide)
  refine Meets.seq (Meets.seq (Meets.seq (Meets.seq (Meets.seq (Meets.map ?_ Problem.mk) ?_) ?_)
    ?_) ?_) ?_
  · exact meets_field (by simp) (faithful_instant (hdated _ List.mem_cons_self))
  · exact meets_field (n := .number (.ofInt p.status)) (by simp [Json.node])
      (Decoder.nat_ofInt hfits)
  · exact meets_field (by simp) (faithful_text p.code)
  · exact meets_defaulted none (by simp) (nullable_text p.message)
  · exact meets_defaulted none (by simp) (nullable_text p.path)
  · exact meets_defaulted none (by simp) (nullable_text p.correlation)

theorem faithful_room {r : Room} (h : Fits r) : Faithful r := by
  refine Meets.decode [("id", encode r.id), ("hotel_id", encode r.hotel),
    ("number", encode r.number), ("operational", encode r.operational),
    ("times_booked", encode r.timesBooked)] ?_ rfl (by decide)
  refine Meets.seq (Meets.seq (Meets.seq (Meets.seq (Meets.map ?_ Room.mk) ?_) ?_) ?_) ?_
  · exact meets_field (by simp) (faithful_roomId h.id)
  · exact meets_field (by simp) (faithful_hotelId h.hotel)
  · exact meets_field (by simp) (faithful_text r.number)
  · exact meets_field (by simp) (faithful_bool r.operational)
  · exact meets_field (by simp) (faithful_int h.timesBooked)

theorem faithful_lock {l : Lock} (hfits : Fits l) (hdated : Dated l) : Faithful l := by
  refine Meets.decode [("id", encode l.id), ("room_id", encode l.room), ("range", encode l.stay),
    ("booking_uid", encode l.uid), ("request_id", encode l.request),
    ("created_at", encode l.createdAt)] ?_ rfl (by decide)
  refine Meets.seq (Meets.seq (Meets.seq (Meets.seq (Meets.seq (Meets.map ?_ Lock.mk) ?_) ?_) ?_)
    ?_) ?_
  · exact meets_field (by simp) (faithful_int hfits.1)
  · exact meets_field (by simp) (faithful_roomId hfits.2)
  · exact meets_field (by simp) (faithful_stay l.stay)
  · exact meets_field (by simp) (faithful_uid l.uid)
  · exact meets_field (by simp) (faithful_requestId l.request)
  · exact meets_field (by simp) (faithful_instant (hdated _ List.mem_cons_self))

theorem faithful_bookingSummary {b : BookingSummary} (h : Fits b) : Faithful b := by
  refine Meets.decode [("id", encode b.id), ("uid", encode b.uid), ("roomId", encode b.room),
    ("startDate", encode b.arrival), ("endDate", encode b.departure), ("status", encode b.status)]
    ?_ rfl (by decide)
  refine Meets.seq (Meets.seq (Meets.seq (Meets.seq (Meets.seq (Meets.map ?_ BookingSummary.mk)
    ?_) ?_) ?_) ?_) ?_
  · exact meets_field (by simp) (faithful_bookingId h.1)
  · exact meets_field (by simp) (faithful_uid b.uid)
  · exact meets_field (by simp) (faithful_roomId h.2)
  · exact meets_field (by simp) (faithful_date b.arrival)
  · exact meets_field (by simp) (faithful_date b.departure)
  · exact meets_field (by simp) (faithful_status b.status)

theorem faithful_bookingRequest {q : BookingRequest} (h : Fits q) : Faithful q := by
  have hroom : Decoder.nullable decode (ofOption q.room).node = .ok q.room :=
    nullable_ofOption fun id hid => ⟨faithful_roomId (h id hid), nofun⟩
  refine Meets.decode [("startDate", ofOption q.arrival), ("endDate", ofOption q.departure),
    ("autoSelect", encode q.anyRoom), ("roomId", ofOption q.room)] ?_ rfl (by decide)
  refine Meets.seq (Meets.seq (Meets.seq (Meets.map ?_ BookingRequest.mk) ?_) ?_) ?_
  · exact meets_nullable (by simp) (nullable_date q.arrival)
  · exact meets_nullable (by simp) (nullable_date q.departure)
  · exact meets_defaulted false (by simp) (faithful_bool q.anyRoom)
  · exact meets_nullable (by simp) hroom

/-- A type whose bounded values come back from their JSON, and whose decoder keeps the bounds. -/
class Exact (α : Type) [Wire α] [Bounded α] : Prop where
  faithful : ∀ a : α, Fits a → Dated a → Faithful a
  gives : (decode (α := α)).Gives Fits

/-- A type whose values are all faithful. -/
theorem Exact.of_faithful {α : Type} [Wire α] [Bounded α] (h : ∀ a : α, Faithful a)
    (hfits : ∀ a : α, Fits a) : Exact α := ⟨fun a _ _ => h a, fun _ a _ => hfits a⟩

instance : Exact Date := .of_faithful faithful_date fun _ => trivial

instance : Exact Stay := .of_faithful faithful_stay fun _ => trivial

instance : Exact Uid := .of_faithful faithful_uid fun _ => trivial

instance : Exact RequestId := .of_faithful faithful_requestId fun _ => trivial

instance : Exact FailureKind := .of_faithful faithful_failureKind fun _ => trivial

instance : Exact Status := .of_faithful faithful_status fun _ => trivial

instance : Exact LockOrder := .of_faithful faithful_lockOrder fun _ => trivial

instance : Exact RoomId := ⟨fun _ h _ => faithful_roomId h, gives_roomId⟩

instance : Exact Problem := ⟨fun _ => faithful_problem, gives_problem⟩

instance : Exact RoomSummary := ⟨fun _ h _ => faithful_roomSummary h, gives_roomSummary⟩

instance : Exact Room := ⟨fun _ h _ => faithful_room h, gives_room⟩

instance : Exact Lock := ⟨fun _ => faithful_lock, gives_lock⟩

instance : Exact BookingSummary := ⟨fun _ h _ => faithful_bookingSummary h, gives_bookingSummary⟩

instance : Exact BookingRequest := ⟨fun _ h _ => faithful_bookingRequest h, gives_bookingRequest⟩

theorem faithful_page {α : Type} [Wire α] [Bounded α] [Exact α] {p : Page α} (hfits : Fits p)
    (hdated : Dated p) : Faithful p := by
  obtain ⟨hcontent, hpage, hsize, htotal⟩ := hfits
  have hitems : ∀ a ∈ p.content, Faithful a := fun a ha =>
    Exact.faithful a (hcontent a ha) fun t ht => hdated t (List.mem_flatMap.mpr ⟨a, ha, ht⟩)
  have hnames : ["content", "page", "size", "totalElements"].Nodup := by decide
  refine Meets.decode [("content", encode p.content), ("page", .int p.page),
    ("size", .int p.size), ("totalElements", .int p.total)] ?_ rfl hnames
  refine Meets.seq (Meets.seq (Meets.seq (Meets.map ?_ Page.mk) ?_) ?_) ?_
  · exact meets_field (by simp) (faithful_list hitems)
  · exact meets_field (n := .number (.ofInt p.page)) (by simp [Json.node])
      (Decoder.nat_ofInt hpage)
  · exact meets_field (n := .number (.ofInt p.size)) (by simp [Json.node])
      (Decoder.nat_ofInt hsize)
  · exact meets_field (n := .number (.ofInt p.total)) (by simp [Json.node])
      (Decoder.nat_ofInt htotal)

instance {α : Type} [Wire α] [Bounded α] [Exact α] : Exact (Page α) :=
  ⟨fun _ => faithful_page, gives_page Exact.gives⟩

instance : (f : Form) → Exact f.Value
  | .date => inferInstanceAs (Exact Date)
  | .stay => inferInstanceAs (Exact Stay)
  | .uid => inferInstanceAs (Exact Uid)
  | .requestId => inferInstanceAs (Exact RequestId)
  | .roomId => inferInstanceAs (Exact RoomId)
  | .failureKind => inferInstanceAs (Exact FailureKind)
  | .problem => inferInstanceAs (Exact Problem)
  | .lock => inferInstanceAs (Exact Lock)
  | .lockOrder => inferInstanceAs (Exact LockOrder)
  | .roomSummary => inferInstanceAs (Exact RoomSummary)
  | .room => inferInstanceAs (Exact Room)
  | .status => inferInstanceAs (Exact Status)
  | .bookingSummary => inferInstanceAs (Exact BookingSummary)
  | .bookingRequest => inferInstanceAs (Exact BookingRequest)
  | .bookingPage => inferInstanceAs (Exact (Page BookingSummary))

variable {α : Type} [Wire α] [Bounded α] [Exact α]

/-- However a text spells a value, the value is within its bounds. -/
theorem fits_of_read {s : String} {a : α} (h : read s = .ok a) : Fits a :=
  Exact.gives _ _ (read_eq_ok h).1

/-- A bounded value whose instants have texts is read from its own text. -/
theorem read_write_of_fits {a : α} (hfits : Fits a) (hdated : Dated a) :
    read (write a) = .ok a := read_write (Exact.faithful a hfits hdated)

/-- In every kind of document, a value within the bounds is read back from its text; and whatever
text was read, its value is within the bounds and is written as a text that is read as the same
value and written again as it is. -/
theorem documents_come_back (f : Form) :
    (∀ a : f.Value, Fits a → Dated a → read (write a) = .ok a) ∧
      ∀ (s : String) (a : f.Value), read s = .ok a → Dated a →
        Fits a ∧ read (write a) = .ok a ∧
          (read (α := f.Value) (write a)).map write = .ok (write a) := by
  refine ⟨fun a hfits hdated => read_write_of_fits hfits hdated, fun s a hread hdated => ?_⟩
  have hfits : Fits a := fits_of_read hread
  have hagain : read (write a) = .ok a := read_write_of_fits hfits hdated
  refine ⟨hfits, hagain, ?_⟩
  rw [hagain]
  rfl

/-- A problem of half a second after midnight, local time. -/
def lateProblem : Problem where
  timestamp := ⟨⟨0, 2, 29, by decide⟩, 79200, 500000000, by decide, by decide⟩
  status := 409
  code := "é"
  message := none
  path := none
  correlation := none

/-- The same as a row that leaves out what it can, each part of it spelled oddly. -/
def oddRow : String := "[\"0-3-1 00:00:00.5+02:00\", 409, \"\\u00e9\"]"

theorem documents_come_back_odd_row :
    read oddRow = .ok lateProblem ∧ Dated lateProblem ∧ Fits lateProblem ∧
      read (write lateProblem) = .ok lateProblem ∧
        (read (α := Problem) (write lateProblem)).map write = .ok (write lateProblem) := by
  have hread : read oddRow = .ok lateProblem := by decide +kernel
  have hdated : Dated lateProblem := by decide
  exact ⟨hread, hdated, (documents_come_back .problem).2 oddRow lateProblem hread hdated⟩

end Wire

end Lodging
