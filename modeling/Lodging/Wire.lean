import Lodging.Bookings.Booking
import Lodging.Json.Basic
import Lodging.Json.Decoder
import Lodging.Json.Reader
import Lodging.Rooms.Room

/-!
The JSON form of everything that is exchanged or stored. Dates, instants and identifiers are
strings, numbers of rooms and bookings are integers of 64 bits, and records are objects.
-/

namespace Lodging

class Wire (α : Type) where
  encode : α → Json
  decode : Decoder α

namespace Wire

/-- Reads a text that holds one value. -/
def read [Wire α] (s : String) : Except DecodeFailure α := (Document.ofText s).decode decode

/-- The text of a value. -/
def write [Wire α] (a : α) : String := (encode a).compact

def ofList [Wire α] (as : List α) : Json := .array (as.map encode)

def ofOption [Wire α] : Option α → Json := Json.ofOption encode

instance : Wire String := ⟨.text, .text⟩

instance : Wire Bool := ⟨.bool, .bool⟩

/-- An integer of 64 bits. -/
instance : Wire Int := ⟨.int, .int64⟩

instance [Wire α] : Wire (List α) := ⟨ofList, .list decode⟩

instance : Wire Date := ⟨fun d => .text d.text, .spelled Date.ofText?⟩

instance : Wire Instant := ⟨fun t => .text t.text, .spelled Instant.ofText?⟩

instance : Wire Uid := ⟨fun u => .text u.text, .spelled Uid.ofText?⟩

instance : Wire RequestId := ⟨fun r => .text r.text, fun n => .mk <$> Decoder.text n⟩

instance : Wire RoomId := ⟨fun id => .int id.number, fun n => .mk <$> Decoder.int64 n⟩

instance : Wire HotelId := ⟨fun id => .int id.number, fun n => .mk <$> Decoder.int64 n⟩

instance : Wire BookingId := ⟨fun id => .int id.number, fun n => .mk <$> Decoder.int64 n⟩

instance : Wire FailureKind := ⟨fun k => .text k.name, .name FailureKind.ofName?⟩

instance : Wire Status := ⟨fun s => .text s.name, .name Status.ofName?⟩

def field [Wire α] (name : String) : Record α := .field name decode

def nullable [Wire α] (name : String) : Record (Option α) := .nullable name decode

/-- A field that may be null or missing. -/
def optional [Wire α] (name : String) : Record (Option α) :=
  .defaulted name (Decoder.nullable decode) none

/-- Two dates in any order. -/
def dates : Record (Date × Date) := Prod.mk <$> field "start" <*> field "end"

/-- Two dates, of which the first must come before the second. -/
def decodeStay : Decoder Stay := fun n => do
  let (arrival, departure) ← dates.decoder n
  (Stay.ofDates arrival departure).mapError .noNights

instance : Wire Stay where
  encode s := .object [("start", encode s.arrival), ("end", encode s.departure)]
  decode := decodeStay

instance : Wire Problem where
  encode p := .object [("timestamp", encode p.timestamp), ("httpStatus", .int p.status),
    ("errorCode", encode p.code), ("message", ofOption p.message), ("path", ofOption p.path),
    ("correlationId", ofOption p.correlation)]
  decode := Record.decoder (Problem.mk <$> field "timestamp" <*> .field "httpStatus" (.nat 16) <*>
    field "errorCode" <*> optional "message" <*> optional "path" <*> optional "correlationId")

instance : Wire Room where
  encode r := .object [("id", encode r.id), ("hotel_id", encode r.hotel),
    ("number", encode r.number), ("operational", encode r.operational),
    ("times_booked", encode r.timesBooked)]
  decode := Record.decoder (Room.mk <$> field "id" <*> field "hotel_id" <*> field "number" <*>
    field "operational" <*> field "times_booked")

instance : Wire RoomSummary where
  encode r := .object [("id", encode r.id), ("hotelId", encode r.hotel),
    ("number", encode r.number), ("available", encode r.available),
    ("timesBooked", encode r.timesBooked)]
  decode := Record.decoder (RoomSummary.mk <$> field "id" <*> field "hotelId" <*>
    field "number" <*> field "available" <*> .defaulted "timesBooked" decode 0)

instance : Wire Lock where
  encode l := .object [("id", encode l.id), ("room_id", encode l.room), ("range", encode l.stay),
    ("booking_uid", encode l.uid), ("request_id", encode l.request),
    ("created_at", encode l.createdAt)]
  decode := Record.decoder (Lock.mk <$> field "id" <*> field "room_id" <*> field "range" <*>
    field "booking_uid" <*> field "request_id" <*> field "created_at")

instance : Wire LockOrder where
  encode o := .object [("startDate", encode o.arrival), ("endDate", encode o.departure),
    ("bookingId", encode o.uid), ("requestId", encode o.request)]
  decode := Record.decoder (LockOrder.mk <$> field "startDate" <*> field "endDate" <*>
    field "bookingId" <*> field "requestId")

instance : Wire BookingSummary where
  encode b := .object [("id", encode b.id), ("uid", encode b.uid), ("roomId", encode b.room),
    ("startDate", encode b.arrival), ("endDate", encode b.departure), ("status", encode b.status)]
  decode := Record.decoder (BookingSummary.mk <$> field "id" <*> field "uid" <*>
    field "roomId" <*> field "startDate" <*> field "endDate" <*> field "status")

instance : Wire BookingRequest where
  encode q := .object [("startDate", ofOption q.arrival), ("endDate", ofOption q.departure),
    ("autoSelect", encode q.anyRoom), ("roomId", ofOption q.room)]
  decode := Record.decoder (BookingRequest.mk <$> nullable "startDate" <*> nullable "endDate" <*>
    .defaulted "autoSelect" decode false <*> nullable "roomId")

instance [Wire α] : Wire (Page α) where
  encode p := .object [("content", encode p.content), ("page", .int p.page), ("size", .int p.size),
    ("totalElements", .int p.total)]
  decode := Record.decoder (Page.mk <$> field "content" <*> .field "page" (.nat 32) <*>
    .field "size" (.nat 32) <*> .field "totalElements" (.nat 64))

end Wire

end Lodging
