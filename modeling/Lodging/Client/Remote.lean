import Lodging.Client.Complaint
import Lodging.Client.Gateway
import Lodging.Service.Message
import Lodging.Service.Settings
import Lodging.Text.Percent
import Lodging.Wire

/-!
The gateway to an inventory that is a service elsewhere. Its operations are requests of HTTP; what
carries them is a link, which may lose a request or its answer.
-/

namespace Lodging

/-- What comes back over a link. The body is missing if it broke off. -/
inductive Delivery where
  | answered (status : Nat) (body : Option String)
  | lost

abbrev Link := Request → Process Delivery

namespace Remote

/-- Where the inventory is, and the token that it knows the bookings by. -/
structure Peer where
  baseUrl : String
  token : String

/-- The base of all addresses, without slashes at its end. -/
def Peer.base (p : Peer) : String :=
  String.ofList (p.baseUrl.toList.reverse.dropWhile (· = '/')).reverse

/-- The target of a request to a path below the base. -/
def Peer.target (p : Peer) (path : String) : String :=
  String.ofList (Request.addressOf (p.base ++ path).toList)

/-- Text that a header can carry. -/
def sendable (s : String) : Bool :=
  s.toList.all fun c => c = '\t' || (0x20 ≤ c.toNat && c.toNat ≠ 0x7F)

def signed (p : Peer) (r : RequestId) (method path body : String)
    (headers : List (String × String)) : Request where
  method := method
  target := p.target path
  headers := (Header.authorization, "Bearer " ++ p.token) :: (Header.requestId, r.text) :: headers
  body := body

def recommendRequest (p : Peer) (stay : Stay) (r : RequestId) : Request :=
  let form := Percent.form [("start", stay.arrival.text), ("end", stay.departure.text)]
  signed p r "GET" ("/api/rooms/recommend?" ++ String.ofList form) "" []

def confirmRequest (p : Peer) (room : RoomId) (o : LockOrder) : Request :=
  signed p o.request "POST" s!"/api/rooms/{room}/confirm-availability" (Wire.write o)
    [(Header.contentType, "application/json")]

def releaseRequest (p : Peer) (room : RoomId) (uid : Uid) (r : RequestId) : Request :=
  let form := Percent.form [("bookingId", uid.text)]
  signed p r "POST" (s!"/api/rooms/{room}/release?" ++ String.ofList form) "" []

/-- What an answer says: its body if it is a success. -/
def answer : Delivery → Except CallFailure (Option String)
  | .answered status body =>
    if 200 ≤ status ∧ status < 300 then .ok body
    else .error (.ofStatus status (Complaint.ofBody? (body.getD "")))
  | .lost => .error (.transport "no answer")

/-- Sends a request, if its headers can be sent. -/
def send (link : Link) (r : Request) : Process (Except CallFailure (Option String)) :=
  if r.headers.all fun h => sendable h.2 then return answer (← link r)
  else return .error (.transport "request not sent")

/-- The rooms that a body lists. -/
def rooms (body : Option String) : Except CallFailure (List RoomSummary) :=
  match body.map Wire.read with
  | some (.ok rooms) => .ok rooms
  | _ => .error (.transport "answer not understood")

def gateway (link : Link) (peer : Peer) (p : RetryPolicy) : Gateway where
  recommend stay r := p.run Gateway.effects .recommend fun _ => do
    return (← send link (recommendRequest peer stay r)).bind rooms
  confirm room o := p.run Gateway.effects .confirm fun _ => do
    return (← send link (confirmRequest peer room o)).map fun _ => ()
  release room uid r := p.run Gateway.effects .release fun _ => do
    return (← send link (releaseRequest peer room uid r)).map fun _ => ()

end Remote

end Lodging
