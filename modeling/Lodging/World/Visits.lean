import Lodging.Service.App
import Lodging.World.Scene

/-!
Requests to the services, side by side in one world: what callers bring along to be let in, which
route their requests reach, and what becomes of the world of those who are not let in.
-/

namespace Lodging

/-- A header for the token holds its scheme and then, but for white space around it, the token. -/
def Request.Presents (r : Request) (token : String) : Prop :=
  ∃ h ∈ r.headers, Header.sameName h.1 Header.authorization = true ∧
    h.2.toList.all Header.visible = true ∧
      ∃ s, h.2.toList = Exchange.bearer ++ s ∧ String.ofList (trim s) = token

/-- The number of the user for whom a request is made. -/
def Request.user? (r : Request) : Option Int :=
  (r.header? Header.userId).bind fun v => Decimal.int64? (trim v.toList)

/-- The identifier that the caller gave a request. -/
def Request.ownId? (r : Request) : Option RequestId :=
  RequestId.ofHeader? (r.header? Header.requestId)

/-- An answer as it goes out: to a request for a head without its body. -/
def Response.outgoing (a : Response) (method : String) : Response :=
  if method = "HEAD" then { a with body := "" } else a

/-- The answer to a caller who is not let in. -/
def Response.unauthorized (now : Instant) (message path : String) (id : RequestId) : Response :=
  let p : Problem := ⟨now, 401, "UNAUTHORIZED", some message, some path, some id.text⟩
  ⟨401, [(Header.contentType, "application/json"), (Header.requestId, id.text)], Wire.write p,
    some p⟩

/-- A request goes along a route to one of its handlers. -/
def Service.Reaches (s : Service) (r : Request) (route : Route) : Prop :=
  (∃ params, s.find? r.path = some (route, params)) ∧ (route.handler? r.method).isSome = true

/-- The answers of a service to requests, each on its occasion. -/
abbrev Service.visits (s : Service) (w : World) :
    Scene fun c : Occasion × Request => s.answer c.1 c.2 :=
  .opening _ w

/-- A world with nothing changed but what was counted, what is planned, and the time. -/
structure World.Spared (w w' : World) : Prop where
  rooms : w'.inventory.rooms = w.inventory.rooms
  locks : w'.inventory.locks = w.inventory.locks
  lastRoom : w'.inventory.lastRoom = w.inventory.lastRoom
  lastLock : w'.inventory.lastLock = w.inventory.lastLock
  holds : w'.holds = w.holds
  ledger : w'.ledger = w.ledger

end Lodging
