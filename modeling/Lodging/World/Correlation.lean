import Lodging.World.Visits

/-!
The identifier of a request, and where it is to be found: on the answer and in its envelope, and in
what is done for the request.
-/

namespace Lodging

/-- The identifier of a request is what its first header for it says, without white space around it.
If there is none, or it is blank or no visible text, the request gets a new one. -/
def Request.id (r : Request) (fresh : RequestId) : RequestId :=
  match r.headers.find? fun h => Header.sameName h.1 Header.requestId with
  | some (_, v) => if v.toList.all Header.visible && ! blank v then ⟨trimmed v⟩ else fresh
  | none => fresh

/-- An answer bears an identifier, once, and the envelope of a failure tells what was answered to
whom. A request for a head is not sent the envelope. -/
structure Response.Bears (a : Response) (r : Request) (id : RequestId) : Prop where
  header : a.headers.filter (fun h => Header.sameName h.1 Header.requestId) =
    [(Header.requestId, id.text)]
  envelope : ∀ p, a.problem = some p → p.status = a.status ∧
    p.path = some (String.ofList r.path) ∧ p.correlation = some id.text ∧
      (Header.contentType, "application/json") ∈ a.headers ∧
        a.body = if r.method = "HEAD" then "" else Wire.write p

/-- The envelope of a failure is in the body of the answer. -/
def Response.Tells (a : Response) (r : Request) (id : RequestId) : Prop :=
  ∀ p, a.problem = some p → ∃ q : Problem, Wire.read a.body = .ok q ∧ q.status = a.status ∧
    q.path = some (String.ofList r.path) ∧ q.correlation = some id.text

/-- What the bookings do by themselves for a request: they write in the ledger, where they accept
this request only, and count. -/
def Action.Own (id : RequestId) : Action → Prop
  | ledger (.accept r) => r = id
  | ledger _ | meter _ | readings => True
  | _ => False

end Lodging
