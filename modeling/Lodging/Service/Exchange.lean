import Lodging.Service.MediaType
import Lodging.Service.Message
import Lodging.Text.Percent
import Lodging.Wire

/-!
What a service reads from a request, and how it turns one down. Everything that cannot be decoded
is a failed validation.
-/

namespace Lodging

/-- What a service brings along to a request: the time, and identifiers that nobody has used. -/
structure Occasion where
  now : Instant
  uid : Uid
  requestId : RequestId

/-- A request on its occasion, with the parts of its path that the route left open. -/
structure Exchange where
  occasion : Occasion
  request : Request
  params : List (List Char)

namespace Exchange

/-- The identifier that the caller gave the request, or else a new one. -/
def correlation (x : Exchange) : RequestId :=
  (RequestId.ofHeader? (x.request.header? Header.requestId)).getD x.occasion.requestId

def callerMissing : Refusal := .unauthorized "Missing or invalid X-User-Id header"

def caller (x : Exchange) : Except Refusal UserId :=
  match (x.request.header? Header.userId).bind fun v => Decimal.int64? (trim v.toList) with
  | some n => .ok ⟨n⟩
  | none => .error callerMissing

def bearer : List Char := "Bearer ".toList

/-- The token that the caller presents. -/
def token? (x : Exchange) : Option String :=
  (x.request.header? Header.authorization).bind fun v =>
    if bearer.isPrefixOf v.toList then some (String.ofList (trim (v.toList.drop bearer.length)))
    else none

def authorize (x : Exchange) (token : String) : Except Refusal Unit :=
  match x.token? with
  | some t => if t = token then .ok () else .error (.unauthorized "Invalid service token")
  | none => .error (.unauthorized "Missing service token")

/-- The number that a part of the path spells. -/
def number (x : Exchange) : Except Refusal Int :=
  match x.params.head?.bind fun s => (Percent.decode? s).bind Decimal.int64? with
  | some n => .ok n
  | none => .error (.validation "Invalid number in the path")

/-- The value of a field of the query, which may be there once. -/
def queryField (x : Exchange) (name : String) (read : List Char → Option α) :
    Except Refusal (Option α) :=
  match (Percent.pairs x.request.query).filter fun (k, _) => k = name.toList with
  | [] => .ok none
  | [(_, v)] =>
    match read v with
    | some a => .ok (some a)
    | none => .error (.validation s!"Invalid value of {name} in the query")
  | _ => .error (.validation s!"More than one value of {name} in the query")

/-- The most octets that a body is read of. -/
def bodyLimit : Nat := 2 * 1024 * 1024

/-- The value of the body, if it is labelled as JSON and not too long. -/
def body (α : Type) [Wire α] (x : Exchange) : Except Refusal α :=
  if ((x.request.header? Header.contentType).map MediaType.isJson).getD false then
    if bodyLimit < x.request.body.utf8ByteSize then .error (.validation "Request body too long")
    else match Wire.read x.request.body with
      | .ok a => .ok a
      | .error _ => .error (.validation "Invalid request body")
  else .error (.validation "Expected a JSON body")

end Exchange

/-- The answer to a request that is turned down. -/
def Response.ofRefusal (now : Instant) (r : Refusal) : Response :=
  let p := Problem.ofRefusal now r
  { Response.json (Wire.write p) with status := r.status, problem := some p }

def Response.ofValue [Wire α] (a : α) : Response := .json (Wire.write a)

end Lodging
