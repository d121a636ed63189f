import Lodging.Problem

/-!
Requests and responses of HTTP, as far as the services look at them.
-/

namespace Lodging

structure Request where
  method : String
  /-- Path and query. -/
  target : String
  headers : List (String × String)
  body : String

structure Response where
  status : Nat
  headers : List (String × String)
  body : String
  /-- The envelope behind the body, where a request was turned down. -/
  problem : Option Problem

namespace Header

/-- Names are compared without regard to letter case. -/
def sameName (a b : String) : Bool := a.toLower = b.toLower

def requestId : String := "x-request-id"

def userId : String := "x-user-id"

def authorization : String := "authorization"

def contentType : String := "content-type"

def allow : String := "allow"

def allowOrigin : String := "access-control-allow-origin"

def allowMethods : String := "access-control-allow-methods"

def allowHeaders : String := "access-control-allow-headers"

def vary : String := "vary"

/-- A character of ASCII that can be seen, a space or a tab. -/
def visible (c : Char) : Bool := c = '\t' || (0x20 ≤ c.toNat && c.toNat < 0x7F)

/-- Sets a header, in the place of any other of its name. -/
def set (headers : List (String × String)) (name value : String) : List (String × String) :=
  headers.filter (fun h => ! sameName h.1 name) ++ [(name, value)]

end Header

namespace Request

/-- The first value under a name, if it is visible text. -/
def header? (r : Request) (name : String) : Option String :=
  match r.headers.find? fun h => Header.sameName h.1 name with
  | some (_, value) => if value.toList.all Header.visible then some value else none
  | none => none

/-- What follows a scheme with its colon and two slashes. -/
def afterScheme? : List Char → Option (List Char)
  | ':' :: '/' :: '/' :: s => some s
  | _ :: s => afterScheme? s
  | [] => none

/-- The path and the query of a target, up to a fragment. A target that does not begin with its path
names a server, and the path there is never empty, or only a server and no path. A star stands for
itself. -/
def addressOf (target : List Char) : List Char :=
  let s := target.takeWhile (· ≠ '#')
  if s.head? = some '/' || s = ['*'] then s
  else match (afterScheme? s).map fun r => r.dropWhile fun c => c ≠ '/' && c ≠ '?' with
    | some ('/' :: r) => '/' :: r
    | some r => '/' :: r
    | none => []

def address (r : Request) : List Char := addressOf r.target.toList

def path (r : Request) : List Char := r.address.takeWhile (· ≠ '?')

/-- What follows the path, without the question mark. -/
def query (r : Request) : List Char := (r.address.dropWhile (· ≠ '?')).drop 1

end Request

namespace Response

def json (body : String) : Response := ⟨200, [(Header.contentType, "application/json")], body, none⟩

def bare (status : Nat) : Response := ⟨status, [], "", none⟩

def setHeader (r : Response) (name value : String) : Response :=
  { r with headers := Header.set r.headers name value }

/-- Adds a header beside any others of its name. -/
def addHeader (r : Response) (name value : String) : Response :=
  { r with headers := r.headers ++ [(name, value)] }

end Response

end Lodging
