import Lodging.Process
import Lodging.Service.Exchange

/-!
Routes to the handlers of a service, and what all services do around them: answer requests from
other origins, count answers, and give every answer the identifier of its request.
-/

namespace Lodging

inductive Method where
  | get
  | post
  | delete
deriving DecidableEq

namespace Method

/-- The names of requests that a method answers; reading a thing includes reading its head. -/
def names : Method → List String
  | get => ["GET", "HEAD"]
  | post => ["POST"]
  | delete => ["DELETE"]

end Method

inductive Segment where
  | literal (text : String)
  /-- Any text, but at the end of a path not none. -/
  | param

instance : Coe String Segment := ⟨.literal⟩

abbrev Handler := Exchange → ExceptT Refusal Process Response

structure Route where
  path : List Segment
  handlers : List (Method × Handler)

namespace Route

/-- The open parts of a path that goes along a route. -/
def matchSegments : List Segment → List (List Char) → Option (List (List Char))
  | [], [] => some []
  | .literal text :: route, part :: path =>
    if text.toList = part then matchSegments route path else none
  | .param :: route, part :: path =>
    if part = [] ∧ route.isEmpty then none else (matchSegments route path).map (part :: ·)
  | _, _ => none

/-- The open parts of a path, which begins with a slash. -/
def params? (r : Route) (path : List Char) : Option (List (List Char)) :=
  match path.splitOn '/' with
  | [] :: parts => matchSegments r.path parts
  | _ => none

def handler? (r : Route) (method : String) : Option Handler :=
  (r.handlers.find? fun h => h.1.names.contains method).map (·.2)

/-- The names of the requests that find a handler. -/
def allowed (r : Route) : String := ",".intercalate (r.handlers.flatMap fun h => h.1.names)

end Route

/-- Routes, of which the first that fits a path is taken. A framed service is one for the world
outside. -/
structure Service where
  routes : List Route
  framed : Bool

namespace Service

def find? (s : Service) (path : List Char) : Option (Route × List (List Char)) :=
  s.routes.findSome? fun r => (r.params? path).map (r, ·)

/-- Runs a handler. -/
def handle (h : Handler) (x : Exchange) : Process Response := do
  match ← (h x).run with
  | .ok r => return r
  | .error f => return .ofRefusal x.occasion.now f

/-- What pages of other origins ask with, and answers to them may depend on. -/
def crossOrigin : String :=
  "origin, access-control-request-method, access-control-request-headers"

/-- The answer that a page of another origin asks for before it sends its request. -/
def preflight : Response where
  status := 200
  headers :=
    [(Header.allowOrigin, "*"), (Header.vary, crossOrigin), (Header.allowMethods, "*"),
      (Header.allowHeaders, "*")]
  body := ""
  problem := none

/-- Lets pages of other origins read an answer. -/
def shared (r : Response) : Response :=
  (r.addHeader Header.vary crossOrigin).setHeader Header.allowOrigin "*"

/-- An answer with the path and the identifier of its request in its envelope, if it has one. Such
an answer is made anew. -/
def complete (x : Exchange) (r : Response) : Response :=
  match r.problem with
  | some p =>
    let p' := { p with path := some (String.ofList x.request.path), correlation := some x.correlation.text }
    { Response.json (Wire.write p') with status := r.status, problem := some p' }
  | none => r

/-- What is done around a handler of a framed service. -/
def frame (x : Exchange) (inner : Process Response) : Process Response := do
  let r ← if x.request.method = "OPTIONS" then pure preflight else shared <$> inner
  Process.meter (.answered r.status)
  return (complete x r).setHeader Header.requestId x.correlation.text

def around (s : Service) (x : Exchange) (inner : Process Response) : Process Response :=
  if s.framed then frame x inner else inner

/-- The answer of a service to a request. -/
def answer (s : Service) (o : Occasion) (r : Request) : Process Response :=
  match s.find? r.path with
  | none => s.around ⟨o, r, []⟩ (pure (.bare 404))
  | some (route, params) =>
    let x : Exchange := ⟨o, r, params⟩
    match route.handler? r.method with
    | some h => do
      let a ← s.around x (handle h x)
      return if r.method = "HEAD" then { a with body := "" } else a
    | none => do
      let a ← s.around x (pure (.bare 405))
      return a.setHeader Header.allow route.allowed

end Service

end Lodging
