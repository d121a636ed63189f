import Lodging.World.Visits

/-!
The layers around the handlers of a service. The inner ones answer a request, or let pages of other
origins read what its handler came to. The outermost one completes what they produce and marks it,
and the router has the last word.
-/

namespace Lodging

namespace Response

/-- The headers of one name. -/
def under (a : Response) (name : String) : List (String × String) :=
  a.headers.filter fun h => Header.sameName h.1 name

/-- An answer is another one with the identifier of the request on it, and with the path and the
identifier in its envelope, if it has one. -/
structure Completes (a : Response) (x : Exchange) (b : Response) : Prop where
  status : a.status = b.status
  identifier : a.under Header.requestId = [(Header.requestId, x.correlation.text)]
  body : a.body = match b.problem with
    | some p => Wire.write { p with
        path := some (String.ofList x.request.path), correlation := some x.correlation.text }
    | none => b.body

/-- An answer has the headers of another one, apart from the identifier of the request. -/
def KeepsHeaders (a b : Response) : Prop :=
  ∀ name, Header.sameName Header.requestId name = false → a.under name = b.under name

end Response

namespace Service

variable (s : Service) (o : Occasion) (r : Request)

/-- A request with what its route left open. -/
def exchange : Exchange where
  occasion := o
  request := r
  params := match s.find? r.path with
    | some (_, params) => params
    | none => []

/-- What a request comes to without any layer: the answer of its handler, or that there is none. -/
def bareAnswer : Process Response :=
  match s.find? r.path with
  | none => pure (.bare 404)
  | some (route, _) =>
    match route.handler? r.method with
    | some h => handle h (s.exchange o r)
    | none => pure (.bare 405)

/-- What the inner layers make of that. -/
def opened (x : Exchange) (inner : Process Response) : Process Response :=
  if x.request.method = "OPTIONS" then pure preflight else shared <$> inner

/-- What the layers inside the outermost one produce. -/
def inside : Process Response := opened (s.exchange o r) (s.bareAnswer o r)

/-- What the outermost layer makes of an answer. -/
def finished (x : Exchange) (b : Response) : Response :=
  (complete x b).setHeader Header.requestId x.correlation.text

/-- What the router makes of an answer in the end. -/
def routed (a : Response) : Response :=
  match s.find? r.path with
  | none => a
  | some (route, _) =>
    match route.handler? r.method with
    | some _ => a.outgoing r.method
    | none => a.setHeader Header.allow route.allowed

end Service

end Lodging
