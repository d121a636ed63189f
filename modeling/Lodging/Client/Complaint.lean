import Lodging.Json.Magnitude
import Lodging.Json.Reader
import Lodging.Text.Blank

/-!
What the body of a failed answer complains of. An object may say it in one of three fields; any
other body speaks for itself, unless it is blank.
-/

namespace Lodging

namespace Node

/-- The first key of an object that stands for the value which a text spells. -/
def spelling : String := "$serde_json::private::RawValue"

/-- The value of a node, if it can be kept in memory: every string is a text, every number has a
finite binary64 near it, and containers are nested no deeper than allowed. An object that stands for
a spelled value has one entry, whose text `read` reads. -/
def value? (read : String → Option Node) : Nat → Node → Option Node
  | _, unpaired | _, broken | _, array _ false | _, object _ false => none
  | 0, array .. | 0, object .. => none
  | _, number n => if n.representable then some (number n) else none
  | depth + 1, array items true => (items.mapM (value? read depth)).map (array · true)
  | depth + 1, object entries true =>
    if (entries.head?.bind fun e => e.1) = some spelling then
      match entries with
      | [(_, text s)] => read s
      | _ => none
    else
      let value (e : Option String × Node) :=
        if e.1.isSome then (value? read depth e.2).map (e.1, ·) else none
      (entries.mapM value).map (object · true)
  | _, n => some n

end Node

namespace Complaint

def maxDepth : Nat := 127

/-- The value that a text spells, if spelled values are in one another less often than so many
times. -/
def value? : Nat → String → Option Node
  | 0, _ => none
  | n + 1, s =>
    let doc := Document.ofText s
    if doc.alone then doc.root.value? (value? n) maxDepth else none

/-- The text in a field, the last of its name, unless it is blank. -/
def field? (entries : List (Option String × Node)) (name : String) : Option String :=
  match entries.reverse.lookup (some name) with
  | some (.text s) => if blank s then none else some s
  | _ => none

/-- The fields that may hold a complaint, the best first. -/
def fields : List String := ["message", "error", "errorCode"]

/-- The complaint of an object. A spelled value is shorter than the text around it, so the length of
that text bounds how often it goes on. -/
def ofObject? (s : String) : Option String :=
  match value? (s.length + 1) s with
  | some (.object entries _) => fields.findSome? (field? entries)
  | _ => none

/-- The complaint of a body. -/
def ofBody? (body : String) : Option String :=
  if blank body then none else some ((ofObject? (trimmed body)).getD body)

end Complaint

end Lodging
