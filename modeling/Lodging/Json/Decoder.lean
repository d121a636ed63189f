import Lodging.Json.Node
import Lodging.Calendar.Stay

/-!
Decoders from JSON to the values of a type. A `Record` lists the fields of a record in their
declared order and builds the record from them. It is read from an object, whose fields are looked
at in the order of the text, or from an array that holds them in declared order.
-/

namespace Lodging

/-- Why a text has no value: it is not of the right form, or the form is right and the dates of a
stay in it are not. -/
inductive DecodeFailure where
  | malformed
  | noNights (e : NoNights)
deriving DecidableEq

abbrev Decoder (α : Type) := Node → Except DecodeFailure α

namespace Decoder

def ofOption (f : Node → Option α) : Decoder α := fun n =>
  match f n with
  | some a => .ok a
  | none => .error .malformed

def text : Decoder String := ofOption fun
  | .text s => some s
  | _ => none

def bool : Decoder Bool := ofOption fun
  | .bool b => some b
  | _ => none

def int : Decoder Int := ofOption fun
  | .number n => n.int?
  | _ => none

def filter (d : Decoder α) (p : α → Bool) : Decoder α := fun n => do
  let a ← d n
  if p a then return a else throw .malformed

def int64 : Decoder Int := int.filter Decimal.fits64

/-- A number that is not negative and has at most so many bits. -/
def nat (bits : Nat) : Decoder Nat := fun n => do
  return (← int.filter (fun i => 0 ≤ i ∧ i < Decimal.capacity bits) n).toNat

/-- A string that spells a value. -/
def spelled (read : String → Option α) : Decoder α := fun n => do
  match read (← text n) with
  | some a => return a
  | none => throw .malformed

/-- Null stands for the absence of a value. -/
def nullable (d : Decoder α) : Decoder (Option α)
  | .null => .ok none
  | n => some <$> d n

def list (d : Decoder α) : Decoder (List α)
  | .array items closed => do
    let as ← items.mapM d
    if closed then return as else throw .malformed
  | _ => .error .malformed

/-- One of some names, alone or as the only key of an object, with null. -/
def name (read : String → Option α) : Decoder α
  | .text s => spelled read (.text s)
  | .object [(some key, .null)] true => spelled read (.text key)
  | _ => .error .malformed

end Decoder

/-- What it means that a field is missing: an error, or null in an object and an error in an array,
or in both the default of the field. -/
inductive Absence where
  | refused
  | null
  | default
deriving DecidableEq

structure Field where
  name : String
  check : Node → Except DecodeFailure Unit
  absence : Absence

/-- The fields of a record, and the record made of the nodes found for them. -/
structure Record (α : Type) where
  fields : List Field
  build : List (String × Node) → Except DecodeFailure α

namespace Record

def pure (a : α) : Record α := ⟨[], fun _ => .ok a⟩

def seq (f : Record (α → β)) (r : Unit → Record α) : Record β where
  fields := f.fields ++ (r ()).fields
  build found := do
    let g ← f.build found
    let a ← (r ()).build found
    return g a

instance : Applicative Record where
  pure := pure
  seq := seq

/-- A field that must be there. -/
def field (name : String) (d : Decoder α) : Record α where
  fields := [⟨name, fun n => (d n).map fun _ => (), .refused⟩]
  build found := match found.lookup name with
    | some n => d n
    | none => .error .malformed

/-- A field that may be null, or missing from an object. -/
def nullable (name : String) (d : Decoder α) : Record (Option α) where
  fields := [⟨name, fun n => (d.nullable n).map fun _ => (), .null⟩]
  build found := match found.lookup name with
    | some n => d.nullable n
    | none => .ok none

/-- A field with a value for its absence. -/
def defaulted (name : String) (d : Decoder α) (value : α) : Record α where
  fields := [⟨name, fun n => (d n).map fun _ => (), .default⟩]
  build found := match found.lookup name with
    | some n => d n
    | none => .ok value

/-- The known fields among entries, each checked where it stands. -/
def gather (fields : List Field) :
    List (Option String × Node) → List (String × Node) → Except DecodeFailure (List (String × Node))
  | [], found => .ok found
  | (none, _) :: _, _ => .error .malformed
  | (some key, n) :: rest, found =>
    match fields.find? fun f => f.name = key with
    | some f => do
      if (found.lookup key).isSome then throw .malformed
      f.check n
      gather fields rest ((key, n) :: found)
    | none => if n.whole then gather fields rest found else .error .malformed

/-- The fields of a row, in declared order. -/
def align : List Field → List Node → Except DecodeFailure (List (String × Node))
  | [], [] => .ok []
  | f :: fields, n :: rest => do
    f.check n
    return (f.name, n) :: (← align fields rest)
  | [], _ :: _ => .error .malformed
  | f :: fields, [] =>
    if (f :: fields).all (·.absence = .default) then .ok [] else .error .malformed

def decoder (r : Record α) : Decoder α
  | .object entries closed => do
    let found ← gather r.fields entries []
    if closed then r.build found else throw .malformed
  | .array items closed => do
    let found ← align r.fields items
    if closed then r.build found else throw .malformed
  | _ => .error .malformed

end Record

/-- Decodes a text that holds one value and nothing else. -/
def Document.decode (d : Decoder α) (doc : Document) : Except DecodeFailure α := do
  let a ← d doc.root
  if doc.alone then return a else throw .malformed

end Lodging
