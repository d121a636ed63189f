/-!
Media types, as far as it takes to know JSON by its name: `application/json`, or a type of
`application` with the suffix `+json`. Names are compared without regard to letter case, and the
parameters only have to be well formed.
-/

namespace Lodging.MediaType

/-- A character of a name. -/
def token (c : Char) : Bool :=
  c.isAlphanum || "!#$%&'*+-.^_\x60|~".toList.contains c

/-- A character between quotation marks. -/
def quotable (c : Char) : Bool := 31 < c.toNat && c.toNat ≠ 127

/-- What a parameter is being read: spaces before its name, its name, the start of its value, the
rest of it, or, for one in quotation marks, its first character, the rest, or the spaces after it.
-/
inductive Stage where
  | space
  | name
  | valueStart
  | value
  | quotedStart
  | quoted
  | behind

def Stage.next? (c : Char) : Stage → Option Stage
  | space => if c = ' ' then some space else if token c then some name else none
  | name => if c = '=' then some valueStart else if token c then some name else none
  | valueStart => if c = '"' then some quotedStart else if token c then some value else none
  | value => if c = ';' then some space else if token c then some value else none
  | quotedStart => if quotable c then some quoted else none
  | quoted => if c = '"' then some behind else if quotable c then some quoted else none
  | behind => if c = ';' then some space else if c = ' ' then some behind else none

/-- The parameters may end here. -/
def Stage.final : Stage → Bool
  | space | valueStart | value | behind => true
  | _ => false

def parameters (s : List Char) : Bool :=
  match s.foldlM (fun stage c => Stage.next? c stage) Stage.space with
  | some stage => stage.final
  | none => false

/-- What stands before the last of a character and what stands after it. -/
def splitLast (mark : Char) (s : List Char) : Option (List Char × List Char) :=
  let r := s.reverse
  if mark ∈ s then
    some (((r.dropWhile (· ≠ mark)).drop 1).reverse, (r.takeWhile (· ≠ mark)).reverse)
  else none

/-- A name that stands for JSON among those of `application`. A plus at its start begins no
suffix. -/
def jsonName (s : List Char) : Bool :=
  let json := ['j', 's', 'o', 'n']
  match splitLast '+' (s.drop 1) with
  | some (base, suffix) => s.take 1 ++ base = json || suffix = json
  | none => s = json

def isJson (text : String) : Bool :=
  let s := text.toList
  let kind := s.takeWhile (· ≠ '/')
  let rest := (s.dropWhile (· ≠ '/')).drop 1
  let name := rest.takeWhile (· ≠ ';')
  let wellFormed := '/' ∈ s ∧ kind.all token ∧ name.all token ∧
    (';' ∈ rest → name ≠ [] ∧ parameters ((rest.dropWhile (· ≠ ';')).drop 1))
  wellFormed && kind.map Char.toLower = "application".toList && jsonName (name.map Char.toLower)

end Lodging.MediaType
