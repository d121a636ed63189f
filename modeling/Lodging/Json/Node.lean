import Lodging.Text.Decimal

/-!
JSON as it was read. A `Node` keeps what a decoder may have to tell apart: how a number was spelled,
strings whose escapes name no text, the order and repetition of keys, and the place where the text
ceased to be JSON. A container that the text does not close is marked as open, and so are then all
containers around it.
-/

namespace Lodging

/-- The spelling of a number. A fraction or an exponent that is not there has no digits. -/
structure Numeral where
  negative : Bool
  whole : List Char
  fraction : List Char
  exponentNegative : Bool
  exponent : List Char
deriving DecidableEq

/-- The integer that a numeral names, if it has neither fraction nor exponent. Minus zero names
none. -/
def Numeral.int? (n : Numeral) : Option Int :=
  if n.fraction ≠ [] ∨ n.exponent ≠ [] then none
  else
    let v := Decimal.value n.whole
    if n.negative then if v = 0 then none else some (-(v : Int)) else some v

inductive Node where
  | null
  | bool (b : Bool)
  | number (n : Numeral)
  | text (s : String)
  /-- A string with an escaped surrogate that has no partner. -/
  | unpaired
  | array (items : List Node) (closed : Bool)
  /-- An object, with no key where the key is an unpaired string. -/
  | object (entries : List (Option String × Node)) (closed : Bool)
  /-- No value begins here, or none ends. -/
  | broken

namespace Node

/-- Well-formed to its end. -/
def whole : Node → Bool
  | array _ closed => closed
  | object _ closed => closed
  | broken => false
  | _ => true

end Node

/-- The outcome of reading a text: its value, and whether only white space follows. -/
structure Document where
  root : Node
  alone : Bool

end Lodging
