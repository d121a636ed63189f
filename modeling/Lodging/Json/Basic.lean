import Lodging.Text.Decimal
import Lodging.Text.Hex

/-!
JSON values whose numbers are integers, and their text without white space. A string is written with
escapes for the quotation mark, the backslash and the characters below U+0020, and as it is else.
-/

namespace Lodging

inductive Json where
  | null
  | bool (b : Bool)
  | int (i : Int)
  | text (s : String)
  | array (items : List Json)
  | object (fields : List (String × Json))

namespace Json

/-- The letter behind the backslash of a short escape. -/
def shortEscape? (c : Char) : Option Char :=
  if c = '"' then some '"' else if c = '\\' then some '\\'
  else if c = '\x08' then some 'b' else if c = '\t' then some 't' else if c = '\n' then some 'n'
  else if c = '\x0c' then some 'f' else if c = '\r' then some 'r' else none

def escaped (c : Char) : List Char :=
  match shortEscape? c with
  | some e => ['\\', e]
  | none =>
    if c.toNat < 0x20 then
      ['\\', 'u', '0', '0', Hex.lower (c.toNat / 16), Hex.lower (c.toNat % 16)]
    else [c]

def quoted (s : String) : List Char := '"' :: s.toList.flatMap escaped ++ ['"']

mutual

def chars : Json → List Char
  | null => ['n', 'u', 'l', 'l']
  | bool true => ['t', 'r', 'u', 'e']
  | bool false => ['f', 'a', 'l', 's', 'e']
  | int i => Decimal.intDigits i
  | text s => quoted s
  | array [] => ['[', ']']
  | array (j :: r) => '[' :: chars j ++ moreItems r ++ [']']
  | object [] => ['\x7b', '\x7d']
  | object ((k, j) :: r) => '\x7b' :: quoted k ++ ':' :: chars j ++ moreFields r ++ ['\x7d']

/-- The items of an array after its first. -/
def moreItems : List Json → List Char
  | [] => []
  | j :: r => ',' :: chars j ++ moreItems r

/-- The fields of an object after its first. -/
def moreFields : List (String × Json) → List Char
  | [] => []
  | (k, j) :: r => ',' :: quoted k ++ ':' :: chars j ++ moreFields r

end

/-- The text of a value. -/
def compact (j : Json) : String := String.ofList j.chars

/-- A value, or null in its absence. -/
def ofOption (f : α → Json) : Option α → Json
  | some a => f a
  | none => null

end Json

end Lodging
