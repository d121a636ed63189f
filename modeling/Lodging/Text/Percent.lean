import Lodging.Text.Hex
import Lodging.Text.Octets

/-!
Percent escapes, as URLs use them, and the form encoding of query strings: pairs joined by `&`,
a plus for a space, an escape for all that is not a letter, a digit or one of `*-._`.
-/

namespace Lodging.Percent

/-- The octets behind escaped text. A percent sign without two hexadecimal digits stands for
itself. -/
def octets : List Char → List UInt8
  | [] => []
  | '%' :: a :: b :: r =>
    match Hex.val? a, Hex.val? b with
    | some x, some y => UInt8.ofNat (16 * x + y) :: octets r
    | _, _ => 0x25 :: octets (a :: b :: r)
  | c :: r => String.utf8EncodeChar c ++ octets r

/-- Escaped text, if its octets are well-formed UTF-8. -/
def decode? (s : List Char) : Option (List Char) := Octets.decode? (octets s)

/-- The text of one half of a form pair. -/
def formDecode (s : List Char) : List Char :=
  Octets.decodeLossy (octets (s.map fun c => if c = '+' then ' ' else c))

/-- The pairs of a form; empty stretches between `&` hold none, and a pair without `=` has an
empty second half. -/
def pairs (query : List Char) : List (List Char × List Char) :=
  ((query.splitOn '&').filter (· ≠ [])).map fun part =>
    (formDecode (part.takeWhile (· ≠ '=')), formDecode ((part.dropWhile (· ≠ '=')).drop 1))

/-- Octets that a form leaves as they are. -/
def plain (b : UInt8) : Bool :=
  let c := Char.ofNat b.toNat
  c.isAlphanum || c = '*' || c = '-' || c = '.' || c = '_'

def escape (b : UInt8) : List Char :=
  if b = 0x20 then ['+']
  else if plain b then [Char.ofNat b.toNat]
  else ['%', Hex.upper (b.toNat / 16), Hex.upper (b.toNat % 16)]

/-- One half of a form pair, escaped. -/
def formEncode (s : List Char) : List Char := (Octets.encode s).flatMap escape

/-- A form of the given pairs. -/
def form (ps : List (String × String)) : List Char :=
  ['&'].intercalate (ps.map fun (k, v) => formEncode k.toList ++ '=' :: formEncode v.toList)

end Lodging.Percent
