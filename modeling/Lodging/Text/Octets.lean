/-!
Text as octets: the encoding of characters in UTF-8, and reading it back. A stretch of octets that
encodes no character is kept as a gap, so that a strict reader can refuse it and a lenient one can
put U+FFFD in its place.
-/

namespace Lodging.Octets

def encode (s : List Char) : List UInt8 := s.flatMap String.utf8EncodeChar

/-- An octet that continues a character. -/
def continues (b : UInt8) : Bool := 0x80 ≤ b ∧ b ≤ 0xBF

/-- What the second octet may be after a lead octet of three or four: no overlong form, no
surrogate, nothing above U+10FFFF. -/
def admits (lead second : UInt8) : Bool :=
  if lead = 0xE0 then 0xA0 ≤ second ∧ second ≤ 0xBF
  else if lead = 0xED then 0x80 ≤ second ∧ second ≤ 0x9F
  else if lead = 0xF0 then 0x90 ≤ second ∧ second ≤ 0xBF
  else if lead = 0xF4 then 0x80 ≤ second ∧ second ≤ 0x8F
  else continues second

def low (b : UInt8) : Nat := b.toNat % 64

/-- The characters of the octets; each longest stretch that could still begin a character but
does not go on to one is a single gap. -/
def units : List UInt8 → List (Option Char)
  | [] => []
  | a :: r =>
    if a < 0x80 then some (Char.ofNat a.toNat) :: units r
    else if 0xC2 ≤ a ∧ a ≤ 0xDF then
      match r with
      | b :: r' =>
        if continues b then some (Char.ofNat (a.toNat % 32 * 64 + low b)) :: units r'
        else none :: units (b :: r')
      | [] => [none]
    else if 0xE0 ≤ a ∧ a ≤ 0xEF then
      match r with
      | b :: r' =>
        if admits a b then
          match r' with
          | c :: r'' =>
            if continues c then
              some (Char.ofNat (a.toNat % 16 * 4096 + low b * 64 + low c)) :: units r''
            else none :: units (c :: r'')
          | [] => [none]
        else none :: units (b :: r')
      | [] => [none]
    else if 0xF0 ≤ a ∧ a ≤ 0xF4 then
      match r with
      | b :: r' =>
        if admits a b then
          match r' with
          | c :: r'' =>
            if continues c then
              match r'' with
              | d :: r''' =>
                if continues d then
                  some (Char.ofNat (a.toNat % 8 * 262144 + low b * 4096 + low c * 64 + low d)) ::
                    units r'''
                else none :: units (d :: r''')
              | [] => [none]
            else none :: units (c :: r'')
          | [] => [none]
        else none :: units (b :: r')
      | [] => [none]
    else none :: units r
termination_by s => s.length

/-- The text of octets that encode one. -/
def decode? (s : List UInt8) : Option (List Char) := (units s).mapM id

/-- The text of any octets, with U+FFFD for each gap. -/
def decodeLossy (s : List UInt8) : List Char := (units s).map (·.getD '\ufffd')

end Lodging.Octets
