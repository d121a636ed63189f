import Lodging.Text.Blank
import Lodging.Text.Decimal
import Lodging.Text.Hex

/-!
The names of things: numbers for rooms, hotels, users and bookings, universally unique identifiers
that a booking shares with the lock on its room, and the identifiers that callers give their
requests.
-/

namespace Lodging

structure RoomId where
  number : Int
deriving DecidableEq

structure HotelId where
  number : Int
deriving DecidableEq

structure UserId where
  number : Int
deriving DecidableEq

structure BookingId where
  number : Int
deriving DecidableEq

instance : ToString RoomId := ⟨fun id => Decimal.int id.number⟩

instance : ToString HotelId := ⟨fun id => Decimal.int id.number⟩

instance : ToString UserId := ⟨fun id => Decimal.int id.number⟩

instance : ToString BookingId := ⟨fun id => Decimal.int id.number⟩

/-- What ties a booking to the lock on its room: 128 bits, as 32 hexadecimal digits. -/
structure Uid where
  digits : List (Fin 16)
  length_eq : digits.length = 32
deriving DecidableEq

namespace Uid

def ofDigits? (digits : List (Fin 16)) : Option Uid :=
  if h : digits.length = 32 then some ⟨digits, h⟩ else none

def digit? (c : Char) : Option (Fin 16) :=
  (Hex.val? c).bind fun n => if h : n < 16 then some ⟨n, h⟩ else none

/-- The 128 lowest bits of a number. -/
def ofNat (n : Nat) : Uid where
  digits := List.ofFn fun i : Fin 32 => Fin.ofNat 16 (n >>> (4 * (31 - i.val)))
  length_eq := List.length_ofFn

/-- Hyphens between 8, 4, 4, 4 and 12 characters. -/
def hyphenate (s : List Char) : List Char :=
  s.take 8 ++ '-' :: (s.drop 8).take 4 ++ '-' :: (s.drop 12).take 4 ++
    '-' :: (s.drop 16).take 4 ++ '-' :: s.drop 20

/-- The text of an identifier: digits in lower case, with hyphens. -/
def chars (u : Uid) : List Char := hyphenate (u.digits.map (Hex.lower ·.val))

def text (u : Uid) : String := String.ofList u.chars

instance : ToString Uid := ⟨text⟩

/-- Reads 32 digits. -/
def ofBare? (s : List Char) : Option Uid := (s.mapM digit?).bind ofDigits?

/-- Reads 32 digits with their hyphens. -/
def ofHyphenated? (s : List Char) : Option Uid :=
  let bare := s.take 8 ++ (s.drop 9).take 4 ++ (s.drop 14).take 4 ++ (s.drop 19).take 4 ++ s.drop 24
  if hyphenate bare = s then ofBare? bare else none

/-- What may stand before digits with hyphens. -/
def urn : List Char := "urn:uuid:".toList

/-- Reads an identifier: digits, bare or with hyphens, and with hyphens also in braces or behind
`urn:uuid:`. Letters may be of either case. -/
def ofChars? (s : List Char) : Option Uid :=
  if s.length = 32 then ofBare? s
  else if (s.take urn.length).map Char.toLower = urn then ofHyphenated? (s.drop urn.length)
  else match s with
    | '\x7b' :: r => if r.getLast? = some '\x7d' then ofHyphenated? r.dropLast else none
    | _ => ofHyphenated? s

def ofText? (s : String) : Option Uid := ofChars? s.toList

end Uid

/-- What a caller names a request by, so that a repetition can be told from a new request. -/
structure RequestId where
  text : String
deriving DecidableEq

instance : ToString RequestId := ⟨RequestId.text⟩

/-- Header text without the white space around it, unless nothing is left. -/
def RequestId.ofHeader? (value : Option String) : Option RequestId :=
  value.bind fun v => if blank v then none else some ⟨trimmed v⟩

end Lodging
