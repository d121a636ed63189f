/-!
Decimal numerals over ASCII digits. `Decimal.digits` writes a number without leading zeros,
`Decimal.value` reads digits back, and the readers below add a sign and a range.
-/

namespace Lodging.Decimal

/-- The digit character of a number below ten. -/
def char (d : Nat) : Char := Char.ofNat (48 + d)

/-- The number a digit character stands for. -/
def val (c : Char) : Nat := c.toNat - 48

/-- The decimal digits of a number, most significant first, with no leading zero. -/
def digits (n : Nat) : List Char :=
  if n < 10 then [char n] else digits (n / 10) ++ [char (n % 10)]
termination_by n

/-- The number a list of digits stands for. -/
def value (ds : List Char) : Nat := ds.foldl (fun n c => 10 * n + val c) 0

/-- Digits, filled up with zeros on the left to a least width. -/
def padded (width n : Nat) : List Char :=
  List.replicate (width - (digits n).length) '0' ++ digits n

def nat (n : Nat) : String := String.ofList (digits n)

/-- The digits of an integer, after a minus sign if it is negative. -/
def intDigits (i : Int) : List Char :=
  if i < 0 then '-' :: digits i.natAbs else digits i.natAbs

def int (i : Int) : String := String.ofList (intDigits i)

/-- A non-empty run of digits and nothing else. -/
def nat? (s : List Char) : Option Nat :=
  if s ≠ [] ∧ s.all Char.isDigit then some (value s) else none

/-- Digits with at most one leading plus, below a bound. -/
def below? (bound : Nat) (s : List Char) : Option Nat :=
  (nat? (match s with | '+' :: r => r | r => r)).filter (· < bound)

/-- Digits with at most one leading sign. -/
def int? : List Char → Option Int
  | '-' :: r => (nat? r).map fun n : Nat => -(n : Int)
  | '+' :: r => (nat? r).map Int.ofNat
  | r => (nat? r).map Int.ofNat

/-- How many numbers so many bits tell apart. -/
def capacity (bits : Nat) : Nat := 1 <<< bits

/-- The integers of 64 bits. -/
def fits64 (i : Int) : Bool := -(capacity 63 : Int) ≤ i ∧ i < capacity 63

/-- A signed integer of 64 bits. -/
def int64? (s : List Char) : Option Int := (int? s).filter fits64

/-- Takes at least one and at most `most` digits off the front. -/
def take? (most : Nat) (s : List Char) : Option (Nat × List Char) :=
  let ds := (s.take most).takeWhile Char.isDigit
  if ds = [] then none else some (value ds, s.drop ds.length)

end Lodging.Decimal
