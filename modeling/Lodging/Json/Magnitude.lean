import Lodging.Json.Node

/-!
Numbers that a binary64 can hold. A numeral is cut to a significand of 64 bits and a power of ten;
both are rounded to 53 bits, half to even, and their product must stay below the largest finite
number's upper neighbour, rounded likewise.
-/

namespace Lodging.Numeral

/-- The nearest number of at most 53 significant bits, of two the one whose last bit is zero. -/
def round53 (n : Nat) : Nat :=
  let shift := n.log2 + 1 - 53
  let unit := Decimal.capacity shift
  let floor := n / unit
  let rest := n % unit
  let up := 2 * rest > unit || (2 * rest = unit && floor % 2 = 1)
  (if up then floor + 1 else floor) * unit

/-- The least number that rounds past the finite ones. -/
def infinite : Nat := Decimal.capacity 1024 - Decimal.capacity 970

/-- Digits taken into a significand while it stays below 2 ^ 64: the significand, the number of
digits taken, and the number of those left out after the first that did not fit. -/
def take64 (significand : Nat) : List Char → Nat × Nat × Nat
  | [] => (significand, 0, 0)
  | c :: r =>
    let next := 10 * significand + Decimal.val c
    if next < Decimal.capacity 64 then
      let (s, taken, left) := take64 next r
      (s, taken + 1, left)
    else (significand, 0, r.length + 1)

/-- The absolute value of the numeral can be a finite binary64. -/
def representable (n : Numeral) : Bool :=
  let (s, _, left) := take64 0 n.whole
  let (s, taken, _) := take64 s n.fraction
  let shift := (left : Int) - taken
  let e := Decimal.value n.exponent
  if e < Decimal.capacity 31 then
    let power := if n.exponentNegative then shift - e else shift + e
    s = 0 || power < 0 ||
      (power ≤ 308 && round53 s * round53 (Nat.pow 10 power.toNat) < infinite)
  else s = 0 || n.exponentNegative

end Lodging.Numeral
