/-!
Hexadecimal digits. They are read in either letter case.
-/

namespace Lodging.Hex

def val? (c : Char) : Option Nat :=
  if '0' ≤ c ∧ c ≤ '9' then some (c.toNat - 48)
  else if 'a' ≤ c ∧ c ≤ 'f' then some (c.toNat - 87)
  else if 'A' ≤ c ∧ c ≤ 'F' then some (c.toNat - 55)
  else none

/-- The lower-case digit of a number below sixteen. -/
def lower (n : Nat) : Char := Char.ofNat (if n < 10 then 48 + n else 87 + n)

/-- The upper-case digit of a number below sixteen. -/
def upper (n : Nat) : Char := Char.ofNat (if n < 10 then 48 + n else 55 + n)

theorem val?_lower (n : Fin 16) : val? (lower n) = some n.val := by
  revert n; decide

theorem val?_upper (n : Fin 16) : val? (upper n) = some n.val := by
  revert n; decide

end Lodging.Hex
