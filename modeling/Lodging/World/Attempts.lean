import Lodging.Service.Settings
import Lodging.World.Delays

/-!
How the number of attempts may be written in its variable, an integer of any size with or without a
sign and with white space around it, and what number of attempts an integer asks for.
-/

namespace Lodging

namespace Decimal

/-- What may stand before the digits of an integer. -/
inductive Sign where
  | none
  | plus
  | minus
deriving DecidableEq

namespace Sign

def chars : Sign → List Char
  | none => []
  | plus => ['+']
  | minus => ['-']

/-- The integer whose digits stand for a number, behind this sign. -/
def integer : Sign → Nat → Int
  | minus, n => -(n : Int)
  | _, n => n

end Sign

/-- Digits behind a sign, with white space around them, that denote a number of any size. -/
def Signed (s : List Char) (sign : Sign) (n : Nat) : Prop :=
  ∃ before ds behind, s = before ++ (sign.chars ++ ds) ++ behind ∧
    (∀ c ∈ before, isBlank c = true) ∧ Denotes ds n ∧ ∀ c ∈ behind, isBlank c = true

end Decimal

namespace Settings

/-- The variable for the number of attempts. -/
def attemptsVariable : String := "INVENTORY_RETRY_MAX_ATTEMPTS"

/-- The attempts that an integer asks for: at least one, and no more than 32 bits can tell. -/
def clamped (i : Int) : Nat :=
  if i < 1 then 1 else if i ≤ 4294967295 then i.toNat else 4294967295

end Settings

end Lodging
