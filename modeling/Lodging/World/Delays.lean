import Lodging.Client.Retry

/-!
How the delays of a policy may be written: numbers between commas, with white space around them and
with pieces between them that hold nothing else.
-/

namespace Lodging

namespace Decimal

/-- Digits, the most significant first, and the number that they denote. -/
inductive Denotes : List Char → Nat → Prop
  | digit (d : Nat) (h : d < 10) : Denotes [char d] d
  | more {ds : List Char} {n : Nat} (h : Denotes ds n) (d : Nat) (hd : d < 10) :
      Denotes (ds ++ [char d]) (10 * n + d)

/-- Digits behind a plus or behind nothing, with white space around them, that denote a number of so
many bits. -/
structure Spells (bits : Nat) (s : List Char) (n : Nat) : Prop where
  spelled : ∃ before sign ds behind, s = before ++ (sign ++ ds) ++ behind ∧
    (∀ c ∈ before, isBlank c = true) ∧ (sign = [] ∨ sign = ['+']) ∧ Denotes ds n ∧
      ∀ c ∈ behind, isBlank c = true
  lt : n < Nat.pow 2 bits

end Decimal

namespace RetryPolicy

/-- The pieces of a text between its commas. -/
structure Pieces (csv : String) (pieces : List (List Char)) : Prop where
  joined : csv.toList = [','].intercalate pieces
  nonempty : pieces ≠ []
  plain : ∀ s ∈ pieces, ',' ∉ s

/-- Pieces that spell delays of 64 bits in their order, with blank ones in between. -/
inductive Written : List (List Char) → List Nat → Prop
  | nil : Written [] []
  | blank {s : List Char} {pieces : List (List Char)} {delays : List Nat}
      (hs : ∀ c ∈ s, isBlank c = true) (h : Written pieces delays) : Written (s :: pieces) delays
  | delay {s : List Char} {n : Nat} {pieces : List (List Char)} {delays : List Nat}
      (hs : Decimal.Spells 64 s n) (h : Written pieces delays) :
      Written (s :: pieces) (n :: delays)

end RetryPolicy

end Lodging
