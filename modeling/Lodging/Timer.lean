/-!
How long a timer waits, in milliseconds.
-/

namespace Lodging.Timer

/-- Thirty years. -/
def longest : Nat := 30 * 365 * 24 * 60 * 60 * 1000

/-- The wait that comes of the one asked for. -/
def wait (milliseconds : Nat) : Nat := min milliseconds longest

end Lodging.Timer
