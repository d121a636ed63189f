import Lodging.Calendar.Date

/-!
A stay is a run of nights: the dates from the arrival up to, but not with, the departure. It holds
at least one night.
-/

namespace Lodging

structure Stay where
  arrival : Date
  departure : Date
  ordered : arrival < departure
deriving DecidableEq

/-- Two dates that make no stay, because the first does not come before the second. -/
structure NoNights where
  arrival : Date
  departure : Date
deriving DecidableEq

def NoNights.message (e : NoNights) : String :=
  s!"start date {e.arrival} must be before end date {e.departure}"

namespace Stay

def ofDates (arrival departure : Date) : Except NoNights Stay :=
  if h : arrival < departure then .ok ⟨arrival, departure, h⟩ else .error ⟨arrival, departure⟩

/-- Each stay begins before the other one ends. -/
def overlaps (a b : Stay) : Bool := a.arrival < b.departure && b.arrival < a.departure

def nights (s : Stay) : Int := s.departure.number - s.arrival.number

/-- The half-open interval of the dates. -/
def text (s : Stay) : String := s!"[{s.arrival}, {s.departure})"

instance : ToString Stay := ⟨text⟩

/-- The night that begins on a date belongs to the stay. -/
def includes (s : Stay) (d : Date) : Prop := s.arrival ≤ d ∧ d < s.departure

theorem overlaps_comm (a b : Stay) : a.overlaps b = b.overlaps a := Bool.and_comm ..

theorem ofDates_eq_ok {arrival departure : Date} {s : Stay} :
    ofDates arrival departure = .ok s ↔ s.arrival = arrival ∧ s.departure = departure := by
  obtain ⟨a, b, h⟩ := s
  by_cases hlt : arrival < departure
  · simp [ofDates, hlt, eq_comm]
  · simp only [ofDates, hlt, dite_false]
    exact ⟨nofun, fun ⟨ha, hb⟩ => absurd (ha ▸ hb ▸ h) hlt⟩

theorem ofDates_eq_error {arrival departure : Date} {e : NoNights} :
    ofDates arrival departure = .error e ↔ ¬ arrival < departure ∧ e = ⟨arrival, departure⟩ := by
  by_cases hlt : arrival < departure <;> simp [ofDates, hlt, eq_comm]

end Stay

end Lodging
