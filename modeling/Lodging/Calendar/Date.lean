import Lodging.Text.Blank
import Lodging.Text.Decimal

/-!
Calendar dates of the proleptic Gregorian calendar, from the year -262143 to the year 262142: their
order, their place in the count of days, the days before and after, and their text.
-/

namespace Lodging

/-- Every fourth year, but of the full centuries only every fourth. -/
def leapYear (year : Int) : Bool := year % 4 = 0 && (year % 100 ≠ 0 || year % 400 = 0)

def monthLength (year : Int) (month : Nat) : Nat :=
  if month = 2 then if leapYear year then 29 else 28
  else if month = 4 ∨ month = 6 ∨ month = 9 ∨ month = 11 then 30
  else 31

def firstYear : Int := -262143

def lastYear : Int := 262142

/-- The triples of numbers that name a day of the calendar. -/
def IsDay (year : Int) (month day : Nat) : Prop :=
  (firstYear ≤ year ∧ year ≤ lastYear) ∧ (1 ≤ month ∧ month ≤ 12) ∧
    1 ≤ day ∧ day ≤ monthLength year month

instance (year : Int) (month day : Nat) : Decidable (IsDay year month day) :=
  inferInstanceAs (Decidable (_ ∧ _))

structure Date where
  year : Int
  month : Nat
  day : Nat
  isDay : IsDay year month day
deriving DecidableEq

namespace Date

def of? (year : Int) (month day : Nat) : Option Date :=
  if h : IsDay year month day then some ⟨year, month, day, h⟩ else none

/-- Earlier by year, then by month, then by day of the month. -/
def before (a b : Date) : Prop :=
  a.year < b.year ∨
    a.year = b.year ∧ (a.month < b.month ∨ a.month = b.month ∧ a.day < b.day)

instance : LT Date := ⟨before⟩

instance : LE Date := ⟨fun a b => ¬ b < a⟩

instance (a b : Date) : Decidable (a < b) := inferInstanceAs (Decidable (_ ∨ _))

instance (a b : Date) : Decidable (a ≤ b) := inferInstanceAs (Decidable (¬ _))

/-- Days of a common year before the first of a month. -/
def daysBefore : Nat → Nat
  | 1 => 0 | 2 => 31 | 3 => 59 | 4 => 90 | 5 => 120 | 6 => 151
  | 7 => 181 | 8 => 212 | 9 => 243 | 10 => 273 | 11 => 304 | _ => 334

/-- The place of a date in the count of days, in which 31 December of the year 0 has number 0. -/
def number (d : Date) : Int :=
  let y := d.year - 1
  365 * y + y / 4 - y / 100 + y / 400 + daysBefore d.month +
    (if 2 < d.month ∧ leapYear d.year then 1 else 0) + d.day

/-- The day after, if the calendar goes on. -/
def next? (d : Date) : Option Date :=
  if d.day < monthLength d.year d.month then of? d.year d.month (d.day + 1)
  else if d.month < 12 then of? d.year (d.month + 1) 1
  else of? (d.year + 1) 1 1

/-- The day before, if the calendar reaches back to it. -/
def previous? (d : Date) : Option Date :=
  if 1 < d.day then of? d.year d.month (d.day - 1)
  else if 1 < d.month then of? d.year (d.month - 1) (monthLength d.year (d.month - 1))
  else of? (d.year - 1) 12 31

/-- Four digits for the years 0 to 9999, a sign and at least four digits for all others. -/
def yearDigits (year : Int) : List Char :=
  let ds := Decimal.padded 4 year.natAbs
  if year < 0 then '-' :: ds else if 9999 < year then '+' :: ds else ds

def chars (d : Date) : List Char :=
  yearDigits d.year ++ '-' :: Decimal.padded 2 d.month ++ '-' :: Decimal.padded 2 d.day

/-- The text of a date, such as `2030-07-01`. -/
def text (d : Date) : String := String.ofList d.chars

instance : ToString Date := ⟨text⟩

/-- A year: any number of digits after a sign, at most four without one. -/
def scanYear? : List Char → Option (Int × List Char)
  | '-' :: r => (Decimal.take? r.length r).map fun (n, r) => (-(n : Int), r)
  | '+' :: r => (Decimal.take? r.length r).map fun (n, r) => ((n : Int), r)
  | r => (Decimal.take? 4 r).map fun (n, r) => ((n : Int), r)

/-- Takes a given character off the front, after any white space. -/
def scanMark? (mark : Char) (s : List Char) : Option (List Char) :=
  match trimStart s with
  | c :: r => if c = mark then some r else none
  | [] => none

/-- A number of one or two digits, after any white space. -/
def scanPair? (s : List Char) : Option (Nat × List Char) := Decimal.take? 2 (trimStart s)

/-- Takes a date off the front. White space may stand before each number and each hyphen. -/
def scan? (s : List Char) : Option (Date × List Char) := do
  let (year, s) ← scanYear? (trimStart s)
  let s ← scanMark? '-' s
  let (month, s) ← scanPair? s
  let s ← scanMark? '-' s
  let (day, s) ← scanPair? s
  let d ← of? year month day
  return (d, s)

/-- Reads a date; white space may follow it. -/
def ofChars? (s : List Char) : Option Date :=
  (scan? s).bind fun (d, r) => if trimStart r = [] then some d else none

def ofText? (s : String) : Option Date := ofChars? s.toList

end Date

end Lodging
