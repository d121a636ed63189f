import Lodging.Calendar.Date

/-!
Instants of universal time, to the nanosecond. They are read from a date, a time of day and an
offset in the manner of RFC 3339, with some latitude, and written with the offset `Z`.
-/

namespace Lodging

/-- A day, a second of that day and the nanoseconds since that second began. A leap second goes on
with the second before it, so there the nanoseconds may reach the double. -/
structure Instant where
  date : Date
  second : Nat
  nano : Nat
  second_lt : second < 86400
  nano_lt : nano < 2000000000
deriving DecidableEq

namespace Instant

def before (a b : Instant) : Prop :=
  a.date < b.date ∨
    a.date = b.date ∧ (a.second < b.second ∨ a.second = b.second ∧ a.nano < b.nano)

instance : LT Instant := ⟨before⟩

instance : LE Instant := ⟨fun a b => ¬ b < a⟩

instance (a b : Instant) : Decidable (a < b) := inferInstanceAs (Decidable (_ ∨ _))

instance (a b : Instant) : Decidable (a ≤ b) := inferInstanceAs (Decidable (¬ _))

/-- The instant whose local time, at an offset in seconds, is as given. -/
def ofLocal? (date : Date) (second nano : Nat) (offset : Int) : Option Instant :=
  let s := (second : Int) - offset
  let day := if s < 0 then date.previous? else if s < 86400 then some date else date.next?
  day.bind fun d =>
    let s := (s % 86400).toNat
    if h : s < 86400 ∧ nano < 2000000000 then some ⟨d, s, nano, h.1, h.2⟩ else none

/-- A time of day: its second and its nanoseconds. -/
def scanClock? (s : List Char) : Option (Nat × Nat × List Char) := do
  let (hour, s) ← Date.scanPair? s
  let s ← Date.scanMark? ':' s
  let (minute, s) ← Date.scanPair? s
  let s ← Date.scanMark? ':' s
  let (second, s) ← Date.scanPair? s
  if hour < 24 ∧ minute < 60 ∧ second ≤ 60 then
    let start := 3600 * hour + 60 * minute + min second 59
    let leap := if second = 60 then 1000000000 else 0
    match s with
    | '.' :: r =>
      let ds := (r.take 9).takeWhile Char.isDigit
      if ds = [] then none
      else
        let nano := Decimal.value (ds ++ List.replicate (9 - ds.length) '0')
        some (start, leap + nano, r.dropWhile Char.isDigit)
    | _ => some (start, leap, s)
  else none

/-- Two digits, the first of them at most a given one. -/
def scanTwo? (most : Char) : List Char → Option (Nat × List Char)
  | a :: b :: r =>
    if a.isDigit ∧ a ≤ most ∧ b.isDigit then some (Decimal.value [a, b], r) else none
  | _ => none

/-- Hours and minutes after a sign. Colons and white space may stand between them. -/
def scanOffset? (s : List Char) : Option (Nat × List Char) := do
  let (hour, s) ← scanTwo? '9' s
  let (minute, s) ← scanTwo? '5' (s.dropWhile fun c => c = ':' || isBlank c)
  if hour < 24 then some (3600 * hour + 60 * minute, s) else none

/-- The offset of a zone in seconds: `Z`, `UTC` in any letter case, or a signed time. -/
def scanZone? (s : List Char) : Option (Int × List Char) :=
  if (s.take 3).map Char.toUpper = ['U', 'T', 'C'] then some (0, s.drop 3)
  else match s with
    | 'Z' :: r | 'z' :: r => some (0, r)
    | '+' :: r => (scanOffset? r).map fun (n, r) => ((n : Int), r)
    | '-' :: r | '\u2212' :: r => (scanOffset? r).map fun (n, r) => (-(n : Int), r)
    | _ => none

/-- Reads an instant; between date and time stands a `T` of either case or one space. -/
def ofChars? (s : List Char) : Option Instant := do
  let (date, s) ← Date.scan? s
  let s ← match s with
    | 'T' :: r | 't' :: r | ' ' :: r => some r
    | _ => none
  let (second, nano, s) ← scanClock? s
  let (offset, s) ← scanZone? (trimStart s)
  if trimStart s = [] then ofLocal? date second nano offset else none

def ofText? (s : String) : Option Instant := ofChars? s.toList

/-- The fraction of a second in 0, 3, 6 or 9 digits, as few as show all of it. -/
def fractionChars (nano : Nat) : List Char :=
  if nano = 0 then []
  else if nano % 1000000 = 0 then '.' :: Decimal.padded 3 (nano / 1000000)
  else if nano % 1000 = 0 then '.' :: Decimal.padded 6 (nano / 1000)
  else '.' :: Decimal.padded 9 nano

def chars (t : Instant) : List Char :=
  let second := t.second % 60 + t.nano / 1000000000
  t.date.chars ++ 'T' :: Decimal.padded 2 (t.second / 3600) ++
    ':' :: Decimal.padded 2 (t.second / 60 % 60) ++ ':' :: Decimal.padded 2 second ++
    fractionChars (t.nano % 1000000000) ++ ['Z']

def text (t : Instant) : String := String.ofList t.chars

end Instant

end Lodging
