import Lodging.Calendar.Date
import Mathlib.Tactic.IntervalCases

/-!
The count of days. The numbers of the dates go up by one from each day to the day after, without a
gap from the first day of the calendar to the last, so one date comes before another if and only if
its number is less.
-/

namespace Lodging

namespace Date

variable {a b d e : Date} {year : Int} {month : Nat}

theorem lt_iff : a < b ↔ a.year < b.year ∨
    a.year = b.year ∧ (a.month < b.month ∨ a.month = b.month ∧ a.day < b.day) :=
  Iff.rfl

theorem eq_iff : a = b ↔ a.year = b.year ∧ a.month = b.month ∧ a.day = b.day := by
  cases a
  cases b
  simp only [mk.injEq]

theorem lt_trichotomy (a b : Date) : a < b ∨ a = b ∨ b < a := by
  rw [eq_iff, lt_iff, lt_iff]
  omega

/-- Days before the first of January, in the count of days. -/
def daysBeforeYear (year : Int) : Int :=
  365 * (year - 1) + (year - 1) / 4 - (year - 1) / 100 + (year - 1) / 400

/-- Days of a year before the first of a month. -/
def daysBeforeMonth (year : Int) (month : Nat) : Nat :=
  daysBefore month + if 2 < month ∧ leapYear year then 1 else 0

theorem number_eq (d : Date) :
    d.number = daysBeforeYear d.year + daysBeforeMonth d.year d.month + d.day := by
  unfold number daysBeforeYear daysBeforeMonth
  push_cast
  omega

/-- A month begins where the one before it ends. -/
theorem daysBeforeMonth_succ (hpos : 1 ≤ month) (hlt : month < 12) :
    daysBeforeMonth year (month + 1) = daysBeforeMonth year month + monthLength year month := by
  unfold daysBeforeMonth monthLength
  cases leapYear year <;> interval_cases month <;> rfl

/-- A year begins where December ends. -/
theorem daysBeforeYear_succ (year : Int) :
    daysBeforeYear (year + 1) = daysBeforeYear year + daysBeforeMonth year 12 + 31 := by
  have hleap : leapYear year = true ↔ year % 4 = 0 ∧ (year % 100 ≠ 0 ∨ year % 400 = 0) := by
    simp [leapYear]
  have hlong : daysBeforeMonth year 12 = 334 + if leapYear year = true then 1 else 0 := by
    cases h : leapYear year <;> simp [daysBeforeMonth, daysBefore, h]
  unfold daysBeforeYear
  rw [hlong]
  -- the quotients only change with a year that four, a hundred or four hundred divide
  by_cases h : leapYear year = true
  · have hyear := hleap.mp h
    rw [if_pos h]
    omega
  · have hyear : ¬ (year % 4 = 0 ∧ (year % 100 ≠ 0 ∨ year % 400 = 0)) := fun hy => h (hleap.mpr hy)
    rw [if_neg h]
    omega

theorem monthLength_pos (year : Int) (month : Nat) : 1 ≤ monthLength year month := by
  unfold monthLength
  split
  · split <;> omega
  · split <;> omega

/-- The day after has the next number. -/
theorem number_next? (h : d.next? = some e) : e.number = d.number + 1 := by
  have of_eq {year : Int} {month day : Nat} (h : of? year month day = some e) :
      e.year = year ∧ e.month = month ∧ e.day = day := by
    unfold of? at h
    split at h
    · cases h
      exact ⟨rfl, rfl, rfl⟩
    · cases h
  obtain ⟨-, ⟨hmonth, hlast⟩, hday, hlength⟩ := d.isDay
  unfold next? at h
  rw [number_eq, number_eq]
  split at h
  next hin =>
    obtain ⟨hy, hm, hd⟩ := of_eq h
    rw [hy, hm, hd]
    omega
  next hend =>
    split at h
    next hearly =>
      obtain ⟨hy, hm, hd⟩ := of_eq h
      rw [hy, hm, hd, daysBeforeMonth_succ hmonth hearly]
      omega
    next hlate =>
      obtain ⟨hy, hm, hd⟩ := of_eq h
      -- after the last day of December the next year begins
      have hdecember : d.month = 12 := by omega
      have hfirst : daysBeforeMonth (d.year + 1) 1 = 0 := rfl
      have hlong : monthLength d.year 12 = 31 := rfl
      rw [hy, hm, hd, daysBeforeYear_succ, hfirst, hdecember]
      rw [hdecember, hlong] at hend hlength
      omega

/-- A date with a later one has a day after it. -/
theorem exists_next? (h : d < b) : ∃ e, d.next? = some e := by
  have of_isDay {year : Int} {month day : Nat} (h : IsDay year month day) :
      ∃ e, of? year month day = some e := ⟨_, dif_pos h⟩
  obtain ⟨hyears, ⟨hmonth, hlast⟩, hday, hlength⟩ := d.isDay
  obtain ⟨⟨-, hbyear⟩, ⟨-, hbmonth⟩, -, hbday⟩ := b.isDay
  unfold next?
  split
  next hin => exact of_isDay ⟨hyears, ⟨hmonth, hlast⟩, by omega, by omega⟩
  next hend =>
    split
    next hearly =>
      exact of_isDay ⟨hyears, ⟨by omega, by omega⟩, le_refl 1, monthLength_pos _ _⟩
    next hlate =>
      -- behind the last day of a year comes another year
      have hyear : d.year < b.year := by
        rw [lt_iff] at h
        rcases h with h | ⟨hy, h | ⟨hm, h⟩⟩
        · exact h
        · omega
        · rw [hy, hm] at hend
          omega
      exact of_isDay ⟨⟨by omega, by omega⟩, ⟨le_refl 1, by omega⟩, le_refl 1, monthLength_pos _ _⟩

theorem daysBeforeYear_mono {first last : Int} (h : first ≤ last) :
    daysBeforeYear first ≤ daysBeforeYear last := by
  unfold daysBeforeYear
  omega

/-- All of a month is over before a later month of the year begins. -/
theorem daysBeforeMonth_of_lt {later : Nat} (hpos : 1 ≤ month) (h : month < later)
    (hlate : later ≤ 12) :
    daysBeforeMonth year month + monthLength year month ≤ daysBeforeMonth year later := by
  induction later, h using Nat.le_induction with
  | base => exact (daysBeforeMonth_succ hpos hlate).ge
  | succ later hlater ih =>
    calc daysBeforeMonth year month + monthLength year month
        ≤ daysBeforeMonth year later := ih (by omega)
      _ ≤ daysBeforeMonth year later + monthLength year later := Nat.le_add_right _ _
      _ = daysBeforeMonth year (later + 1) := (daysBeforeMonth_succ (by omega) (by omega)).symm

/-- No date of a year has a number beyond the end of its December. -/
theorem number_le (d : Date) : d.number ≤ daysBeforeYear (d.year + 1) := by
  obtain ⟨-, ⟨hmonth, hlast⟩, -, hlength⟩ := d.isDay
  rw [number_eq, daysBeforeYear_succ]
  by_cases hdecember : d.month = 12
  · rw [hdecember] at hlength ⊢
    have hlong : monthLength d.year 12 = 31 := rfl
    omega
  · have hbefore : daysBeforeMonth d.year d.month + monthLength d.year d.month ≤
        daysBeforeMonth d.year 12 := daysBeforeMonth_of_lt hmonth (by omega) (le_refl 12)
    omega

/-- The numbers of the dates are in their order. -/
theorem number_lt (h : a < b) : a.number < b.number := by
  obtain ⟨-, ⟨hmonth, -⟩, -, hlength⟩ := a.isDay
  obtain ⟨-, ⟨-, hlate⟩, hpos, -⟩ := b.isDay
  rw [lt_iff] at h
  rcases h with hyear | ⟨hyear, hmonths | ⟨hsame, hday⟩⟩
  · calc a.number ≤ daysBeforeYear (a.year + 1) := number_le a
      _ ≤ daysBeforeYear b.year := daysBeforeYear_mono (by omega)
      _ < b.number := by rw [number_eq]; omega
  · have hbefore : daysBeforeMonth b.year a.month + monthLength b.year a.month ≤
        daysBeforeMonth b.year b.month := daysBeforeMonth_of_lt hmonth hmonths hlate
    rw [number_eq, number_eq, hyear]
    rw [hyear] at hlength
    omega
  · rw [number_eq, number_eq, hyear, hsame]
    omega

theorem number_lt_iff : a.number < b.number ↔ a < b := by
  refine ⟨fun h => ?_, number_lt⟩
  rcases lt_trichotomy a b with hlt | rfl | hgt
  · exact hlt
  · omega
  · have := number_lt hgt
    omega

theorem number_le_iff : a.number ≤ b.number ↔ a ≤ b := by
  rw [← Int.not_lt, number_lt_iff]
  exact Iff.rfl

theorem number_injective : Function.Injective number := by
  intro a b h
  rcases lt_trichotomy a b with hlt | heq | hgt
  · have := number_lt hlt
    omega
  · exact heq
  · have := number_lt hgt
    omega

/-- Between two dates no number is left out. -/
theorem exists_number (n : Nat) (h : a.number + n ≤ b.number) :
    ∃ d : Date, d.number = a.number + n := by
  induction n with
  | zero => exact ⟨a, by omega⟩
  | succ n ih =>
    obtain ⟨d, hd⟩ := ih (by omega)
    have hlt : d < b := number_lt_iff.mp (by omega)
    obtain ⟨e, he⟩ := exists_next? hlt
    refine ⟨e, ?_⟩
    have := number_next? he
    omega

end Date

end Lodging
