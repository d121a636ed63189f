import Lodging.Calendar.Instant
import Lodging.Proofs.Text.Numerals

/-!
Instants come back from their texts. One within a leap second may have the text of an instant of
another second, so those are left out.
-/

namespace Lodging

namespace Decimal

/-- Zeros behind the digits of a number multiply it. -/
theorem value_append_zeros (ds : List Char) (k : Nat) :
    value (ds ++ List.replicate k '0') = value ds * 10 ^ k := by
  induction k with
  | zero => simp
  | succ k ih =>
    have hzero : val '0' = 0 := rfl
    rw [List.replicate_succ', ← List.append_assoc, value_concat, ih, hzero, Nat.pow_succ,
      Nat.add_zero, Nat.mul_comm 10, Nat.mul_assoc]

end Decimal

namespace Instant

open Decimal

variable {t : Instant}

/-- The digits of a fraction are taken up to what follows them. -/
theorem takeWhile_fraction {ds : List Char} (hds : ∀ c ∈ ds, c.isDigit = true)
    (hlen : ds.length ≤ 9) : ((ds ++ ['Z']).take 9).takeWhile Char.isDigit = ds := by
  rw [List.take_append, List.take_of_length_le hlen, List.takeWhile_append_of_pos hds]
  cases 9 - ds.length <;> simp

theorem dropWhile_fraction {ds : List Char} (hds : ∀ c ∈ ds, c.isDigit = true) :
    (ds ++ ['Z']).dropWhile Char.isDigit = ['Z'] := by
  rw [List.dropWhile_append_of_pos hds]
  rfl

/-- A fraction of some number of digits is what they and the zeros that are left out amount to. -/
theorem value_fraction {width v : Nat} (hpos : 0 < width) (hv : v < 10 ^ width) :
    value (padded width v ++ List.replicate (9 - (padded width v).length) '0') =
      v * 10 ^ (9 - width) := by
  rw [length_padded hpos hv, value_append_zeros, value_padded]

/-- A fraction that is shown has at most nine digits, which say all of it. -/
theorem exists_fractionChars {nano : Nat} (h : nano < 1000000000) (hpos : nano ≠ 0) :
    ∃ ds, fractionChars nano = '.' :: ds ∧ ds ≠ [] ∧ (∀ c ∈ ds, c.isDigit = true) ∧
      ds.length ≤ 9 ∧ value (ds ++ List.replicate (9 - ds.length) '0') = nano := by
  obtain ⟨width, v, hchars, hwidth, hle, hv, hnano⟩ : ∃ width v,
      fractionChars nano = '.' :: padded width v ∧ 0 < width ∧ width ≤ 9 ∧ v < 10 ^ width ∧
        v * 10 ^ (9 - width) = nano := by
    unfold fractionChars
    rw [if_neg hpos]
    split
    next => exact ⟨3, _, rfl, by omega, by omega, by omega, by omega⟩
    next =>
      split
      next => exact ⟨6, _, rfl, by omega, by omega, by omega, by omega⟩
      next => exact ⟨9, _, rfl, by omega, by omega, by omega, by omega⟩
  refine ⟨_, hchars, padded_ne_nil _ _, fun _ => isDigit_of_mem_padded, ?_, ?_⟩
  · rw [length_padded hwidth hv]
    exact hle
  · rw [value_fraction hwidth hv, hnano]

theorem scanMark?_colon (s : List Char) : Date.scanMark? ':' (':' :: s) = some s := by
  unfold Date.scanMark?
  rw [trimStart_of_head (by decide)]
  simp

/-- A time of day is read up to the zone behind it. -/
theorem scanClock?_chars {hour minute second nano : Nat} (hhour : hour < 24) (hminute : minute < 60)
    (hsecond : second < 60) (hnano : nano < 1000000000) :
    scanClock? (padded 2 hour ++ ':' :: (padded 2 minute ++ ':' :: (padded 2 second ++
      (fractionChars nano ++ ['Z'])))) =
      some (3600 * hour + 60 * minute + second, nano, ['Z']) := by
  have hclock : hour < 24 ∧ minute < 60 ∧ second ≤ 60 := ⟨hhour, hminute, by omega⟩
  have hmin : min second 59 = second := by omega
  have hleap : ¬ second = 60 := by omega
  unfold scanClock?
  simp only [Option.bind_eq_bind, Date.scanPair?_padded (by omega : hour < 100), Option.bind_some,
    scanMark?_colon, Date.scanPair?_padded (by omega : minute < 100),
    Date.scanPair?_padded (by omega : second < 100), hclock, and_self, if_true, hmin, hleap,
    if_false]
  by_cases hzero : nano = 0
  · have hnone : fractionChars nano = [] := if_pos hzero
    rw [hnone, hzero]
    rfl
  · obtain ⟨ds, hchars, hne, hdigits, hlen, hvalue⟩ := exists_fractionChars hnano hzero
    simp only [hchars, List.cons_append, takeWhile_fraction hdigits hlen, hne, if_false, hvalue,
      Nat.zero_add, dropWhile_fraction hdigits]

/-- Universal time is the local time without an offset. -/
theorem ofLocal?_zero (t : Instant) : ofLocal? t.date t.second t.nano 0 = some t := by
  have hlt : (t.second : Int) < 86400 := by
    have := t.second_lt
    omega
  have hday : ¬ (t.second : Int) < 0 := by omega
  have hmod : ((t.second : Int) % 86400).toNat = t.second := by omega
  unfold ofLocal?
  simp only [Int.sub_zero, hday, hlt, if_true, if_false, Option.bind_some, hmod]
  exact dif_pos ⟨t.second_lt, t.nano_lt⟩

/-- What stands behind the date and the `T` is a time of day in universal time. -/
theorem ofChars?_of_clock {r : List Char} (h : scanClock? r = some (t.second, t.nano, ['Z'])) :
    ofChars? (t.date.chars ++ 'T' :: r) = some t := by
  have hzone : scanZone? (trimStart ['Z']) = some (0, []) := by decide
  unfold ofChars?
  rw [Date.scan?_chars]
  change (scanClock? r).bind (fun x => (scanZone? (trimStart x.2.2)).bind fun y =>
    if trimStart y.2 = [] then ofLocal? t.date x.1 x.2.1 y.1 else none) = _
  rw [h, Option.bind_some, hzone, Option.bind_some, if_pos (by rfl)]
  exact ofLocal?_zero t

/-- An instant without a leap second is read back from its text. -/
theorem ofText?_text (h : t.nano < 1000000000) : ofText? t.text = some t := by
  have hsecond : t.second < 86400 := t.second_lt
  have hsplit : t.chars = t.date.chars ++ ('T' :: (padded 2 (t.second / 3600) ++
      ':' :: (padded 2 (t.second / 60 % 60) ++ ':' :: (padded 2 (t.second % 60) ++
        (fractionChars t.nano ++ ['Z']))))) := by
    have hwhole : t.nano / 1000000000 = 0 := by omega
    have hnano : t.nano % 1000000000 = t.nano := by omega
    unfold chars
    simp [hwhole, hnano]
  have hhour : t.second / 3600 < 24 := by omega
  have hminute : t.second / 60 % 60 < 60 := by omega
  have hsixty : t.second % 60 < 60 := by omega
  have hclock := scanClock?_chars hhour hminute hsixty h
  have hstart : 3600 * (t.second / 3600) + 60 * (t.second / 60 % 60) + t.second % 60 =
      t.second := by omega
  rw [hstart] at hclock
  unfold ofText? text
  rw [String.toList_ofList, hsplit]
  exact ofChars?_of_clock hclock

end Instant

end Lodging
