import Mathlib.Data.List.Induction
import Lodging.Json.Magnitude
import Lodging.Proofs.Json.Reading

/-!
Whole numbers of at most 53 bits can be kept in memory. All their digits are taken into the
significand, and rounding leaves it as it is.
-/

namespace Lodging.Numeral

theorem round53_of_lt {n : Nat} (h : n < 2 ^ 53) : round53 n = n := by
  have hshift : n.log2 + 1 - 53 = 0 := by
    by_cases hzero : n = 0
    · rw [hzero]
      decide
    · have hlog : n.log2 < 53 := (Nat.log2_lt hzero).mpr h
      omega
  have hunit : Decimal.capacity 0 = 1 := rfl
  unfold round53
  simp [hshift, hunit, Nat.mod_one]

theorem le_value_append (ds es : List Char) : Decimal.value ds ≤ Decimal.value (ds ++ es) := by
  induction es using List.reverseRecOn with
  | nil => simp
  | append_singleton es c ih =>
    rw [← List.append_assoc, Decimal.value_concat]
    omega

/-- Digits are taken until their number gets too large. -/
theorem take64_value (ds : List Char) {es : List Char}
    (h : Decimal.value (ds ++ es) < Decimal.capacity 64) :
    take64 (Decimal.value ds) es = (Decimal.value (ds ++ es), es.length, 0) := by
  induction es generalizing ds with
  | nil =>
    rw [List.append_nil]
    rfl
  | cons c es ih =>
    -- the next digit goes over to those that were taken
    have hsplit : ds ++ c :: es = ds ++ [c] ++ es := by simp
    rw [hsplit] at h ⊢
    have hnext : Decimal.value (ds ++ [c]) < Decimal.capacity 64 :=
      Nat.lt_of_le_of_lt (le_value_append (ds ++ [c]) es) h
    unfold take64
    simp only [← Decimal.value_concat, hnext, if_true, ih (ds ++ [c]) h, List.length_cons]

theorem representable_ofInt {i : Int} (h : i.natAbs < 2 ^ 53) :
    (ofInt i).representable = true := by
  have hinfinite : 2 ^ 53 ≤ infinite := by decide +kernel
  have hfits : Decimal.value (Decimal.digits i.natAbs) < Decimal.capacity 64 := by
    have hcapacity : 2 ^ 53 ≤ Decimal.capacity 64 := by decide
    rw [Decimal.value_digits]
    omega
  have htaken : take64 0 (Decimal.digits i.natAbs) =
      (i.natAbs, (Decimal.digits i.natAbs).length, 0) := by
    have htake := take64_value [] hfits
    rw [List.nil_append, Decimal.value_digits] at htake
    exact htake
  have hbelow : round53 i.natAbs * round53 1 < infinite := by
    rw [round53_of_lt h, round53_of_lt (by decide), Nat.mul_one]
    exact Nat.lt_of_lt_of_le h hinfinite
  -- neither a fraction nor an exponent
  have hfraction : ∀ s, take64 s [] = (s, 0, 0) := fun _ => rfl
  have hexponent : Decimal.value [] = 0 := rfl
  have hsmall : 0 < Decimal.capacity 31 := by decide
  unfold representable ofInt
  simp [htaken, hfraction, hexponent, hsmall, hbelow]

end Lodging.Numeral
