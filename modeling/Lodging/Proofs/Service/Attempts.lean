import Lodging.Proofs.Text.Spelling

/-!
The number of attempts that a service makes, as its variable gives it. A number of 64 bits is brought
into the range of a policy, whatever the other variables hold. A number below zero or of more bits is
not: it is passed over for the default, as a text that spells no number is.
-/

namespace Lodging.Settings

open Decimal (Signed Spells)

variable {text : String} {n : Nat} {i : Int}

theorem one_le_clamped (i : Int) : 1 ≤ clamped i := by
  unfold clamped
  split
  · exact Nat.le_refl 1
  · split <;> omega

theorem clamped_natCast (n : Nat) : clamped n = max (min n maxUInt32) 1 := by
  have hmax : maxUInt32 = 4294967295 := by decide
  unfold clamped
  rw [hmax]
  split
  · omega
  · split <;> omega

/-- The default number is asked for by no other integer. -/
theorem clamped_eq_three_iff : clamped i = 3 ↔ i = 3 := by
  unfold clamped
  split
  · omega
  · split <;> omega

theorem attempts?_of_spells (h : Spells 64 text.toList n) : attempts? text = some (clamped n) := by
  unfold attempts? number?
  rw [Decimal.spells_iff.mp h, clamped_natCast]
  rfl

theorem attempts?_eq_none (h : ¬ ∃ n, Spells 64 text.toList n) : attempts? text = none := by
  unfold attempts? number?
  rw [Option.map_eq_none_iff, Option.eq_none_iff_forall_ne_some]
  intro n hn
  exact h ⟨n, Decimal.spells_iff.mpr hn⟩

theorem maxAttempts_ofVariables (port : Nat) (value? : String → Option String) :
    (ofVariables port value?).inventory.policy.maxAttempts =
      max (((value? attemptsVariable).bind attempts?).getD 3) 1 :=
  rfl

theorem maxAttempts_of_spells {port : Nat} {value? : String → Option String}
    (htext : value? attemptsVariable = some text) (h : Spells 64 text.toList n) :
    (ofVariables port value?).inventory.policy.maxAttempts = clamped n := by
  rw [maxAttempts_ofVariables, htext, Option.bind_some, attempts?_of_spells h]
  exact Nat.max_eq_left (one_le_clamped n)

theorem maxAttempts_of_not_spells {port : Nat} {value? : String → Option String}
    (htext : value? attemptsVariable = some text) (h : ¬ ∃ n, Spells 64 text.toList n) :
    (ofVariables port value?).inventory.policy.maxAttempts = 3 := by
  rw [maxAttempts_ofVariables, htext, Option.bind_some, attempts?_eq_none h]
  rfl

/-- Every integer can be written in the variable, between any white space. It is brought into the
range of a policy, whatever the other variables hold, if and only if it has no minus before it and
fits into 64 bits. Any other integer is passed over for the default of three attempts, and so is a
text that spells none. -/
theorem attempts_clamped_or_passed_over (port : Nat) (value? : String → Option String) :
    (∀ (i : Int) before behind, (∀ c ∈ before, isBlank c = true) →
      (∀ c ∈ behind, isBlank c = true) →
      ∃ sign n, sign.integer n = i ∧ Signed (before ++ Decimal.intDigits i ++ behind) sign n) ∧
    (∀ text : String, value? attemptsVariable = some text →
      (∀ sign n, Signed text.toList sign n →
        ((ofVariables port value?).inventory.policy.maxAttempts = clamped (sign.integer n) ↔
          sign ≠ .minus ∧ n < 2 ^ 64) ∧
        (¬ (sign ≠ .minus ∧ n < 2 ^ 64) →
          (ofVariables port value?).inventory.policy.maxAttempts = 3)) ∧
      ((∀ sign n, ¬ Signed text.toList sign n) →
        (ofVariables port value?).inventory.policy.maxAttempts = 3)) ∧
    (value? attemptsVariable = none →
      (ofVariables port value?).inventory.policy.maxAttempts = 3) := by
  refine ⟨fun i _ _ => Decimal.signed_intDigits i, ?_, ?_⟩
  · intro text htext
    constructor
    · intro sign n hsigned
      have hfits : (∃ m, Spells 64 text.toList m) ↔ sign ≠ .minus ∧ n < 2 ^ 64 :=
        hsigned.exists_spells_iff
      have hpassed : ¬ (sign ≠ .minus ∧ n < 2 ^ 64) →
          (ofVariables port value?).inventory.policy.maxAttempts = 3 := by
        intro hnot
        exact maxAttempts_of_not_spells htext (mt hfits.mp hnot)
      refine ⟨⟨?_, ?_⟩, hpassed⟩
      · -- an integer that is passed over is not the one that asks for the default
        intro hclamped
        by_contra hnot
        have hthree : sign.integer n = 3 :=
          clamped_eq_three_iff.mp (hclamped.symm.trans (hpassed hnot))
        have hsign : sign ≠ .minus := by
          rintro rfl
          change -(n : Int) = 3 at hthree
          omega
        rw [Decimal.Sign.integer_of_ne_minus hsign] at hthree
        exact hnot ⟨hsign, by omega⟩
      · rintro ⟨hsign, hlt⟩
        have hspells : Spells 64 text.toList n :=
          Decimal.spells_iff_signed.mpr ⟨⟨sign, hsign, hsigned⟩, hlt⟩
        rw [maxAttempts_of_spells htext hspells, Decimal.Sign.integer_of_ne_minus hsign]
    · intro hother
      apply maxAttempts_of_not_spells htext
      rintro ⟨n, hn⟩
      obtain ⟨⟨sign, -, hsigned⟩, -⟩ := Decimal.spells_iff_signed.mp hn
      exact hother sign n hsigned
  · intro hnone
    rw [maxAttempts_ofVariables, hnone]
    rfl

/-- Variables of which only the one for the number of attempts is set. -/
def only (text : String) (name : String) : Option String :=
  if name = attemptsVariable then some text else none

/-- The attempts of a service with nothing else set. -/
def attemptsFor (text : String) : Nat :=
  (ofVariables bookingPort (only text)).inventory.policy.maxAttempts

theorem attempts_clamped_or_passed_over_of_texts :
    attemptsFor "+004294967297\u3000" = 4294967295 ∧ attemptsFor "\n0" = 1 ∧
      attemptsFor "-0" = 3 ∧ attemptsFor "2.0" = 3 := by
  have hset : ∀ text, only text attemptsVariable = some text := fun _ => if_pos rfl
  have hread := fun text => (attempts_clamped_or_passed_over bookingPort (only text)).2.1 text
    (hset text)
  refine ⟨?_, ?_, ?_, ?_⟩
  · have hlarge : Signed "+004294967297\u3000".toList .plus 4294967297 :=
      Decimal.signed_iff.mpr ⟨"004294967297".toList, rfl, Decimal.nat?_eq_some_iff.mp rfl⟩
    exact ((hread _).1 _ _ hlarge).1.mpr ⟨nofun, by decide⟩
  · have hzero : Signed "\n0".toList .none 0 :=
      Decimal.signed_iff.mpr ⟨['0'], rfl, Decimal.nat?_eq_some_iff.mp rfl⟩
    exact ((hread _).1 _ _ hzero).1.mpr ⟨nofun, by decide⟩
  · have hminus : Signed "-0".toList .minus 0 :=
      Decimal.signed_iff.mpr ⟨['0'], rfl, Decimal.nat?_eq_some_iff.mp rfl⟩
    exact ((hread _).1 _ _ hminus).2 fun hfits => hfits.1 rfl
  · -- the point is neither a digit nor a sign
    have hnone : ∀ sign n, ¬ Signed "2.0".toList sign n := by
      intro sign n h
      obtain ⟨ds, hs, hds⟩ := Decimal.signed_iff.mp h
      obtain ⟨hsign, -⟩ := hds.filter_append sign
      have hpoint : (trim "2.0".toList).filter (! ·.isDigit) = ['.'] := rfl
      rw [← hs, hpoint] at hsign
      cases sign <;> cases hsign
    exact (hread _).2 hnone

/-- A number below one is not raised to one, and one of more than 64 bits is not lowered to the
largest. -/
theorem integers_passed_over :
    (Signed "-1".toList .minus 1 ∧ clamped (Decimal.Sign.minus.integer 1) = 1 ∧
      attemptsFor "-1" = 3) ∧
    Signed "18446744073709551616".toList .none 18446744073709551616 ∧
      clamped (Decimal.Sign.none.integer 18446744073709551616) = 4294967295 ∧
      attemptsFor "18446744073709551616" = 3 := by
  refine ⟨⟨?_, rfl, rfl⟩, ?_, rfl, rfl⟩
  · exact Decimal.signed_iff.mpr ⟨['1'], rfl, Decimal.nat?_eq_some_iff.mp rfl⟩
  · exact Decimal.signed_iff.mpr ⟨"18446744073709551616".toList, rfl,
      Decimal.nat?_eq_some_iff.mp rfl⟩

end Lodging.Settings
