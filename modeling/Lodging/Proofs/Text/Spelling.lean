import Mathlib.Data.List.Induction
import Lodging.Proofs.Text.Numerals
import Lodging.Proofs.Text.Pieces
import Lodging.World.Attempts

/-!
Which texts are read as numbers. A number is read of digits alone, behind a plus or not, and of no
other text; so with white space around it, it is read where it is spelled. A text spells one integer
at most, and behind one sign.
-/

namespace Lodging.Decimal

variable {s ds : List Char} {m n bound bits : Nat} {c : Char} {sign other : Sign}

/-- A digit character is the one of its number. -/
theorem char_val (h : c.isDigit = true) : char (val c) = c ∧ val c < 10 := by
  obtain ⟨hlow, hhigh⟩ : 48 ≤ c.toNat ∧ c.toNat ≤ 57 := by
    simpa [Char.isDigit, UInt32.le_iff_toNat_le] using h
  have hsum : 48 + (c.toNat - 48) = c.toNat := by omega
  unfold char val
  rw [hsum, Char.ofNat_toNat]
  exact ⟨rfl, by omega⟩

theorem denotes_value (hne : s ≠ []) (hdigits : ∀ c ∈ s, c.isDigit = true) :
    Denotes s (value s) := by
  induction s using List.reverseRecOn with
  | nil => exact absurd rfl hne
  | append_singleton s c ih =>
    obtain ⟨hc, hlt⟩ := char_val (hdigits c (by simp))
    rw [value_concat, ← hc, val_char hlt]
    by_cases hs : s = []
    · have hfirst : 10 * value [] + val c = val c := Nat.zero_add _
      rw [hs, hfirst]
      exact Denotes.digit (val c) hlt
    · exact (ih hs fun d hd => hdigits d (List.mem_append_left _ hd)).more (val c) hlt

theorem Denotes.digits (h : Denotes s n) :
    s ≠ [] ∧ (∀ c ∈ s, c.isDigit = true) ∧ value s = n := by
  induction h with
  | digit d hd =>
    refine ⟨List.cons_ne_nil _ _, ?_, ?_⟩
    · intro c hc
      rw [List.mem_singleton.mp hc]
      exact isDigit_char hd
    · rw [← List.nil_append [char d], value_concat, val_char hd]
      exact Nat.zero_add d
  | more _ d hd ih =>
    obtain ⟨-, hdigits, hvalue⟩ := ih
    refine ⟨by simp, ?_, ?_⟩
    · intro c hc
      rcases List.mem_append.mp hc with hc | hc
      · exact hdigits c hc
      · rw [List.mem_singleton.mp hc]
        exact isDigit_char hd
    · rw [value_concat, hvalue, val_char hd]

theorem nat?_eq_some_iff : nat? s = some n ↔ Denotes s n := by
  constructor
  · intro h
    unfold nat? at h
    split at h
    next hs =>
      cases h
      exact denotes_value hs.1 (List.all_eq_true.mp hs.2)
    next => cases h
  · intro h
    obtain ⟨hne, hdigits, rfl⟩ := h.digits
    exact nat?_of_digits hne hdigits

/-- A number below a bound is read of its digits, with or without a plus before them. -/
theorem below?_eq_some_iff : below? bound s = some n ↔
    (∃ sign ds, s = sign.chars ++ ds ∧ sign ≠ Sign.minus ∧ Denotes ds n) ∧ n < bound := by
  have hunsigned : ∀ t, (∀ r, t ≠ '+' :: r) → below? bound t = (nat? t).filter (· < bound) := by
    intro t ht
    unfold below?
    split
    next r => exact absurd rfl (ht r)
    next => rfl
  have hsigned : ∀ t, below? bound ('+' :: t) = (nat? t).filter (· < bound) := fun _ => rfl
  have hread : ∀ t, (nat? t).filter (· < bound) = some n ↔ Denotes t n ∧ n < bound := by
    intro t
    rw [Option.filter_eq_some_iff, nat?_eq_some_iff, decide_eq_true_iff]
  constructor
  · intro h
    by_cases hplus : ∃ t, s = '+' :: t
    · obtain ⟨t, rfl⟩ := hplus
      rw [hsigned, hread] at h
      exact ⟨⟨.plus, t, rfl, nofun, h.1⟩, h.2⟩
    · rw [hunsigned s fun r hr => hplus ⟨r, hr⟩, hread] at h
      exact ⟨⟨.none, s, rfl, nofun, h.1⟩, h.2⟩
  · rintro ⟨⟨sign, ds, rfl, hsign, hds⟩, hlt⟩
    cases sign with
    | none =>
      -- digits do not begin with a plus
      have hplus : ∀ r, ds ≠ '+' :: r := by
        rintro r rfl
        exact absurd (hds.digits.2.1 '+' List.mem_cons_self) (by decide)
      exact (hunsigned ds hplus).trans ((hread ds).mpr ⟨hds, hlt⟩)
    | plus => exact (hsigned ds).trans ((hread ds).mpr ⟨hds, hlt⟩)
    | minus => exact absurd rfl hsign

theorem Sign.chars_injective (h : sign.chars = other.chars) : sign = other := by
  cases sign <;> cases other <;> first | rfl | cases h

theorem Sign.not_isDigit (hc : c ∈ sign.chars) : c.isDigit = false := by
  cases sign with
  | none => cases hc
  | plus => rw [List.mem_singleton.mp hc]; rfl
  | minus => rw [List.mem_singleton.mp hc]; rfl

theorem Sign.isBlank_of_mem_chars (hc : c ∈ sign.chars) : isBlank c = false := by
  cases sign with
  | none => cases hc
  | plus => rw [List.mem_singleton.mp hc]; decide
  | minus => rw [List.mem_singleton.mp hc]; decide

theorem Sign.integer_of_ne_minus (h : sign ≠ .minus) (n : Nat) : sign.integer n = n := by
  cases sign with
  | none => rfl
  | plus => rfl
  | minus => exact absurd rfl h

/-- The sign and the digits of a text are the characters that are no digits, and those that are. -/
theorem Denotes.filter_append (h : Denotes ds n) (sign : Sign) :
    (sign.chars ++ ds).filter (! ·.isDigit) = sign.chars ∧
      (sign.chars ++ ds).filter Char.isDigit = ds := by
  obtain ⟨-, hdigits, -⟩ := h.digits
  have hsign : ∀ c ∈ sign.chars, c.isDigit = false := fun _ => Sign.not_isDigit
  rw [List.filter_append, List.filter_append]
  constructor
  · rw [List.filter_eq_self.mpr (by simpa using hsign),
      List.filter_eq_nil_iff.mpr (by simpa using hdigits), List.append_nil]
  · rw [List.filter_eq_nil_iff.mpr (by simpa using hsign), List.filter_eq_self.mpr hdigits,
      List.nil_append]

/-- An integer is spelled where trimming leaves its sign and its digits. -/
theorem signed_iff : Signed s sign n ↔ ∃ ds, trim s = sign.chars ++ ds ∧ Denotes ds n := by
  have hdark : ∀ ds, Denotes ds n → ∀ c ∈ sign.chars ++ ds, isBlank c = false := by
    intro ds hds c hc
    rcases List.mem_append.mp hc with hc | hc
    · exact Sign.isBlank_of_mem_chars hc
    · exact isBlank_of_isDigit (hds.digits.2.1 c hc)
  constructor
  · rintro ⟨before, ds, behind, hs, hbefore, hds, hbehind⟩
    exact ⟨ds, (trim_eq_iff (hdark ds hds)).mpr ⟨before, behind, hs, hbefore, hbehind⟩, hds⟩
  · rintro ⟨ds, htrim, hds⟩
    obtain ⟨before, behind, hs, hbefore, hbehind⟩ := (trim_eq_iff (hdark ds hds)).mp htrim
    exact ⟨before, ds, behind, hs, hbefore, hds, hbehind⟩

/-- A text spells one integer at most, behind one sign. -/
theorem Signed.unique (hm : Signed s sign m) (hn : Signed s other n) : sign = other ∧ m = n := by
  obtain ⟨ds, hs, hds⟩ := signed_iff.mp hm
  obtain ⟨es, ht, hes⟩ := signed_iff.mp hn
  obtain ⟨hsign, hdigits⟩ := hds.filter_append sign
  obtain ⟨hother, hmore⟩ := hes.filter_append other
  rw [← hs, ht] at hsign hdigits
  constructor
  · exact Sign.chars_injective (hsign.symm.trans hother)
  · rw [← hds.digits.2.2, ← hes.digits.2.2, ← hdigits.symm.trans hmore]

/-- Every integer is spelled by its digits, between any white space. -/
theorem signed_intDigits {before behind : List Char} (i : Int)
    (hbefore : ∀ c ∈ before, isBlank c = true) (hbehind : ∀ c ∈ behind, isBlank c = true) :
    ∃ sign n, sign.integer n = i ∧ Signed (before ++ intDigits i ++ behind) sign n := by
  have hdigits : Denotes (digits i.natAbs) i.natAbs := by
    rw [← nat?_eq_some_iff]
    exact nat?_digits _
  unfold intDigits
  split
  · refine ⟨.minus, i.natAbs, ?_, before, digits i.natAbs, behind, rfl, hbefore, hdigits, hbehind⟩
    change -(i.natAbs : Int) = i
    omega
  · refine ⟨.none, i.natAbs, ?_, before, digits i.natAbs, behind, rfl, hbefore, hdigits, hbehind⟩
    change (i.natAbs : Int) = i
    omega

theorem spells_iff_signed : Spells bits s n ↔
    (∃ sign, sign ≠ Sign.minus ∧ Signed s sign n) ∧ n < Nat.pow 2 bits := by
  constructor
  · rintro ⟨⟨before, sign, ds, behind, hs, hbefore, hsign, hds, hbehind⟩, hlt⟩
    refine ⟨?_, hlt⟩
    rcases hsign with rfl | rfl
    · exact ⟨.none, nofun, before, ds, behind, hs, hbefore, hds, hbehind⟩
    · exact ⟨.plus, nofun, before, ds, behind, hs, hbefore, hds, hbehind⟩
  · rintro ⟨⟨sign, hsign, before, ds, behind, hs, hbefore, hds, hbehind⟩, hlt⟩
    refine ⟨⟨before, sign.chars, ds, behind, hs, hbefore, ?_, hds, hbehind⟩, hlt⟩
    cases sign with
    | none => exact .inl rfl
    | plus => exact .inr rfl
    | minus => exact absurd rfl hsign

/-- What is spelled is read once the white space is trimmed off. -/
theorem spells_iff : Spells bits s n ↔ below? (capacity bits) (trim s) = some n := by
  have hcapacity : capacity bits = Nat.pow 2 bits := Nat.one_shiftLeft bits
  rw [spells_iff_signed, below?_eq_some_iff, hcapacity]
  simp only [signed_iff]
  constructor
  · rintro ⟨⟨sign, hsign, ds, hs, hds⟩, hlt⟩
    exact ⟨⟨sign, ds, hs, hsign, hds⟩, hlt⟩
  · rintro ⟨⟨sign, ds, hs, hsign, hds⟩, hlt⟩
    exact ⟨⟨sign, hsign, ds, hs, hds⟩, hlt⟩

/-- A spelled integer is a number of so many bits if it has no minus and is not too large. -/
theorem Signed.exists_spells_iff (h : Signed s sign n) :
    (∃ m, Spells bits s m) ↔ sign ≠ .minus ∧ n < Nat.pow 2 bits := by
  constructor
  · rintro ⟨m, hm⟩
    obtain ⟨⟨other, hother, hsigned⟩, hlt⟩ := spells_iff_signed.mp hm
    obtain ⟨rfl, rfl⟩ := h.unique hsigned
    exact ⟨hother, hlt⟩
  · rintro ⟨hsign, hlt⟩
    exact ⟨n, spells_iff_signed.mpr ⟨⟨sign, hsign, h⟩, hlt⟩⟩

end Lodging.Decimal
