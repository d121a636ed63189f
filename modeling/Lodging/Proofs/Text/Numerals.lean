import Lodging.Calendar.Date
import Lodging.Identity
import Mathlib.Algebra.Group.Nat.Defs

/-!
Numerals, dates and identifiers read back as they were written. A written number has no leading
zero, so its digits can be told from whatever follows them.
-/

namespace Lodging

theorem isBlank_of_isDigit {c : Char} (h : c.isDigit = true) : isBlank c = false := by
  have hnone : blanks.all (fun b => ! b.isDigit) = true := by decide
  cases hc : isBlank c with
  | false => rfl
  | true =>
    have hnot := List.all_eq_true.mp hnone c (List.contains_iff_mem.mp hc)
    rw [h] at hnot
    cases hnot

theorem ne_of_isDigit {c d : Char} (hc : c.isDigit = true) (hd : d.isDigit = false) : c ≠ d := by
  rintro rfl
  rw [hc] at hd
  cases hd

namespace Decimal

variable {n width most : Nat} {c : Char} {ds rest : List Char} {i : Int}

theorem val_char (h : n < 10) : val (char n) = n := by
  have hall : ∀ d : Fin 10, val (char d) = d.val := by decide
  exact hall ⟨n, h⟩

theorem isDigit_char (h : n < 10) : (char n).isDigit = true := by
  have hall : ∀ d : Fin 10, (char d).isDigit = true := by decide
  exact hall ⟨n, h⟩

theorem char_ne_zero (h : n < 10) (hpos : 0 < n) : char n ≠ '0' := by
  have hall : ∀ d : Fin 10, 0 < d.val → char d ≠ '0' := by decide
  exact hall ⟨n, h⟩ hpos

theorem value_concat (ds : List Char) (c : Char) : value (ds ++ [c]) = 10 * value ds + val c := by
  unfold value
  rw [List.foldl_append]
  rfl

theorem value_digits (n : Nat) : value (digits n) = n := by
  induction n using digits.induct with
  | case1 n h =>
    unfold digits
    rw [if_pos h]
    have hone : value [char n] = 10 * 0 + val (char n) := rfl
    rw [hone, val_char h]
    omega
  | case2 n h ih =>
    unfold digits
    rw [if_neg h, value_concat, ih, val_char (Nat.mod_lt n (by omega))]
    omega

theorem isDigit_of_mem_digits (h : c ∈ digits n) : c.isDigit = true := by
  induction n using digits.induct with
  | case1 n hlt =>
    unfold digits at h
    rw [if_pos hlt, List.mem_singleton] at h
    rw [h]
    exact isDigit_char hlt
  | case2 n hlt ih =>
    unfold digits at h
    rw [if_neg hlt, List.mem_append, List.mem_singleton] at h
    rcases h with h | rfl
    · exact ih h
    · exact isDigit_char (Nat.mod_lt n (by omega))

theorem digits_ne_nil (n : Nat) : digits n ≠ [] := by
  unfold digits
  split
  · exact List.cons_ne_nil _ _
  · simp

theorem exists_digits_cons (n : Nat) : ∃ d ds, digits n = d :: ds ∧ d.isDigit = true ∧
    (∀ c ∈ ds, c.isDigit = true) := by
  cases h : digits n with
  | nil => exact absurd h (digits_ne_nil n)
  | cons d ds =>
    have hall : ∀ c ∈ d :: ds, c.isDigit = true := fun c hc => isDigit_of_mem_digits (h ▸ hc)
    exact ⟨d, ds, rfl, hall d List.mem_cons_self, fun c hc => hall c (List.mem_cons_of_mem _ hc)⟩

/-- No number but zero begins with a zero. -/
theorem head?_digits (h : 0 < n) : (digits n).head? ≠ some '0' := by
  induction n using digits.induct with
  | case1 n hlt =>
    unfold digits
    rw [if_pos hlt, List.head?_cons]
    exact fun heq => char_ne_zero hlt h (Option.some.inj heq)
  | case2 n hlt ih =>
    unfold digits
    obtain ⟨d, ds, hds, -, -⟩ := exists_digits_cons (n / 10)
    have hhead := ih (by omega)
    rw [hds] at hhead
    rw [if_neg hlt, hds]
    exact hhead

theorem length_digits_le {k : Nat} (hk : 0 < k) (h : n < 10 ^ k) : (digits n).length ≤ k := by
  induction k generalizing n with
  | zero => cases hk
  | succ k ih =>
    unfold digits
    split
    · simp
    · next hlt =>
      have hpos : 0 < k := by
        apply Nat.pos_of_ne_zero
        rintro rfl
        omega
      have hdiv : n / 10 < 10 ^ k := by
        apply Nat.div_lt_of_lt_mul
        rwa [Nat.mul_comm, ← Nat.pow_succ]
      rw [List.length_append, List.length_singleton]
      exact Nat.succ_le_succ (ih hpos hdiv)

theorem nat?_of_digits (hne : ds ≠ []) (hds : ∀ c ∈ ds, c.isDigit = true) :
    nat? ds = some (value ds) := by
  unfold nat?
  rw [if_pos ⟨hne, List.all_eq_true.mpr hds⟩]

theorem nat?_digits (n : Nat) : nat? (digits n) = some n := by
  rw [nat?_of_digits (digits_ne_nil n) fun _ => isDigit_of_mem_digits, value_digits]

theorem int?_intDigits (i : Int) : int? (intDigits i) = some i := by
  unfold intDigits
  by_cases hneg : i < 0
  · rw [if_pos hneg]
    simp only [int?, nat?_digits, Option.map_some]
    congr 1
    omega
  · rw [if_neg hneg]
    obtain ⟨d, ds, hds, hd, -⟩ := exists_digits_cons i.natAbs
    have hminus : d ≠ '-' := ne_of_isDigit hd (by decide)
    have hplus : d ≠ '+' := ne_of_isDigit hd (by decide)
    have hread : int? (d :: ds) = (nat? (d :: ds)).map Int.ofNat := by
      unfold int?
      split
      · simp_all
      · simp_all
      · rfl
    rw [hds, hread, ← hds, nat?_digits, Option.map_some]
    congr 1
    exact Int.natAbs_of_nonneg (by omega)

theorem int64?_intDigits (h : fits64 i = true) : int64? (intDigits i) = some i := by
  unfold int64?
  rw [int?_intDigits, Option.filter_some, if_pos h]

theorem value_zeros (k : Nat) (ds : List Char) : value (List.replicate k '0' ++ ds) = value ds := by
  induction k with
  | zero => rfl
  | succ k ih => exact ih

theorem value_padded (width n : Nat) : value (padded width n) = n := by
  unfold padded
  rw [value_zeros, value_digits]

theorem isDigit_of_mem_padded (h : c ∈ padded width n) : c.isDigit = true := by
  rcases List.mem_append.mp h with h | h
  · rw [(List.mem_replicate.mp h).2]
    rfl
  · exact isDigit_of_mem_digits h

theorem padded_ne_nil (width n : Nat) : padded width n ≠ [] := by
  intro h
  exact digits_ne_nil n (List.append_eq_nil_iff.mp h).2

theorem exists_padded_cons (width n : Nat) : ∃ d ds, padded width n = d :: ds ∧
    d.isDigit = true := by
  cases h : padded width n with
  | nil => exact absurd h (padded_ne_nil width n)
  | cons d ds => exact ⟨d, ds, rfl, isDigit_of_mem_padded (h ▸ List.mem_cons_self)⟩

theorem length_padded (hwidth : 0 < width) (h : n < 10 ^ width) :
    (padded width n).length = width := by
  unfold padded
  have hle := length_digits_le hwidth h
  rw [List.length_append, List.length_replicate]
  omega

/-- Digits are taken up to what is no digit, or up to the most that may be taken. -/
theorem take?_append (hne : ds ≠ []) (hds : ∀ c ∈ ds, c.isDigit = true) (hle : ds.length ≤ most)
    (hrest : ds.length = most ∨ ∀ c ∈ rest.head?, c.isDigit = false) :
    take? most (ds ++ rest) = some (value ds, rest) := by
  have htaken : ((ds ++ rest).take most).takeWhile Char.isDigit = ds := by
    rw [List.take_append, List.take_of_length_le hle, List.takeWhile_append_of_pos hds]
    rcases hrest with hlen | hhead
    · simp [hlen]
    · cases hmost : most - ds.length with
      | zero => simp
      | succ k =>
        cases rest with
        | nil => simp
        | cons c rest => simp [hhead c rfl]
  unfold take?
  simp only [htaken]
  rw [if_neg hne, List.drop_left]

end Decimal

namespace Date

open Decimal

theorem scanYear?_of_isDigit {c : Char} {s : List Char} (h : c.isDigit = true) :
    scanYear? (c :: s) = (take? 4 (c :: s)).map fun (n, r) => ((n : Int), r) := by
  have hminus : c ≠ '-' := ne_of_isDigit h (by decide)
  have hplus : c ≠ '+' := ne_of_isDigit h (by decide)
  unfold scanYear?
  split
  · simp_all
  · simp_all
  · rfl

/-- What follows a year begins with a hyphen. -/
theorem scanYear?_yearDigits (year : Int) (s : List Char) :
    scanYear? (yearDigits year ++ '-' :: s) = some (year, '-' :: s) := by
  have hall : ∀ c ∈ padded 4 year.natAbs, c.isDigit = true := fun _ => isDigit_of_mem_padded
  have hhyphen : ∀ c ∈ ('-' :: s).head?, c.isDigit = false := by
    rintro c ⟨⟩
    rfl
  have hsigned : take? (padded 4 year.natAbs ++ '-' :: s).length
      (padded 4 year.natAbs ++ '-' :: s) = some (year.natAbs, '-' :: s) := by
    rw [take?_append (padded_ne_nil _ _) hall (by simp) (.inr hhyphen), value_padded]
  -- a year before the first one or of five digits has a sign, and any number of digits may follow
  unfold yearDigits
  simp only
  split
  · next hneg =>
    simp only [List.cons_append, scanYear?, hsigned, Option.map_some]
    congr 2
    omega
  · split
    · next hlate =>
      simp only [List.cons_append, scanYear?, hsigned, Option.map_some]
      congr 2
      omega
    · next hneg hlate =>
      -- without a sign there are four digits, as many as are taken
      obtain ⟨d, ds, hds, hd⟩ := exists_padded_cons 4 year.natAbs
      have hlen : (padded 4 year.natAbs).length = 4 := length_padded (by decide) (by omega)
      rw [hds, List.cons_append, scanYear?_of_isDigit hd, ← List.cons_append, ← hds,
        take?_append (padded_ne_nil _ _) hall (Nat.le_of_eq hlen) (.inl hlen), value_padded]
      simp only [Option.map_some]
      congr 2
      exact Int.natAbs_of_nonneg (by omega)

theorem scanPair?_padded {n : Nat} (h : n < 100) (s : List Char) :
    scanPair? (padded 2 n ++ s) = some (n, s) := by
  have hall : ∀ c ∈ padded 2 n, c.isDigit = true := fun _ => isDigit_of_mem_padded
  have hlen : (padded 2 n).length = 2 := length_padded (by decide) (by omega)
  obtain ⟨d, ds, hds, hd⟩ := exists_padded_cons 2 n
  unfold scanPair?
  rw [hds, List.cons_append, trimStart_of_head (isBlank_of_isDigit hd), ← List.cons_append, ← hds,
    take?_append (padded_ne_nil _ _) hall (Nat.le_of_eq hlen) (.inl hlen), value_padded]

theorem scanMark?_hyphen (s : List Char) : scanMark? '-' ('-' :: s) = some s := by
  unfold scanMark?
  rw [trimStart_of_head (by decide)]
  simp

theorem trimStart_chars (d : Date) (rest : List Char) :
    trimStart (d.chars ++ rest) = d.chars ++ rest := by
  obtain ⟨c, s, hs, hc⟩ : ∃ c s, d.chars = c :: s ∧ isBlank c = false := by
    obtain ⟨x, xs, hx, hd⟩ := exists_padded_cons 4 d.year.natAbs
    unfold chars yearDigits
    simp only
    split
    · exact ⟨_, _, rfl, by decide⟩
    · split
      · exact ⟨_, _, rfl, by decide⟩
      · exact ⟨x, _, by rw [hx]; rfl, isBlank_of_isDigit hd⟩
  rw [hs, List.cons_append, trimStart_of_head hc]

/-- A date is taken off the front, whatever follows it. -/
theorem scan?_chars (d : Date) (rest : List Char) : scan? (d.chars ++ rest) = some (d, rest) := by
  have hmonth : d.month < 100 := by
    have := d.isDay.2.1.2
    omega
  have hday : d.day < 100 := by
    have hle := d.isDay.2.2.2
    unfold monthLength at hle
    split at hle
    · split at hle <;> omega
    · split at hle <;> omega
  have hof : of? d.year d.month d.day = some d := dif_pos d.isDay
  have hsplit : d.chars ++ rest = yearDigits d.year ++ '-' :: (padded 2 d.month ++ '-' ::
      (padded 2 d.day ++ rest)) := by
    unfold chars
    simp
  unfold scan?
  rw [trimStart_chars, hsplit, scanYear?_yearDigits]
  simp only [Option.bind_eq_bind, Option.bind_some, scanMark?_hyphen, scanPair?_padded hmonth,
    scanPair?_padded hday, hof]
  rfl

/-- A date is read back from its text. -/
theorem ofChars?_chars (d : Date) : ofChars? d.chars = some d := by
  have hscan := scan?_chars d []
  rw [List.append_nil] at hscan
  unfold ofChars?
  rw [hscan]
  rfl

theorem ofText?_text (d : Date) : ofText? d.text = some d := by
  unfold ofText? text
  rw [String.toList_ofList]
  exact ofChars?_chars d

end Date

namespace Uid

theorem digit?_lower (d : Fin 16) : digit? (Hex.lower d.val) = some d := by
  unfold digit?
  rw [Hex.val?_lower]
  simp

theorem mapM_digit? (ds : List (Fin 16)) : (ds.map (Hex.lower ·.val)).mapM digit? = some ds := by
  induction ds with
  | nil => rfl
  | cons d rest ih =>
    rw [List.map_cons, List.mapM_cons, digit?_lower, ih]
    rfl

/-- Without its hyphens a text is what it was before it had them. -/
theorem bare_hyphenate {s : List Char} (h : s.length = 32) :
    let t := hyphenate s
    t.length = 36 ∧
      t.take 8 ++ (t.drop 9).take 4 ++ (t.drop 14).take 4 ++ (t.drop 19).take 4 ++
        t.drop 24 = s := by
  -- the five groups between the hyphens
  obtain ⟨a, b, c, d, e, rfl, ha, hb, hc, hd, he⟩ : ∃ a b c d e : List Char,
      s = a ++ b ++ c ++ d ++ e ∧ a.length = 8 ∧ b.length = 4 ∧ c.length = 4 ∧ d.length = 4 ∧
        e.length = 12 := by
    refine ⟨s.take 8, (s.drop 8).take 4, (s.drop 12).take 4, (s.drop 16).take 4, s.drop 20, ?_, ?_⟩
    · have hsplit : ∀ n m (t : List Char), (t.drop n).take m ++ t.drop (n + m) = t.drop n := by
        intro n m t
        rw [← List.drop_drop]
        exact List.take_append_drop ..
      simp only [List.append_assoc]
      rw [hsplit 16 4, hsplit 12 4, hsplit 8 4, List.take_append_drop]
    · simp [h]
  have hhyphens : hyphenate (a ++ b ++ c ++ d ++ e) =
      a ++ ('-' :: (b ++ ('-' :: (c ++ ('-' :: (d ++ ('-' :: e))))))) := by
    unfold hyphenate
    simp (disch := omega) [List.drop_append, List.drop_eq_nil_of_le, ha, hb, hc]
  rw [hhyphens]
  constructor
  · simp [ha, hb, hc, hd, he]
  · simp (disch := omega) [List.drop_append, List.drop_eq_nil_of_le, ha, hb, hc, hd]

/-- An identifier is read back from its text. -/
theorem ofChars?_chars (u : Uid) : ofChars? u.chars = some u := by
  have hlen : (u.digits.map (Hex.lower ·.val)).length = 32 := by
    rw [List.length_map]
    exact u.length_eq
  obtain ⟨hlong, hbare⟩ := bare_hyphenate hlen
  -- it begins with a digit, not with a brace or the letter of a URN
  obtain ⟨d, rest, hrest⟩ : ∃ d rest, u.chars = Hex.lower (d : Fin 16).val :: rest := by
    cases hu : u.digits with
    | nil =>
      have := u.length_eq
      rw [hu] at this
      cases this
    | cons d ds =>
      refine ⟨d, (hyphenate (u.digits.map (Hex.lower ·.val))).drop 1, ?_⟩
      unfold chars
      rw [hu]
      simp [hyphenate]
  have hurn : (u.chars.take urn.length).map Char.toLower ≠ urn := by
    have hletter : ∀ d : Fin 16, (Hex.lower d.val).toLower ≠ 'u' := by decide
    rw [hrest]
    intro h
    injection h with hhead _
    exact hletter d hhead
  have hbrace : ∀ r, u.chars ≠ '\x7b' :: r := by
    have hopen : ∀ d : Fin 16, Hex.lower d.val ≠ '\x7b' := by decide
    rw [hrest]
    intro r h
    injection h with hhead _
    exact hopen d hhead
  have hread : ofHyphenated? u.chars = some u := by
    unfold ofHyphenated? chars
    simp only
    rw [hbare, if_pos rfl]
    unfold ofBare?
    rw [mapM_digit?, Option.bind_some]
    exact dif_pos u.length_eq
  have hnot : ¬ u.chars.length = 32 := by
    have : u.chars.length = 36 := hlong
    omega
  unfold ofChars?
  rw [if_neg hnot, if_neg hurn]
  split
  · next r hr => exact absurd hr (hbrace r)
  · exact hread

theorem ofText?_text (u : Uid) : ofText? u.text = some u := by
  unfold ofText? text
  rw [String.toList_ofList]
  exact ofChars?_chars u

end Uid

end Lodging
