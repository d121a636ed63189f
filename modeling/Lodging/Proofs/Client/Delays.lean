import Lodging.Proofs.Text.Spelling

/-!
The delays of a policy are read as they are written. A text is cut at its commas in one way, and its
pieces are read if and only if each one is blank or spells a delay; one piece that is neither takes
all the others with it.
-/

namespace Lodging.RetryPolicy

variable {csv : String} {s : List Char} {pieces : List (List Char)} {delays : List Nat} {n : Nat}

theorem trim_ne_nil_of_spells (h : Decimal.Spells 64 s n) : trim s ≠ [] := by
  intro hnil
  have hread := Decimal.spells_iff.mp h
  have hnone : Decimal.below? (Decimal.capacity 64) [] = none := by decide
  rw [hnil, hnone] at hread
  cases hread

theorem written_cons_of_blank (hs : trim s = []) :
    Written (s :: pieces) delays ↔ Written pieces delays := by
  constructor
  · intro h
    cases h with
    | blank _ h => exact h
    | delay hspells _ => exact absurd hs (trim_ne_nil_of_spells hspells)
  · exact Written.blank (trim_eq_nil_iff.mp hs)

theorem written_cons_of_dark (hs : trim s ≠ []) : Written (s :: pieces) delays ↔
    ∃ n rest, Decimal.Spells 64 s n ∧ Written pieces rest ∧ delays = n :: rest := by
  constructor
  · intro h
    cases h with
    | blank hblank _ => exact absurd (trim_eq_nil_iff.mpr hblank) hs
    | delay hspells h => exact ⟨_, _, hspells, h, rfl⟩
  · rintro ⟨n, rest, hspells, h, rfl⟩
    exact h.delay hspells

/-- A piece that holds a delay or nothing holds no comma. -/
theorem Written.plain (h : Written pieces delays) : ∀ s ∈ pieces, ',' ∉ s := by
  have hcomma : isBlank ',' = false := by decide
  have hblank : ∀ s : List Char, (∀ c ∈ s, isBlank c = true) → ',' ∉ s := by
    intro s hs hmem
    exact absurd (hs ',' hmem) (by simp [hcomma])
  induction h with
  | nil => simp
  | blank hs _ ih => exact List.forall_mem_cons.mpr ⟨hblank _ hs, ih⟩
  | delay hs _ ih =>
    refine List.forall_mem_cons.mpr ⟨?_, ih⟩
    obtain ⟨before, sign, ds, behind, rfl, hbefore, hsign, hds, hbehind⟩ := hs.spelled
    have hdigits : ',' ∉ ds := fun hmem => absurd (hds.digits.2.1 ',' hmem) (by decide)
    have hplus : ',' ∉ sign := by
      rcases hsign with rfl | rfl
      · exact List.not_mem_nil
      · decide
    simp [hblank before hbefore, hblank behind hbehind, hplus, hdigits]

theorem Written.mem (h : Written pieces delays) (hs : s ∈ pieces) :
    (∀ c ∈ s, isBlank c = true) ∨ ∃ n, Decimal.Spells 64 s n := by
  induction h with
  | nil => cases hs
  | blank hblank _ ih =>
    rcases List.mem_cons.mp hs with rfl | hs
    · exact .inl hblank
    · exact ih hs
  | delay hspells _ ih =>
    rcases List.mem_cons.mp hs with rfl | hs
    · exact .inr ⟨_, hspells⟩
    · exact ih hs

/-- Pieces are read as what is written in them, and not at all where something else is. -/
theorem written_iff : Written pieces delays ↔
    ((pieces.map trim).filter (· ≠ [])).mapM (Decimal.below? (Decimal.capacity 64)) =
      some delays := by
  induction pieces generalizing delays with
  | nil =>
    constructor
    · intro h
      cases h
      rfl
    · intro h
      cases h
      exact Written.nil
  | cons s pieces ih =>
    rw [List.map_cons]
    -- a piece that is blank is passed over, any other has to be a number
    by_cases hs : trim s = []
    · rw [written_cons_of_blank hs, List.filter_cons_of_neg (by simp [hs]), ih]
    · rw [written_cons_of_dark hs, List.filter_cons_of_pos (by simp [hs]), List.mapM_cons]
      simp only [Decimal.spells_iff, ih, Option.bind_eq_bind, Option.bind_eq_some_iff,
        Option.pure_def, Option.some.injEq]
      constructor
      · rintro ⟨n, rest, hn, hrest, rfl⟩
        exact ⟨n, hn, rest, hrest, rfl⟩
      · rintro ⟨n, hn, rest, hrest, rfl⟩
        exact ⟨n, rest, hn, hrest, rfl⟩

theorem Pieces.splitOn (h : Pieces csv pieces) : csv.toList.splitOn ',' = pieces := by
  rw [h.joined]
  exact List.splitOn_intercalate ',' h.plain h.nonempty

/-- A text is cut at its commas in one way. -/
theorem existsUnique_pieces (csv : String) : ∃! pieces, Pieces csv pieces := by
  obtain ⟨pieces, hjoined, hne, hplain⟩ := exists_pieces ',' csv.toList
  have h : Pieces csv pieces := ⟨hjoined, hne, hplain⟩
  refine ⟨pieces, h, ?_⟩
  intro others hothers
  rw [← hothers.splitOn, h.splitOn]

theorem Pieces.parseBackoff (h : Pieces csv pieces) : parseBackoff csv =
    if blank csv then defaultBackoff
    else (((pieces.map trim).filter (· ≠ [])).mapM
      (Decimal.below? (Decimal.capacity 64))).getD defaultBackoff := by
  unfold RetryPolicy.parseBackoff
  rw [h.splitOn]

/-- A piece with a character that is no white space leaves the whole with one. -/
theorem Pieces.not_blank (h : Pieces csv pieces) (hs : s ∈ pieces)
    (hdark : ¬ ∀ c ∈ s, isBlank c = true) : blank csv = false := by
  rw [Bool.eq_false_iff]
  intro hblank
  apply hdark
  intro c hc
  have hmem : c ∈ csv.toList := h.joined ▸ mem_intercalate [','] hs hc
  exact List.all_eq_true.mp hblank c hmem

theorem Written.exists_dark (h : Written pieces delays) (hne : delays ≠ []) :
    ∃ s ∈ pieces, ¬ ∀ c ∈ s, isBlank c = true := by
  induction h with
  | nil => exact absurd rfl hne
  | blank _ _ ih =>
    obtain ⟨s, hs, hdark⟩ := ih hne
    exact ⟨s, List.mem_cons_of_mem _ hs, hdark⟩
  | delay hspells _ _ =>
    refine ⟨_, List.mem_cons_self, ?_⟩
    intro hblank
    exact trim_ne_nil_of_spells hspells (trim_eq_nil_iff.mpr hblank)

/-- Delays are read back from any way of writing them between commas, with white space around each
and blank pieces anywhere. Any text can be cut at its commas in one way, and where one piece is
neither blank nor a delay of 64 bits the default list is read, with nothing of the other pieces. -/
theorem delays_are_read_as_written :
    (∀ csv : String, ∃! pieces, Pieces csv pieces) ∧
    (∀ (csv : String) pieces delays, csv.toList = [','].intercalate pieces →
      Written pieces delays → delays ≠ [] → Pieces csv pieces ∧ parseBackoff csv = delays) ∧
    ∀ (csv : String) pieces s, Pieces csv pieces → s ∈ pieces → (¬ ∀ c ∈ s, isBlank c = true) →
      (∀ n, ¬ Decimal.Spells 64 s n) → parseBackoff csv = defaultBackoff := by
  refine ⟨existsUnique_pieces, ?_, ?_⟩
  · intro csv pieces delays hjoined hwritten hne
    obtain ⟨s, hs, hdark⟩ := hwritten.exists_dark hne
    have h : Pieces csv pieces := ⟨hjoined, List.ne_nil_of_mem hs, hwritten.plain⟩
    refine ⟨h, ?_⟩
    rw [h.parseBackoff, h.not_blank hs hdark, written_iff.mp hwritten]
    rfl
  · intro csv pieces s h hs hdark hother
    -- were all pieces read, this one would be blank or a delay
    have hnone : ((pieces.map trim).filter (· ≠ [])).mapM
        (Decimal.below? (Decimal.capacity 64)) = none := by
      apply Option.eq_none_iff_forall_ne_some.mpr
      intro delays hread
      rcases (written_iff.mpr hread).mem hs with hblank | ⟨n, hn⟩
      · exact hdark hblank
      · exact hother n hn
    rw [h.parseBackoff, h.not_blank hs hdark, hnone]
    rfl

theorem delays_are_read_between_blanks :
    parseBackoff " +0050 ,,\u3000\t18446744073709551615\n, ,0," = [50, 18446744073709551615, 0] ∧
      parseBackoff "50,18446744073709551616 ,7" = defaultBackoff := by
  obtain ⟨-, hread, hlost⟩ := delays_are_read_as_written
  constructor
  · have hblank : ∀ s, trim s = [] → ∀ c ∈ s, isBlank c = true := fun _ => trim_eq_nil_iff.mp
    have hwritten : Written [" +0050 ".toList, [], "\u3000\t18446744073709551615\n".toList, [' '],
        ['0'], []] [50, 18446744073709551615, 0] :=
      .delay (Decimal.spells_iff.mpr rfl) <| .blank (hblank _ rfl) <|
        .delay (Decimal.spells_iff.mpr rfl) <| .blank (hblank _ rfl) <|
          .delay (Decimal.spells_iff.mpr rfl) <| .blank (hblank _ rfl) .nil
    exact (hread _ _ _ rfl hwritten (List.cons_ne_nil _ _)).2
  · have hpieces : Pieces "50,18446744073709551616 ,7"
        ["50".toList, "18446744073709551616 ".toList, ['7']] :=
      ⟨rfl, List.cons_ne_nil _ _, by simp⟩
    refine hlost _ _ "18446744073709551616 ".toList hpieces (by simp) ?_ ?_
    · intro hblank
      have hdigit : isBlank '1' = true := hblank '1' (by simp)
      exact absurd hdigit (by decide)
    · intro n hn
      have hnone : Decimal.below? (Decimal.capacity 64) (trim "18446744073709551616 ".toList) =
          none := rfl
      rw [Decimal.spells_iff, hnone] at hn
      cases hn

end Lodging.RetryPolicy
