import Lodging.Text.Blank

/-!
Texts in pieces. White space is trimmed off the two ends of a text and no further, and a text can be
cut at a separator in one way.
-/

namespace Lodging

variable {before s behind : List Char} {c d : Char}

theorem trimStart_append (h : ∀ c ∈ before, isBlank c = true) (s : List Char) :
    trimStart (before ++ s) = trimStart s :=
  List.dropWhile_append_of_pos h

theorem trimEnd_append (s : List Char) (h : ∀ c ∈ behind, isBlank c = true) :
    trimEnd (s ++ behind) = trimEnd s := by
  unfold trimEnd
  rw [List.reverse_append, List.dropWhile_append_of_pos]
  intro c hc
  exact h c (List.mem_reverse.mp hc)

theorem trimEnd_of_last (s : List Char) (h : isBlank c = false) :
    trimEnd (s ++ [c]) = s ++ [c] := by
  unfold trimEnd
  rw [List.reverse_append, List.reverse_singleton, List.singleton_append,
    List.dropWhile_cons_of_neg (by simp [h]), List.reverse_cons, List.reverse_reverse]

theorem trim_of_ends (s : List Char) (hc : isBlank c = false) (hd : isBlank d = false) :
    trim (c :: (s ++ [d])) = c :: (s ++ [d]) := by
  unfold trim
  rw [trimStart_of_head hc]
  exact trimEnd_of_last (c :: s) hd

theorem trim_of_blank (h : ∀ c ∈ s, isBlank c = true) : trim s = [] := by
  unfold trim
  rw [← List.append_nil s, trimStart_append h]
  rfl

/-- What holds no white space is found between any. -/
theorem trim_between (hbefore : ∀ c ∈ before, isBlank c = true) (hs : ∀ c ∈ s, isBlank c = false)
    (hbehind : ∀ c ∈ behind, isBlank c = true) : trim (before ++ s ++ behind) = s := by
  unfold trim
  rw [List.append_assoc, trimStart_append hbefore]
  cases s with
  | nil => exact trim_of_blank hbehind
  | cons c s =>
    rw [List.cons_append, trimStart_of_head (hs c List.mem_cons_self), ← List.cons_append,
      trimEnd_append _ hbehind]
    -- the last character stays as well
    rcases List.eq_nil_or_concat (c :: s) with hnil | ⟨r, d, hr⟩
    · cases hnil
    · rw [hr, List.concat_eq_append] at hs ⊢
      exact trimEnd_of_last r (hs d (by simp))

/-- A text is what trimming leaves of it, between white space. -/
theorem exists_trim (s : List Char) : ∃ before behind, s = before ++ trim s ++ behind ∧
    (∀ c ∈ before, isBlank c = true) ∧ ∀ c ∈ behind, isBlank c = true := by
  have htaken : ∀ t : List Char, ∀ c ∈ t.takeWhile isBlank, isBlank c = true := by
    intro t c hc
    exact List.all_eq_true.mp List.all_takeWhile c hc
  have hend : trimStart s =
      trim s ++ ((trimStart s).reverse.takeWhile isBlank).reverse := by
    unfold trim trimEnd
    rw [← List.reverse_append, List.takeWhile_append_dropWhile, List.reverse_reverse]
  refine ⟨s.takeWhile isBlank, ((trimStart s).reverse.takeWhile isBlank).reverse, ?_, htaken s, ?_⟩
  · rw [List.append_assoc, ← hend]
    exact List.takeWhile_append_dropWhile.symm
  · intro c hc
    exact htaken _ c (List.mem_reverse.mp hc)

/-- What holds no white space is left by trimming if and only if there is nothing else around it. -/
theorem trim_eq_iff {t : List Char} (ht : ∀ c ∈ t, isBlank c = false) : trim s = t ↔
    ∃ before behind, s = before ++ t ++ behind ∧
      (∀ c ∈ before, isBlank c = true) ∧ ∀ c ∈ behind, isBlank c = true := by
  constructor
  · rintro rfl
    exact exists_trim s
  · rintro ⟨before, behind, rfl, hbefore, hbehind⟩
    exact trim_between hbefore ht hbehind

theorem trim_eq_nil_iff : trim s = [] ↔ ∀ c ∈ s, isBlank c = true := by
  constructor
  · intro h
    obtain ⟨before, behind, hs, hbefore, hbehind⟩ := exists_trim s
    rw [h, List.append_nil] at hs
    intro c hc
    rw [hs] at hc
    exact (List.mem_append.mp hc).elim (hbefore c) (hbehind c)
  · exact trim_of_blank

/-- What is in a piece is in the whole. -/
theorem mem_intercalate {pieces : List (List Char)} (sep : List Char) (hs : s ∈ pieces)
    (hc : c ∈ s) : c ∈ sep.intercalate pieces := by
  induction pieces with
  | nil => cases hs
  | cons t rest ih =>
    cases rest with
    | nil =>
      obtain rfl := List.mem_singleton.mp hs
      rw [List.intercalate_singleton]
      exact hc
    | cons u rest =>
      rw [List.intercalate_cons_cons]
      rcases List.mem_cons.mp hs with rfl | hs
      · simp [hc]
      · simp [ih hs]

/-- Only what is in a piece or in the separator is in the whole. -/
theorem of_mem_intercalate {pieces : List (List Char)} {sep : List Char}
    (hc : c ∈ sep.intercalate pieces) : c ∈ sep ∨ ∃ s ∈ pieces, c ∈ s := by
  induction pieces with
  | nil => cases hc
  | cons t rest ih =>
    cases rest with
    | nil =>
      rw [List.intercalate_singleton] at hc
      exact .inr ⟨t, List.mem_cons_self, hc⟩
    | cons u rest =>
      rw [List.intercalate_cons_cons, List.mem_append, List.mem_append] at hc
      rcases hc with (hc | hc) | hc
      · exact .inr ⟨t, List.mem_cons_self, hc⟩
      · exact .inl hc
      · rcases ih hc with hsep | ⟨s, hs, hc⟩
        · exact .inl hsep
        · exact .inr ⟨s, List.mem_cons_of_mem _ hs, hc⟩

/-- Every text can be cut at a separator. -/
theorem exists_pieces (sep : Char) (s : List Char) : ∃ pieces, s = [sep].intercalate pieces ∧
    pieces ≠ [] ∧ ∀ t ∈ pieces, sep ∉ t := by
  induction s with
  | nil => exact ⟨[[]], rfl, List.cons_ne_nil _ _, by simp⟩
  | cons c s ih =>
    obtain ⟨pieces, rfl, hne, hplain⟩ := ih
    cases pieces with
    | nil => exact absurd rfl hne
    | cons t rest =>
      by_cases hc : c = sep
      · -- a new piece begins before the separator
        refine ⟨[] :: t :: rest, ?_, List.cons_ne_nil _ _, ?_⟩
        · rw [hc, List.intercalate_cons_cons]
          rfl
        · intro u hu
          rcases List.mem_cons.mp hu with rfl | hu
          · exact List.not_mem_nil
          · exact hplain u hu
      · refine ⟨(c :: t) :: rest, ?_, List.cons_ne_nil _ _, ?_⟩
        · cases rest with
          | nil => rw [List.intercalate_singleton, List.intercalate_singleton]
          | cons u rest =>
            rw [List.intercalate_cons_cons, List.intercalate_cons_cons]
            rfl
        · intro u hu
          rcases List.mem_cons.mp hu with rfl | hu
          · rw [List.mem_cons, not_or]
            exact ⟨fun h => hc h.symm, hplain t List.mem_cons_self⟩
          · exact hplain u (List.mem_cons_of_mem _ hu)

end Lodging
