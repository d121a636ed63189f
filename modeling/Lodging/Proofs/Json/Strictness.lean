import Lodging.Proofs.Json.Bounds

/-!
Two records that differ in one field only, which one of them reads more strictly. What the loose one
is read from, the strict one is read from unless that field objects to its value.
-/

namespace Lodging

namespace Record

variable {α β : Type} {fields before behind : List Field} {loose strict : Field}
  {entries : List (Option String × Node)} {items : List Node} {found res : List (String × Node)}
  {key : String} {n : Node}

/-- An entry of an object is a field that passes its check, or is not asked for. -/
theorem gather_cons_eq_ok (h : gather fields ((some key, n) :: entries) found = .ok res) :
    (∃ f, fields.find? (fun f => f.name = key) = some f ∧ found.lookup key = none ∧
        f.check n = .ok () ∧ gather fields entries ((key, n) :: found) = .ok res) ∨
      fields.find? (fun f => f.name = key) = none ∧ n.whole = true ∧
        gather fields entries found = .ok res := by
  rw [gather] at h
  split at h
  next f hf =>
    cases hkey : found.lookup key with
    | some m => simp [hkey, bind, Except.bind, throw, throwThe, MonadExceptOf.throw] at h
    | none =>
      simp only [hkey, Option.isSome_none, Bool.false_eq_true, if_false] at h
      obtain ⟨⟨⟩, hcheck, h⟩ := exists_of_bind_eq_ok h
      exact .inl ⟨f, hf, rfl, hcheck, h⟩
  next hf =>
    split at h
    next hwhole => exact .inr ⟨hf, hwhole, h⟩
    next => cases h

theorem gather_cons_of_field {f : Field} (hf : fields.find? (fun f => f.name = key) = some f)
    (hkey : found.lookup key = none) :
    gather fields ((some key, n) :: entries) found =
      (f.check n).bind fun _ => gather fields entries ((key, n) :: found) := by
  rw [gather, hf]
  simp only [hkey, Option.isSome_none, Bool.false_eq_true, if_false]
  rfl

theorem gather_cons_of_unknown (hf : fields.find? (fun f => f.name = key) = none)
    (hwhole : n.whole = true) :
    gather fields ((some key, n) :: entries) found = gather fields entries found := by
  rw [gather, hf]
  exact if_pos hwhole

/-- What has been found stays found. -/
theorem lookup_gather (h : gather fields entries found = .ok res)
    (hkey : found.lookup key = some n) : res.lookup key = some n := by
  induction entries generalizing found with
  | nil =>
    cases h
    exact hkey
  | cons e rest ih =>
    obtain ⟨_ | name, m⟩ := e
    · cases h
    rcases gather_cons_eq_ok h with ⟨f, -, hnew, -, h⟩ | ⟨-, -, h⟩
    · refine ih h ?_
      have hne : (key == name) = false := by
        rw [beq_eq_false_iff_ne]
        rintro rfl
        rw [hkey] at hnew
        cases hnew
      rw [List.lookup_cons, hne]
      exact hkey
    · exact ih h hkey

section Replaced

variable (hname : strict.name = loose.name) (hbefore : ∀ f ∈ before, f.name ≠ loose.name)

include hname in
theorem find?_replaced (hkey : key ≠ loose.name) :
    (before ++ strict :: behind).find? (fun f => f.name = key) =
      (before ++ loose :: behind).find? (fun f => f.name = key) := by
  have hloose : ¬ loose.name = key := fun h => hkey h.symm
  have hstrict : ¬ strict.name = key := hname ▸ hloose
  simp [List.find?_append, hloose, hstrict]

theorem ne_of_find?_eq_none {key : String}
    (h : (before ++ loose :: behind).find? (fun f => f.name = key) = none) : key ≠ loose.name := by
  rintro rfl
  rw [List.find?_eq_none] at h
  exact h loose (by simp) (by simp)

include hbefore in
theorem find?_place (hname : strict.name = loose.name) :
    (before ++ strict :: behind).find? (fun f => f.name = loose.name) = some strict := by
  have hnone : before.find? (fun f => f.name = loose.name) = none :=
    List.find?_eq_none.mpr fun f hf => by simpa using hbefore f hf
  rw [List.find?_append, hnone]
  simp [hname]

include hname in
/-- Once the field has been found, it makes no difference how it would be checked. -/
theorem gather_of_found (h : gather (before ++ loose :: behind) entries found = .ok res)
    (hfound : (found.lookup loose.name).isSome) :
    gather (before ++ strict :: behind) entries found = .ok res := by
  induction entries generalizing found with
  | nil => exact h
  | cons e rest ih =>
    obtain ⟨_ | key, n⟩ := e
    · cases h
    rcases gather_cons_eq_ok h with ⟨f, hf, hnew, hcheck, h⟩ | ⟨hf, hwhole, h⟩
    · have hkey : key ≠ loose.name := by
        rintro rfl
        rw [hnew] at hfound
        cases hfound
      have hlater : (((key, n) :: found).lookup loose.name).isSome := by
        rw [List.lookup_cons, beq_eq_false_iff_ne.mpr hkey.symm]
        exact hfound
      rw [← find?_replaced hname hkey] at hf
      rw [gather_cons_of_field hf hnew, hcheck]
      exact ih h hlater
    · have hkey := ne_of_find?_eq_none hf
      rw [← find?_replaced hname hkey] at hf
      rw [gather_cons_of_unknown hf hwhole]
      exact ih h hfound

include hname hbefore in
/-- The stricter field is checked where it stands, and nothing else goes wrong. -/
theorem gather_replaced (h : gather (before ++ loose :: behind) entries found = .ok res)
    (hnone : found.lookup loose.name = none) (hres : res.lookup loose.name = some n) :
    gather (before ++ strict :: behind) entries found =
      (strict.check n).map fun _ => res := by
  induction entries generalizing found with
  | nil =>
    cases h
    rw [hnone] at hres
    cases hres
  | cons e rest ih =>
    obtain ⟨_ | key, m⟩ := e
    · cases h
    rcases gather_cons_eq_ok h with ⟨f, hf, hnew, hcheck, h⟩ | ⟨hf, hwhole, h⟩
    · by_cases hkey : key = loose.name
      · subst hkey
        -- the field stands here, so this is the value that is found of it in the end
        have hsame : m = n := by
          have hhere : res.lookup loose.name = some m := lookup_gather h (by simp)
          rw [hres] at hhere
          exact (Option.some.inj hhere).symm
        subst hsame
        rw [gather_cons_of_field (find?_place hbefore hname) hnew,
          gather_of_found hname h (by simp)]
        rfl
      · have hlater : ((key, m) :: found).lookup loose.name = none := by
          rw [List.lookup_cons, beq_eq_false_iff_ne.mpr (Ne.symm hkey)]
          exact hnone
        rw [← find?_replaced hname hkey] at hf
        rw [gather_cons_of_field hf hnew, hcheck]
        exact ih h hlater
    · have hkey := ne_of_find?_eq_none hf
      rw [← find?_replaced hname hkey] at hf
      rw [gather_cons_of_unknown hf hwhole]
      exact ih h hnone

include hname hbefore in
theorem align_replaced (h : align (before ++ loose :: behind) items = .ok res)
    (hres : res.lookup loose.name = some n) :
    align (before ++ strict :: behind) items =
      (strict.check n).map fun _ => res := by
  -- an empty row has no value for the field
  have hmissing {f : Field} {fields : List Field} {res : List (String × Node)}
      (h : align (f :: fields) [] = .ok res) : res = [] := by
    rw [align] at h
    exact (of_ite_eq_ok h).2.symm
  induction before generalizing items res with
  | nil =>
    cases items with
    | nil =>
      rw [hmissing h] at hres
      cases hres
    | cons m rest =>
      obtain ⟨-, -, h⟩ := exists_of_bind_eq_ok h
      obtain ⟨more, hmore, h⟩ := exists_of_bind_eq_ok h
      cases h
      have hsame : m = n := by simpa using hres
      subst hsame
      rw [List.nil_append, align, hmore, hname]
      rfl
  | cons f before ih =>
    cases items with
    | nil =>
      rw [hmissing h] at hres
      cases hres
    | cons m rest =>
      obtain ⟨⟨⟩, hcheck, h⟩ := exists_of_bind_eq_ok h
      obtain ⟨more, hmore, h⟩ := exists_of_bind_eq_ok h
      cases h
      have hne := hbefore f List.mem_cons_self
      rw [List.lookup_cons, beq_eq_false_iff_ne.mpr hne.symm] at hres
      have hrest := ih (fun g hg => hbefore g (List.mem_cons_of_mem _ hg)) hmore hres
      rw [List.cons_append, align, hcheck, hrest]
      cases strict.check n <;> rfl

/-- If the loose record is read, the strict one is built of the same nodes, once the stricter field
has passed its check. -/
theorem decoder_replaced (before : List Field) {r : Record α} {s : Record β} {node : Node} {a : α}
    (hr : r.fields = before ++ loose :: behind) (hs : s.fields = before ++ strict :: behind)
    (hname : strict.name = loose.name) (hbefore : ∀ f ∈ before, f.name ≠ loose.name)
    (h : r.decoder node = .ok a) :
    ∃ found, r.build found = .ok a ∧ ∀ n, found.lookup loose.name = some n →
      s.decoder node = (strict.check n).bind fun _ => s.build found := by
  cases node with
  | object entries closed =>
    obtain ⟨found, hfound, h⟩ := exists_of_bind_eq_ok h
    cases closed with
    | false => cases h
    | true =>
      refine ⟨found, h, fun n hn => ?_⟩
      rw [hr] at hfound
      rw [decoder, hs, gather_replaced hname hbefore hfound rfl hn]
      cases strict.check n <;> rfl
  | array items closed =>
    obtain ⟨found, hfound, h⟩ := exists_of_bind_eq_ok h
    cases closed with
    | false => cases h
    | true =>
      refine ⟨found, h, fun n hn => ?_⟩
      rw [hr] at hfound
      rw [decoder, hs, align_replaced hname hbefore hfound hn]
      cases strict.check n <;> rfl
  | _ => cases h

end Replaced

end Record

end Lodging
