import Lodging.Proofs.Text.Pieces
import Lodging.Text.Percent

/-!
Forms read back as they were written. An octet is escaped to characters that stand for nothing else,
so neither a separator nor the end of a path or a query can appear in an escaped text. Texts of
ASCII come back whole.
-/

namespace Lodging

/-- What is not in a text is told apart from all that is. -/
theorem decide_ne_of_not_mem {c : Char} {s : List Char} (h : c ∉ s) :
    ∀ d ∈ s, decide (d ≠ c) = true := by
  intro d hd
  apply decide_eq_true
  rintro rfl
  exact h hd

namespace Octets

variable {s : List Char} {c : Char}

/-- All characters are of ASCII. -/
def Ascii (s : List Char) : Prop := ∀ c ∈ s, c.toNat < 128

theorem ascii_of_all (h : s.all (fun c => decide (c.toNat < 128)) = true) : Ascii s :=
  fun c hc => of_decide_eq_true (List.all_eq_true.mp h c hc)

theorem toNat_ofNat (h : c.toNat < 128) : (UInt8.ofNat c.toNat).toNat = c.toNat :=
  UInt8.toNat_ofNat_of_lt' (by
    have hsize : UInt8.size = 256 := rfl
    omega)

theorem encodeChar_ascii (h : c.toNat < 128) : String.utf8EncodeChar c = [UInt8.ofNat c.toNat] := by
  have hsize : c.utf8Size = 1 := by
    unfold Char.utf8Size
    have hle : c.val ≤ 0x7F := UInt32.le_iff_toNat_le.mpr (Nat.le_of_lt_succ h)
    simp [hle]
  exact String.utf8EncodeChar_eq_singleton hsize

theorem encode_ascii (h : Ascii s) : encode s = s.map fun c => UInt8.ofNat c.toNat := by
  induction s with
  | nil => rfl
  | cons c rest ih =>
    unfold encode at ih ⊢
    rw [List.flatMap_cons, encodeChar_ascii (h c List.mem_cons_self),
      ih fun d hd => h d (List.mem_cons_of_mem _ hd)]
    rfl

theorem units_encode_ascii (h : Ascii s) : units (encode s) = s.map some := by
  rw [encode_ascii h]
  induction s with
  | nil => simp [units]
  | cons c rest ih =>
    have hc := h c List.mem_cons_self
    have hnat := toNat_ofNat hc
    have hlow : UInt8.ofNat c.toNat < 0x80 := by
      apply UInt8.lt_iff_toNat_lt.mpr
      rw [hnat]
      exact hc
    rw [List.map_cons, units.eq_def]
    simp only [hlow, if_true, hnat, Char.ofNat_toNat, List.map_cons,
      ih fun d hd => h d (List.mem_cons_of_mem _ hd)]

theorem decodeLossy_encode_ascii (h : Ascii s) : decodeLossy (encode s) = s := by
  unfold decodeLossy
  rw [units_encode_ascii h, List.map_map]
  exact List.map_id' s

theorem decode?_encode_ascii (h : Ascii s) : decode? (encode s) = some s := by
  have hall : ∀ t : List Char, (t.map some).mapM id = some t := by
    intro t
    induction t with
    | nil => rfl
    | cons c rest ih =>
      rw [List.map_cons, List.mapM_cons, ih]
      rfl
  unfold decode?
  rw [units_encode_ascii h, hall]

end Octets

namespace Percent

open Octets

variable {s : List Char} {c : Char}

/-- What a form makes of a character before it looks for escapes. -/
def blankPlus (c : Char) : Char := if c = '+' then ' ' else c

theorem octets_cons (h : c ≠ '%') (rest : List Char) :
    octets (c :: rest) = String.utf8EncodeChar c ++ octets rest := by
  rw [octets.eq_def]
  split
  · next heq => cases heq
  · next heq =>
    cases heq
    exact absurd rfl h
  · next heq =>
    cases heq
    rfl

/-- Text without percent signs stands for itself. -/
theorem octets_of_no_percent (h : '%' ∉ s) : octets s = encode s := by
  induction s with
  | nil => rfl
  | cons c rest ih =>
    rw [List.mem_cons, not_or] at h
    rw [octets_cons fun he => h.1 he.symm, ih h.2]
    rfl

theorem decode?_of_ascii (hs : Ascii s) (h : '%' ∉ s) : decode? s = some s := by
  unfold decode?
  rw [octets_of_no_percent h, decode?_encode_ascii hs]

theorem mem_octets (b : UInt8) : b ∈ (List.range 256).map UInt8.ofNat :=
  List.mem_map.mpr ⟨b.toNat, List.mem_range.mpr (UInt8.toNat_lt_size b), UInt8.ofNat_toNat⟩

/-- An octet is escaped to one character that is no percent sign, or to a percent sign and two
digits; either way it is read back. -/
theorem octets_escape (b : UInt8) (rest : List Char) :
    octets ((escape b).map blankPlus ++ rest) = b :: octets rest := by
  -- of each octet in turn, for the characters are told apart one by one
  have hshapes : ((List.range 256).map UInt8.ofNat).all (fun b =>
      let s := (escape b).map blankPlus
      decide (s.length = 1 ∧ s.head? ≠ some '%' ∧ s.flatMap String.utf8EncodeChar = [b] ∨
        s = ['%', Hex.upper (b.toNat / 16), Hex.upper (b.toNat % 16)])) = true := by
    decide +kernel
  have hshape := of_decide_eq_true (List.all_eq_true.mp hshapes b (mem_octets b))
  rcases hshape with ⟨hlength, hhead, hencode⟩ | hpercent
  · obtain ⟨c, hc⟩ := List.length_eq_one_iff.mp hlength
    rw [hc] at hhead hencode ⊢
    have hne : c ≠ '%' := fun h => hhead (congrArg some h)
    have hoctet : String.utf8EncodeChar c = [b] := by simpa using hencode
    rw [List.singleton_append, octets_cons hne, hoctet]
    rfl
  · have hlt := UInt8.toNat_lt_size b
    have hsize : UInt8.size = 256 := rfl
    have hhigh : Hex.val? (Hex.upper (b.toNat / 16)) = some (b.toNat / 16) :=
      Hex.val?_upper ⟨b.toNat / 16, by omega⟩
    have hlow : Hex.val? (Hex.upper (b.toNat % 16)) = some (b.toNat % 16) :=
      Hex.val?_upper ⟨b.toNat % 16, by omega⟩
    have hnat : 16 * (b.toNat / 16) + b.toNat % 16 = b.toNat := Nat.div_add_mod ..
    rw [hpercent]
    have hb : UInt8.ofNat b.toNat = b := UInt8.ofNat_toNat
    simp only [List.cons_append, List.nil_append, octets, hhigh, hlow, hnat, hb]

theorem octets_formEncode (s : List Char) :
    octets ((formEncode s).map blankPlus) = encode s := by
  have hall : ∀ bs : List UInt8, octets ((bs.flatMap escape).map blankPlus) = bs := by
    intro bs
    induction bs with
    | nil => rfl
    | cons b rest ih =>
      rw [List.flatMap_cons, List.map_append, octets_escape, ih]
  exact hall (encode s)

theorem formDecode_formEncode (hs : Ascii s) : formDecode (formEncode s) = s := by
  change decodeLossy (octets ((formEncode s).map blankPlus)) = s
  rw [octets_formEncode, decodeLossy_encode_ascii hs]

/-- The characters of escaped text. -/
def formal (c : Char) : Bool := c.isAlphanum || "*-._+%".toList.contains c

theorem formal_of_mem_formEncode (h : c ∈ formEncode s) : formal c = true := by
  have hall : ((List.range 256).map UInt8.ofNat).all (fun b => (escape b).all formal) = true := by
    decide +kernel
  obtain ⟨b, -, hc⟩ := List.mem_flatMap.mp h
  exact List.all_eq_true.mp (List.all_eq_true.mp hall b (mem_octets b)) c hc

theorem not_mem_formEncode (h : formal c = false) (s : List Char) : c ∉ formEncode s := by
  intro hmem
  rw [formal_of_mem_formEncode hmem] at h
  cases h

/-- A form without the marks that end a path or a query holds the pairs that it was made of. -/
theorem pairs_form {ps : List (String × String)}
    (hps : ∀ p ∈ ps, Ascii p.1.toList ∧ Ascii p.2.toList) :
    pairs (form ps) = ps.map fun p => (p.1.toList, p.2.toList) := by
  have hamp : ∀ part ∈ ps.map (fun p => formEncode p.1.toList ++ '=' :: formEncode p.2.toList),
      '&' ∉ part := by
    intro part hpart
    obtain ⟨p, -, rfl⟩ := List.mem_map.mp hpart
    simp only [List.mem_append, List.mem_cons, not_or]
    exact ⟨not_mem_formEncode (by decide) _, by decide, not_mem_formEncode (by decide) _⟩
  unfold pairs form
  cases hcase : ps with
  | nil => decide
  | cons p rest =>
    rw [← hcase, List.splitOn_intercalate '&' hamp (by simp [hcase]), List.filter_eq_self.mpr,
      List.map_map]
    · apply List.map_congr_left
      intro p hp
      obtain ⟨hk, hv⟩ := hps p hp
      -- the first equals sign of a part is the one behind its key
      have hkey : ∀ c ∈ formEncode p.1.toList, decide (c ≠ '=') = true :=
        decide_ne_of_not_mem (not_mem_formEncode (by decide) _)
      simp only [Function.comp_apply, List.takeWhile_append_of_pos hkey,
        List.dropWhile_append_of_pos hkey]
      simp [formDecode_formEncode hk, formDecode_formEncode hv]
    · -- no part is empty, for each has an equals sign
      intro part hpart
      obtain ⟨p, -, rfl⟩ := List.mem_map.mp hpart
      simp

/-- Nothing in a form ends the query that it is. -/
theorem not_mem_form (h : formal c = false) (heq : c ≠ '=') (hamp : c ≠ '&')
    (ps : List (String × String)) : c ∉ form ps := by
  intro hc
  rcases of_mem_intercalate hc with hsep | ⟨part, hpart, hc⟩
  · exact hamp (List.mem_singleton.mp hsep)
  · obtain ⟨p, -, rfl⟩ := List.mem_map.mp hpart
    rcases List.mem_append.mp hc with hkey | hc
    · exact not_mem_formEncode h _ hkey
    · rcases List.mem_cons.mp hc with hmark | hvalue
      · exact heq hmark
      · exact not_mem_formEncode h _ hvalue

end Percent

end Lodging
