import Mathlib.Data.List.Nodup

/-!
Rows with keys. A store keeps rows in a list and looks for them by a key. If no two rows have a key
in common, the key tells the row.
-/

namespace Lodging.Rows

variable {α β : Type} {key : α → β} {rows : List α} {x y : α}

theorem eq_of_key (h : (rows.map key).Nodup) (hx : x ∈ rows) (hy : y ∈ rows)
    (hxy : key x = key y) : x = y :=
  List.inj_on_of_nodup_map h hx hy hxy

/-- A row with a key of its own may come after the others. -/
theorem nodup_concat (h : (rows.map key).Nodup) (hx : ∀ y ∈ rows, key y ≠ key x) :
    ((rows ++ [x]).map key).Nodup := by
  rw [List.map_append, List.map_singleton]
  apply h.append (List.nodup_singleton _)
  intro k hk hk'
  obtain ⟨y, hy, rfl⟩ := List.mem_map.mp hk
  exact hx y hy (List.mem_singleton.mp hk')

/-- A key that no two rows have in common tells the place of a row too. -/
theorem index_eq {f : α → Option β} {z : β} {i k : ℕ} (h : (rows.filterMap f).Nodup)
    (hi : rows[i]? = some x) (hk : rows[k]? = some y) (hx : f x = some z) (hy : f y = some z) :
    i = k := by
  have hp : rows.Pairwise fun a b => ∀ u, f a = some u → ∀ v, f b = some v → u ≠ v :=
    List.pairwise_filterMap.mp h
  rw [List.pairwise_iff_getElem] at hp
  obtain ⟨hil, rfl⟩ := List.getElem?_eq_some_iff.mp hi
  obtain ⟨hkl, rfl⟩ := List.getElem?_eq_some_iff.mp hk
  rcases Nat.lt_trichotomy i k with hlt | heq | hgt
  · exact absurd rfl (hp i k hil hkl hlt z hx z hy)
  · exact heq
  · exact absurd rfl (hp k i hkl hil hgt z hy z hx)

variable [DecidableEq β] {k : β}

theorem of_find?_eq_some (h : rows.find? (fun y => key y = k) = some x) : x ∈ rows ∧ key x = k := by
  have hm := List.mem_of_find?_eq_some h
  have hk := List.find?_some h
  exact ⟨hm, of_decide_eq_true hk⟩

theorem find?_of_mem (h : (rows.map key).Nodup) (hx : x ∈ rows) :
    rows.find? (fun y => key y = key x) = some x := by
  cases hf : rows.find? (fun y => key y = key x) with
  | none =>
    have hne := List.find?_eq_none.mp hf x hx
    simp at hne
  | some y =>
    obtain ⟨hy, hyx⟩ := of_find?_eq_some hf
    rw [eq_of_key h hy hx hyx]

/-- The row of a key is the only one. -/
theorem filter_key (h : (rows.map key).Nodup) (hx : x ∈ rows) :
    rows.filter (fun y => key y = key x) = [x] := by
  induction rows with
  | nil => cases hx
  | cons y rest ih =>
    obtain ⟨hy, hrest⟩ := List.nodup_cons.mp h
    rcases List.mem_cons.mp hx with rfl | hx
    · rw [List.filter_cons_of_pos (by simp), List.filter_eq_nil_iff.mpr]
      intro z hz heq
      exact hy (List.mem_map.mpr ⟨z, hz, of_decide_eq_true heq⟩)
    · have hne : key y ≠ key x := fun heq => hy (List.mem_map.mpr ⟨x, hx, heq.symm⟩)
      rw [List.filter_cons_of_neg (by simpa using hne), ih hrest hx]

end Lodging.Rows
