import Lodging.Proofs.Holds
import Lodging.World.Lobby

/-!
The slots of a table of holds. Where rooms have slots of their own, and slots gates of their own,
those who stand at one gate are those who came for one room. So a gate is known to the table and to
these, and whoever leaves a room takes its slot away exactly if nobody else came for it.
-/

namespace Lodging.Holds

variable {h : Holds} {t : Ticket} {a b : Visitor} {room r : RoomId} {g : Gate}

/-- No two slots have a room or a gate in common, and a gate to come is in no slot. -/
structure Laid (h : Holds) : Prop where
  rooms : (h.slots.map Prod.fst).Nodup
  gates : (h.slots.map Prod.snd).Nodup
  fresh : ∀ s ∈ h.slots, s.2.number < h.nextGate

theorem laid_of_slots (hs : h.slots = []) : h.Laid := by
  refine ⟨?_, ?_, ?_⟩
  · rw [hs]
    exact List.nodup_nil
  · rw [hs]
    exact List.nodup_nil
  · rw [hs]
    exact nofun

theorem mem_slots_of_gate? (hg : h.gate? room = some g) : (room, g) ∈ h.slots := by
  obtain ⟨l₁, l₂, hl, -⟩ := List.lookup_eq_some_iff.mp hg
  rw [hl]
  simp

theorem gate?_ne_none (hg : (room, g) ∈ h.slots) : h.gate? room ≠ none := by
  intro hnone
  have hne := List.lookup_eq_none_iff.mp hnone (room, g) hg
  simp at hne

/-- One gate is in the slot of one room. -/
theorem Laid.room_unique (hl : h.Laid) (hg : h.gate? room = some g) (hr : h.gate? r = some g) :
    room = r :=
  congrArg Prod.fst
    (Rows.eq_of_key hl.gates (mem_slots_of_gate? hg) (mem_slots_of_gate? hr) rfl)

theorem Laid.slots_of_gate (hl : h.Laid) (hg : h.gate? room = some g) :
    h.slots.filter (·.2 = g) = [(room, g)] :=
  Rows.filter_key hl.gates (mem_slots_of_gate? hg)

theorem mem_party : t ∈ h.party room ↔ ∃ v ∈ h.visitors, v.room = room ∧ v.ticket = t := by
  unfold party
  simp only [List.mem_map, List.mem_filter, decide_eq_true_eq, and_assoc]

theorem party_eq_nil : h.party room = [] ↔ ∀ v ∈ h.visitors, v.room ≠ room := by
  unfold party
  simp

theorem party_request :
    (h.request room).2.party r = h.party r ++ if r = room then [⟨h.nextTicket⟩] else [] := by
  obtain ⟨g, hvis, -⟩ := request_visitors (h := h) room
  unfold party
  rw [hvis, List.filter_append, List.map_append]
  by_cases hr : r = room
  · subst hr
    simp
  · have hne : room ≠ r := fun he => hr he.symm
    simp [hr, hne]

theorem party_withdraw : (h.withdraw t).party r = (h.party r).filter (· ≠ t) := by
  unfold party withdraw
  rw [List.filter_map, List.filter_filter, List.filter_filter]
  congr 1
  apply List.filter_congr
  intro v _
  exact Bool.and_comm ..

theorem party_leave : (h.leave t).party r = (h.party r).filter (· ≠ t) := by
  rw [← party_withdraw]
  unfold party
  rw [leave_visitors]

theorem Sound.nodup_party (hs : h.Sound) (room : RoomId) : (h.party room).Nodup :=
  hs.distinct.sublist (List.filter_sublist.map _)

/-- Those at the gate of a room are those who came for the room. -/
theorem Sound.queue_eq (hs : h.Sound) (hl : h.Laid) (hg : h.gate? room = some g) :
    h.queue g = h.visitors.filter (·.room = room) := by
  apply List.filter_congr
  intro v hv
  have hgv := hs.gate v hv
  by_cases hroom : v.room = room
  · rw [hroom, hg, Option.some.injEq] at hgv
    simp [hgv, hroom]
  · have hgate : v.gate ≠ g := fun he => hroom (hl.room_unique (he ▸ hgv) hg)
    simp [hgate, hroom]

theorem Sound.references_eq (hs : h.Sound) (hl : h.Laid) (hg : h.gate? room = some g) :
    h.references g = (h.party room).length + 1 := by
  unfold references party
  rw [hs.queue_eq hl hg, hl.slots_of_gate hg, List.length_map]
  rfl

theorem filter_ne_nil_or {l : List Ticket} (h : l.Nodup) (t : Ticket) :
    l.filter (· ≠ t) ≠ [] ∨ l = [t] ↔ l ≠ [] := by
  constructor
  · rintro (hne | rfl) hl
    · exact hne (by rw [hl]; rfl)
    · cases hl
  · intro hne
    by_cases hf : l.filter (· ≠ t) = []
    · -- nothing but this ticket is there, and it only once
      have hall : ∀ u ∈ l, u = t := by simpa using hf
      right
      match l, hne, hall, h with
      | u :: rest, _, hall, h =>
        obtain rfl := hall u List.mem_cons_self
        have hrest : rest = [] := List.eq_nil_iff_forall_not_mem.mpr fun x hx =>
          (List.nodup_cons.mp h).1 (hall x (List.mem_cons_of_mem _ hx) ▸ hx)
        rw [hrest]
    · exact .inl hf

theorem Laid.request (hl : h.Laid) (room : RoomId) : (h.request room).2.Laid := by
  unfold Holds.request
  cases hg : h.gate? room with
  | some g => exact ⟨hl.rooms, hl.gates, hl.fresh⟩
  | none =>
    -- the new slot is for a room that had none, at a gate with a number that no gate has
    refine ⟨List.nodup_cons.mpr ⟨?_, hl.rooms⟩, List.nodup_cons.mpr ⟨?_, hl.gates⟩, ?_⟩
    · intro hmem
      obtain ⟨⟨r, g⟩, hs, rfl⟩ := List.mem_map.mp hmem
      exact gate?_ne_none hs hg
    · intro hmem
      obtain ⟨s, hs, hgate⟩ := List.mem_map.mp hmem
      have hlt := hl.fresh s hs
      rw [hgate] at hlt
      exact Nat.lt_irrefl _ hlt
    · intro s hs
      rcases List.mem_cons.mp hs with rfl | hs
      · exact Nat.lt_succ_self _
      · exact Nat.lt_succ_of_lt (hl.fresh s hs)

theorem Laid.withdraw (hl : h.Laid) (t : Ticket) : (h.withdraw t).Laid :=
  ⟨hl.rooms, hl.gates, hl.fresh⟩

theorem Laid.leave (hl : h.Laid) (t : Ticket) : (h.leave t).Laid := by
  unfold Holds.leave
  cases h.visitor? t with
  | none => exact hl
  | some v =>
    simp only
    split
    · exact ⟨hl.rooms.sublist (List.filter_sublist.map _),
        hl.gates.sublist (List.filter_sublist.map _),
        fun s hs => hl.fresh s (List.mem_of_mem_filter hs)⟩
    · exact ⟨hl.rooms, hl.gates, hl.fresh⟩

theorem gate?_request_ne_none :
    (h.request room).2.gate? r ≠ none ↔ r = room ∨ h.gate? r ≠ none := by
  constructor
  · intro hne
    by_cases hr : r = room
    · exact .inl hr
    · refine .inr fun hnone => hne ?_
      have hbeq : (r == room) = false := by simpa using hr
      unfold Holds.request
      cases h.gate? room with
      | some g => exact hnone
      | none => simpa [gate?, List.lookup_cons, hbeq] using hnone
  · rintro (rfl | hne)
    · obtain ⟨g, -, hg⟩ := request_visitors (h := h) r
      simp [hg]
    · obtain ⟨g, hg⟩ := Option.ne_none_iff_exists'.mp hne
      simp [request_gate?_of_some hg]

theorem lookup_filter_self (slots : List (RoomId × Gate)) :
    (slots.filter (·.1 ≠ room)).lookup room = none := by
  apply List.lookup_eq_none_iff.mpr
  intro s hs
  have hne : s.1 ≠ room := by simpa using (List.mem_filter.mp hs).2
  simpa using fun he : room = s.1 => hne he.symm

/-- Whoever leaves takes away the slot of the room, unless another one came for it. -/
theorem Sound.gate?_leave (hs : h.Sound) (hl : h.Laid) :
    (h.leave t).gate? r = if h.party r = [t] then none else h.gate? r := by
  unfold Holds.leave
  cases hv : h.visitor? t with
  | none =>
    have hno : h.party r ≠ [t] := by
      intro hp
      obtain ⟨v, hm, -, ht⟩ := mem_party.mp (hp ▸ List.mem_singleton_self t)
      have hsome := hs.visitor?_of_mem hm
      rw [ht, hv] at hsome
      cases hsome
    rw [if_neg hno]
  | some a =>
    obtain ⟨ham, hat⟩ := visitor?_eq_some hv
    have hparty : t ∈ h.party a.room := mem_party.mpr ⟨a, ham, rfl, hat⟩
    have href := hs.references_eq hl (hs.gate a ham)
    simp only
    -- two references are those of the table and of the one who leaves, so that nobody else came
    by_cases hone : h.party a.room = [t]
    · rw [href, hone, if_pos (show [t].length + 1 = 2 from rfl)]
      by_cases hr : r = a.room
      · subst hr
        rw [if_pos hone]
        exact lookup_filter_self h.slots
      · -- the party of another room has no ticket in common with this one
        have hother : h.party r ≠ [t] := by
          intro hp
          obtain ⟨b, hbm, hbr, hbt⟩ := mem_party.mp (hp ▸ List.mem_singleton_self t)
          have hba := Rows.eq_of_key hs.distinct hbm ham (hbt.trans hat.symm)
          exact hr (hbr.symm.trans (congrArg Visitor.room hba))
        rw [if_neg hother]
        exact lookup_filter_ne hr h.slots
    · have hlen : (h.party a.room).length ≠ 1 := by
        intro hlen
        obtain ⟨u, hu⟩ := List.length_eq_one_iff.mp hlen
        rw [hu, List.mem_singleton] at hparty
        exact hone (hparty ▸ hu)
      have hno : h.party r ≠ [t] := by
        intro hp
        obtain ⟨b, hbm, hbr, hbt⟩ := mem_party.mp (hp ▸ List.mem_singleton_self t)
        have hba := Rows.eq_of_key hs.distinct hbm ham (hbt.trans hat.symm)
        have hroom : r = a.room := hbr.symm.trans (congrArg Visitor.room hba)
        exact hone (hroom ▸ hp)
      rw [href, if_neg (by omega), if_neg hno]
      rfl

end Lodging.Holds
