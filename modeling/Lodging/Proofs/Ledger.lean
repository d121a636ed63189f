import Lodging.Bookings.Ledger
import Lodging.Proofs.Rows

/-!
What becomes of a ledger when a booking is written down or moves on. In a sound ledger bookings
have ids of their own, and a booking that moves on stays the same in all but its status.
-/

namespace Lodging

/-- The same booking, at whichever stage of its life. -/
def Booking.Same (b c : Booking) : Prop := c = { b with status := c.status }

/-- A booking as it was when it was written down. -/
def Booking.asMade (b : Booking) : Booking := { b with status := .pending }

namespace Booking.Same

variable {b c d : Booking}

theorem refl (b : Booking) : b.Same b := rfl

theorem id_eq (h : b.Same c) : c.id = b.id := by rw [h]

theorem uid_eq (h : b.Same c) : c.uid = b.uid := by rw [h]

theorem room_eq (h : b.Same c) : c.room = b.room := by rw [h]

theorem stay_eq (h : b.Same c) : c.stay = b.stay := by rw [h]

theorem trans (h : b.Same c) (h' : c.Same d) : b.Same d := by
  unfold Same at *
  rw [h', h]

theorem moved (h : b.Same c) (s : Status) : b.Same { c with status := s } := by
  unfold Same at *
  rw [h]

theorem of_asMade (h : c.asMade = b.asMade) : b.Same c := by
  have hsame : { c.asMade with status := c.status } = { b.asMade with status := c.status } := by
    rw [h]
  exact hsame

end Booking.Same

namespace Ledger

variable {l : Ledger} {b c d : Booking} {now : Instant} {n : NewBooking} {s : Status}

/-- No two bookings have an id in common, and ids are never used again. -/
structure Numbered (l : Ledger) : Prop where
  counted : ∀ b ∈ l.bookings, b.id.number ≤ l.lastBooking
  ids : (l.bookings.map (·.id)).Nodup

theorem numbered_of_nil (h : l.bookings = []) : l.Numbered := by
  refine ⟨?_, ?_⟩ <;> rw [h]
  · exact fun b hb => absurd hb List.not_mem_nil
  · exact List.nodup_nil

theorem numbered_empty : Numbered .empty := numbered_of_nil rfl

theorem Numbered.eq_of_id (hl : l.Numbered) (hb : b ∈ l.bookings) (hc : c ∈ l.bookings)
    (h : b.id = c.id) : b = c :=
  Rows.eq_of_key hl.ids hb hc h

theorem Numbered.booking?_of_mem (hl : l.Numbered) (hb : b ∈ l.bookings) :
    l.booking? b.id = some b :=
  Rows.find?_of_mem hl.ids hb

theorem booking?_eq_some {id : BookingId} (h : l.booking? id = some b) :
    b ∈ l.bookings ∧ b.id = id :=
  Rows.of_find?_eq_some h

/-- No two bookings have an id or a uid in common, and ids are never used again. -/
structure Sound (l : Ledger) : Prop where
  counted : ∀ b ∈ l.bookings, b.id.number ≤ l.lastBooking
  ids : (l.bookings.map (·.id)).Nodup
  uids : (l.bookings.map (·.uid)).Nodup

theorem sound_empty : Sound .empty where
  counted _ hb := absurd hb List.not_mem_nil
  ids := List.nodup_nil
  uids := List.nodup_nil

theorem Sound.numbered (hl : l.Sound) : l.Numbered := ⟨hl.counted, hl.ids⟩

theorem Sound.eq_of_id (hl : l.Sound) (hb : b ∈ l.bookings) (hc : c ∈ l.bookings)
    (h : b.id = c.id) : b = c :=
  hl.numbered.eq_of_id hb hc h

theorem Sound.eq_of_uid (hl : l.Sound) (hb : b ∈ l.bookings) (hc : c ∈ l.bookings)
    (h : b.uid = c.uid) : b = c :=
  Rows.eq_of_key hl.uids hb hc h

theorem Sound.booking?_of_mem (hl : l.Sound) (hb : b ∈ l.bookings) :
    l.booking? b.id = some b :=
  hl.numbered.booking?_of_mem hb

def newBooking (now : Instant) (l : Ledger) (n : NewBooking) : Booking :=
  ⟨⟨l.lastBooking + 1⟩, n.uid, n.user, n.room, n.stay, .pending, now⟩

/-- The ledger with a booking written down. -/
def withBooking (now : Instant) (l : Ledger) (n : NewBooking) : Ledger :=
  { l with bookings := l.bookings ++ [l.newBooking now n], lastBooking := l.lastBooking + 1 }

theorem mem_withBooking :
    b ∈ (l.withBooking now n).bookings ↔ b ∈ l.bookings ∨ b = l.newBooking now n := by
  simp [withBooking]

theorem Numbered.withBooking (hl : l.Numbered) (now : Instant) (n : NewBooking) :
    (l.withBooking now n).Numbered := by
  refine ⟨?_, ?_⟩
  · intro b hb
    change b.id.number ≤ l.lastBooking + 1
    rcases mem_withBooking.mp hb with hb | rfl
    · have := hl.counted b hb
      omega
    · exact Int.le_refl _
  · apply Rows.nodup_concat hl.ids
    intro b hb hid
    have hle := hl.counted b hb
    rw [hid] at hle
    change l.lastBooking + 1 ≤ l.lastBooking at hle
    omega

theorem Sound.withBooking (hl : l.Sound) (hn : ∀ b ∈ l.bookings, b.uid ≠ n.uid) :
    (l.withBooking now n).Sound := by
  obtain ⟨hcounted, hids⟩ := hl.numbered.withBooking now n
  exact ⟨hcounted, hids, Rows.nodup_concat hl.uids hn⟩

/-- A new booking has an id of its own. -/
theorem Numbered.booking?_newBooking (hl : l.Numbered) (now : Instant) (n : NewBooking) :
    l.booking? (l.newBooking now n).id = none := by
  refine List.find?_eq_none.mpr fun b hb hid => ?_
  have hle := hl.counted b hb
  rw [of_decide_eq_true hid] at hle
  change l.lastBooking + 1 ≤ l.lastBooking at hle
  omega

theorem Numbered.booking?_withBooking (hl : l.Numbered) (id : BookingId) :
    (l.withBooking now n).booking? id =
      ((some (l.newBooking now n)).filter (·.id = id)).or (l.booking? id) := by
  change (l.bookings ++ [l.newBooking now n]).find? (·.id = id) = _
  rw [List.find?_append]
  by_cases hid : (l.newBooking now n).id = id
  · have hnone : l.bookings.find? (·.id = id) = none := hid ▸ hl.booking?_newBooking now n
    simp [hnone, hid, Option.filter_some]
  · simp [hid, booking?, Option.filter_some]

/-- The ledger in which a booking has moved on. -/
def moved (l : Ledger) (c : Booking) (s : Status) : Ledger :=
  { l with
    bookings := l.bookings.map fun d => if d.id = c.id then { c with status := s } else d }

theorem updateStatus_of_eq {id : BookingId} (h : l.booking? id = some c) (next : Status) :
    l.updateStatus id c.status next = (some { c with status := next }, l.moved c next) := by
  obtain ⟨-, rfl⟩ := booking?_eq_some h
  simp only [updateStatus, h, if_true]
  rfl

theorem updateStatus_of_ne {id : BookingId} {expected : Status} (next : Status)
    (h : ∀ c, l.booking? id = some c → c.status ≠ expected) :
    l.updateStatus id expected next = (none, l) := by
  cases hb : l.booking? id with
  | none => simp only [updateStatus, hb]
  | some c => simp only [updateStatus, hb, h c hb, if_false]

theorem mem_moved (hc : c ∈ l.bookings) : d ∈ (l.moved c s).bookings ↔
    d = { c with status := s } ∨ d ∈ l.bookings ∧ d.id ≠ c.id := by
  unfold moved
  rw [List.mem_map]
  constructor
  · rintro ⟨b, hb, rfl⟩
    by_cases hid : b.id = c.id
    · rw [if_pos hid]
      exact .inl rfl
    · rw [if_neg hid]
      exact .inr ⟨hb, hid⟩
  · rintro (rfl | ⟨hd, hid⟩)
    · exact ⟨c, hc, if_pos rfl⟩
    · exact ⟨d, hd, if_neg hid⟩

theorem booking?_moved (hc : c ∈ l.bookings) (id : BookingId) : (l.moved c s).booking? id =
    ((some { c with status := s }).filter (·.id = id)).or (l.booking? id) := by
  have hp : ((fun d : Booking => decide (d.id = id)) ∘ fun d =>
      if d.id = c.id then { c with status := s } else d) = fun d => decide (d.id = id) := by
    funext d
    simp only [Function.comp_apply]
    split
    next hid => rw [hid]
    next => rfl
  unfold booking? moved
  rw [List.find?_map, hp]
  by_cases hid : c.id = id
  · cases hf : l.bookings.find? (·.id = id) with
    | none =>
      have hne := List.find?_eq_none.mp hf c hc
      simp [hid] at hne
    | some d =>
      have hd : d.id = c.id := (Rows.of_find?_eq_some hf).2.trans hid.symm
      simp [hid, hd, Option.filter_some]
  · cases hf : l.bookings.find? (·.id = id) with
    | none => simp [hid, Option.filter_some]
    | some d =>
      have hd : d.id ≠ c.id := fun h => hid (h.symm.trans (Rows.of_find?_eq_some hf).2)
      simp [hid, hd, Option.filter_some]

/-- Every booking is still there. -/
theorem Sound.exists_moved (hl : l.Sound) (hc : c ∈ l.bookings) (hb : b ∈ l.bookings) :
    ∃ d ∈ (l.moved c s).bookings, b.Same d ∧ d.status = if b.id = c.id then s else b.status := by
  by_cases hid : b.id = c.id
  · obtain rfl := hl.eq_of_id hb hc hid
    have hsame : b.Same { b with status := s } := (Booking.Same.refl b).moved s
    refine ⟨{ b with status := s }, (mem_moved hb).mpr (.inl rfl), hsame, ?_⟩
    rw [if_pos rfl]
  · refine ⟨b, (mem_moved hc).mpr (.inr ⟨hb, hid⟩), .refl b, ?_⟩
    rw [if_neg hid]

/-- All but the statuses are as they were. -/
theorem Numbered.map_moved {γ : Type} (hl : l.Numbered) (hc : c ∈ l.bookings) (f : Booking → γ)
    (hf : ∀ b t, f { b with status := t } = f b) :
    (l.moved c s).bookings.map f = l.bookings.map f := by
  unfold Ledger.moved
  rw [List.map_map]
  refine List.map_congr_left fun d hd => ?_
  change f (if d.id = c.id then { c with status := s } else d) = f d
  by_cases hid : d.id = c.id
  · rw [if_pos hid, hf, hl.eq_of_id hd hc hid]
  · rw [if_neg hid]

theorem Numbered.moved (hl : l.Numbered) (hc : c ∈ l.bookings) : (l.moved c s).Numbered := by
  refine ⟨?_, ?_⟩
  · intro d hd
    change d.id.number ≤ l.lastBooking
    rcases (mem_moved hc).mp hd with rfl | ⟨hd, -⟩
    · exact hl.counted c hc
    · exact hl.counted d hd
  · rw [hl.map_moved hc _ fun _ _ => rfl]
    exact hl.ids

theorem Sound.moved (hl : l.Sound) (hc : c ∈ l.bookings) : (l.moved c s).Sound := by
  obtain ⟨hcounted, hids⟩ := hl.numbered.moved (s := s) hc
  refine ⟨hcounted, hids, ?_⟩
  rw [hl.numbered.map_moved hc _ fun _ _ => rfl]
  exact hl.uids

/-- Whatever the ledger is asked, it numbers its bookings. -/
theorem Numbered.answer (hl : l.Numbered) (now : Instant) (c : LedgerCall) :
    (l.answer now c).2.Numbered := by
  cases c with
  | accept r =>
    simp only [Ledger.answer, Ledger.accept]
    split
    · exact hl
    · exact ⟨hl.counted, hl.ids⟩
  | insertPending n => exact hl.withBooking now n
  | updateStatus id expected next =>
    by_cases hc : ∃ c, l.booking? id = some c ∧ c.status = expected
    · obtain ⟨c, hb, rfl⟩ := hc
      simp only [Ledger.answer, updateStatus_of_eq hb]
      exact hl.moved (booking?_eq_some hb).1
    · have hno : ∀ c, l.booking? id = some c → c.status ≠ expected :=
        fun c hb hs => hc ⟨c, hb, hs⟩
      simp only [Ledger.answer, updateStatus_of_ne next hno]
      exact hl
  | get id => exact hl
  | pageOf user page => exact hl

end Ledger

end Lodging
