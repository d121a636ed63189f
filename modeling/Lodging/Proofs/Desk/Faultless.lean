import Lodging.Proofs.Desk.Locks

/-!
Orders that nothing goes wrong with. As long as no failure comes over the world and no order is
given up, whoever has locked a room confirms the booking or releases the room. So when no order is
under way, a booking that has a lock is confirmed.
-/

namespace Lodging.Desk

variable {st st' : Stage Call Point} {s s' : Stock} {i k : ℕ} {p p' : Point} {b c : Booking}
  {r : RequestId} {e : Errand} {uid : Uid}

/-- What holds as long as nothing goes wrong. -/
structure Smooth (st : Stage Call Point) : Prop where
  raced : st.stock.inventory.raced = false
  planned : ∀ o, st.stock.planned o = none
  undenied : ∀ i, (st.point i).errand? ≠ some .denied
  housed : st.stock.inventory.Housed
  bare : ∀ i b r e, st.point i = .securing b r e → ¬ e.Ended true →
    ¬ st.stock.inventory.HasLock b.uid
  /-- A booking does not become pending again. -/
  read : ∀ i b, (st.point i).read? = some b → b.status ≠ .cancelled ∧
    ∀ c ∈ st.stock.ledger.bookings, c.uid = b.uid → b.status = .confirmed → c.status ≠ .pending
  checking : ∀ i b, st.point i = .checking b → ∀ c ∈ st.stock.ledger.bookings, c.uid = b.uid →
    c.status ≠ b.status
  stale : ∀ i b, st.point i = .stale b → b.status = .pending
  /-- Nobody works any more on a booking that has been read as confirmed. -/
  made : ∀ i k b b', (st.point i).making? = some b → (st.point k).read? = some b' →
    b'.status = .confirmed → b.uid ≠ b'.uid
  released : ∀ i b e ok, (∃ r, st.point i = .undoing b r e) ∨
    st.point i = .releasing b e ∧ b.status = .confirmed → e.Ended ok →
      ¬ st.stock.inventory.HasLock b.uid
  answered : ∀ b ∈ st.stock.ledger.bookings, b.status ≠ .confirmed →
    st.stock.inventory.HasLock b.uid → ∃ i, (st.point i).Answers b.uid

theorem Move.into_checking (h : Move p s (.checking b) s') (hl : s.ledger.Sound)
    (hc : c ∈ s'.ledger.bookings) (hid : c.id = b.id) : c.status ≠ b.status := by
  cases h with
  | tooLate he hne =>
    apply hne c
    rw [← hid]
    exact hl.booking?_of_mem hc

theorem Move.of_stale (h : Move p s (.stale b) s') : p = .checking b := by
  cases h with
  | goneOn => rfl

theorem Move.into_stale (h : Move p s (.stale b) s') (hl : s.ledger.Sound)
    (hc : c ∈ s.ledger.bookings) (hid : c.id = b.id) : c.status ≠ .cancelled := by
  cases h with
  | goneOn hne =>
    apply hne c
    rw [← hid]
    exact hl.booking?_of_mem hc

/-- An order that has had a room locked goes on with the booking until it has confirmed it or
released the room. -/
theorem Move.of_answers (h : Move p s p' s') (hp : p.Answers uid) : p'.Answers uid ∨
    (∃ b r e ok, p = .undoing b r e ∧ b.uid = uid ∧ e.Ended ok) ∨
    ∃ b r e c, p = .securing b r e ∧ b.uid = uid ∧ c ∈ s.ledger.bookings ∧ c.id = b.id ∧
      s'.ledger = s.ledger.moved c .confirmed := by
  cases h with
  | secure h => exact absurd hp.2 h.not_ended
  | confirm he hb hc =>
    obtain ⟨hm, hid⟩ := Ledger.booking?_eq_some hb
    exact .inr (.inr ⟨_, _, _, _, rfl, hp.1, hm, hid, rfl⟩)
  | overtaken => exact .inl hp.1
  | fail s he => exact nomatch he.unique hp.2
  | cancel => exact .inl hp
  | lost => exact .inl hp
  | undo => exact .inl hp
  | undone s he => exact .inr (.inl ⟨_, _, _, _, rfl, hp, he⟩)
  | _ => cases hp

theorem exists_answers_update {point : ℕ → Point} (hk : (point k).Answers uid)
    (hi : k = i → p.Answers uid) : ∃ k, (Function.update point i p k).Answers uid := by
  refine ⟨k, ?_⟩
  by_cases hki : k = i
  · subst hki
    rw [Function.update_self]
    exact hi rfl
  · rwa [Function.update_of_ne hki]

/-- Whoever has had the room of a booking locked goes on with the booking. -/
theorem Smooth.answered_of_mem (h : Smooth st) (ha : Accounts st)
    (hm : Move (st.point i) st.stock p s') (hb : b ∈ st.stock.ledger.bookings)
    (hb' : b ∈ s'.ledger.bookings) (hs : b.status ≠ .confirmed)
    (hl : st.stock.inventory.HasLock b.uid) :
    ∃ k, (Function.update st.point i p k).Answers b.uid := by
  obtain ⟨k, hk⟩ := h.answered b hb hs hl
  apply exists_answers_update hk
  rintro rfl
  rcases hm.of_answers hk with hp | ⟨c, r, e, ok, hp, hu, he⟩ |
    ⟨c, r, e, d, hp, hu, hd, hid, hled⟩
  · exact hp
  · -- its room has been released
    exact absurd (hu ▸ hl) (h.released k c e ok (.inl ⟨r, hp⟩) he)
  · -- it has been confirmed
    have hbd : b.id = d.id := by
      rw [hid]
      exact (ha.uid_eq_iff (by rw [hp]; rfl) hb).mpr hu.symm
    rw [hled] at hb'
    rcases (Ledger.mem_moved hd).mp hb' with rfl | ⟨-, hne⟩
    · exact absurd rfl hs
    · exact absurd hbd hne

/-- The same for a booking that has just moved on. -/
theorem Smooth.answered_of_shift (h : Smooth st) (ha : Accounts st)
    (hd : c ∈ st.stock.ledger.bookings) (hsame : c.Same b)
    (hshift : Shift (st.point i) c b.status p) (hs : b.status ≠ .confirmed)
    (hl : st.stock.inventory.HasLock b.uid) :
    ∃ k, (Function.update st.point i p k).Answers b.uid := by
  have hu : b.uid = c.uid := hsame.uid_eq
  generalize hi : st.point i = q at hshift
  generalize b.status = t at hshift hs
  cases hshift with
  | confirm => exact absurd rfl hs
  | cancel hid =>
    refine ⟨i, ?_⟩
    rw [Function.update_self]
    exact ((ha.uid_eq_iff (by rw [hi]; rfl) hd).mp hid).symm.trans hu.symm
  | @mark b' _ e ok he hid hc =>
    have hcb : c.uid = b'.uid := (ha.uid_eq_iff (by rw [hi]; rfl) hd).mp hid
    have hne : c.status ≠ .confirmed := by
      intro hconf
      apply h.released i b' e ok (.inr ⟨hi, hc.symm.trans hconf⟩) he
      rwa [← hcb, ← hu]
    obtain ⟨k, hk⟩ := h.answered c hd hne (hu ▸ hl)
    apply exists_answers_update (hu ▸ hk)
    rintro rfl
    rw [hi] at hk
    cases hk

theorem Smooth.answered_move (h : Smooth st) (ha : Accounts st)
    (hm : Move (st.point i) st.stock p s') (hb : b ∈ s'.ledger.bookings)
    (hs : b.status ≠ .confirmed) (hl : s'.inventory.HasLock b.uid) :
    ∃ k, (Function.update st.point i p k).Answers b.uid := by
  by_cases hold : st.stock.inventory.HasLock b.uid
  · rcases hm.row_cases hb with hb' | ⟨hf, -, -⟩ | ⟨d, hd, hsame, hshift⟩
    · exact h.answered_of_mem ha hm hb' hb hs hold
    · exact absurd hold (ha.fresh_unlocked hf)
    · exact h.answered_of_shift ha hd hsame hshift hs hold
  · -- the lock is new, and the order that placed it answers for the booking
    obtain ⟨-, b', r, e, e', hu, -, -, rfl, he'⟩ := hm.gains (ha.fits i) h.raced hold hl
    refine ⟨i, ?_⟩
    rw [Function.update_self]
    exact ⟨hu, he'⟩

/-- An order comes to lock a room when it has written its booking down, or goes on with its
errand. -/
theorem Move.into_securing (h : Move p s (.securing b r e) s') : p.fresh? = some b.uid ∨
    ∃ e', p = .securing b r e' ∧ ¬ e'.Ended true := by
  cases h with
  | insert now hn =>
    subst hn
    exact .inl rfl
  | secure hmove => exact .inr ⟨_, rfl, hmove.not_ended⟩

theorem Smooth.bare_before (h : Smooth st) (ha : Accounts st) (hm : Move (st.point i) st.stock p s')
    (hk : Function.update st.point i p k = .securing b r e) (he : ¬ e.Ended true) :
    ¬ st.stock.inventory.HasLock b.uid := by
  rcases update_eq_cases hk with ⟨rfl, rfl⟩ | ⟨-, hk⟩
  · rcases hm.into_securing with hf | ⟨e', hp, he'⟩
    · exact ha.fresh_unlocked hf
    · exact h.bare k b r e' hp he'
  · exact h.bare k b r e hk he

theorem Smooth.bare_move (h : Smooth st) (ha : Accounts st) (hd : Distinct st.calls)
    (hm : Move (st.point i) st.stock p s')
    (hk : Function.update st.point i p k = .securing b r e) (he : ¬ e.Ended true) :
    ¬ s'.inventory.HasLock b.uid := by
  intro hl
  -- otherwise another order would have placed a lock for the same booking
  obtain ⟨-, b', r', f, f', hu, hi, -, hp, hf'⟩ :=
    hm.gains (ha.fits i) h.raced (h.bare_before ha hm hk he) hl
  rcases update_eq_cases hk with ⟨-, hq⟩ | ⟨hki, hk⟩
  · obtain ⟨-, -, rfl⟩ := Point.securing.inj (hp.symm.trans hq)
    exact he hf'
  · have hmk : (st.point k).making? = some b := by rw [hk]; rfl
    have hmi : (st.point i).making? = some b' := by rw [hi]; rfl
    exact hki (ha.making_unique hd hmk hmi hu.symm)

theorem Smooth.read_move (h : Smooth st) (ha : Accounts st) (hm : Move (st.point i) st.stock p s')
    (hk : (Function.update st.point i p k).read? = some b) : b.status ≠ .cancelled ∧
      ∀ c ∈ s'.ledger.bookings, c.uid = b.uid → b.status = .confirmed → c.status ≠ .pending := by
  have hrows : (st.point k).read? = some b → b.status ≠ .cancelled ∧
      ∀ c ∈ s'.ledger.bookings, c.uid = b.uid → b.status = .confirmed → c.status ≠ .pending := by
    intro hk
    obtain ⟨hb, hrows⟩ := h.read k b hk
    refine ⟨hb, fun c hc hu hs => ?_⟩
    rcases ha.row_cases hm (Point.row?_of_read? hk) hc hu with hc | ⟨d, -, -, hshift⟩
    · exact hrows c hc hu hs
    · generalize st.point i = q, c.status = t at hshift ⊢
      cases hshift <;> nofun
  rcases update_some Point.read? hk with ⟨rfl, hq⟩ | ⟨-, hk⟩
  · rcases hm.read? hq with hq | ⟨hb, hne, rfl⟩
    · exact hrows hq
    · refine ⟨hne, fun c hc hu hs => ?_⟩
      rw [ha.ledger.eq_of_uid hc hb hu, hs]
      nofun
  · exact hrows hk

/-- A booking that has been moved on does not come back to where it was read. -/
theorem Smooth.checking_move (h : Smooth st) (ha : Accounts st)
    (hm : Move (st.point i) st.stock p s')
    (ha' : Accounts ⟨s', st.calls, Function.update st.point i p⟩)
    (hk : Function.update st.point i p k = .checking b) (hc : c ∈ s'.ledger.bookings)
    (hu : c.uid = b.uid) : c.status ≠ b.status := by
  have hrow : (Function.update st.point i p k).row? = some b := by rw [hk]; rfl
  rcases update_eq_cases hk with ⟨rfl, rfl⟩ | ⟨-, hk⟩
  · exact hm.into_checking ha.ledger hc ((ha'.uid_eq_iff hrow hc).mpr hu)
  · have hread : (st.point k).read? = some b := by rw [hk]; rfl
    obtain ⟨hb, hrows⟩ := h.read k b hread
    rcases ha.row_cases hm (Point.row?_of_read? hread) hc hu with hc | ⟨d, hd', hsame, hshift⟩
    · exact h.checking k b hk c hc hu
    · generalize st.point i = q, c.status = t at hshift ⊢
      cases hshift with
      | confirm he hid hpending =>
        intro hs
        have hdu : d.uid = b.uid := hsame.uid_eq.symm.trans hu
        exact hrows d hd' hdu hs.symm hpending
      | cancel => exact hb.symm
      | mark => exact hb.symm

/-- An order fails for a booking that was pending when it was read, for one that was confirmed could
only have been cancelled since. -/
theorem Smooth.stale_move (h : Smooth st) (ha : Accounts st) (hm : Move (st.point i) st.stock p s')
    (hk : Function.update st.point i p k = .stale b) : b.status = .pending := by
  rcases update_eq_cases hk with ⟨rfl, rfl⟩ | ⟨-, hk⟩
  · have hchecking : st.point k = .checking b := hm.of_stale
    have hread : (st.point k).read? = some b := by rw [hchecking]; rfl
    obtain ⟨hb, hrows⟩ := h.read k b hread
    obtain ⟨c, hc, hsame⟩ := ha.known k b (Point.row?_of_read? hread)
    -- the booking is not where it was read, and has not been cancelled either
    have hne := h.checking k b hchecking c hc hsame.uid_eq
    have hlive := hm.into_stale ha.ledger hc hsame.id_eq
    cases hs : b.status with
    | pending => rfl
    | cancelled => exact absurd hs hb
    | confirmed =>
      have hpending := hrows c hc hsame.uid_eq hs
      cases hcs : c.status with
      | pending => exact absurd hcs hpending
      | confirmed => exact absurd (hcs.trans hs.symm) hne
      | cancelled => exact absurd hcs hlive
  · exact h.stale k b hk

theorem Smooth.made_move (h : Smooth st) (ha : Accounts st) (hm : Move (st.point i) st.stock p s')
    {m : ℕ} {b' : Booking} (hmk : (Function.update st.point i p k).making? = some b)
    (hread : (Function.update st.point i p m).read? = some b') (hs : b'.status = .confirmed) :
    b.uid ≠ b'.uid := by
  rcases update_some Point.making? hmk with ⟨rfl, hq⟩ | ⟨-, hk⟩
  · rcases update_some Point.read? hread with ⟨-, hq'⟩ | ⟨-, hm'⟩
    · rw [Point.read?_of_making? hq] at hq'
      cases hq'
    · rcases hm.making? hq with hq | ⟨hf, -⟩
      · exact h.made k m b b' hq hm' hs
      · -- a booking that has just been written down has not been read
        obtain ⟨d, hd', hsame⟩ := ha.known m b' (Point.row?_of_read? hm')
        exact fun hu => ha.fresh k b.uid hf d hd' (hsame.uid_eq.trans hu.symm)
  · rcases update_some Point.read? hread with ⟨rfl, hq⟩ | ⟨-, hm'⟩
    · rcases hm.read? hq with hq | ⟨hb', -, -⟩
      · exact h.made k m b b' hk hq hs
      · exact fun hu => ha.unconfirmed k b hk b' hb' hu.symm hs
    · exact h.made k m b b' hk hm' hs

theorem Smooth.released_move (h : Smooth st) (ha : Accounts st) (hd : Distinct st.calls)
    (hm : Move (st.point i) st.stock p s')
    (ha' : Accounts ⟨s', st.calls, Function.update st.point i p⟩) {ok : Bool}
    (hk : (∃ r, Function.update st.point i p k = .undoing b r e) ∨
      Function.update st.point i p k = .releasing b e ∧ b.status = .confirmed)
    (he : e.Ended ok) : ¬ s'.inventory.HasLock b.uid := by
  by_cases hki : k = i
  · subst hki
    rw [Function.update_self] at hk
    have hrow : p.row? = some b := by
      rcases hk with ⟨r, rfl⟩ | ⟨rfl, -⟩ <;> rfl
    have hnot : e ≠ .denied := by
      rintro rfl
      apply hm.ne_denied h.planned
      rcases hk with ⟨r, rfl⟩ | ⟨rfl, -⟩ <;> rfl
    obtain ⟨x, hx⟩ := (hm.fits (ha.fits k)).removed (hk.imp_right And.left) he hnot
    exact ha.gone_of_removed h.housed hm ha' hrow hx
  · rw [Function.update_of_ne hki] at hk
    have hold := h.released k b e ok hk he
    intro hl
    -- the lock would be placed by an order that still makes the booking
    obtain ⟨-, c, r, f, f', hu, hi, -⟩ := hm.gains (ha.fits i) h.raced hold hl
    have hmi : (st.point i).making? = some c := by rw [hi]; rfl
    rcases hk with ⟨q, hk⟩ | ⟨hk, hs⟩
    · have hmk : (st.point k).making? = some b := by rw [hk]; rfl
      exact hki (ha.making_unique hd hmk hmi hu.symm)
    · have hread : (st.point k).read? = some b := by rw [hk]; rfl
      exact h.made i k c b hmi hread hs hu

theorem Smooth.move (h : Smooth st) (ha : Accounts st) (hd : Distinct st.calls)
    (hm : Move (st.point i) st.stock p s')
    (ha' : Accounts ⟨s', st.calls, Function.update st.point i p⟩) :
    Smooth ⟨s', st.calls, Function.update st.point i p⟩ where
  raced := hm.raced h.raced
  planned o := (hm.planned o).trans (h.planned o)
  undenied k := by
    intro hk
    rcases update_some Point.errand? hk with ⟨-, hk⟩ | ⟨-, hk⟩
    · exact hm.ne_denied h.planned hk
    · exact h.undenied k hk
  housed := ha.housed_move hm h.housed
  bare k b r e hk he := h.bare_move ha hd hm hk he
  read k b hk := h.read_move ha hm hk
  checking k b hk c hc hu := h.checking_move ha hm ha' hk hc hu
  stale k b hk := h.stale_move ha hm hk
  made k m b b' hk hread hs := h.made_move ha hm hk hread hs
  released k b e ok hk he := h.released_move ha hd hm ha' hk he
  answered b hb hs hl := h.answered_move ha hm hb hs hl

theorem Smooth.of_rows (h : Smooth st) {calls : List Call} {point : ℕ → Point}
    (hp : ∀ k q b, q.row? = some b → (point k = q ↔ st.point k = q)) :
    Smooth ⟨st.stock, calls, point⟩ := by
  have hback : ∀ k b, (point k).row? = some b → st.point k = point k :=
    fun k b hb => (hp k _ b hb).mp rfl
  refine ⟨h.raced, h.planned, ?_, h.housed, ?_, ?_, ?_, ?_, ?_, ?_, ?_⟩
  · intro k hk
    obtain ⟨b, hb⟩ := Point.row?_of_errand? hk
    exact h.undenied k (hback k b hb ▸ hk)
  · exact fun k b r e hk => h.bare k b r e ((hp k _ b rfl).mp hk)
  · exact fun k b hk => h.read k b (hback k b (Point.row?_of_read? hk) ▸ hk)
  · exact fun k b hk => h.checking k b ((hp k _ b rfl).mp hk)
  · exact fun k b hk => h.stale k b ((hp k _ b rfl).mp hk)
  · intro k m b b' hk hm
    refine h.made k m b b' ?_ ?_
    · exact hback k b (Point.row?_of_making? hk) ▸ hk
    · exact hback m b' (Point.row?_of_read? hm) ▸ hm
  · intro k b e ok hk
    refine h.released k b e ok (hk.imp ?_ ?_)
    · exact fun ⟨r, hk⟩ => ⟨r, (hp k _ b rfl).mp hk⟩
    · exact fun ⟨hk, hs⟩ => ⟨(hp k _ b rfl).mp hk, hs⟩
  · intro b hb hs hl
    obtain ⟨k, hk⟩ := h.answered b hb hs hl
    obtain ⟨c, hc, -⟩ := hk.making?
    refine ⟨k, ?_⟩
    change (point k).Answers b.uid
    rwa [(hp k _ c (Point.row?_of_making? hc)).mpr rfl]

theorem Smooth.next {ev : Event Call} (h : Smooth st) (ha : Accounts st) (ha' : Accounts st')
    (hd : Distinct st.calls) (hc : ev.Calm) (hn : script.Next Call.first ev st st') :
    Smooth st' := by
  cases hn with
  | start c => exact h.of_rows fun k q b hq => ha.point_start hq
  | move hi hm => exact h.move ha hd hm ha'
  | drop hi => cases hc
  | turn t =>
    cases t with
    | clock now => exact h
    | _ => cases hc
  | idle => exact h

theorem smooth_opening {v : Inventory} (hr : v.raced = false) (hl : v.locks = []) :
    Smooth ⟨⟨v, .empty, none, none⟩, [], fun _ => .rest⟩ where
  raced := hr
  planned o := by cases o <;> rfl
  undenied _ := nofun
  housed l hmem := by
    rw [hl] at hmem
    cases hmem
  bare _ _ _ _ h := nomatch h
  read _ _ h := nomatch h
  checking _ _ h := nomatch h
  stale _ _ h := nomatch h
  made _ _ _ _ h := nomatch h
  released _ _ _ _ h := by
    rcases h with ⟨r, h⟩ | ⟨h, -⟩ <;> cases h
  answered b hb := absurd hb List.not_mem_nil

/-- When no order is under way, whatever is locked is confirmed. -/
theorem Smooth.confirmed_of_quiet {x : Scene Call.process} (h : Smooth st)
    (ht : script.Tells Call.Ends x st) (hquiet : x.Quiet) (hb : b ∈ st.stock.ledger.bookings)
    (hl : st.stock.inventory.HasLock b.uid) : b.status = .confirmed := by
  by_contra hs
  obtain ⟨k, hk⟩ := h.answered b hb hs hl
  obtain ⟨c, hc, -⟩ := hk.making?
  rw [stale_of_row_of_quiet ht hquiet (Point.row?_of_making? hc)] at hc
  cases hc

end Lodging.Desk
