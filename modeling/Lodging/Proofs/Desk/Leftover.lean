import Lodging.Proofs.Desk.Closing
import Lodging.Proofs.Desk.Faultless
import Lodging.Proofs.Journal

/-!
Locks behind cancelled bookings. An order for a new booking that fails marks the booking first and
then releases its room, so it could be given up in between and leave a lock behind. But it has no
lock to release unless it could not confirm the booking, and then an order to cancel it has been
faster. So whatever goes wrong, and wherever orders are given up, a cancelled booking that has a
lock was marked by an order to cancel it.
-/

namespace Lodging

/-- The booking of an id is cancelled. -/
def Ledger.Cancelled (l : Ledger) (id : BookingId) : Prop :=
  ∃ b ∈ l.bookings, b.id = id ∧ b.status = .cancelled

instance (l : Ledger) (id : BookingId) : Decidable (l.Cancelled id) :=
  inferInstanceAs (Decidable (∃ b ∈ l.bookings, b.id = id ∧ b.status = .cancelled))

namespace Desk

/-- In a run, an order to cancel a booking has marked it. -/
def Marked (s : Scene Call.process) (es : List (Event Call)) (id : BookingId) : Prop :=
  ∃ i c j, (s.run es).jobs[i]? = some (c, j) ∧ c.target? = some id ∧
    s.Brings es (fun w w' => ¬ w.ledger.Cancelled id ∧ w'.ledger.Cancelled id) i

variable {st st' : Stage Call Point} {s' : Stock} {i k : ℕ} {p : Point} {b c : Booking}
  {r : RequestId} {e : Errand} {l : Lock} {x : Uid × RequestId} {uid : Uid}
  {marked marked' : BookingId → Prop}

/-- The lock that an errand was for may have been placed, even if it was told of a duplicate. -/
def Errand.Placed : Errand → Prop
  | on (.refused ..) => True
  | e => e.Ended true

/-- An errand that has failed has placed no lock. -/
theorem Errand.Ended.not_placed (h : e.Ended false) : ¬ e.Placed := by
  cases e with
  | ready => cases h
  | denied => nofun
  | on k =>
    cases k with
    | refused => cases h
    | _ => exact fun hplaced => Bool.false_ne_true (h.unique hplaced)

/-- What orders for new bookings keep in order, wherever they are given up. -/
structure Tidy (marked : BookingId → Prop) (st : Stage Call Point) : Prop where
  named : ∀ i x, (st.point i).maker? = some x → ∀ l ∈ st.stock.inventory.locks,
    l.uid = x.1 → l.request = x.2
  bare : ∀ i b r e, st.point i = .securing b r e → st.stock.inventory.HasLock b.uid → e.Placed
  unmoved : ∀ i b r e, st.point i = .securing b r e → ∀ c ∈ st.stock.ledger.bookings,
    c.uid = b.uid → c.status = .pending ∨ marked c.id
  /-- What could not be locked has no lock, and what could not be confirmed was marked. -/
  failing : ∀ i b r, st.point i = .failing b r → st.stock.inventory.HasLock b.uid → marked b.id
  cancelled : ∀ c ∈ st.stock.ledger.bookings, c.status = .cancelled →
    st.stock.inventory.HasLock c.uid → marked c.id

/-- A lock appears for the booking that is being made. -/
theorem Accounts.locked_back (ha : Accounts st) (hm : Move (st.point i) st.stock p s')
    (hl : s'.inventory.HasLock uid) : st.stock.inventory.HasLock uid ∨
      s'.ledger = st.stock.ledger ∧ ∃ b r e, st.point i = .securing b r e ∧ b.uid = uid := by
  obtain ⟨l, hl, hu⟩ := hl
  rcases hm.locks (ha.fits i) hl with hl | ⟨hled, b, r, hi, hb, -⟩
  · exact .inl ⟨l, hl, hu⟩
  · exact .inr ⟨hled, b, r, _, hi, hb.symm.trans hu⟩

/-- Nobody but its maker places a lock for a booking that is being made. -/
theorem Accounts.locked_of_ne (ha : Accounts st) (hd : Distinct st.calls)
    (hm : Move (st.point i) st.stock p s') (hki : k ≠ i) (hk : (st.point k).making? = some b)
    (hl : s'.inventory.HasLock b.uid) : st.stock.inventory.HasLock b.uid := by
  rcases ha.locked_back hm hl with hl | ⟨-, b', r, e, hi, hu⟩
  · exact hl
  · have hmi : (st.point i).making? = some b' := by rw [hi]; rfl
    exact absurd (ha.making_unique hd hk hmi hu.symm) hki

theorem Tidy.named_move (h : Tidy marked st) (ha : Accounts st) (hd : Distinct st.calls)
    (hm : Move (st.point i) st.stock p s')
    (hk : (Function.update st.point i p k).maker? = some x) (hl : l ∈ s'.inventory.locks)
    (hu : l.uid = x.1) : l.request = x.2 := by
  have hold : (st.point k).maker? = some x := by
    rcases update_some Point.maker? hk with ⟨rfl, hq⟩ | ⟨-, hk⟩
    · exact hm.maker? hq
    · exact hk
  rcases hm.locks (ha.fits i) hl with hl | ⟨-, b, r, hi, hb, -, -, hr, -⟩
  · exact h.named k x hold l hl hu
  · -- the lock is new, and has the request of the order that placed it
    have hmi : (st.point i).maker? = some (b.uid, r) := by rw [hi]; rfl
    obtain rfl := ha.maker_unique hd hold hmi (hu.symm.trans hb)
    obtain rfl := Option.some.inj (hold.symm.trans hmi)
    exact hr

/-- An errand that has found a lock has gone well, or has been told of a duplicate. -/
theorem Tidy.placed_move (h : Tidy marked st) (ha : Accounts st)
    (hm : Move (st.point i) st.stock (.securing b r e) s')
    (hl : s'.inventory.HasLock b.uid) : e.Placed := by
  have hfits := ha.fits i
  have hbare := h.bare i
  have hnamed := h.named i
  have hfresh : ∀ uid, (st.point i).fresh? = some uid → ¬ st.stock.inventory.HasLock uid :=
    fun _ => ha.fresh_unlocked
  generalize st.point i = q at hm hfits hbare hnamed hfresh
  cases hm with
  | insert now hn => exact absurd (hn ▸ hl) (hfresh _ rfl)
  | secure hmove =>
    -- if the lock was there before, the errand had placed it then
    cases hmove with
    | deny | go => cases hbare _ _ _ rfl hl
    | again _ he => exact absurd (hbare _ _ _ rfl hl) he.not_placed
    | keeper hk =>
      cases hk with
      | insert | found => rfl
      | race | clash => trivial
      | lost hnone =>
        -- the lock of the booking has the request that was looked for
        injection Option.some.inj hfits with hn
        subst hn
        obtain ⟨m, hm, hu⟩ := hl
        exact absurd (hnamed _ rfl m hm hu) (Inventory.lockByRequest?_eq_none.mp hnone m hm)
      | delete | addRoom => cases hfits
      | _ => cases hbare _ _ _ rfl hl

theorem Tidy.bare_move (h : Tidy marked st) (ha : Accounts st) (hd : Distinct st.calls)
    (hm : Move (st.point i) st.stock p s')
    (hk : Function.update st.point i p k = .securing b r e) (hl : s'.inventory.HasLock b.uid) :
    e.Placed := by
  rcases update_eq_cases hk with ⟨rfl, rfl⟩ | ⟨hki, hk⟩
  · exact h.placed_move ha hm hl
  · exact h.bare k b r e hk (ha.locked_of_ne hd hm hki (by rw [hk]; rfl) hl)

/-- As long as its room is being locked, a booking is moved on by orders to cancel it only. -/
theorem Tidy.unmoved_move (h : Tidy marked st) (ha : Accounts st) (hd : Distinct st.calls)
    (hm : Move (st.point i) st.stock p s') (hold : ∀ id, marked id → marked' id)
    (hnew : ∀ id, (st.point i).target? = some id → ¬ st.stock.ledger.Cancelled id →
      s'.ledger.Cancelled id → marked' id)
    (hk : Function.update st.point i p k = .securing b r e) (hc : c ∈ s'.ledger.bookings)
    (hu : c.uid = b.uid) : c.status = .pending ∨ marked' c.id := by
  have hbefore : (st.point k).fresh? = some b.uid ∨ ∃ e, st.point k = .securing b r e := by
    rcases update_eq_cases hk with ⟨rfl, rfl⟩ | ⟨-, hk⟩
    · exact hm.into_securing.imp_right fun ⟨e, hp, _⟩ => ⟨e, hp⟩
    · exact .inr ⟨e, hk⟩
  have hrows : ∀ d ∈ st.stock.ledger.bookings, d.uid = b.uid → d.status = .pending ∨ marked d.id := by
    intro d hmem hu
    rcases hbefore with hf | ⟨e, hk⟩
    · exact absurd hu (ha.fresh k _ hf d hmem)
    · exact h.unmoved k b r e hk d hmem hu
  rcases hm.row_cases hc with hc | ⟨-, -, hs⟩ | ⟨d, hmem, hsame, hshift⟩
  · exact (hrows c hc hu).imp_right (hold _)
  · exact .inl hs
  · have hdu : d.uid = b.uid := hsame.uid_eq.symm.trans hu
    -- whoever makes the booking is still about to lock its room
    have hmaker : ∀ b', (st.point i).making? = some b' → d.id = b'.id →
        k = i ∧ ∃ e, st.point k = .securing b r e := by
      intro b' hb' hid
      have hu' := (ha.uid_eq_iff (Point.row?_of_making? hb') hmem).mp hid
      rcases hbefore with hf | ⟨e, hk⟩
      · exact absurd hdu (ha.fresh k _ hf d hmem)
      · have hmk : (st.point k).making? = some b := by rw [hk]; rfl
        exact ⟨ha.making_unique hd hmk hb' (hdu.symm.trans hu'), e, hk⟩
    rw [hsame.id_eq]
    generalize hs : c.status = status at hshift
    generalize hi : st.point i = q at hshift
    cases hshift with
    | confirm he hid hpending =>
      obtain ⟨rfl, -⟩ := hmaker _ (by rw [hi]; rfl) hid
      rw [Function.update_self] at hk
      cases hk
    | cancel hid hpending =>
      obtain ⟨rfl, e, hk⟩ := hmaker _ (by rw [hi]; rfl) hid
      cases hi.symm.trans hk
    | mark he hid hstatus =>
      right
      rcases hrows d hmem hdu with hpending | hmarked
      · refine hnew d.id (by rw [hi, hid]; rfl) ?_ ⟨c, hc, hsame.id_eq, hs⟩
        rintro ⟨d', hd', hid', hs'⟩
        obtain rfl := ha.ledger.eq_of_id hd' hmem hid'
        cases hpending.symm.trans hs'
      · exact hold _ hmarked

/-- An order fails with its booking when no lock was placed, or someone has moved the booking on. -/
theorem Tidy.failing_move (h : Tidy marked st) (ha : Accounts st) (hd : Distinct st.calls)
    (hm : Move (st.point i) st.stock p s') (hk : Function.update st.point i p k = .failing b r)
    (hl : s'.inventory.HasLock b.uid) : marked b.id := by
  rcases update_eq_cases hk with ⟨rfl, rfl⟩ | ⟨hki, hk⟩
  · have hbare := h.bare k
    have hunmoved := h.unmoved k
    have hknown := ha.known k
    generalize st.point k = q at hm hbare hunmoved hknown
    cases hm with
    | overtaken he hno =>
      obtain ⟨c, hc, hsame⟩ := hknown b rfl
      have hfound : st.stock.ledger.booking? b.id = some c := by
        rw [← hsame.id_eq]
        exact ha.ledger.booking?_of_mem hc
      rcases hunmoved _ _ _ rfl c hc hsame.uid_eq with hpending | hmarked
      · exact absurd hpending (hno c hfound)
      · exact hsame.id_eq ▸ hmarked
    | fail _ he => exact absurd (hbare _ _ _ rfl hl) he.not_placed
  · exact h.failing k b r hk (ha.locked_of_ne hd hm hki (by rw [hk]; rfl) hl)

theorem Tidy.cancelled_move (h : Tidy marked st) (ha : Accounts st)
    (hm : Move (st.point i) st.stock p s') (hold : ∀ id, marked id → marked' id)
    (hnew : ∀ id, (st.point i).target? = some id → ¬ st.stock.ledger.Cancelled id →
      s'.ledger.Cancelled id → marked' id)
    (hc : c ∈ s'.ledger.bookings) (hs : c.status = .cancelled)
    (hl : s'.inventory.HasLock c.uid) : marked' c.id := by
  rcases ha.locked_back hm hl with hl | ⟨hled, b, r, e, hi, hu⟩
  · rcases hm.row_cases hc with hc | ⟨-, -, hpending⟩ | ⟨d, hmem, hsame, hshift⟩
    · exact hold _ (h.cancelled c hc hs hl)
    · cases hpending.symm.trans hs
    · rw [hsame.uid_eq] at hl
      rw [hs] at hshift
      generalize hi : st.point i = q at hshift
      cases hshift with
      | @cancel b _ r hid _ =>
        have hu := (ha.uid_eq_iff (Point.row?_of_making? (by rw [hi]; rfl)) hmem).mp hid
        rw [hsame.id_eq, hid]
        exact hold _ (h.failing i b r hi (hu ▸ hl))
      | @mark b _ e ok _ hid _ =>
        by_cases hcancelled : st.stock.ledger.Cancelled d.id
        · obtain ⟨d', hmem', hid', hs'⟩ := hcancelled
          obtain rfl := ha.ledger.eq_of_id hmem' hmem hid'
          rw [hsame.id_eq]
          exact hold _ (h.cancelled d' hmem' hs' hl)
        · rw [hsame.id_eq]
          exact hnew d.id (by rw [hi, hid]; rfl) hcancelled ⟨c, hc, hsame.id_eq, hs⟩
  · -- a lock is placed for a booking that nobody has moved on, unless it was marked
    rcases h.unmoved i b r e hi c (hled ▸ hc) hu.symm with hpending | hmarked
    · cases hpending.symm.trans hs
    · exact hold _ hmarked

theorem Tidy.move (h : Tidy marked st) (ha : Accounts st) (hd : Distinct st.calls)
    (hm : Move (st.point i) st.stock p s') (hold : ∀ id, marked id → marked' id)
    (hnew : ∀ id, (st.point i).target? = some id → ¬ st.stock.ledger.Cancelled id →
      s'.ledger.Cancelled id → marked' id) :
    Tidy marked' ⟨s', st.calls, Function.update st.point i p⟩ where
  named _ _ hk _ hl hu := h.named_move ha hd hm hk hl hu
  bare _ _ _ _ hk hl := h.bare_move ha hd hm hk hl
  unmoved _ _ _ _ hk _ hc hu := h.unmoved_move ha hd hm hold hnew hk hc hu
  failing _ _ _ hk hl := hold _ (h.failing_move ha hd hm hk hl)
  cancelled _ hc hs hl := h.cancelled_move ha hm hold hnew hc hs hl

theorem Tidy.mono (h : Tidy marked st) (hold : ∀ id, marked id → marked' id) :
    Tidy marked' st :=
  ⟨h.named, h.bare, fun i b r e hp c hc hu => (h.unmoved i b r e hp c hc hu).imp_right (hold _),
    fun i b r hp hl => hold _ (h.failing i b r hp hl),
    fun c hc hs hl => hold _ (h.cancelled c hc hs hl)⟩

/-- Whoever begins or is given up has locked nothing yet. -/
theorem Tidy.replace (h : Tidy marked st) {calls : List Call} {point : ℕ → Point}
    (ha' : Accounts ⟨st.stock, calls, point⟩)
    (hpoint : ∀ k, point k = st.point k ∨ (point k).Blank) :
    Tidy marked ⟨st.stock, calls, point⟩ := by
  have hrow : ∀ {k q b}, point k = q → q.row? = some b → st.point k = q := by
    rintro k _ b rfl hb
    rcases hpoint k with he | hblank
    · exact he.symm
    · cases hblank.row.symm.trans hb
  refine ⟨fun k x hk l hl hu => ?_, fun k b r e hk => h.bare k b r e (hrow hk rfl),
    fun k b r e hk => h.unmoved k b r e (hrow hk rfl),
    fun k b r hk => h.failing k b r (hrow hk rfl), h.cancelled⟩
  rcases hpoint k with he | hblank
  · exact h.named k x (he ▸ hk) l hl hu
  · -- before its booking is written down, an order has no lock
    exact absurd ⟨l, hl, hu⟩ (ha'.fresh_unlocked (hblank.fresh? hk))

theorem Tidy.next {ev : Event Call} (h : Tidy marked st) (ha : Accounts st) (ha' : Accounts st')
    (hd : Distinct st.calls) (hn : script.Next Call.first ev st st')
    (hold : ∀ id, marked id → marked' id)
    (hnew : ∀ i id, ev = .advance i → (st.point i).target? = some id →
      ¬ st.stock.ledger.Cancelled id → st'.stock.ledger.Cancelled id → marked' id) :
    Tidy marked' st' := by
  cases hn with
  | start c => exact (h.replace ha' (c.blank_first.update st.point _)).mono hold
  | @move _ i p s' hi hm => exact h.move ha hd hm hold fun id => hnew i id rfl
  | drop hi => exact (h.replace ha' (Point.blank_rest.update st.point _)).mono hold
  | turn t =>
    have h := h.mono hold
    cases t <;> exact ⟨h.named, h.bare, h.unmoved, h.failing, h.cancelled⟩
  | idle => exact h.mono hold

theorem tidy_furnished (now : Instant) (rooms : List NewRoom) :
    Tidy marked ⟨(World.furnished now rooms).stock, [], fun _ => .rest⟩ where
  named _ _ h := nomatch h
  bare _ _ _ _ h := nomatch h
  unmoved _ _ _ _ h := nomatch h
  failing _ _ _ h := nomatch h
  cancelled _ hc := absurd hc List.not_mem_nil

theorem Marked.concat {s : Scene Call.process} {es : List (Event Call)} {id : BookingId}
    (h : Marked s es id) (e : Event Call) : Marked s (es ++ [e]) id := by
  obtain ⟨i, c, j, hj, ht, hbrings⟩ := h
  obtain ⟨j', hj'⟩ := Scene.exists_job_step hj e
  rw [← Scene.run_concat] at hj'
  exact ⟨i, c, j', hj', ht, (Scene.brings_concat _).mpr (.inl hbrings)⟩

/-- An order that is to cancel a booking marks it. -/
theorem marked_of_next {s : Scene Call.process} {es : List (Event Call)} {id : BookingId}
    (ht : script.Tells Call.Ends (s.run es) st) (ha : Accounts st)
    (ht' : script.Tells Call.Ends (s.run (es ++ [.advance i])) st')
    (htarget : (st.point i).target? = some id) (hno : ¬ st.stock.ledger.Cancelled id)
    (hyes : st'.stock.ledger.Cancelled id) : Marked s (es ++ [.advance i]) id := by
  obtain ⟨c, hc, hct⟩ := ha.target i id htarget
  rw [ht.calls, List.getElem?_map] at hc
  obtain ⟨⟨d, j⟩, hj, rfl⟩ := Option.map_eq_some_iff.mp hc
  obtain ⟨j', hj'⟩ := Scene.exists_job_step hj (.advance i)
  rw [← ht.ledger] at hno
  rw [← ht'.ledger] at hyes
  rw [Scene.run_concat] at hyes
  rw [← Scene.run_concat] at hj'
  exact ⟨i, d, j', hj', hct, (Scene.brings_concat _).mpr (.inr ⟨rfl, hno, hyes⟩)⟩

/-- A lock is left to a cancelled booking only if an order to cancel it has marked it, whatever goes
wrong in the run and wherever orders are given up. -/
theorem marked_of_hasLock (now : Instant) (rooms : List NewRoom) (es : List (Event Call))
    (hdistinct : Distinct (((Scene.opening Call.process (.furnished now rooms)).run es).jobs.map
      Prod.fst))
    (hc : c ∈ ((Scene.opening Call.process (.furnished now rooms)).run es).world.ledger.bookings)
    (hs : c.status = .cancelled)
    (hl : ((Scene.opening Call.process (.furnished now rooms)).run es).world.inventory.HasLock
      c.uid) : Marked (Scene.opening Call.process (.furnished now rooms)) es c.id := by
  obtain ⟨st, ht, -, h⟩ := accounts_run
    (P := fun es => Tidy (Marked (Scene.opening Call.process (.furnished now rooms)) es))
    (tells_furnished now rooms) (accounts_furnished now rooms) (tidy_furnished now rooms)
    (fun es e st st' ht ha ha' hd hn ht' h => by
      refine h.next ha ha' hd hn (fun id hm => hm.concat e) ?_
      rintro i id rfl htarget hno hyes
      exact marked_of_next ht ha ht' htarget hno hyes) es hdistinct
  exact h.cancelled c (ht.ledger ▸ hc) hs (ht.inventory ▸ hl)

end Desk

end Lodging
