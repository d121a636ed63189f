import Lodging.Proofs.Desk.Locks
import Lodging.World.Sample
import Mathlib.Data.List.Infix

/-!
No double booking. As long as nobody cancels a booking that is still being made, and no
cancellation is given up, every confirmed booking keeps the lock of its room, unless an order that
is to cancel it is on its way.
-/

namespace Lodging

/-- Orders are given with care: a booking is not cancelled while it is still being made, and no
cancellation is given up. -/
structure Desk.Careful (s : Scene Desk.Call.process) : Prop where
  apart : ∀ x ∈ s.jobs, ∀ y ∈ s.jobs, x.2.underWay = true → y.2.underWay = true →
    ∀ b ∈ s.world.ledger.bookings, y.1.target? = some b.id → x.1.uid? ≠ some b.uid
  patient : ∀ x ∈ s.jobs, x.1.target? ≠ none → x.2.givenUp = false

instance (s : Scene Desk.Call.process) : Decidable (Desk.Careful s) :=
  decidable_of_iff
    ((∀ x ∈ s.jobs, ∀ y ∈ s.jobs, x.2.underWay = true → y.2.underWay = true →
        ∀ b ∈ s.world.ledger.bookings, y.1.target? = some b.id → x.1.uid? ≠ some b.uid) ∧
      ∀ x ∈ s.jobs, x.1.target? ≠ none → x.2.givenUp = false)
    ⟨fun h => ⟨h.1, h.2⟩, fun h => ⟨h.apart, h.patient⟩⟩

namespace Desk

variable {st st' : Stage Call Point} {s s' : Stock} {i k : ℕ} {p p' : Point} {b c : Booking}
  {r : RequestId} {e : Errand} {l : Lock}

theorem Move.of_releasing (h : Move (.releasing b e) s p' s') (hl : s.ledger.Sound)
    (hb : b.status ≠ .cancelled) : (∃ e', p' = .releasing b e') ∨
      ∀ c ∈ s'.ledger.bookings, c.id = b.id → c.status ≠ b.status := by
  cases h with
  | release => exact .inl ⟨_, rfl⟩
  | mark he hd hs =>
    refine .inr fun c hc hid => ?_
    obtain ⟨hm, hdid⟩ := Ledger.booking?_eq_some hd
    rcases (Ledger.mem_moved hm).mp hc with rfl | ⟨-, hne⟩
    · exact hb.symm
    · exact absurd (hid.trans hdid.symm) hne
  | tooLate he hne =>
    refine .inr fun c hc hid => hne c ?_
    rw [← hid]
    exact hl.booking?_of_mem hc

theorem Move.releasing (h : Move p s (.releasing b e) s') :
    (∃ e', p = .releasing b e') ∨ b ∈ s.ledger.bookings ∧ b.status ≠ .cancelled ∧ s' = s := by
  cases h with
  | read hb hs => exact .inr ⟨(Ledger.booking?_eq_some hb).1, hs, rfl⟩
  | release => exact .inl ⟨_, rfl⟩

/-- No booking is being made and cancelled at the same time. -/
def Separate (st : Stage Call Point) : Prop :=
  ∀ i k b b' e, (st.point i).making? = some b → st.point k = .releasing b' e → b.uid ≠ b'.uid

theorem Careful.separate {x : Scene Call.process} (hc : Careful x)
    (ht : script.Tells Call.Ends x st) (h : Accounts st) : Separate st := by
  intro i k b b' e hi hk huid
  have hrow := Point.row?_of_making? hi
  have hrow' : (st.point k).row? = some b' := by
    rw [hk]
    rfl
  obtain ⟨c, j, hj, hup⟩ := underWay_of_row ht hrow fun hs => by
    rw [hs] at hi
    cases hi
  obtain ⟨d, l, hl, hup'⟩ := underWay_of_row ht hrow' fun hs => by
    rw [hk] at hs
    cases hs
  have hcall : ∀ (m : ℕ) (y : Call × Job _), x.jobs[m]? = some y → st.calls[m]? = some y.1 := by
    intro m y hy
    rw [ht.calls, List.getElem?_map, hy]
    rfl
  -- so both orders are under way, and for the same booking of the ledger
  obtain ⟨q, hmk⟩ := Point.maker?_of_making? hi
  obtain ⟨c', hc', hcu⟩ := h.maker i _ hmk
  obtain rfl := Option.some.inj ((hcall i _ hj).symm.trans hc')
  obtain ⟨d', hd', hdt⟩ := h.target k b'.id (by rw [hk]; rfl)
  obtain rfl := Option.some.inj ((hcall k _ hl).symm.trans hd')
  obtain ⟨a, ha, hsame⟩ := h.known k b' hrow'
  rw [ht.stock] at ha
  refine hc.apart _ (List.mem_of_getElem? hj) _ (List.mem_of_getElem? hl) hup hup' a ha ?_ ?_
  · rw [hsame.id_eq]
    exact hdt
  · rw [hsame.uid_eq, ← huid]
    exact hcu

/-- A booking whose room has been locked keeps the lock until an order that cancels it, as
confirmed, releases the room. -/
structure Kept (st : Stage Call Point) : Prop where
  locked : ∀ i b r e, st.point i = .securing b r e → e.Ended true →
    ∃ l ∈ st.stock.inventory.locks, l.uid = b.uid
  confirmed : ∀ b ∈ st.stock.ledger.bookings, b.status = .confirmed →
    (∃ l ∈ st.stock.inventory.locks, l.uid = b.uid) ∨
      ∃ k b' e, st.point k = .releasing b' e ∧ b'.id = b.id ∧ b'.status = .confirmed
  read : ∀ k b e, st.point k = .releasing b e → b.status ≠ .cancelled
  pending : ∀ k b' e, st.point k = .releasing b' e → b'.status = .pending →
    ∀ b ∈ st.stock.ledger.bookings, b.id = b'.id → b.status ≠ .confirmed

theorem Kept.locked_move (h : Kept st) (ha : Accounts st) (hd : Distinct st.calls)
    (hsep : Separate st) (hm : Move (st.point i) st.stock p s')
    (ha' : Accounts ⟨s', st.calls, Function.update st.point i p⟩)
    (hk : Function.update st.point i p k = .securing b r e) (he : e.Ended true) :
    ∃ l ∈ s'.inventory.locks, l.uid = b.uid := by
  rcases update_eq_cases hk with ⟨rfl, rfl⟩ | ⟨hki, hk⟩
  · obtain ⟨l, hl, hr⟩ := hm.lock_of_secured (ha.fits k) he
    have hclaim : (Function.update st.point k (.securing b r e) k).claim? = some (b.uid, r) := by
      rw [Function.update_self]
      rfl
    exact ⟨l, hl, ha'.claimed k (b.uid, r) hclaim l hl hr⟩
  · obtain ⟨l, hl, hu⟩ := h.locked k b r e hk he
    have hmk : (st.point k).making? = some b := by rw [hk]; rfl
    rcases ha.unlocks hm hl with hl | ⟨-, c, hcu, -, ⟨⟨f, q, hi⟩, -⟩ | ⟨⟨f, hi⟩, -⟩⟩
    · exact ⟨l, hl, hu⟩
    · -- no other order makes the booking
      have hmi : (st.point i).making? = some c := by rw [hi]; rfl
      exact absurd (ha.making_unique hd hmk hmi (hu.symm.trans hcu.symm)) hki
    · exact absurd (hu.symm.trans hcu.symm) (hsep k i b c f hmk hi)

/-- The lock of a confirmed booking is taken away only by an order that has read it as confirmed. -/
theorem Kept.lock_or_releasing (h : Kept st) (ha : Accounts st)
    (hm : Move (st.point i) st.stock p s') (hb : b ∈ st.stock.ledger.bookings)
    (hs : b.status = .confirmed) (hl : l ∈ st.stock.inventory.locks) (hu : l.uid = b.uid) :
    l ∈ s'.inventory.locks ∨
      ∃ c f, p = .releasing c f ∧ c.id = b.id ∧ c.status = .confirmed := by
  rcases ha.unlocks hm hl with hl | ⟨-, c, hcu, -, ⟨⟨f, q, hi⟩, -⟩ | ⟨⟨f, hi⟩, f', hp⟩⟩
  · exact .inl hl
  · have hmi : (st.point i).making? = some c := by rw [hi]; rfl
    exact absurd hs (ha.unconfirmed i c hmi b hb (hu.symm.trans hcu.symm))
  · have hrow : (st.point i).row? = some c := by rw [hi]; rfl
    have hid := (ha.uid_eq_iff hrow hb).mpr (hu.symm.trans hcu.symm)
    refine .inr ⟨c, f', hp, hid.symm, ?_⟩
    -- it has not read the booking as pending, or it would not be confirmed by now
    cases hst : c.status with
    | confirmed => rfl
    | cancelled => exact absurd hst (h.read i c f hi)
    | pending => exact absurd hs (h.pending i c f hi hst b hb hid)

/-- An order that is to cancel a confirmed booking is on its way until the booking is cancelled. -/
theorem Kept.releasing_move (h : Kept st) (ha : Accounts st) (hm : Move (st.point i) st.stock p s')
    (hb : b ∈ s'.ledger.bookings) (hs : b.status = .confirmed) {b' : Booking}
    (hk : st.point k = .releasing b' e) (hid : b'.id = b.id) (hst : b'.status = .confirmed) :
    ∃ e', Function.update st.point i p k = .releasing b' e' := by
  by_cases hki : k = i
  · subst hki
    rw [hk] at hm
    rcases hm.of_releasing ha.ledger (h.read k b' e hk) with ⟨e', rfl⟩ | hgone
    · exact ⟨e', Function.update_self ..⟩
    · exact absurd (hs.trans hst.symm) (hgone b hb hid.symm)
  · exact ⟨e, (Function.update_of_ne hki ..).trans hk⟩

theorem Kept.confirmed_move (h : Kept st) (ha : Accounts st) (hm : Move (st.point i) st.stock p s')
    (hb : b ∈ s'.ledger.bookings) (hs : b.status = .confirmed) :
    (∃ l ∈ s'.inventory.locks, l.uid = b.uid) ∨ ∃ k b' e,
      Function.update st.point i p k = .releasing b' e ∧ b'.id = b.id ∧ b'.status = .confirmed := by
  rcases hm.confirmed hb hs with hb' | ⟨-, d, hd', hsame, -, b', r, e, hi, he, hid⟩
  · rcases h.confirmed b hb' hs with ⟨l, hl, hu⟩ | ⟨k, b', e, hk, hid, hst⟩
    · rcases h.lock_or_releasing ha hm hb' hs hl hu with hl | ⟨c, f, hp, hid, hst⟩
      · exact .inl ⟨l, hl, hu⟩
      · exact .inr ⟨i, c, f, (Function.update_self ..).trans hp, hid, hst⟩
    · obtain ⟨e', hk'⟩ := h.releasing_move ha hm hb hs hk hid hst
      exact .inr ⟨k, b', e', hk', hid, hst⟩
  · -- the order that confirms the booking has had its room locked, and takes no lock away
    obtain ⟨l, hl, hu⟩ := h.locked i b' r e hi he
    have hrow : (st.point i).row? = some b' := by rw [hi]; rfl
    have hdb : d.id = b'.id := hsame.id_eq.symm.trans hid.symm
    have hbu : l.uid = b.uid := calc
      l.uid = b'.uid := hu
      _ = d.uid := ((ha.uid_eq_iff hrow hd').mp hdb).symm
      _ = b.uid := hsame.uid_eq.symm
    rcases ha.unlocks hm hl with hl | ⟨-, c, -, -, ⟨⟨f, q, hi'⟩, -⟩ | ⟨⟨f, hi'⟩, -⟩⟩
    · exact .inl ⟨l, hl, hbu⟩
    · rw [hi] at hi'
      cases hi'
    · rw [hi] at hi'
      cases hi'

theorem Kept.pending_move (h : Kept st) (ha : Accounts st) (hsep : Separate st)
    (hm : Move (st.point i) st.stock p s') {b' : Booking}
    (hk : Function.update st.point i p k = .releasing b' e) (hst : b'.status = .pending)
    (hb : b ∈ s'.ledger.bookings) (hid : b.id = b'.id) : b.status ≠ .confirmed := by
  intro hs
  rcases hm.confirmed hb hs with hb' | ⟨hover, d, hd', hsame, -, c, r, f, hi, -, hcid⟩
  · rcases update_eq_cases hk with ⟨rfl, rfl⟩ | ⟨-, hk⟩
    · rcases hm.releasing with ⟨e', hp⟩ | ⟨hmem, -, -⟩
      · exact h.pending k b' e' hp hst b hb' hid hs
      · rw [ha.ledger.eq_of_id hb' hmem hid, hst] at hs
        cases hs
    · exact h.pending k b' e hk hst b hb' hid hs
  · rcases update_eq_cases hk with ⟨-, hp⟩ | ⟨-, hk⟩
    · rw [hover] at hp
      cases hp
    · -- the booking would be made and cancelled at the same time
      have hmi : (st.point i).making? = some c := by rw [hi]; rfl
      have hrow : (st.point k).row? = some b' := by rw [hk]; rfl
      have hdc : d.id = c.id := hsame.id_eq.symm.trans hcid.symm
      have hdb : d.id = b'.id := hsame.id_eq.symm.trans hid
      have hu : c.uid = b'.uid := calc
        c.uid = d.uid := ((ha.uid_eq_iff (Point.row?_of_making? hmi) hd').mp hdc).symm
        _ = b'.uid := (ha.uid_eq_iff hrow hd').mp hdb
      exact hsep i k c b' e hmi hk hu

theorem Kept.move (h : Kept st) (ha : Accounts st) (hd : Distinct st.calls) (hsep : Separate st)
    (hm : Move (st.point i) st.stock p s')
    (ha' : Accounts ⟨s', st.calls, Function.update st.point i p⟩) :
    Kept ⟨s', st.calls, Function.update st.point i p⟩ where
  locked k b r e hk he := h.locked_move ha hd hsep hm ha' hk he
  confirmed b hb hs := h.confirmed_move ha hm hb hs
  read k b e hk := by
    rcases update_eq_cases hk with ⟨rfl, rfl⟩ | ⟨-, hk⟩
    · rcases hm.releasing with ⟨e', hp⟩ | ⟨-, hs, -⟩
      · exact h.read k b e' hp
      · exact hs
    · exact h.read k b e hk
  pending k b' e hk hst b hb hid := h.pending_move ha hsep hm hk hst hb hid

/-- Orders that begin, or are given up other than on the way to release a room. -/
theorem Kept.replace (h : Kept st) {calls : List Call} {point : ℕ → Point}
    (hback : ∀ k q, point k = q → q.row? ≠ none → st.point k = q)
    (hforth : ∀ k b e, st.point k = .releasing b e → point k = .releasing b e) :
    Kept ⟨st.stock, calls, point⟩ where
  locked k b r e hk := h.locked k b r e (hback k _ hk nofun)
  confirmed b hb hs := by
    rcases h.confirmed b hb hs with hl | ⟨k, b', e, hk, hrest⟩
    · exact .inl hl
    · exact .inr ⟨k, b', e, hforth k b' e hk, hrest⟩
  read k b e hk := h.read k b e (hback k _ hk nofun)
  pending k b e hk := h.pending k b e (hback k _ hk nofun)

/-- Nobody gives up a cancellation, as long as orders are given with care. -/
theorem Careful.not_releasing {x : Scene Call.process} {b : Booking} {e : Errand}
    (hc : Careful (x.step (.drop i))) (ht : script.Tells Call.Ends x st) (h : Accounts st) :
    st.point i ≠ .releasing b e := by
  intro hi
  obtain ⟨c, j, hj, hup⟩ := underWay_of_row ht (b := b) (i := i) (by rw [hi]; rfl) fun hs => by
    rw [hi] at hs
    cases hs
  obtain ⟨d, hd, hdt⟩ := h.target i b.id (by rw [hi]; rfl)
  rw [ht.calls, List.getElem?_map, hj] at hd
  obtain rfl := Option.some.inj hd
  have hdropped : (j.drop x.world).1 = .dropped := by
    cases j with
    | running p held => rfl
    | waiting t next held => rfl
    | finished a => cases hup
    | dropped => rfl
  have hmem : (c, .dropped) ∈ (x.step (.drop i)).jobs := by
    simp only [Scene.step, Scene.update, hj, hdropped]
    exact List.mem_of_getElem? (List.getElem?_set_self (List.getElem?_eq_some_iff.mp hj).1)
  have hnone : c.target? ≠ none := by
    rw [hdt]
    exact Option.some_ne_none _
  cases hc.patient _ hmem hnone

theorem Kept.next {x : Scene Call.process} {ev : Event Call} (h : Kept st) (ha : Accounts st)
    (ha' : Accounts st') (hd : Distinct st.calls) (ht : script.Tells Call.Ends x st)
    (hc : Careful x) (hc' : Careful (x.step ev)) (hn : script.Next Call.first ev st st') :
    Kept st' := by
  cases hn with
  | start c =>
    refine h.replace ?_ ?_
    · intro k q hk hq
      rcases update_eq_cases hk with ⟨-, rfl⟩ | ⟨-, hk⟩
      · cases c <;> exact absurd rfl hq
      · exact hk
    · intro k b e hk
      have hne : k ≠ st.calls.length := by
        rintro rfl
        rw [ha.off _ (Nat.le_refl _)] at hk
        cases hk
      exact (Function.update_of_ne hne ..).trans hk
  | move hi hm => exact h.move ha hd (hc.separate ht ha) hm ha'
  | @drop _ i hi =>
    refine h.replace ?_ ?_
    · intro k q hk hq
      rcases update_eq_cases hk with ⟨-, rfl⟩ | ⟨-, hk⟩
      · exact absurd rfl hq
      · exact hk
    · intro k b e hk
      have hne : k ≠ i := by
        rintro rfl
        -- whoever is careful does not give up while a room is being released
        exact hc'.not_releasing ht ha hk
      exact (Function.update_of_ne hne ..).trans hk
  | turn t => cases t <;> exact ⟨h.locked, h.confirmed, h.read, h.pending⟩
  | idle => exact h

theorem kept_opening (v : Inventory) (f g : Option CallFailure) :
    Kept ⟨⟨v, .empty, f, g⟩, [], fun _ => .rest⟩ where
  locked _ _ _ _ h := nomatch h
  confirmed _ hb := absurd hb List.not_mem_nil
  read _ _ _ h := nomatch h
  pending _ _ _ h := nomatch h

/-- The confirmed bookings are all kept when no order is under way. -/
theorem Kept.lock_of_quiet {x : Scene Call.process} (h : Kept st) (ha : Accounts st)
    (ht : script.Tells Call.Ends x st) (hquiet : x.Quiet) (hb : b ∈ st.stock.ledger.bookings)
    (hs : b.status = .confirmed) : ∃ l ∈ st.stock.inventory.locks,
      l.uid = b.uid ∧ l.room = b.room ∧ l.stay = b.stay := by
  rcases h.confirmed b hb hs with ⟨l, hl, hu⟩ | ⟨k, b', e, hk, -⟩
  · obtain ⟨c, hc, hcu, hcr, hcs⟩ := ha.covered l hl
    obtain rfl := ha.ledger.eq_of_uid hb hc (hu.symm.trans hcu.symm)
    exact ⟨l, hl, hu, hcr.symm, hcs.symm⟩
  · have hst : st.point k = .stale b' := stale_of_row_of_quiet ht hquiet (by rw [hk]; rfl)
    rw [hk] at hst
    cases hst

theorem Kept.apart_of_quiet {x : Scene Call.process} (h : Kept st) (ha : Accounts st)
    (ht : script.Tells Call.Ends x st) (hquiet : x.Quiet) :
    (st.stock.ledger.bookings.filter fun b => b.status = .confirmed).Pairwise fun b c =>
      b.room = c.room → b.stay.overlaps c.stay = false := by
  have hn : st.stock.ledger.bookings.Nodup := List.Nodup.of_map _ ha.ledger.ids
  refine List.Pairwise.imp_of_mem ?_ (hn.filter _)
  intro b c hb hc hne hroom
  obtain ⟨hb, hbs⟩ := List.mem_filter.mp hb
  obtain ⟨hc, hcs⟩ := List.mem_filter.mp hc
  obtain ⟨l, hl, hlu, hlr, hls⟩ := h.lock_of_quiet ha ht hquiet hb (of_decide_eq_true hbs)
  obtain ⟨m, hm, hmu, hmr, hms⟩ := h.lock_of_quiet ha ht hquiet hc (of_decide_eq_true hcs)
  have hlm : l ≠ m := by
    rintro rfl
    exact hne (ha.ledger.eq_of_uid hb hc (hlu.symm.trans hmu))
  have hrooms : l.room = m.room := calc
    l.room = b.room := hlr
    _ = c.room := hroom
    _ = m.room := hmr.symm
  have hapart := List.Pairwise.forall ha.clear.apart hl hm hlm hrooms
  rwa [← hls, ← hms]

/-- The invariants hold at every stage of a run. -/
theorem exists_kept (now : Instant) (rooms : List NewRoom) (es : List (Event Call))
    (hdistinct : Distinct (((Scene.opening Call.process (.furnished now rooms)).run es).jobs.map
      Prod.fst))
    (hcareful : ∀ es', es' <+: es →
      Careful ((Scene.opening Call.process (.furnished now rooms)).run es')) :
    ∃ st, script.Tells Call.Ends ((Scene.opening Call.process (.furnished now rooms)).run es) st ∧
      Accounts st ∧ Kept st := by
  obtain ⟨st, ht, hst⟩ := Script.exists_stage_of_run Call.runs Call.inside_first
    (fun es st => (∀ es', es' <+: es →
        Careful ((Scene.opening Call.process (.furnished now rooms)).run es')) →
      Distinct st.calls → Accounts st ∧ Kept st)
    (tells_furnished now rooms)
    (fun _ _ => ⟨accounts_furnished now rooms, kept_opening _ none none⟩)
    (fun es e st st' ht hp hn _ hcareful hd => by
      have hd' : Distinct st.calls := hd.of_next hn
      obtain ⟨ha, hk⟩ := hp (fun es' hes => hcareful es' (hes.trans (List.prefix_append ..))) hd'
      have ha' := ha.next hd ht.exclusive hn
      have hnow := hcareful es (List.prefix_append ..)
      have hthen := hcareful (es ++ [e]) (List.prefix_refl _)
      rw [Scene.run_concat] at hthen
      exact ⟨ha', hk.next ha ha' hd' ht hnow hthen hn⟩) es
  exact ⟨st, ht, hst hcareful (ht.calls ▸ hdistinct)⟩

/-- When no order is under way, every confirmed booking has one lock, for its room and stay. So no
two confirmed bookings of one room overlap. This holds in whichever way the actions of the orders
are interleaved, whatever fails and however failures are met, as long as orders are given with
care. -/
theorem no_double_booking (now : Instant) (rooms : List NewRoom) (es : List (Event Call))
    (hdistinct : Distinct (((Scene.opening Call.process (.furnished now rooms)).run es).jobs.map
      Prod.fst))
    (hcareful : ∀ es', es' <+: es →
      Careful ((Scene.opening Call.process (.furnished now rooms)).run es'))
    (hquiet : ((Scene.opening Call.process (.furnished now rooms)).run es).Quiet) :
    (∀ b ∈ ((Scene.opening Call.process (.furnished now rooms)).run es).world.ledger.bookings,
      b.status = .confirmed → ∃ l : Lock,
        ((Scene.opening Call.process (.furnished now rooms)).run es).world.inventory.locks.filter
          (fun m => m.uid = b.uid) = [l] ∧ l.room = b.room ∧ l.stay = b.stay) ∧
    (((Scene.opening Call.process (.furnished now rooms)).run es).world.ledger.bookings.filter
        fun b => b.status = .confirmed).Pairwise fun b c =>
      b.room = c.room → b.stay.overlaps c.stay = false := by
  obtain ⟨st, ht, ha, hk⟩ := exists_kept now rooms es hdistinct hcareful
  generalize (Scene.opening Call.process (.furnished now rooms)).run es = x at *
  have hstock : x.world.stock = st.stock := ht.stock.symm
  have hlocks : x.world.inventory.locks = st.stock.inventory.locks := by
    rw [← hstock]
    rfl
  have hbookings : x.world.ledger.bookings = st.stock.ledger.bookings := by
    rw [← hstock]
    rfl
  -- the stage tells all that is left to be shown
  rw [hlocks, hbookings]
  refine ⟨?_, hk.apart_of_quiet ha ht hquiet⟩
  intro b hb hs
  obtain ⟨l, hl, hu, hroom, hstay⟩ := hk.lock_of_quiet ha ht hquiet hb hs
  exact ⟨l, hu ▸ ha.clear.sound.filter_uid hl, hroom, hstay⟩

/-- Two orders for the same nights, of which the first is confirmed, and a cancellation of the
other. -/
def rivals : List (Event Call) :=
  [.start (Sample.booking 1), .start (Sample.booking 2)] ++ Sample.byTurns 60 ++
    [.start (Sample.cancellation 2)] ++ List.replicate 3 (.advance 2)

theorem no_double_booking_of_rivals :
    (∀ b ∈ ((Scene.opening Call.process (.furnished Sample.newYear [Sample.room])).run
        rivals).world.ledger.bookings,
      b.status = .confirmed → ∃ l : Lock,
        ((Scene.opening Call.process (.furnished Sample.newYear [Sample.room])).run
          rivals).world.inventory.locks.filter (fun m => m.uid = b.uid) = [l] ∧
        l.room = b.room ∧ l.stay = b.stay) ∧
    (((Scene.opening Call.process (.furnished Sample.newYear [Sample.room])).run
        rivals).world.ledger.bookings.filter fun b => b.status = .confirmed).Pairwise fun b c =>
      b.room = c.room → b.stay.overlaps c.stay = false := by
  refine no_double_booking Sample.newYear [Sample.room] rivals ?_ ?_ ?_
  · decide +kernel
  · intro es' h
    rw [← List.mem_inits] at h
    revert es'
    decide +kernel
  · decide +kernel

end Desk

end Lodging
