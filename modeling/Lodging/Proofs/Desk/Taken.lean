import Lodging.Proofs.Desk.Faultless
import Lodging.World.Sample
import Lodging.World.Trail

/-!
Confirmed bookings and locks. A cancellation releases the room before it marks the booking, and
marks it only if the booking is still where it was read. So an order that has read a booking as
pending can take its lock away, and then fail because the booking has been confirmed meanwhile.
When nothing else goes wrong, this is the only way in which the ledger and the inventory come to
disagree.
-/

namespace Lodging

/-- The ledger and the inventory agree about a booking: it is confirmed if and only if it is
locked. -/
def World.Agrees (w : World) (b : Booking) : Prop :=
  b.status = .confirmed ↔ w.inventory.HasLock b.uid

instance (w : World) (b : Booking) : Decidable (w.Agrees b) :=
  inferInstanceAs (Decidable (_ ↔ _))

namespace Scene

variable {κ α : Type} {code : κ → Process α}

/-- In a run, a call took the lock of a booking away. -/
def Takes (s : Scene code) (events : List (Event κ)) (uid : Uid) (i : ℕ) : Prop :=
  ∃ before after, events = before ++ .advance i :: after ∧
    (s.run before).world.inventory.HasLock uid ∧
    ¬ (s.run (before ++ [.advance i])).world.inventory.HasLock uid

theorem not_takes_nil {s : Scene code} {uid : Uid} {i : ℕ} : ¬ s.Takes [] uid i :=
  not_brings_nil fun w w' => w.inventory.HasLock uid ∧ ¬ w'.inventory.HasLock uid

theorem takes_concat {s : Scene code} {es : List (Event κ)} {e : Event κ} {uid : Uid} {i : ℕ} :
    s.Takes (es ++ [e]) uid i ↔ s.Takes es uid i ∨ e = .advance i ∧
      (s.run es).world.inventory.HasLock uid ∧
        ¬ ((s.run es).step e).world.inventory.HasLock uid :=
  brings_concat fun w w' => w.inventory.HasLock uid ∧ ¬ w'.inventory.HasLock uid

end Scene

namespace Desk

variable {st st' : Stage Call Point} {s' : Stock} {i k : ℕ} {p : Point} {b c : Booking} {uid : Uid}
  {taken taken' : Uid → ℕ → Prop}

/-- A booking has its lock, or it was taken by an order that is still about it, or the booking is
cancelled. -/
def Minded (taken : Uid → ℕ → Prop) (st : Stage Call Point) (uid : Uid) : Prop :=
  st.stock.inventory.HasLock uid ∨
    (∃ k b, taken uid k ∧ (st.point k).read? = some b ∧ b.uid = uid) ∨
    ∃ c ∈ st.stock.ledger.bookings, c.uid = uid ∧ c.status = .cancelled

/-- A lock goes with an order that makes the booking, or with one that cancels it. -/
theorem Accounts.loses (ha : Accounts st) (hm : Move (st.point i) st.stock p s')
    (hyes : st.stock.inventory.HasLock uid) (hno : ¬ s'.inventory.HasLock uid) :
    ∃ b, b.uid = uid ∧ ((∃ r e, st.point i = .undoing b r e) ∨ p.read? = some b) := by
  obtain ⟨l, hl, hu⟩ := hyes
  rcases ha.unlocks hm hl with hl | ⟨-, b, hbu, -, ⟨⟨e, r, hi⟩, -⟩ | ⟨-, e, hp⟩⟩
  · exact absurd ⟨l, hl, hu⟩ hno
  · exact ⟨b, hbu.trans hu, .inl ⟨r, e, hi⟩⟩
  · exact ⟨b, hbu.trans hu, .inr (hp ▸ rfl)⟩

/-- An order that cancels a booking goes on with it until it has failed, or the booking is
cancelled. -/
theorem Move.of_read (h : Move (st.point i) st.stock p s') (ha : Accounts st)
    (hb : (st.point i).read? = some b) :
    p.read? = some b ∨ ∃ c ∈ s'.ledger.bookings, c.uid = b.uid ∧ c.status = .cancelled := by
  have hrow := Point.row?_of_read? hb
  have huid : ∀ {c}, c ∈ st.stock.ledger.bookings → c.id = b.id → c.uid = b.uid :=
    fun hc => (ha.uid_eq_iff hrow hc).mp
  generalize st.point i = q, st.stock = s at *
  cases h with
  | release => exact .inl hb
  | mark he hc hs =>
    obtain rfl := Option.some.inj hb
    obtain ⟨hm, hid⟩ := Ledger.booking?_eq_some hc
    have hcu := huid hm hid
    exact .inr ⟨_, (Ledger.mem_moved hm).mpr (.inl rfl), hcu, rfl⟩
  | tooLate => exact .inl hb
  | alike hc hs =>
    obtain rfl := Option.some.inj hb
    obtain ⟨hm, hid⟩ := Ledger.booking?_eq_some hc
    exact .inr ⟨_, hm, huid hm hid, hs⟩
  | goneOn => exact .inl hb
  | _ => cases hb

theorem Move.cancelled (h : Move (st.point i) st.stock p s') (ha : Accounts st)
    (hc : c ∈ st.stock.ledger.bookings) (hs : c.status = .cancelled) :
    ∃ d ∈ s'.ledger.bookings, d.uid = c.uid ∧ d.status = .cancelled := by
  rcases h.ledger_cases with hl | ⟨uid, r, -, hl⟩ | ⟨uid, r, now, n, -, -, -, hl⟩ |
    ⟨d, next, hd, hl, hshift⟩ <;> rw [hl]
  · exact ⟨c, hc, rfl, hs⟩
  · exact ⟨c, hc, rfl, hs⟩
  · exact ⟨c, Ledger.mem_withBooking.mpr (.inl hc), rfl, hs⟩
  · obtain ⟨f, hf, hsame, hstatus⟩ := ha.ledger.exists_moved (s := next) hd hc
    refine ⟨f, hf, hsame.uid_eq, ?_⟩
    rw [hstatus]
    split
    next hid =>
      obtain rfl := ha.ledger.eq_of_id hc hd hid
      generalize st.point i = q at hshift
      cases hshift with
      | confirm he hid hpending => rw [hs] at hpending; cases hpending
      | cancel => rfl
      | mark => rfl
    next => exact hs

/-- Unless the order that makes the booking releases its room. -/
theorem Minded.move (h : Minded taken st uid) (ha : Accounts st)
    (hm : Move (st.point i) st.stock p s') (hold : ∀ uid k, taken uid k → taken' uid k)
    (hnew : st.stock.inventory.HasLock uid → ¬ s'.inventory.HasLock uid → taken' uid i)
    (hno : ∀ b r e, st.point i = .undoing b r e → b.uid ≠ uid) :
    Minded taken' ⟨s', st.calls, Function.update st.point i p⟩ uid := by
  rcases h with hl | ⟨k, b, ht, hk, hu⟩ | ⟨c, hc, hu, hs⟩
  · by_cases hl' : s'.inventory.HasLock uid
    · exact .inl hl'
    · -- the lock goes just now, and by an order that cancels the booking
      obtain ⟨b, hu, ⟨r, e, hi⟩ | hp⟩ := ha.loses hm hl hl'
      · exact absurd hu (hno b r e hi)
      · refine .inr (.inl ⟨i, b, hnew hl hl', ?_, hu⟩)
        change (Function.update st.point i p i).read? = some b
        rwa [Function.update_self]
  · by_cases hki : k = i
    · subst hki
      rcases hm.of_read ha hk with hp | ⟨c, hc, hcu, hs⟩
      · refine .inr (.inl ⟨k, b, hold uid k ht, ?_, hu⟩)
        change (Function.update st.point k p k).read? = some b
        rwa [Function.update_self]
      · exact .inr (.inr ⟨c, hc, hcu.trans hu, hs⟩)
    · refine .inr (.inl ⟨k, b, hold uid k ht, ?_, hu⟩)
      change (Function.update st.point i p k).read? = some b
      rwa [Function.update_of_ne hki]
  · obtain ⟨d, hd, hdu, hds⟩ := hm.cancelled ha hc hs
    exact .inr (.inr ⟨d, hd, hdu.trans hu, hds⟩)

/-- What can be told of the locks that were taken away. -/
structure Traced (taken : Uid → ℕ → Prop) (st : Stage Call Point) : Prop where
  bare : ∀ i b r e, st.point i = .securing b r e → ¬ e.Ended true → ∀ k, ¬ taken b.uid k
  gone : ∀ uid k, taken uid k → ¬ st.stock.inventory.HasLock uid ∧
    ∃ c ∈ st.stock.ledger.bookings, c.uid = uid
  secured : ∀ i b r e, st.point i = .securing b r e → e.Ended true → Minded taken st b.uid
  confirmed : ∀ b ∈ st.stock.ledger.bookings, b.status = .confirmed → Minded taken st b.uid

/-- Before its room has been locked, no lock of a booking was taken away. -/
theorem Traced.bare_before (h : Traced taken st) (ha : Accounts st)
    (hm : Move (st.point i) st.stock p s') {r : RequestId} {e : Errand}
    (hk : Function.update st.point i p k = .securing b r e) (he : ¬ e.Ended true) (m : ℕ) :
    ¬ taken b.uid m := by
  rcases update_eq_cases hk with ⟨rfl, rfl⟩ | ⟨-, hk⟩
  · rcases hm.into_securing with hf | ⟨e', hp, he'⟩
    · intro ht
      obtain ⟨-, c, hc, hu⟩ := h.gone _ m ht
      exact ha.fresh k _ hf c hc hu
    · exact h.bare k b r e' hp he' m
  · exact h.bare k b r e hk he m

/-- A lock that was taken away is not placed again. -/
theorem Traced.gone_move (h : Traced taken st) (hsmooth : Smooth st) (ha : Accounts st)
    (hm : Move (st.point i) st.stock p s') (ht : taken uid k) : ¬ s'.inventory.HasLock uid := by
  intro hyes
  obtain ⟨-, b, r, e, -, hu, hi, he, -⟩ :=
    hm.gains (ha.fits i) hsmooth.raced (h.gone uid k ht).1 hyes
  exact h.bare i b r e hi he k (hu ▸ ht)

theorem Traced.move (h : Traced taken st) (hsmooth : Smooth st) (ha : Accounts st)
    (hd : Distinct st.calls) (hm : Move (st.point i) st.stock p s')
    (ha' : Accounts ⟨s', st.calls, Function.update st.point i p⟩)
    (htaken : ∀ uid k, taken' uid k ↔ taken uid k ∨ k = i ∧
      st.stock.inventory.HasLock uid ∧ ¬ s'.inventory.HasLock uid) :
    Traced taken' ⟨s', st.calls, Function.update st.point i p⟩ := by
  have hold : ∀ uid k, taken uid k → taken' uid k := fun uid k ht => (htaken uid k).mpr (.inl ht)
  have hnew : ∀ uid, st.stock.inventory.HasLock uid → ¬ s'.inventory.HasLock uid → taken' uid i :=
    fun uid hyes hno => (htaken uid i).mpr (.inr ⟨rfl, hyes, hno⟩)
  have hrow : ∀ uid, (∃ c ∈ st.stock.ledger.bookings, c.uid = uid) →
      ∃ d ∈ s'.ledger.bookings, d.uid = uid := by
    rintro uid ⟨c, hc, hu⟩
    obtain ⟨d, hd', hsame⟩ := hm.rows ha.ledger hc
    exact ⟨d, hd', hsame.uid_eq.trans hu⟩
  refine ⟨?_, ?_, ?_, ?_⟩
  · intro k b r e hk he m hmt
    rcases (htaken b.uid m).mp hmt with ht | ⟨-, hl, -⟩
    · exact h.bare_before ha hm hk he m ht
    · exact hsmooth.bare_before ha hm hk he hl
  · intro uid k hk
    rcases (htaken uid k).mp hk with ht | ⟨-, ⟨l, hl, hlu⟩, hno⟩
    · exact ⟨h.gone_move hsmooth ha hm ht, hrow uid (h.gone uid k ht).2⟩
    · obtain ⟨c, hc, hcu, -⟩ := ha.covered l hl
      exact ⟨hno, hrow uid ⟨c, hc, hcu.trans hlu⟩⟩
  · intro k b r e hk he
    rcases update_eq_cases hk with ⟨rfl, rfl⟩ | ⟨hki, hk⟩
    · obtain ⟨l, hl, hr⟩ := hm.lock_of_secured (ha.fits k) he
      exact .inl ⟨l, hl, ha'.claimed k (b.uid, r) (by rw [hk]; rfl) l hl hr⟩
    · refine (h.secured k b r e hk he).move ha hm hold (hnew _) fun c q f hi hu => hki ?_
      have hmk : (st.point k).making? = some b := by rw [hk]; rfl
      have hmi : (st.point i).making? = some c := by rw [hi]; rfl
      exact ha.making_unique hd hmk hmi hu.symm
  · intro b hb hs
    rcases hm.confirmed hb hs with hb' | ⟨-, d, hd', hsame, -, c, r, e, hi, he, hid⟩
    · refine (h.confirmed b hb' hs).move ha hm hold (hnew _) fun c q f hi hu => ?_
      exact ha.unconfirmed i c (by rw [hi]; rfl) b hb' hu.symm hs
    · -- the order that confirms the booking has had its room locked
      have hrow : (st.point i).row? = some c := by rw [hi]; rfl
      have hdc : d.id = c.id := hsame.id_eq.symm.trans hid.symm
      have hcu : c.uid = b.uid := calc
        c.uid = d.uid := ((ha.uid_eq_iff hrow hd').mp hdc).symm
        _ = b.uid := hsame.uid_eq.symm
      refine hcu ▸ (h.secured i c r e hi he).move ha hm hold (hnew _) fun f q g hi' => ?_
      rw [hi] at hi'
      cases hi'

theorem Traced.of_rows (h : Traced taken st) {calls : List Call} {point : ℕ → Point}
    (htaken : ∀ uid k, taken' uid k ↔ taken uid k)
    (hp : ∀ k q b, q.row? = some b → (point k = q ↔ st.point k = q)) :
    Traced taken' ⟨st.stock, calls, point⟩ := by
  have hsame : taken' = taken := funext fun uid => funext fun k => propext (htaken uid k)
  subst hsame
  have hminded : ∀ uid, Minded taken' st uid → Minded taken' ⟨st.stock, calls, point⟩ uid := by
    rintro uid (hl | ⟨k, b, ht, hk, hu⟩ | hc)
    · exact .inl hl
    · refine .inr (.inl ⟨k, b, ht, ?_, hu⟩)
      change (point k).read? = some b
      rwa [(hp k _ b (Point.row?_of_read? hk)).mpr rfl]
    · exact .inr (.inr hc)
  refine ⟨?_, h.gone, ?_, ?_⟩
  · exact fun k b r e hk => h.bare k b r e ((hp k _ b rfl).mp hk)
  · exact fun k b r e hk he => hminded _ (h.secured k b r e ((hp k _ b rfl).mp hk) he)
  · exact fun b hb hs => hminded _ (h.confirmed b hb hs)

theorem Traced.next {ev : Event Call} (h : Traced taken st) (hsmooth : Smooth st) (ha : Accounts st)
    (ha' : Accounts st') (hd : Distinct st.calls) (hc : ev.Calm)
    (hn : script.Next Call.first ev st st')
    (htaken : ∀ uid k, taken' uid k ↔ taken uid k ∨ ev = .advance k ∧
      st.stock.inventory.HasLock uid ∧ ¬ st'.stock.inventory.HasLock uid) : Traced taken' st' := by
  cases hn with
  | start c =>
    refine h.of_rows (fun uid k => (htaken uid k).trans ?_) fun k q b hq => ha.point_start hq
    exact or_iff_left fun ⟨he, _⟩ => nomatch he
  | move hi hm =>
    refine h.move hsmooth ha hd hm ha' fun uid k => (htaken uid k).trans ?_
    rw [Event.advance.injEq, eq_comm]
  | drop hi => cases hc
  | turn t =>
    cases t with
    | clock now =>
      refine h.of_rows (fun uid k => (htaken uid k).trans ?_) fun _ _ _ _ => Iff.rfl
      exact or_iff_left fun ⟨he, _⟩ => nomatch he
    | _ => cases hc
  | idle =>
    refine h.of_rows (fun uid k => (htaken uid k).trans ?_) fun _ _ _ _ => Iff.rfl
    exact or_iff_left fun ⟨_, hyes, hno⟩ => hno hyes

theorem traced_opening (h : ∀ uid k, ¬ taken uid k) (v : Inventory) (f g : Option CallFailure) :
    Traced taken ⟨⟨v, .empty, f, g⟩, [], fun _ => .rest⟩ where
  bare _ _ _ _ h := nomatch h
  gone uid k ht := absurd ht (h uid k)
  secured _ _ _ _ h := nomatch h
  confirmed _ hb := absurd hb List.not_mem_nil

/-- When no order is under way, a confirmed booking without a lock was robbed of it by an order that
had read the booking as pending, and that failed. -/
theorem Traced.stale_of_quiet {x : Scene Call.process} (h : Traced taken st) (hsmooth : Smooth st)
    (ha : Accounts st) (ht : script.Tells Call.Ends x st) (hquiet : x.Quiet)
    (hb : b ∈ st.stock.ledger.bookings) (hs : b.status = .confirmed)
    (hno : ¬ st.stock.inventory.HasLock b.uid) :
    ∃ i c, taken b.uid i ∧ x.jobs[i]? = some (c, .finished (.error (.stale b.id .pending))) := by
  rcases h.confirmed b hb hs with hl | ⟨k, b', htk, hk, hu⟩ | ⟨c, hc, hu, hcs⟩
  · exact absurd hl hno
  · have hid : b.id = b'.id := (ha.uid_eq_iff (Point.row?_of_read? hk) hb).mpr hu.symm
    -- the order that took the lock is at its end, and can only have failed
    have hstale : st.point k = .stale b' :=
      stale_of_row_of_quiet ht hquiet (Point.row?_of_read? hk)
    have hlt : k < x.jobs.length := by
      refine Nat.lt_of_not_le fun hle => ?_
      rw [ht.off k hle] at hstale
      cases hstale
    obtain ⟨d, j, hj, hkeep⟩ := ht.of_lt hlt
    have hdown : j.underWay = false := hquiet _ (List.mem_of_getElem? hj)
    refine ⟨k, d, htk, ?_⟩
    rw [hstale] at hkeep
    cases j with
    | running p held => cases hdown
    | waiting t next held => cases hdown
    | dropped => cases hkeep
    | finished a =>
      obtain ⟨hends, -⟩ := hkeep
      cases d with
      | create policy user q r today uid => rcases hends with hp | hp | hp <;> cases hp
      | cancel policy id user r =>
        rcases hends with hp | ⟨b'', hp, rfl⟩
        · cases hp
        · obtain rfl := Point.stale.inj hp
          rw [hj, hid, hsmooth.stale k _ hstale]
  · rw [ha.ledger.eq_of_uid hc hb hu, hs] at hcs
    cases hcs

/-- The invariants hold at every stage of a run. -/
theorem exists_traced (now : Instant) (rooms : List NewRoom) (es : List (Event Call))
    (hdistinct : Distinct (((Scene.opening Call.process (.furnished now rooms)).run es).jobs.map
      Prod.fst))
    (hcalm : ∀ e ∈ es, e.Calm) :
    ∃ st, script.Tells Call.Ends ((Scene.opening Call.process (.furnished now rooms)).run es) st ∧
      Accounts st ∧ Smooth st ∧
        Traced ((Scene.opening Call.process (.furnished now rooms)).Takes es) st := by
  obtain ⟨st, ht, hst⟩ := Script.exists_stage_of_run Call.runs Call.inside_first
    (fun es st => (∀ e ∈ es, e.Calm) → Distinct st.calls → Accounts st ∧ Smooth st ∧
      Traced ((Scene.opening Call.process (.furnished now rooms)).Takes es) st)
    (tells_furnished now rooms)
    (fun _ _ => ⟨accounts_furnished now rooms,
      smooth_opening (furnished_locks rooms).2.2 (furnished_locks rooms).2.1,
      traced_opening (fun _ _ => Scene.not_takes_nil) _ none none⟩)
    (fun es e st st' ht hp hn ht' hcalm hd => by
      have hd' : Distinct st.calls := hd.of_next hn
      obtain ⟨ha, hs, htr⟩ := hp (fun e he => hcalm e (List.mem_append_left _ he)) hd'
      have he : e.Calm := hcalm e (List.mem_append_right _ (List.mem_singleton_self e))
      have ha' := ha.next hd ht.exclusive hn
      refine ⟨ha', hs.next ha ha' hd' he hn, htr.next hs ha ha' hd' he hn fun uid k => ?_⟩
      rw [Scene.takes_concat, ← Scene.run_concat, ht.stock, ht'.stock]
      rfl) es
  exact ⟨st, ht, hst hcalm (ht.calls ▸ hdistinct)⟩

/-- When no order is under way, the ledger and the inventory agree about a booking, unless it was
confirmed after an order to cancel it had read it as pending and released its room. This holds in
whichever way the actions of the orders are interleaved, as long as nothing goes wrong. -/
theorem agrees_iff_not_taken (now : Instant) (rooms : List NewRoom) (es : List (Event Call))
    (hdistinct : Distinct (((Scene.opening Call.process (.furnished now rooms)).run es).jobs.map
      Prod.fst))
    (hcalm : ∀ e ∈ es, e.Calm)
    (hquiet : ((Scene.opening Call.process (.furnished now rooms)).run es).Quiet) (b : Booking)
    (hb : b ∈ ((Scene.opening Call.process (.furnished now rooms)).run es).world.ledger.bookings) :
    ((Scene.opening Call.process (.furnished now rooms)).run es).world.Agrees b ↔
      ¬ (b.status = .confirmed ∧ ∃ i c,
        (Scene.opening Call.process (.furnished now rooms)).Takes es b.uid i ∧
        ((Scene.opening Call.process (.furnished now rooms)).run es).jobs[i]? =
          some (c, .finished (.error (.stale b.id .pending)))) := by
  obtain ⟨st, ht, ha, hs, htr⟩ := exists_traced now rooms es hdistinct hcalm
  generalize (Scene.opening Call.process (.furnished now rooms)).Takes es = taken at *
  generalize (Scene.opening Call.process (.furnished now rooms)).run es = x at *
  have hstock : x.world.stock = st.stock := ht.stock.symm
  have hb : b ∈ st.stock.ledger.bookings := by
    rw [← hstock]
    exact hb
  have hlock : x.world.inventory.HasLock b.uid ↔ st.stock.inventory.HasLock b.uid := by
    rw [← hstock]
    rfl
  unfold World.Agrees
  rw [hlock]
  constructor
  · rintro hagrees ⟨hconfirmed, i, c, htaken, -⟩
    exact (htr.gone _ i htaken).1 (hagrees.mp hconfirmed)
  · refine fun hno => ⟨fun hconfirmed => ?_, hs.confirmed_of_quiet ht hquiet hb⟩
    -- a confirmed booking without a lock has lost it to an order that found it moved on
    by_contra hl
    exact hno ⟨hconfirmed, htr.stale_of_quiet hs ha ht hquiet hb hconfirmed hl⟩

/-- A cancellation reads a booking as pending and releases its room, before the booking is
confirmed. -/
def premature : List (Event Call) :=
  .start (Sample.booking 1) :: List.replicate 13 (.advance 0) ++
    .start (Sample.cancellation 1) :: List.replicate 10 (.advance 1) ++
    List.replicate 4 (.advance 0) ++ List.replicate 4 (.advance 1)

def robbed : Booking :=
  ⟨⟨1⟩, Sample.uid 1, ⟨1⟩, ⟨1⟩, Sample.twoNights, .confirmed, Sample.newYear⟩

theorem agrees_iff_not_taken_of_premature :
    ((Scene.opening Call.process (.furnished Sample.newYear [Sample.room])).run
        premature).world.Agrees robbed ↔
      ¬ (robbed.status = .confirmed ∧ ∃ i c,
        (Scene.opening Call.process (.furnished Sample.newYear [Sample.room])).Takes premature
          robbed.uid i ∧
        ((Scene.opening Call.process (.furnished Sample.newYear [Sample.room])).run
          premature).jobs[i]? = some (c, .finished (.error (.stale robbed.id .pending)))) :=
  agrees_iff_not_taken Sample.newYear [Sample.room] premature (by decide +kernel)
    (by decide +kernel) (by decide +kernel) robbed (by decide +kernel)

/-- Nothing else goes wrong in this run, and yet the booking stays confirmed without a lock. -/
theorem confirmed_without_lock :
    (∀ e ∈ premature, e.Calm) ∧
      ((Scene.opening Call.process (.furnished Sample.newYear [Sample.room])).run premature).Quiet ∧
      robbed ∈ ((Scene.opening Call.process (.furnished Sample.newYear [Sample.room])).run
        premature).world.ledger.bookings ∧
      ¬ ((Scene.opening Call.process (.furnished Sample.newYear [Sample.room])).run
        premature).world.Agrees robbed := by
  decide +kernel

end Desk

end Lodging
