import Lodging.Proofs.Desk.Cancelled
import Lodging.Proofs.Desk.Leftover
import Lodging.Proofs.Desk.Pages

/-!
Bookings whose orders were given up. Wherever that happened, the booking is there and its owner can
cancel it, which takes its lock away, if there is one. The only lock that stays is one that was
placed for a booking that had been cancelled before: as any cancelled booking, it is left alone.
-/

namespace Lodging

/-- The owner of a booking gets to see it, alone and on a page of the list. -/
def World.Displays (w : World) (b : Booking) : Prop :=
  ∃ c, b.Same c ∧ ((Desk.get b.id b.user).run.advance w).1 = .inl (.ok c.summary) ∧
    ∀ size, ∃ k page, ((Desk.list b.user (.make k size)).run.advance w).1 = .inl (.ok page) ∧
      c.summary ∈ page.content

theorem World.displays_of_mem {w : World} {b c : Booking} (hplans : w.ledgerPlans = [])
    (hids : w.ledger.Distinct) (hc : c ∈ w.ledger.bookings) (hsame : b.Same c) : w.Displays b := by
  have huser : c.user = b.user := by rw [hsame]
  refine ⟨c, hsame, ?_, fun size => ?_⟩
  · rw [← hsame.id_eq, ← huser]
    exact Desk.advance_get_of_mem hplans hids hc
  · obtain ⟨k, hk⟩ := Page.exists_mem_ofList (Ledger.mem_bookingsOf.mpr ⟨hc, huser⟩) size
    exact ⟨k, _, Desk.advance_list_of_plain hplans b.user _, List.mem_map_of_mem hk⟩

namespace Scene

variable {κ α : Type} {code : κ → Process α} {s : Scene code} {i : ℕ} {c : κ} {j : Job α}

/-- Only calls under way change the world. -/
theorem underWay_of_advance (h : (s.step (.advance i)).world ≠ s.world) :
    ∃ c j, s.jobs[i]? = some (c, j) ∧ j.underWay = true := by
  cases hj : s.jobs[i]? with
  | none => simp only [step, update, hj, ne_eq, not_true_eq_false] at h
  | some x =>
    obtain ⟨c, j⟩ := x
    refine ⟨c, j, rfl, ?_⟩
    simp only [step, update, hj] at h
    cases j with
    | running p held => rfl
    | waiting t next held => rfl
    | finished a => exact absurd rfl h
    | dropped => exact absurd rfl h

theorem over_of_drop (h : s.jobs[i]? = some (c, j)) :
    ∃ j', (s.step (.drop i)).jobs[i]? = some (c, j') ∧ j'.underWay = false := by
  have hlt := (List.getElem?_eq_some_iff.mp h).1
  refine ⟨(j.drop s.world).1, ?_, by cases j <;> rfl⟩
  simp only [step, update, h]
  exact List.getElem?_set_self hlt

/-- Calls of a kind of which none is under way and none begins stay over. -/
theorem over_of_none {P : κ → Prop} {es : List (Event κ)}
    (hover : ∀ x ∈ s.jobs, P x.1 → x.2.underWay = false) (hnone : ∀ c, .start c ∈ es → ¬ P c) :
    ∀ x ∈ (s.run es).jobs, P x.1 → x.2.underWay = false := by
  rintro ⟨c, j⟩ hx hP
  obtain ⟨i, hi⟩ := List.getElem?_of_mem hx
  by_cases hlt : i < s.jobs.length
  · have hj := List.getElem?_eq_getElem hlt
    obtain ⟨j', hj'⟩ := exists_job_run hj es
    obtain ⟨rfl, rfl⟩ := Prod.mk.inj (Option.some.inj (hi.symm.trans hj'))
    have hdown := hover _ (List.getElem_mem hlt) hP
    have hkept := over_run hj hdown es
    rw [hi] at hkept
    obtain ⟨-, rfl⟩ := Prod.mk.inj (Option.some.inj hkept)
    exact hdown
  · have hcall : ((s.run es).jobs.map Prod.fst)[i]? = some c := by
      rw [List.getElem?_map, hi]
      rfl
    rw [calls_run, List.getElem?_append_right (by simpa using hlt)] at hcall
    obtain ⟨e, he, hbegun⟩ := List.mem_filterMap.mp (List.mem_of_getElem? hcall)
    cases e with
    | start d =>
      obtain rfl := Option.some.inj hbegun
      exact absurd hP (hnone d he)
    | _ => cases hbegun

end Scene

namespace Desk

variable {st st' : Stage Call Point} {s : Scene Call.process} {b c d : Booking} {i : ℕ}

theorem exists_row_next {ev : Event Call} (ha : Accounts st) (hn : script.Next Call.first ev st st')
    (hb : b ∈ st.stock.ledger.bookings) : ∃ c ∈ st'.stock.ledger.bookings, b.Same c := by
  cases hn with
  | move hi hm => exact hm.rows ha.ledger hb
  | turn t => cases t <;> exact ⟨b, hb, .refl b⟩
  | _ => exact ⟨b, hb, .refl b⟩

/-- Bookings are there for good, and those that are cancelled stay so. -/
theorem exists_row_run (ht : script.Tells Call.Ends s st) (ha : Accounts st)
    (hb : b ∈ s.world.ledger.bookings) {fs : List (Event Call)}
    (hdistinct : Distinct ((s.run fs).jobs.map Prod.fst)) :
    ∃ c, (s.run fs).world.ledger.booking? b.id = some c ∧ b.Same c ∧
      (b.status = .cancelled → c = b) := by
  obtain ⟨st, ht, ha, ⟨c, hc, hsame⟩, hkept⟩ := accounts_run
    (P := fun _ st => (∃ c ∈ st.stock.ledger.bookings, b.Same c) ∧
      (b.status = .cancelled → st.stock.ledger.booking? b.id = some b)) ht ha
    ⟨⟨b, ht.ledger ▸ hb, .refl b⟩, fun _ => ha.ledger.booking?_of_mem (ht.ledger ▸ hb)⟩
    (fun es e st st' ht ha ha' _ hn ht' ⟨⟨c, hc, hsame⟩, hkept⟩ => by
      obtain ⟨d, hd, hsame'⟩ := exists_row_next ha hn hc
      exact ⟨⟨d, hd, hsame.trans hsame'⟩, fun hs => ha.cancelled_next hn (hkept hs) hs⟩)
    fs hdistinct
  have hrow := ha.ledger.booking?_of_mem hc
  rw [hsame.id_eq] at hrow
  rw [ht.ledger]
  exact ⟨c, hrow, hsame, fun hs => Option.some.inj (hrow.symm.trans (hkept hs))⟩

/-- A mark is set while the order that sets it is under way, so before no such order was. -/
theorem Marked.of_append {es fs : List (Event Call)} {id : BookingId}
    (h : Marked s (es ++ fs) id)
    (hover : ∀ x ∈ (s.run es).jobs, x.1.target? = some id → x.2.underWay = false)
    (hnone : ∀ c, .start c ∈ fs → c.target? ≠ some id) : Marked s es id := by
  obtain ⟨k, c, j, hj, htarget, before, after, hsplit, hno, hyes⟩ := h
  rw [Scene.run_concat] at hyes
  obtain ⟨d, l, hl, hup⟩ : ∃ d l, (s.run before).jobs[k]? = some (d, l) ∧ l.underWay = true := by
    refine Scene.underWay_of_advance fun hsame => hno ?_
    rwa [← hsame]
  obtain ⟨l', hl'⟩ := Scene.exists_job_run hl (.advance k :: after)
  rw [← Scene.run_append, ← hsplit, hj] at hl'
  obtain ⟨rfl, -⟩ := Prod.mk.inj (Option.some.inj hl')
  rcases List.append_eq_append_iff.mp hsplit with ⟨mid, rfl, hmid⟩ | ⟨mid, rfl, hmid⟩
  · -- then it would have been under way after the first events
    rw [Scene.run_append] at hl
    have hmem := List.mem_of_getElem? hl
    have hnone' : ∀ d, .start d ∈ mid → d.target? ≠ some id :=
      fun d hd => hnone d (hmid ▸ List.mem_append_left _ hd)
    rw [Scene.over_of_none (P := fun d => d.target? = some id) hover hnone' _ hmem htarget] at hup
    cases hup
  · cases mid with
    | nil =>
      rw [List.append_nil] at hover
      rw [hover _ (List.mem_of_getElem? hl) htarget] at hup
      cases hup
    | cons e mid =>
      obtain ⟨rfl, -⟩ := List.cons.inj hmid
      obtain ⟨l', hl'⟩ := Scene.exists_job_run hl (.advance k :: mid)
      rw [← Scene.run_append] at hl'
      rw [← Scene.run_concat] at hyes
      exact ⟨k, c, l', hl', htarget, before, mid, rfl, hno, hyes⟩

/-- What was marked is cancelled. -/
theorem Marked.exists_row {now : Instant} {rooms : List NewRoom} {es : List (Event Call)}
    {id : BookingId} (h : Marked (Scene.opening Call.process (.furnished now rooms)) es id)
    (hdistinct : Distinct (((Scene.opening Call.process (.furnished now rooms)).run es).jobs.map
      Prod.fst)) : ∃ c, ((Scene.opening Call.process (.furnished now
        rooms)).run es).world.ledger.booking? id = some c ∧ c.status = .cancelled := by
  obtain ⟨k, c, j, -, -, before, after, hsplit, -, b, hb, rfl, hs⟩ := h
  rw [← List.singleton_append, ← List.append_assoc] at hsplit
  subst hsplit
  obtain ⟨st, ht, ha⟩ := exists_accounts now rooms _ (distinct_of_run hdistinct)
  rw [Scene.run_append] at hdistinct ⊢
  obtain ⟨d, hd, -, hkept⟩ := exists_row_run ht ha hb hdistinct
  obtain rfl := hkept hs
  exact ⟨d, hd, hs⟩

/-- What the owner can foresee of a booking that is cancelled already. -/
theorem foreseen_of_cancelled (ht : script.Tells Call.Ends s st) (ha : Accounts st)
    (hb : b.status ≠ .cancelled) (hrow : s.world.ledger.booking? b.id = some b.asCancelled)
    {fs : List (Event Call)} (hdistinct : Distinct ((s.run fs).jobs.map Prod.fst)) :
    Foreseen s fs b := by
  obtain ⟨st, -, -, -, h⟩ := accounts_run
    (P := fun fs _ => (s.run fs).world.ledger.booking? b.id = some b.asCancelled ∧ Foreseen s fs b)
    ht ha ⟨hrow, foreseen_nil⟩
    (fun es e st st' ht ha ha' _ hn ht' ⟨hrow, h⟩ => by
      have hrow' : (s.run (es ++ [e])).world.ledger.booking? b.id = some b.asCancelled := by
        rw [ht'.ledger]
        exact ha.cancelled_next (c := b.asCancelled) hn (ht.ledger ▸ hrow) rfl
      exact ⟨hrow', h.concat hb ha ht hn ht' (.inr hrow')⟩) fs hdistinct
  exact h

/-- What the owner can foresee of a booking that nobody makes any more, and that has no lock if it
is cancelled. -/
theorem foreseen_of_closing (ht : script.Tells Call.Ends s st) (ha : Accounts st)
    (hc : Closing b st) (hb : b.status ≠ .cancelled) {fs : List (Event Call)}
    (hdistinct : Distinct ((s.run fs).jobs.map Prod.fst))
    (hspared : ∀ f, .turn (.failRelease (some f)) ∉ fs) :
    Foreseen s fs b ∧ (Returned s fs b → ¬ (s.run fs).world.inventory.HasLock b.uid) := by
  obtain ⟨st, ht, ha, hc, h⟩ := closing_run (P := fun fs => Foreseen s fs b) ht ha hc hb
    foreseen_nil
    (fun es e st st' ht ha hc hn ht' hc' h => by
      refine h.concat hb ha ht hn ht' ?_
      rw [ht'.ledger]
      exact hc'.row.imp_right And.left) fs hdistinct hspared
  exact ⟨h, h.unlocked ht hc hb⟩

/-- An order has written a booking down, and no order to cancel the booking is under way. -/
structure WrittenBy (s : Scene Call.process) (i : ℕ) (b : Booking) : Prop where
  maker : s.jobs[i]?.bind (·.1.uid?) = some b.uid
  found : b ∈ s.world.ledger.bookings
  alone : ∀ x ∈ s.jobs, x.1.target? = some b.id → x.2.underWay = false

/-- Once the order is given up, it is over, -/
theorem WrittenBy.maker_over (h : WrittenBy s i b) {fs : List (Event Call)}
    (hdistinct : Distinct ((s.run (.drop i :: fs)).jobs.map Prod.fst)) :
    ∀ x ∈ (s.run (.drop i :: fs)).jobs, x.1.uid? = some b.uid → x.2.underWay = false := by
  rintro x hx hu
  obtain ⟨⟨c, j⟩, hj, hc⟩ := Option.bind_eq_some_iff.mp h.maker
  obtain ⟨j', hj', hdown⟩ := Scene.over_of_drop hj
  have hi : (s.run (.drop i :: fs)).jobs[i]? = some (c, j') := Scene.over_run hj' hdown fs
  obtain ⟨k, hk⟩ := List.getElem?_of_mem hx
  have hcall : ∀ {k : ℕ} {y : Call × Job _}, (s.run (.drop i :: fs)).jobs[k]? = some y →
      ((s.run (.drop i :: fs)).jobs.map Prod.fst)[k]? = some y.1 := by
    intro k y hy
    rw [List.getElem?_map, hy]
    rfl
  obtain rfl := hdistinct.index_eq (hcall hk) (hcall hi) hu hc
  obtain rfl := Option.some.inj (hk.symm.trans hi)
  exact hdown

/-- and so are the orders to cancel the booking, as long as none begins. -/
theorem WrittenBy.others_over (h : WrittenBy s i b) {fs : List (Event Call)}
    (hnone : ∀ c, .start c ∈ fs → c.target? ≠ some b.id) :
    ∀ x ∈ (s.run (.drop i :: fs)).jobs, x.1.target? = some b.id → x.2.underWay = false := by
  refine Scene.over_of_none (P := fun c : Call => c.target? = some b.id) h.alone fun c hc => ?_
  rcases List.mem_cons.mp hc with hc | hc
  · cases hc
  · exact hnone c hc

/-- What has a lock then although it is cancelled was marked before the order was given up. -/
theorem WrittenBy.marked {now : Instant} {rooms : List NewRoom} {es fs : List (Event Call)}
    (h : WrittenBy ((Scene.opening Call.process (.furnished now rooms)).run es) i b)
    (hnone : ∀ c, .start c ∈ fs → c.target? ≠ some b.id)
    (hdistinct : Distinct (((Scene.opening Call.process (.furnished now rooms)).run
      (es ++ .drop i :: fs)).jobs.map Prod.fst))
    (hc : ((Scene.opening Call.process (.furnished now rooms)).run
      (es ++ .drop i :: fs)).world.ledger.booking? b.id = some c) (hsame : b.Same c)
    (hs : c.status = .cancelled)
    (hl : ((Scene.opening Call.process (.furnished now rooms)).run
      (es ++ .drop i :: fs)).world.inventory.HasLock b.uid) :
    Marked (Scene.opening Call.process (.furnished now rooms)) es b.id := by
  have hmark := marked_of_hasLock now rooms (es ++ .drop i :: fs) hdistinct
    (Ledger.booking?_eq_some hc).1 hs (hsame.uid_eq ▸ hl)
  rw [hsame.id_eq] at hmark
  refine hmark.of_append h.alone fun d hd => ?_
  rcases List.mem_cons.mp hd with hd | hd
  · cases hd
  · exact hnone d hd

/-- The booking as it was, or as cancelled, is closing when nobody works on it. -/
theorem closing_of_over (ht : script.Tells Call.Ends s st) (ha : Accounts st)
    (hhoused : st.stock.inventory.Housed) (hplanned : s.world.releaseFailure = none)
    (hmade : ∀ x ∈ s.jobs, x.1.uid? = some b.uid → x.2.underWay = false)
    (halone : ∀ x ∈ s.jobs, x.1.target? = some b.id → x.2.underWay = false)
    (hrow : s.world.ledger.booking? b.id = some b ∨
      s.world.ledger.booking? b.id = some b.asCancelled ∧ ¬ s.world.inventory.HasLock b.uid) :
    Closing b st := by
  rw [ht.ledger, ht.inventory] at hrow
  refine ⟨?_, hhoused, fun i c => unmade_of_over ht ha hmade,
    fun i c e hp hid => absurd hid (unread_of_over ht ha halone hp),
    fun i e ok hp => absurd rfl (unread_of_over ht ha halone hp), hrow⟩
  rw [ht.stock]
  exact hplanned

/-- So the owner can foresee what comes of orders to cancel the booking, as it may have been. -/
theorem exists_foreseen (ht : script.Tells Call.Ends s st) (ha : Accounts st)
    (hhoused : st.stock.inventory.Housed) (hplanned : s.world.releaseFailure = none)
    (hmade : ∀ x ∈ s.jobs, x.1.uid? = some b.uid → x.2.underWay = false)
    (halone : ∀ x ∈ s.jobs, x.1.target? = some b.id → x.2.underWay = false)
    (hfound : s.world.ledger.booking? b.id = some c) (hsame : b.Same c) {marked : Prop}
    (hmarked : c.status = .cancelled → s.world.inventory.HasLock b.uid → marked)
    {fs : List (Event Call)} (hdistinct : Distinct ((s.run fs).jobs.map Prod.fst))
    (hspared : ∀ f, .turn (.failRelease (some f)) ∉ fs) :
    ∃ status, Foreseen s fs { b with status := status } ∧
      (Returned s fs b → ¬ marked → ¬ (s.run fs).world.inventory.HasLock b.uid) := by
  have hclosing : ∀ status : Status, status ≠ .cancelled →
      (s.world.ledger.booking? b.id = some { b with status := status } ∨
        s.world.ledger.booking? b.id = some b.asCancelled ∧
          ¬ s.world.inventory.HasLock b.uid) →
      Foreseen s fs { b with status := status } ∧
        (Returned s fs b → ¬ (s.run fs).world.inventory.HasLock b.uid) :=
    fun status hstatus hrow => foreseen_of_closing (b := { b with status := status }) ht ha
      (closing_of_over ht ha hhoused hplanned hmade halone hrow) hstatus hdistinct hspared
  by_cases hs : c.status = .cancelled
  · have hrow : s.world.ledger.booking? b.id = some b.asCancelled := by
      rw [hfound, hsame, hs]
      rfl
    -- cancelled and still locked: it was marked, and its room was not released
    by_cases hl : s.world.inventory.HasLock b.uid
    · exact ⟨.pending, foreseen_of_cancelled (b := { b with status := .pending }) ht ha nofun hrow
        hdistinct, fun _ hno => absurd (hmarked hs hl) hno⟩
    · obtain ⟨h, hgone⟩ := hclosing .pending nofun (.inr ⟨hrow, hl⟩)
      exact ⟨_, h, fun hreturned _ => hgone hreturned⟩
  · obtain ⟨h, hgone⟩ := hclosing c.status hs (.inl (hsame ▸ hfound))
    exact ⟨_, h, fun hreturned _ => hgone hreturned⟩

/-- The owner of a booking sees it for good. -/
theorem displays_run {now : Instant} {rooms : List NewRoom} {es fs : List (Event Call)}
    (hs : (Scene.opening Call.process (.furnished now rooms)).run es = s)
    (hb : b ∈ s.world.ledger.bookings) (hdistinct : Distinct ((s.run fs).jobs.map Prod.fst)) :
    (s.run fs).world.Displays b := by
  subst hs
  rw [← Scene.run_append] at hdistinct ⊢
  obtain ⟨st, ht, ha⟩ := exists_accounts now rooms es (distinct_of_run hdistinct)
  obtain ⟨st', ht', ha'⟩ := exists_accounts now rooms (es ++ fs) hdistinct
  rw [Scene.run_append] at hdistinct
  obtain ⟨c, hc, hsame, -⟩ := exists_row_run ht ha hb hdistinct
  rw [← Scene.run_append] at hc
  exact World.displays_of_mem ht'.undisturbed.2 (ht'.ledger ▸ ha'.ledger.ids)
    (Ledger.booking?_eq_some hc).1 hsame

/-- In a run of a house with so many rooms, the owner can have a booking cancelled, and its room
released unless the booking was marked before. -/
structure Recovered (rooms : ℕ) (s : Scene Call.process) (b : Booking) (marked : Prop)
    (fs : List (Event Call)) : Prop where
  /-- The owner is shown the cancelled booking, -/
  answers : ∀ i x, Cancels s fs b i (.finished x) → x = .ok b.asCancelled.summary
  /-- and gets an answer unless the order is given up, -/
  answered : (∀ k, (s.run fs).strider? (.advance k) = none) →
    ∀ i j, Cancels s fs b i j → j.givenUp = true ∨ ∃ x, j = .finished x
  /-- for all calls together make so many strides at most. -/
  bounded : (s.strides fs).length ≤
    ((s.run fs).jobs.map fun x => Traffic.Call.span rooms (.desk x.1)).sum
  /-- With an answer, the booking is cancelled, -/
  cancelled : Returned s fs b → (s.run fs).world.ledger.booking? b.id = some b.asCancelled
  /-- and it has no lock if it was not marked before. -/
  unlocked : Returned s fs b → ¬ marked → ¬ (s.run fs).world.inventory.HasLock b.uid
  /-- If it was, it is cancelled already, -/
  marked : marked → s.world.ledger.booking? b.id = some b.asCancelled
  /-- and whoever orders a cancelled booking cancelled only looks at it. -/
  late : s.world.ledger.booking? b.id = some b.asCancelled → ∀ i p user r j,
    s.jobs.length ≤ i → (s.run fs).jobs[i]? = some (.cancel p b.id user r, j) →
    (∀ d, (i, d) ∈ s.journal fs → ∃ a, d = .did (.ledger (.get b.id)) a) ∧
      ∀ before after, fs = before ++ .advance i :: after →
        (s.run (before ++ [.advance i])).world = (s.run before).world

/-- Wherever an order for a new booking is given up once it has written the booking down, and
whatever goes wrong with its attempts to lock the room, its owner sees the booking from then on, and
can cancel it. If no release is planned to fail, every order by the owner to cancel it is answered
with the cancelled booking, and the booking has no lock any more, wherever the order for it was
given up. There is one exception. An order to cancel the booking that was over by then may have
marked it before its room was locked. As any order to cancel a cancelled booking, those of the owner
are answered with the cancelled booking then, and change nothing. -/
theorem abandoned_booking_recovered (now : Instant) (rooms : List NewRoom)
    (es fs gs : List (Event Call)) (i : ℕ) (b : Booking) :
    let opening := Scene.opening Call.process (.furnished now rooms)
    let s := opening.run es
    let t := s.run (.drop i :: fs)
    WrittenBy s i b → (∀ c, .start c ∈ fs → c.target? ≠ some b.id) →
      t.world.releaseFailure = none → (∀ f, .turn (.failRelease (some f)) ∉ gs) →
      Distinct ((t.run gs).jobs.map Prod.fst) →
      (∀ hs, hs <+: fs ++ gs → (s.run (.drop i :: hs)).world.Displays b) ∧
        Recovered rooms.length t b (Marked opening es b.id) gs := by
  intro opening s t hwritten hnone hplanned hspared hdistinct
  have hall : t.run gs = s.run (.drop i :: (fs ++ gs)) := by
    rw [← List.cons_append, Scene.run_append]
  have hbefore : Distinct (t.jobs.map Prod.fst) := by
    rw [hall, ← List.cons_append] at hdistinct
    exact distinct_of_run hdistinct
  refine ⟨fun hs hprefix => ?_, ?_⟩
  · obtain ⟨rest, hrest⟩ := hprefix
    rw [hall, ← hrest, ← List.cons_append] at hdistinct
    exact displays_run rfl hwritten.found (distinct_of_run hdistinct)
  have hrun : opening.run (es ++ .drop i :: fs) = t := Scene.run_append ..
  have hstart : Distinct (s.jobs.map Prod.fst) := distinct_of_run (hrun ▸ hbefore)
  obtain ⟨st₀, ht₀, ha₀⟩ : ∃ st, script.Tells Call.Ends s st ∧ Accounts st :=
    exists_accounts now rooms es hstart
  obtain ⟨c, hc, hsame, -⟩ : ∃ c, t.world.ledger.booking? b.id = some c ∧ b.Same c ∧
      (b.status = .cancelled → c = b) := exists_row_run ht₀ ha₀ hwritten.found hbefore
  have hmarked : c.status = .cancelled → t.world.inventory.HasLock b.uid →
      Marked opening es b.id := by
    rw [← hrun] at hbefore hc ⊢
    exact hwritten.marked hnone hbefore hc hsame
  -- nobody works on the booking any more, so it can be foreseen what becomes of it
  obtain ⟨st, ht, ha, hhoused⟩ := exists_housed now rooms (es ++ .drop i :: fs) (hrun ▸ hbefore)
  rw [hrun] at ht
  obtain ⟨status, hforeseen, hunlocked⟩ := exists_foreseen ht ha hhoused hplanned
    (hwritten.maker_over hbefore) (hwritten.others_over hnone) hc hsame hmarked hdistinct hspared
  obtain ⟨st', ht', -⟩ := accounts_run (P := fun _ _ => True) ht ha trivial
    (fun _ _ _ _ _ _ _ _ _ _ _ => trivial) gs hdistinct
  obtain ⟨hanswered, hbounded⟩ := comes_to_rest (b := b) hrun ht'
  refine ⟨fun k x hx => (hforeseen.answer hx).1, hanswered, hbounded, ?_, hunlocked, ?_, ?_⟩
  · rintro ⟨k, x, hx⟩
    exact (hforeseen.answer hx).2
  · intro hmark
    obtain ⟨d, hd, hs⟩ := hmark.exists_row hstart
    obtain ⟨hmem, hid⟩ := Ledger.booking?_eq_some hd
    obtain ⟨d', hd', -, hkept⟩ := exists_row_run ht₀ ha₀ hmem hbefore
    obtain rfl := hkept hs
    obtain rfl := Option.some.inj (hc.symm.trans (hid ▸ hd'))
    rw [hc, hsame, hs]
    rfl
  · intro hrow k p user r j hk hj
    have hhere : script.Tells Call.Ends (t.run []) st := ht
    exact untouched hhere ha hrow hdistinct hk hj

/-- The booking of a guest as it is written down. -/
def lockedOne : Booking :=
  ⟨⟨1⟩, Sample.uid 1, ⟨1⟩, ⟨1⟩, Sample.twoNights, .pending, Sample.newYear⟩

/-- The order for it has locked the room, and has not confirmed it yet. -/
def locked : List (Event Call) := .start (Sample.booking 1) :: List.replicate 12 (.advance 0)

/-- The guest has the booking cancelled. -/
def recovery : List (Event Call) :=
  .start (Sample.cancellation 1) :: List.replicate 20 (.advance 1)

theorem abandoned_booking_recovered_of_locked :
    let opening := Scene.opening Call.process (.furnished Sample.newYear [Sample.room])
    let t := (opening.run locked).run [.drop 0]
    (t.world.Displays lockedOne ∧
      Recovered 1 t lockedOne (Marked opening locked lockedOne.id) recovery) ∧
      t.world.inventory.HasLock (Sample.uid 1) ∧
      (t.run recovery).jobs[1]?.bind (·.2.answer?) = some (.ok lockedOne.asCancelled.summary) ∧
      ¬ (t.run recovery).world.inventory.HasLock (Sample.uid 1) := by
  have hwritten : WrittenBy ((Scene.opening Call.process (.furnished Sample.newYear
      [Sample.room])).run locked) 0 lockedOne :=
    ⟨by decide +kernel, by decide +kernel, by decide +kernel⟩
  have hcalm : ∀ e ∈ recovery, e.Calm := by decide
  obtain ⟨hdisplays, hrecovered⟩ := abandoned_booking_recovered Sample.newYear [Sample.room] locked
    [] recovery 0 lockedOne hwritten (fun c hc => absurd hc List.not_mem_nil) (by decide +kernel)
    (fun f hf => hcalm _ hf) (by decide +kernel)
  exact ⟨⟨hdisplays [] List.nil_prefix, hrecovered⟩, by decide +kernel, by decide +kernel,
    by decide +kernel⟩

/-- Before the room is locked the guest has the booking cancelled. The order goes on, and locks the
room before it can find that the booking is cancelled. -/
def lockedLate : List (Event Call) :=
  [.start (Sample.booking 1), .start (Sample.cancellation 1)] ++ List.replicate 4 (.advance 0) ++
    List.replicate 14 (.advance 1) ++ List.replicate 9 (.advance 0)

/-- The guest has the booking cancelled once more. -/
def lateRecovery : List (Event Call) :=
  .start (Sample.cancellation 1) :: List.replicate 3 (.advance 2)

/-- If the order is given up there, the lock stays, although nothing else goes wrong. -/
theorem abandoned_booking_keeps_lock :
    let s := (Scene.opening Call.process (.furnished Sample.newYear [Sample.room])).run lockedLate
    let t := s.run [.drop 0]
    WrittenBy s 0 lockedOne.asCancelled ∧ s.jobs[0]?.map (·.2.underWay) = some true ∧
      (∀ e ∈ lockedLate ++ lateRecovery, e.Calm) ∧
      (t.run lateRecovery).jobs[2]?.bind (·.2.answer?) =
        some (.ok lockedOne.asCancelled.summary) ∧
      (t.run lateRecovery).world.inventory.HasLock (Sample.uid 1) :=
  ⟨⟨by decide +kernel, by decide +kernel, by decide +kernel⟩, by decide +kernel,
    by decide +kernel, by decide +kernel, by decide +kernel⟩

end Desk

end Lodging
