import Lodging.Proofs.Desk.Books
import Mathlib.Algebra.BigOperators.Intervals

/-!
The reckoning of the desk. Whatever orders there are, however they come between one another and
whatever goes wrong, once all of them have come to their ends the counts of the desk agree with one
another and with the ledger. Every order for a new booking is counted when it starts, every booking
that was written down has been confirmed or undone, and the time of each was taken.
-/

namespace Lodging

/-- What a deed counts. -/
def Deed.meter? : Deed → Option Meter
  | did (.meter m) _ => some m
  | _ => none

namespace World

variable {w : World}

theorem events_perform (w : World) (x : Action) :
    (w.perform x).2.events = (Deed.did x (w.perform x).1).meter?.toList ++ w.events := by
  cases x with
  | rooms c =>
    change (w.callRooms c).2.events = w.events
    unfold callRooms
    cases c.kind? with
    | none => rfl
    | some kind =>
      simp only
      split <;> rfl
  | ledger c =>
    change (w.callLedger c).2.events = w.events
    unfold callLedger
    split <;> rfl
  | _ => rfl

/-- Rows come when bookings are written down, and never go. -/
theorem length_perform (w : World) (x : Action) :
    (w.perform x).2.ledger.bookings.length =
      w.ledger.bookings.length + (Deed.did x (w.perform x).1).made?.toList.length := by
  have hupdate : ∀ (l : Ledger) id expected next,
      (l.updateStatus id expected next).2.bookings.length = l.bookings.length := by
    intro l id expected next
    unfold Ledger.updateStatus
    split
    · split
      · exact List.length_map ..
      · rfl
    · rfl
  cases x with
  | ledger c =>
    change (w.callLedger c).2.ledger.bookings.length =
      _ + (Deed.did (.ledger c) (w.callLedger c).1).made?.toList.length
    rcases w.callLedger_cases c with ⟨ha, hl⟩ | ⟨p, -, ha, hl⟩ <;> rw [ha, hl]
    · cases c with
      | accept r =>
        simp only [Ledger.answer, Ledger.accept]
        split <;> rfl
      | insertPending n => exact List.length_append
      | updateStatus id expected next => exact hupdate w.ledger id expected next
      | get id => rfl
      | pageOf user p => rfl
    · cases c with
      | updateStatus id expected next =>
        cases p.mishap with
        | overtaken s =>
          -- whoever was faster has moved the booking as well
          exact (hupdate ..).trans (hupdate w.ledger id expected s)
        | _ => rfl
      | _ => rfl
  | rooms c => exact congrArg (·.bookings.length) (perform_offLedger (x := .rooms c) trivial).1
  | _ => rfl

end World

namespace Scene

variable {κ α : Type} {code : κ → Process α}

theorem events_step (s : Scene code) (e : Event κ) :
    (s.step e).world.events = (s.deeds e).filterMap (·.2.meter?) ++ s.world.events := by
  cases e with
  | start c => rfl
  | turn t => cases t <;> rfl
  | drop i =>
    simp only [step, update]
    split
    next c j hj => cases j <;> rfl
    next => rfl
  | advance i =>
    cases hj : s.jobs[i]? with
    | none =>
      simp only [step, update, deeds, hj]
      rfl
    | some y =>
      obtain ⟨c, j⟩ := y
      simp only [step, update, hj]
      rw [deeds_advance hj]
      cases j with
      | running p held =>
        cases p with
        | done a => rfl
        | act x next =>
          change (s.world.perform x).2.events = _
          rw [World.events_perform]
          cases h : (Deed.did x (s.world.perform x).1).meter? <;> simp [Job.deed?, h]
        | enter room next => rfl
      | waiting t next held =>
        simp only [Job.advance]
        split <;> rfl
      | finished a => rfl
      | dropped => rfl

/-- What is counted is what the journal tells. -/
theorem count_events_run (s : Scene code) (es : List (Event κ)) (m : Meter) :
    (s.run es).world.events.count m =
      s.world.events.count m + ((s.journal es).filterMap (·.2.meter?)).count m := by
  induction es using List.reverseRecOn with
  | nil => rfl
  | append_singleton es e ih =>
    rw [run_concat, journal_concat, events_step, List.filterMap_append, List.count_append,
      List.count_append, ih]
    omega

theorem length_bookings_run (s : Scene code) (es : List (Event κ)) :
    (s.run es).world.ledger.bookings.length =
      s.world.ledger.bookings.length + (entries (s.journal es)).length := by
  induction es using List.reverseRecOn with
  | nil => rfl
  | append_singleton es e ih =>
    have hsplit : entries (s.journal es ++ (s.run es).deeds e) =
        entries (s.journal es) ++ entries ((s.run es).deeds e) := List.filterMap_append
    rw [run_concat, journal_concat, hsplit, List.length_append]
    rcases (s.run es).step_cases e with ⟨i, x, hd, hw⟩ | ⟨hd, hw⟩
    · have hone : ∀ d, entries [(i, d)] = d.made?.toList := Deed.filterMap_singleton Deed.made? i
      rw [hw, hd, World.length_perform, ih, hone, Nat.add_assoc]
    · have hnone : entries ((s.run es).deeds e) = [] :=
        Deed.filterMap_of_linedUp Deed.made? (fun _ _ => rfl) hd
      rw [hw.ledger, hnone, ih]
      rfl

end Scene

namespace Desk

open Deed (postings)

/-- The books of a journal. -/
def books (ds : List (ℕ × Deed)) : List Posting := postings (ds.map Prod.snd)

/-- They are those of all who did something. -/
theorem countP_books {n : ℕ} {ds : List (ℕ × Deed)} (h : ∀ x ∈ ds, x.1 < n) (P : Posting → Bool) :
    (books ds).countP P = ∑ i ∈ Finset.range n, (postings (Deed.doneBy i ds)).countP P := by
  -- each deed is in the books of the one who did it, and of nobody else
  induction ds with
  | nil => exact (Finset.sum_const_zero).symm
  | cons x rest ih =>
    have hbooks : books (x :: rest) = postings [x.2] ++ books rest :=
      Deed.postings_append [x.2] (rest.map Prod.snd)
    have hdone : ∀ i, (postings (Deed.doneBy i (x :: rest))).countP P =
        (if i = x.1 then (postings [x.2]).countP P else 0) +
          (postings (Deed.doneBy i rest)).countP P := by
      intro i
      rw [← List.singleton_append, Deed.doneBy_append, Deed.postings_append, List.countP_append]
      by_cases hi : i = x.1
      · subst hi
        simp [Deed.doneBy]
      · simp [Deed.doneBy, Ne.symm hi, hi, postings]
    simp only [hdone]
    rw [Finset.sum_add_distrib, ← ih fun y hy => h y (List.mem_cons_of_mem _ hy), hbooks,
      List.countP_append, Finset.sum_ite_eq',
      if_pos (Finset.mem_range.mpr (h x List.mem_cons_self))]

theorem posting?_eq_counted {d : Deed} {m : Meter} :
    d.posting? = some (.counted m) ↔ d.meter? = some m ∧ m.ofDesk = true := by
  unfold Deed.posting?
  split
  next m' a =>
    constructor
    · intro h
      split at h
      next hm =>
        obtain rfl := Posting.counted.inj (Option.some.inj h)
        exact ⟨rfl, hm⟩
      next => cases h
    · rintro ⟨h, hm⟩
      obtain rfl := Option.some.inj h
      rw [if_pos hm]
  all_goals simp [Deed.meter?]

theorem posting?_eq_made {d : Deed} : d.posting? = some .made ↔ d.made?.isSome = true := by
  unfold Deed.posting?
  split
  next => split <;> simp [Deed.made?]
  all_goals simp [Deed.made?]

theorem count_counted {m : Meter} (hm : m.ofDesk = true) (ds : List (ℕ × Deed)) :
    (books ds).count (.counted m) = (ds.filterMap (·.2.meter?)).count m := by
  unfold books postings
  rw [List.count_filterMap, List.count_filterMap, List.countP_map]
  refine List.countP_congr fun x _ => ?_
  simp only [Function.comp_apply, beq_iff_eq, posting?_eq_counted, hm, and_true]

theorem count_made (ds : List (ℕ × Deed)) : (books ds).count .made = (Scene.entries ds).length := by
  unfold books postings Scene.entries
  rw [List.count_filterMap, List.countP_map, List.length_filterMap_eq_countP]
  refine List.countP_congr fun x _ => ?_
  simp only [Function.comp_apply, beq_iff_eq, posting?_eq_made]

/-- An order for a new booking. -/
def Order.creates : Order → Bool
  | .create .. => true
  | .cancel .. => false

/-- An answer that says that a request was accepted before. -/
def repeated {α : Type} : Except BookingFailure α → Bool
  | .error (.duplicate _) => true
  | _ => false

/-- How the books of an order that has come to its end add up. -/
structure Balanced (creates repeated : Bool) (ps : List Posting) : Prop where
  started : ps.count (.counted .bookingStarted) = creates.toNat
  made : ps.count .made = ps.countP Posting.closes
  timed : ps.count (.counted .bookingTimed) = ps.count .made
  confirmed : ps.count (.counted .bookingConfirmed) = ps.count .confirmed
  duplicate : ps.count (.counted .duplicateRequest) = (creates && repeated).toNat

section Balance

variable {ps u : List Posting} {x : Except BookingFailure BookingSummary}

/-- An entry of which the reckoning of new bookings knows nothing. -/
def Apart (p : Posting) : Prop := p.ofUndoing = true ∨ p = .counted .bookingCancelled

theorem count_of_apart (hu : ∀ p ∈ u, Apart p) {p : Posting} (hp : ¬ Apart p) : u.count p = 0 :=
  List.count_eq_zero.mpr fun h => hp (hu p h)

theorem countP_closes_of_apart (hu : ∀ p ∈ u, Apart p) : u.countP Posting.closes = 0 := by
  refine List.countP_eq_zero.mpr fun p hp hc => ?_
  have hapart := hu p hp
  unfold Posting.closes at hc
  split at hc
  · rcases hapart with h | h <;> cases h
  · rcases hapart with h | h <;> cases h
  · cases hc

/-- Where all entries are such, all counts are zero. -/
theorem balanced_of_apart (hu : ∀ p ∈ u, Apart p) (b : Bool) : Balanced false b u where
  started := count_of_apart hu (by simp [Apart, Posting.ofUndoing])
  made := by
    rw [countP_closes_of_apart hu]
    exact count_of_apart hu (by simp [Apart, Posting.ofUndoing])
  timed := by
    rw [count_of_apart hu (p := .made) (by simp [Apart, Posting.ofUndoing])]
    exact count_of_apart hu (by simp [Apart, Posting.ofUndoing])
  confirmed := by
    rw [count_of_apart hu (p := .confirmed) (by simp [Apart, Posting.ofUndoing])]
    exact count_of_apart hu (by simp [Apart, Posting.ofUndoing])
  duplicate := count_of_apart hu (by simp [Apart, Posting.ofUndoing])

theorem repeated_eq_false {α : Type} {x : Except BookingFailure α}
    (h : ∀ f, x = .error f → ¬ Repeated f) : repeated x = false := by
  unfold repeated
  split
  next q => exact absurd ⟨q, rfl⟩ (h _ rfl)
  next => rfl

theorem Entered.balanced (h : Entered ps x) : Balanced true (repeated x) ps := by
  cases h with
  | turnedDown hf =>
    rw [repeated_eq_false fun f h => Except.error.inj h ▸ hf]
    exact ⟨rfl, rfl, rfl, rfl, rfl⟩
  | duplicate q => exact ⟨rfl, rfl, rfl, rfl, rfl⟩
  | made h hx =>
    rw [repeated_eq_false hx]
    cases h with
    | confirmed s => exact ⟨rfl, rfl, rfl, rfl, rfl⟩
    | @undone f u hu =>
      -- what is added while the booking is undone touches none of the counts
      obtain ⟨hstarted, hmade, htimed, hconfirmed, hduplicate⟩ :=
        balanced_of_apart (u := u) (fun p hp => .inl (hu p hp)) false
      constructor <;> simp_all [List.countP_cons, Posting.closes]

/-- A cancellation adds nothing to what is reckoned of new bookings. -/
theorem Withdrawn.balanced (h : Withdrawn ps x) : Balanced false (repeated x) ps := by
  have hquiet : ∀ u : List Posting, (∀ p ∈ u, p = .counted .releaseFailed) →
      ∀ p ∈ u, Apart p := fun u hu p hp => .inl (hu p hp ▸ rfl)
  apply balanced_of_apart
  cases h with
  | failed f hu => exact hquiet _ hu
  | already s => exact nofun
  | cancelled id s hu =>
    refine List.forall_mem_append.mpr ⟨hquiet _ hu, ?_⟩
    simp [Apart, Posting.ofUndoing]
  | late s hu =>
    refine List.forall_mem_append.mpr ⟨hquiet _ hu, ?_⟩
    simp [Apart, Posting.ofUndoing]
  | stale f hu =>
    refine List.forall_mem_append.mpr ⟨hquiet _ hu, ?_⟩
    simp [Apart, Posting.ofUndoing]

end Balance

/-- The sum over all entries of a list of what is one for some of them. -/
theorem sum_any {α : Type} (xs : List α) (P : α → Bool) :
    ∑ i ∈ Finset.range xs.length, (xs[i]?.any P).toNat = xs.countP P := by
  induction xs with
  | nil => rfl
  | cons x rest ih =>
    rw [List.length_cons, Finset.sum_range_succ']
    simp only [List.getElem?_cons_succ, List.getElem?_cons_zero, Option.any_some]
    rw [ih, List.countP_cons]
    cases P x <;> rfl

theorem countP_closes (ps : List Posting) : ps.countP Posting.closes =
    ps.count (.counted .bookingConfirmed) +
      (FailureKind.all.map fun k => ps.count (.counted (.compensation k))).sum := by
  induction ps with
  | nil => rfl
  | cons p rest ih =>
    have hone : [p].countP Posting.closes = [p].count (.counted .bookingConfirmed) +
        (FailureKind.all.map fun k => [p].count (.counted (.compensation k))).sum := by
      match p with
      | .counted (.compensation k) => cases k <;> rfl
      | .counted .bookingStarted | .counted .duplicateRequest | .counted .bookingConfirmed
      | .counted .bookingCancelled | .counted .statusLost | .counted .releaseFailed
      | .counted .bookingTimed | .counted (.lockAttempt _) | .counted .lockReleased
      | .counted (.retry _) | .counted (.exhausted _) | .counted (.answered _)
      | .made | .confirmed | .cancelled _ | .missed => rfl
    rw [← List.singleton_append, List.countP_append, hone, ih]
    simp only [FailureKind.all, List.map_cons, List.map_nil, List.sum_cons, List.sum_nil,
      List.count_append]
    omega

section Runs

variable {w : World} {es : List (Event Order)}

theorem honest_of_run (w : World) (es : List (Event Order)) (i : ℕ) :
    Honest (Deed.doneBy i ((orders w).journal es)) := by
  intro c a hmem f ha hf
  rcases Scene.error_of_mem_journal (Deed.mem_doneBy.mp hmem) ha with rfl | ⟨q, hc, -⟩
  · obtain ⟨q, hq⟩ := hf
    cases hq
  · exact ⟨q, hc⟩

/-- The books of an order that has come to its end are balanced. -/
theorem balanced_of_finished {i : ℕ} {c : Order} {x : Except BookingFailure BookingSummary}
    (h : ((orders w).run es).jobs[i]? = some (c, .finished x)) (haside : c.gateway.Aside) :
    Balanced c.creates (repeated x) (postings (Deed.doneBy i ((orders w).journal es))) := by
  have htold : c.process.Leads (Deed.doneBy i ((orders w).journal es)) (.done x) :=
    Scene.told w es h
  cases c with
  | create o user wish r today uid =>
    exact (entered_of_leads haside (honest_of_run w es i) htold).balanced
  | cancel o id user r => exact (withdrawn_of_leads haside htold).balanced

theorem count_events (hevents : w.events = []) {m : Meter} (hm : m.ofDesk = true) :
    ((orders w).run es).world.events.count m =
      (books ((orders w).journal es)).count (.counted m) := by
  have hrun := (orders w).count_events_run es m
  rw [count_counted hm, hrun]
  change List.count m w.events + _ = _
  rw [hevents, List.count_nil, Nat.zero_add]

theorem length_bookings_eq (w : World) (es : List (Event Order)) :
    ((orders w).run es).world.ledger.bookings.length =
      w.ledger.bookings.length + (books ((orders w).journal es)).count .made := by
  rw [count_made]
  exact (orders w).length_bookings_run es

/-- All orders have come to their ends, none was given up, and no gateway has meddled with the
books. -/
structure Complete (s : Scene Order.process) : Prop where
  quiet : s.Quiet
  kept : ∀ x ∈ s.jobs, x.2.givenUp = false
  aside : ∀ x ∈ s.jobs, x.1.gateway.Aside

theorem Complete.exists_finished {s : Scene Order.process} (h : Complete s) {i : ℕ}
    (hi : i < s.jobs.length) : ∃ c a, s.jobs[i]? = some (c, .finished a) ∧ c.gateway.Aside := by
  have hmem := List.getElem_mem hi
  have hquiet := h.quiet _ hmem
  have hkept := h.kept _ hmem
  have haside := h.aside _ hmem
  rw [List.getElem?_eq_getElem hi]
  generalize s.jobs[i] = x at *
  obtain ⟨c, j⟩ := x
  cases j with
  | finished a => exact ⟨c, a, rfl, haside⟩
  | running p held => cases hquiet
  | waiting t next held => cases hquiet
  | dropped => cases hkept

theorem Complete.exists_balanced (h : Complete ((orders w).run es)) {i : ℕ}
    (hi : i ∈ Finset.range ((orders w).run es).jobs.length) :
    ∃ c a, ((orders w).run es).jobs[i]? = some (c, .finished a) ∧
      Balanced c.creates (repeated a) (postings (Deed.doneBy i ((orders w).journal es))) := by
  obtain ⟨c, a, hj, haside⟩ := h.exists_finished (Finset.mem_range.mp hi)
  exact ⟨c, a, hj, balanced_of_finished hj haside⟩

theorem countP_books_journal (P : Posting → Bool) :
    (books ((orders w).journal es)).countP P =
      ∑ i ∈ Finset.range ((orders w).run es).jobs.length,
        (postings (Deed.doneBy i ((orders w).journal es))).countP P :=
  countP_books (fun _ hx => Scene.lt_of_mem_journal hx) P

/-- What is as much as something else in the books of each is so in the books of all. -/
theorem Complete.countP_eq (h : Complete ((orders w).run es)) {P Q : Posting → Bool}
    (hPQ : ∀ {creates repeated ps}, Balanced creates repeated ps → ps.countP P = ps.countP Q) :
    (books ((orders w).journal es)).countP P = (books ((orders w).journal es)).countP Q := by
  rw [countP_books_journal, countP_books_journal]
  refine Finset.sum_congr rfl fun i hi => ?_
  obtain ⟨c, a, -, hbalanced⟩ := h.exists_balanced hi
  exact hPQ hbalanced

/-- What is there once for some orders is as much as there are such orders. -/
theorem Complete.countP_eq_jobs (h : Complete ((orders w).run es)) {P : Posting → Bool}
    {f : Order × Job (Except BookingFailure BookingSummary) → Bool}
    (hP : ∀ {c a ps}, Balanced c.creates (repeated a) ps →
      ps.countP P = (f (c, .finished a)).toNat) :
    (books ((orders w).journal es)).countP P = ((orders w).run es).jobs.countP f := by
  rw [countP_books_journal, ← sum_any]
  refine Finset.sum_congr rfl fun i hi => ?_
  obtain ⟨c, a, hj, hbalanced⟩ := h.exists_balanced hi
  rw [hj]
  exact hP hbalanced

/-- An order for a new booking that was answered that its request was accepted before. -/
def answeredTwice : Order × Job (Except BookingFailure BookingSummary) → Bool
  | (c, .finished a) => c.creates && repeated a
  | _ => false

/-- The meters of the desk account for every booking. Whatever orders came, however they came
between one another and whatever went wrong, but for orders that were given up: once all have come
to their ends, as many were counted as there are orders for new bookings. The bookings that were
written down are as many as were counted as confirmed or as undone, for whichever reason, and as the
times that were taken. As many were counted as confirmed as were moved there from pending, and as
many requests as duplicates as orders were answered so. -/
theorem meters_account_for_bookings (hevents : w.events = [])
    (hcomplete : Complete ((orders w).run es)) :
    let s := (orders w).run es
    let rows := s.world.ledger.bookings.length - w.ledger.bookings.length
    let events := s.world.events
    events.count .bookingStarted = s.jobs.countP (fun x => x.1.creates) ∧
      w.ledger.bookings.length ≤ s.world.ledger.bookings.length ∧
      rows = events.count .bookingConfirmed +
        (FailureKind.all.map fun k => events.count (.compensation k)).sum ∧
      rows = events.count .bookingTimed ∧
      events.count .bookingConfirmed = (books ((orders w).journal es)).count .confirmed ∧
      events.count .duplicateRequest = s.jobs.countP answeredTwice := by
  intro s rows events
  have hlength := length_bookings_eq w es
  -- what is balanced in the books of each order that has ended is so in all of them
  have hmade : (books ((orders w).journal es)).count .made =
      (books ((orders w).journal es)).countP Posting.closes :=
    hcomplete.countP_eq Balanced.made
  have htimed : (books ((orders w).journal es)).count (.counted .bookingTimed) =
      (books ((orders w).journal es)).count .made :=
    hcomplete.countP_eq Balanced.timed
  have hkinds : (fun k => events.count (.compensation k)) =
      fun k => (books ((orders w).journal es)).count (.counted (.compensation k)) :=
    funext fun k => count_events hevents rfl
  refine ⟨?_, Nat.le.intro hlength.symm, ?_, ?_, ?_, ?_⟩
  · exact (count_events hevents rfl).trans (hcomplete.countP_eq_jobs Balanced.started)
  · calc rows
        = (books ((orders w).journal es)).count .made := Nat.sub_eq_of_eq_add' hlength
      _ = (books ((orders w).journal es)).countP Posting.closes := hmade
      _ = _ := by rw [countP_closes, hkinds, count_events hevents rfl]
  · calc rows
        = (books ((orders w).journal es)).count .made := Nat.sub_eq_of_eq_add' hlength
      _ = (books ((orders w).journal es)).count (.counted .bookingTimed) := htimed.symm
      _ = events.count .bookingTimed := (count_events hevents rfl).symm
  · exact (count_events hevents rfl).trans (hcomplete.countP_eq Balanced.confirmed)
  · exact (count_events hevents rfl).trans (hcomplete.countP_eq_jobs Balanced.duplicate)

end Runs

/-- Of three orders the second carries the request of the first, and the third wants its room. -/
def threeOrders : List (Event Order) :=
  [.start (.ofCall (Sample.booking 1)), .start (.ofCall (Sample.booking 1)),
    .start (.ofCall (Sample.booking 2))] ++
    List.replicate 20 (.advance 0) ++ List.replicate 4 (.advance 1) ++ List.replicate 30 (.advance 2)

theorem aside_ofCall (c : Call) : (Order.ofCall c).gateway.Aside := by
  cases c with
  | create p user q r today uid => exact Gateway.aside_direct p
  | cancel p id user r => exact Gateway.aside_direct p

/-- Orders that are given to desks with direct gateways do not meddle with the books. -/
theorem aside_of_calls {w : World} {es : List (Event Order)} (calls : List Call)
    (h : es.filterMap Event.begun? = calls.map .ofCall) :
    ∀ x ∈ ((orders w).run es).jobs, x.1.gateway.Aside := by
  intro x hx
  have hmem := List.mem_map_of_mem (f := Prod.fst) hx
  rw [Scene.calls_run, h] at hmem
  obtain ⟨c, -, hc⟩ := List.mem_map.mp hmem
  exact hc ▸ aside_ofCall c

theorem complete_threeOrders :
    Complete ((orders (.furnished Sample.newYear [Sample.room])).run threeOrders) where
  quiet := by decide +kernel
  kept := by decide +kernel
  aside := aside_of_calls [Sample.booking 1, Sample.booking 1, Sample.booking 2] rfl

theorem meters_account_for_bookings_of_three :
    let s := (orders (.furnished Sample.newYear [Sample.room])).run threeOrders
    Complete s ∧ s.world.events.count .bookingStarted = 3 ∧ s.world.events.count .bookingTimed = 2 ∧
      s.world.events.count .bookingConfirmed = 1 ∧
      s.world.events.count .duplicateRequest = 1 := by
  intro s
  obtain ⟨hstarted, -, -, htimed, hconfirmed, hduplicate⟩ :=
    meters_account_for_bookings (w := .furnished Sample.newYear [Sample.room]) rfl
      complete_threeOrders
  refine ⟨complete_threeOrders, ?_, ?_, ?_, ?_⟩
  · rw [hstarted]
    decide +kernel
  · rw [← htimed]
    decide +kernel
  · rw [hconfirmed]
    decide +kernel
  · rw [hduplicate]
    decide +kernel

end Desk

end Lodging
