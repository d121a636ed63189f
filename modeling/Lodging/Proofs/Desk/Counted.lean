import Lodging.Proofs.Desk.Reckoning

/-!
Cancellations that are counted. A booking is moved to cancelled once at most, whoever cancels it and
whatever goes wrong. A cancellation that has moved its booking is counted, but so is one that comes
too late: it finds that someone else has cancelled the booking meanwhile, and is content with that.
So as many are counted as bookings were cancelled, and one for each that came too late.
-/

namespace Lodging

/-- The booking that was moved to cancelled. -/
def Deed.cancelled? (d : Deed) : Option BookingId :=
  match d.posting? with
  | some (.cancelled id) => some id
  | _ => none

theorem Deed.of_cancelled?_eq_some {d : Deed} {id : BookingId} (h : d.cancelled? = some id) :
    ∃ e b, d = .did (.ledger (.updateStatus id e .cancelled)) (.ok (some b)) := by
  unfold cancelled? posting? at h
  split at h
  next id' h' =>
    obtain rfl := Option.some.inj h
    split at h' <;> simp_all
  next => cases h

namespace Ledger

variable {l : Ledger} {id : BookingId} {e next : Status} {b : Booking}

/-- A booking that was moved on was where it was expected to be. -/
theorem moved_of_updateStatus (h : (l.updateStatus id e next).1 = some b) :
    ∃ c, l.booking? id = some c ∧ c.status = e ∧ b = { c with status := next } ∧
      (l.updateStatus id e next).2.booking? id = some b := by
  by_cases hc : ∃ c, l.booking? id = some c ∧ c.status = e
  · obtain ⟨c, hb, rfl⟩ := hc
    obtain ⟨hmem, hid⟩ := booking?_eq_some hb
    rw [updateStatus_of_eq hb] at h ⊢
    obtain rfl := Option.some.inj h
    refine ⟨c, hb, rfl, rfl, ?_⟩
    rw [booking?_moved hmem]
    simp [hid, Option.filter_some]
  · rw [updateStatus_of_ne next fun c hb hs => hc ⟨c, hb, hs⟩] at h
    cases h

/-- A booking that is somewhere else stays there. -/
theorem booking?_updateStatus (h : l.booking? id = some b) (hs : b.status ≠ e) (k : BookingId)
    (next : Status) : (l.updateStatus k e next).2.booking? id = some b := by
  by_cases hc : ∃ c, l.booking? k = some c ∧ c.status = e
  · obtain ⟨c, hb, rfl⟩ := hc
    obtain ⟨hmem, hid⟩ := booking?_eq_some hb
    rw [updateStatus_of_eq hb, booking?_moved hmem, h]
    have hne : c.id ≠ id := by
      rintro rfl
      exact hs (by rw [hid, hb] at h; exact congrArg _ (Option.some.inj h).symm)
    simp [hne, Option.filter_some]
  · rw [updateStatus_of_ne next fun c hb hs => hc ⟨c, hb, hs⟩]
    exact h

/-- So whoever meddles just before does not get in the way of a move that succeeds. -/
theorem booking?_of_updateStatus {s : Status}
    (h : (l.updateStatus id e s).2.booking? id = some b) (hs : b.status = e) :
    l.booking? id = some b := by
  by_cases hc : ∃ c, l.booking? id = some c ∧ c.status = e
  · obtain ⟨c, hb, rfl⟩ := hc
    obtain ⟨d, -, -, -, hmoved⟩ := moved_of_updateStatus
      (congrArg Prod.fst (updateStatus_of_eq hb s))
    rw [hmoved] at h
    obtain rfl := Option.some.inj h
    obtain rfl : s = c.status := hs
    exact hb
  · rwa [updateStatus_of_ne s fun c hb hs => hc ⟨c, hb, hs⟩] at h

end Ledger

namespace World

variable {w : World} {id : BookingId} {e next : Status} {b : Booking} {x : Action}

/-- The same holds whatever is planned for the ledger. -/
theorem moved_of_callLedger (h : (w.callLedger (.updateStatus id e next)).1 = .ok (some b)) :
    ∃ c, w.ledger.booking? id = some c ∧ c.status = e ∧ b = { c with status := next } ∧
      (w.callLedger (.updateStatus id e next)).2.ledger.booking? id = some b := by
  rcases w.callLedger_cases (.updateStatus id e next) with ⟨ha, hl⟩ | ⟨p, -, ha, hl⟩ <;>
    rw [ha] at h <;> rw [hl]
  · exact Ledger.moved_of_updateStatus (Except.ok.inj h)
  · cases hm : p.mishap with
    | overtaken s =>
      rw [hm] at h
      obtain ⟨c, hc, hs, hb, hmoved⟩ := Ledger.moved_of_updateStatus (Except.ok.inj h)
      exact ⟨c, Ledger.booking?_of_updateStatus hc hs, hs, hb, hmoved⟩
    | _ =>
      rw [hm] at h
      cases h

/-- A booking from which nobody moves it on stays as it is. -/
theorem booking?_perform (h : w.ledger.booking? id = some b)
    (hx : ∀ k e next, x = .ledger (.updateStatus k e next) → b.status ≠ e) :
    (w.perform x).2.ledger.booking? id = some b := by
  cases x with
  | ledger c =>
    change (w.callLedger c).2.ledger.booking? id = some b
    rcases w.callLedger_cases c with ⟨-, hl⟩ | ⟨p, -, -, hl⟩ <;> rw [hl]
    · cases c with
      | accept r =>
        simp only [Ledger.answer, Ledger.accept]
        split <;> exact h
      | insertPending n =>
        change (w.ledger.bookings ++ [_]).find? _ = some b
        rw [List.find?_append]
        exact congrArg (Option.or · _) h
      | updateStatus k e next => exact Ledger.booking?_updateStatus h (hx k e next rfl) k next
      | get k => exact h
      | pageOf user p => exact h
    · -- in a mishap someone else may move a booking on before the call does
      cases c with
      | updateStatus k e next =>
        have hs := hx k e next rfl
        cases p.mishap with
        | overtaken s =>
          have hover := Ledger.booking?_updateStatus h hs k s
          exact Ledger.booking?_updateStatus hover hs k next
        | _ => exact h
      | _ => exact h
  | rooms c =>
    rw [(perform_offLedger (x := .rooms c) trivial).1]
    exact h
  | _ => exact h

end World

namespace Desk

open Deed (postings)

section Once

variable {w : World} {es : List (Event Order)} {id : BookingId}

/-- What orders ask of the ledger is never asked of a booking that was cancelled. -/
theorem not_cancelled_of_mem_journal {i : ℕ} {k : BookingId} {e next : Status}
    {a : (Action.ledger (.updateStatus k e next)).Answer}
    (h : (i, .did (.ledger (.updateStatus k e next)) a) ∈ (orders w).journal es) :
    e ≠ .cancelled := by
  obtain ⟨c, j, -, hallowed, -⟩ := moves_of_mem_journal h
  rintro rfl
  cases next <;> cases hallowed

/-- Bookings that were moved to cancelled, once each. -/
def WithdrawnOnce (l : Ledger) (ids : List BookingId) : Prop :=
  ids.Nodup ∧ ∀ id ∈ ids, ∃ b, l.booking? id = some b ∧ b.status = .cancelled

/-- Whatever is done that moves no cancelled booking, the next one is a new one. -/
theorem WithdrawnOnce.perform {ids : List BookingId} {x : Action}
    (h : WithdrawnOnce w.ledger ids)
    (hx : ∀ k e next, x = .ledger (.updateStatus k e next) → e ≠ .cancelled) :
    WithdrawnOnce (w.perform x).2.ledger
      (ids ++ (Deed.did x (w.perform x).1).cancelled?.toList) := by
  obtain ⟨hnodup, hcancelled⟩ := h
  -- those that were cancelled before stay so
  have hlasts : ∀ id ∈ ids, ∃ b, (w.perform x).2.ledger.booking? id = some b ∧
      b.status = .cancelled := by
    intro id hid
    obtain ⟨b, hb, hs⟩ := hcancelled id hid
    exact ⟨b, World.booking?_perform hb fun k e next hk => hs ▸ (hx k e next hk).symm, hs⟩
  cases hc : (Deed.did x (w.perform x).1).cancelled? with
  | none =>
    rw [Option.toList_none, List.append_nil]
    exact ⟨hnodup, hlasts⟩
  | some id =>
    obtain ⟨e, b, heq⟩ := Deed.of_cancelled?_eq_some hc
    injection heq with hupdate ha
    subst hupdate
    obtain ⟨c, hbefore, hs, hb, hafter⟩ := World.moved_of_callLedger (eq_of_heq ha)
    -- and the one that has been moved was not among them
    have hnew : id ∉ ids := by
      intro hid
      obtain ⟨d, hd, hcancelled⟩ := hcancelled id hid
      obtain rfl := Option.some.inj (hbefore.symm.trans hd)
      exact hx id e .cancelled rfl (hs.symm.trans hcancelled)
    refine ⟨hnodup.append (List.nodup_singleton id) (List.disjoint_singleton.mpr hnew),
      fun k hk => ?_⟩
    rcases List.mem_append.mp hk with hk | hk
    · exact hlasts k hk
    · obtain rfl := List.mem_singleton.mp hk
      exact ⟨b, hafter, hb ▸ rfl⟩

theorem withdrawnOnce_run (w : World) (es : List (Event Order)) :
    WithdrawnOnce ((orders w).run es).world.ledger
      (((orders w).journal es).filterMap (·.2.cancelled?)) := by
  induction es using List.reverseRecOn with
  | nil => exact ⟨List.nodup_nil, nofun⟩
  | append_singleton es e ih =>
    have hjournal := Scene.journal_concat (orders w) es e
    rw [Scene.run_concat]
    rcases ((orders w).run es).step_cases e with ⟨i, x, hd, hw⟩ | ⟨hd, hw⟩
    · rw [hd] at hjournal
      have hmem := hjournal ▸ List.mem_append_right _ (List.mem_singleton_self _)
      rw [hw, hjournal, List.filterMap_append, Deed.filterMap_singleton Deed.cancelled?]
      refine ih.perform ?_
      rintro k e next rfl
      exact not_cancelled_of_mem_journal hmem
    · rw [hw.ledger, hjournal, List.filterMap_append,
        Deed.filterMap_of_linedUp Deed.cancelled? (fun _ _ => rfl) hd, List.append_nil]
      exact ih

end Once

section Counted

variable {w : World} {es : List (Event Order)} {ps : List Posting}
  {x : Except BookingFailure BookingSummary}

/-- An entry that a booking was moved to cancelled. -/
def cancels : Posting → Bool
  | .cancelled _ => true
  | _ => false

/-- Nobody but a cancellation is counted as one. -/
theorem Entered.count_cancelled (h : Entered ps x) :
    ps.count (.counted .bookingCancelled) = 0 := by
  refine List.count_eq_zero.mpr fun hmem => ?_
  cases h with
  | turnedDown hf => cases List.mem_singleton.mp hmem
  | duplicate q => simp at hmem
  | made h hx =>
    cases h with
    | confirmed s => simp at hmem
    | undone f hu =>
      simp only [List.mem_cons, List.cons_append, List.mem_append, reduceCtorEq, false_or,
        Posting.counted.injEq, List.not_mem_nil, or_false] at hmem
      cases hu _ hmem

/-- A cancellation that has not failed is counted if it has moved its booking, or has missed it. -/
theorem Withdrawn.count_cancelled (h : Withdrawn ps x) :
    ps.count (.counted .bookingCancelled) =
      ps.countP cancels + (x.toBool && ps.contains .missed).toNat := by
  -- releases that failed are counted by themselves
  have hquiet : ∀ u : List Posting, (∀ p ∈ u, p = .counted .releaseFailed) →
      u.count (.counted .bookingCancelled) = 0 ∧ u.countP cancels = 0 ∧ .missed ∉ u := by
    intro u hu
    refine ⟨List.count_eq_zero.mpr fun hmem => ?_, List.countP_eq_zero.mpr fun p hp => ?_,
      fun hmem => ?_⟩
    · cases hu _ hmem
    · rw [hu p hp]
      exact nofun
    · cases hu _ hmem
  cases h with
  | failed f hu =>
    obtain ⟨hcount, hcancels, -⟩ := hquiet _ hu
    rw [hcount, hcancels]
    rfl
  | already s => rfl
  | cancelled id s hu =>
    obtain ⟨hcount, hcancels, hmissed⟩ := hquiet _ hu
    simp [hcount, hcancels, hmissed, cancels, List.countP_cons, Except.toBool]
  | late s hu =>
    obtain ⟨hcount, hcancels, -⟩ := hquiet _ hu
    simp [hcount, hcancels, cancels, Except.toBool]
  | stale f hu =>
    obtain ⟨hcount, hcancels, -⟩ := hquiet _ hu
    simp [hcount, hcancels, cancels, Except.toBool]

/-- Did a cancellation that has not failed find its booking cancelled by someone else? -/
def late (s : Scene Order.process) (ds : List (ℕ × Deed)) (i : ℕ) : Bool :=
  match s.jobs[i]? with
  | some (c, .finished x) =>
    !c.creates && (x.toBool && (postings (Deed.doneBy i ds)).contains .missed)
  | _ => false

/-- Cancellations that came too late. -/
def latecomers (s : Scene Order.process) (ds : List (ℕ × Deed)) : List ℕ :=
  (List.range s.jobs.length).filter (late s ds)

/-- A call is a cancellation. -/
def withdrawing (s : Scene Order.process) (i : ℕ) : Bool := (s.jobs[i]?).any fun x => !x.1.creates

/-- The bookings that cancellations have moved to cancelled. -/
def withdrawnBookings (s : Scene Order.process) (ds : List (ℕ × Deed)) : List BookingId :=
  (ds.filter fun x => withdrawing s x.1).filterMap (·.2.cancelled?)

theorem doneBy_filter (Q : ℕ → Bool) (i : ℕ) (ds : List (ℕ × Deed)) :
    Deed.doneBy i (ds.filter fun x => Q x.1) = if Q i then Deed.doneBy i ds else [] := by
  unfold Deed.doneBy
  rw [List.filter_filter]
  by_cases hi : Q i = true
  · rw [if_pos hi]
    refine congrArg _ (List.filter_congr fun x _ => ?_)
    by_cases hx : x.1 = i <;> simp [hx, hi]
  · rw [if_neg hi, List.filter_eq_nil_iff.mpr, List.map_nil]
    rintro x - hx
    rw [Bool.and_eq_true, decide_eq_true_eq] at hx
    exact hi (hx.1 ▸ hx.2)

theorem length_withdrawnBookings {s : Scene Order.process} {ds : List (ℕ × Deed)}
    (h : ∀ x ∈ ds, x.1 < s.jobs.length) : (withdrawnBookings s ds).length =
      ∑ i ∈ Finset.range s.jobs.length,
        if withdrawing s i then (postings (Deed.doneBy i ds)).countP cancels else 0 := by
  have hbooks : (withdrawnBookings s ds).length =
      (books (ds.filter fun x => withdrawing s x.1)).countP cancels := by
    unfold withdrawnBookings books postings
    rw [List.length_filterMap_eq_countP, List.countP_filterMap, List.countP_map]
    refine List.countP_congr fun x _ => ?_
    change x.2.cancelled?.isSome = true ↔ (x.2.posting?.map cancels).getD false = true
    unfold Deed.cancelled?
    cases x.2.posting? with
    | none => exact Iff.rfl
    | some p => cases p <;> exact Iff.rfl
  rw [hbooks, countP_books fun x hx => h x (List.mem_of_mem_filter hx)]
  refine Finset.sum_congr rfl fun i _ => ?_
  rw [doneBy_filter]
  cases withdrawing s i <;> rfl

theorem length_filter_range (P : ℕ → Bool) (n : ℕ) :
    ((List.range n).filter P).length = ∑ i ∈ Finset.range n, (P i).toNat := by
  induction n with
  | zero => rfl
  | succ n ih =>
    rw [List.range_succ, List.filter_append, List.length_append, Finset.sum_range_succ, ih]
    cases h : P n <;> simp [h]

/-- An order is counted as a cancellation if it is one that has moved its booking, or is late. -/
theorem Complete.count_cancelled (h : Complete ((orders w).run es)) {i : ℕ}
    (hi : i ∈ Finset.range ((orders w).run es).jobs.length) :
    (postings (Deed.doneBy i ((orders w).journal es))).count (.counted .bookingCancelled) =
      (if withdrawing ((orders w).run es) i then
        (postings (Deed.doneBy i ((orders w).journal es))).countP cancels else 0) +
        (late ((orders w).run es) ((orders w).journal es) i).toNat := by
  obtain ⟨c, a, hj, haside⟩ := h.exists_finished (Finset.mem_range.mp hi)
  have htold : c.process.Leads (Deed.doneBy i ((orders w).journal es)) (.done a) :=
    Scene.told w es hj
  unfold withdrawing late
  rw [hj]
  cases c with
  | create o user wish r today uid =>
    exact (entered_of_leads haside (honest_of_run w es i) htold).count_cancelled
  | cancel o id user r => exact (withdrawn_of_leads haside htold).count_cancelled

/-- Cancellations are counted once each, but for those that came too late. Whatever orders came,
however they came between one another and whatever went wrong, but for orders that were given up:
once all have come to their ends, as many cancellations were counted as bookings were moved to
cancelled by cancellations, none of them twice, and one more for each cancellation that missed its
booking, since someone else had cancelled it after it was looked up, and did not fail for that. So
the count is that of the bookings if and only if nobody came too late. -/
theorem cancellations_counted (hevents : w.events = []) (hcomplete : Complete ((orders w).run es)) :
    let s := (orders w).run es
    let ds := (orders w).journal es
    s.world.events.count .bookingCancelled =
        (withdrawnBookings s ds).length + (latecomers s ds).length ∧
      (withdrawnBookings s ds).Nodup ∧
      (∀ id ∈ withdrawnBookings s ds, ∃ b, s.world.ledger.booking? id = some b ∧
        b.status = .cancelled) ∧
      (s.world.events.count .bookingCancelled = (withdrawnBookings s ds).length ↔
        latecomers s ds = []) := by
  intro s ds
  have hcount : s.world.events.count .bookingCancelled =
      (withdrawnBookings s ds).length + (latecomers s ds).length := by
    have hlate : (latecomers s ds).length =
        ∑ i ∈ Finset.range s.jobs.length, (late s ds i).toNat := length_filter_range ..
    -- the count is the sum over all orders, of which each counts its own and may count a late one
    calc s.world.events.count .bookingCancelled
        = (books ds).count (.counted .bookingCancelled) := count_events hevents rfl
      _ = ∑ i ∈ Finset.range s.jobs.length,
            (postings (Deed.doneBy i ds)).count (.counted .bookingCancelled) :=
          countP_books_journal _
      _ = ∑ i ∈ Finset.range s.jobs.length,
            ((if withdrawing s i then (postings (Deed.doneBy i ds)).countP cancels else 0) +
              (late s ds i).toNat) := Finset.sum_congr rfl fun i hi => hcomplete.count_cancelled hi
      _ = (withdrawnBookings s ds).length + (latecomers s ds).length := by
          rw [Finset.sum_add_distrib, hlate,
            length_withdrawnBookings fun x hx => Scene.lt_of_mem_journal hx]
  obtain ⟨hnodup, hcancelled⟩ := withdrawnOnce_run w es
  have hsub : (withdrawnBookings s ds).Sublist (ds.filterMap (·.2.cancelled?)) :=
    List.filter_sublist.filterMap _
  refine ⟨hcount, hnodup.sublist hsub, fun id hid => hcancelled id (hsub.subset hid), ?_⟩
  rw [hcount, ← List.length_eq_zero_iff]
  omega

end Counted

/-- Two cancellations of one booking, both of which find it confirmed. -/
def twoCancellations : List (Event Order) :=
  .start (.ofCall (Sample.booking 1)) :: List.replicate 20 (.advance 0) ++
    [.start (.ofCall (Sample.cancellation 1)), .start (.ofCall (Sample.cancellation 1))] ++
    (List.replicate 20 [.advance 1, .advance 2]).flatten

theorem complete_twoCancellations :
    Complete ((orders (.furnished Sample.newYear [Sample.room])).run twoCancellations) where
  quiet := by decide +kernel
  kept := by decide +kernel
  aside := aside_of_calls [Sample.booking 1, Sample.cancellation 1, Sample.cancellation 1] rfl

/-- One booking is cancelled, and that is counted as two cancellations. -/
theorem cancellation_counted_twice :
    let s := (orders (.furnished Sample.newYear [Sample.room])).run twoCancellations
    let ds := (orders (.furnished Sample.newYear [Sample.room])).journal twoCancellations
    Complete s ∧ s.world.ledger.bookings.length = 1 ∧ withdrawnBookings s ds = [⟨1⟩] ∧
      s.world.events.count .bookingCancelled = 2 :=
  ⟨complete_twoCancellations, by decide +kernel, by decide +kernel, by decide +kernel⟩

/-- The second of them came too late. -/
theorem cancellations_counted_of_two :
    let s := (orders (.furnished Sample.newYear [Sample.room])).run twoCancellations
    let ds := (orders (.furnished Sample.newYear [Sample.room])).journal twoCancellations
    Complete s ∧ latecomers s ds = [2] ∧ (withdrawnBookings s ds).Nodup ∧
      s.world.events.count .bookingCancelled ≠ (withdrawnBookings s ds).length := by
  intro s ds
  obtain ⟨-, hnodup, -, hexact⟩ := cancellations_counted
    (w := .furnished Sample.newYear [Sample.room]) rfl complete_twoCancellations
  have hlate : latecomers s ds = [2] := by decide +kernel
  refine ⟨complete_twoCancellations, hlate, hnodup, ?_⟩
  rw [ne_eq, hexact, hlate]
  exact List.cons_ne_nil 2 []

end Desk

end Lodging
