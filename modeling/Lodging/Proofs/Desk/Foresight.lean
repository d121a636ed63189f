import Lodging.Proofs.Desk.Closing
import Lodging.Proofs.Desk.Parts

/-!
What an order to cancel a booking comes to. It looks at the booking, releases its room, marks it and
may have to look again, and others who do the same may be faster at any time. But as long as the
ledger only ever shows the booking as it was, and from some time on as cancelled, the order cannot
fail. Once it is answered the booking is cancelled.
-/

namespace Lodging

/-- The ledger shows a booking as cancelled, or as it was, unless it is known to be cancelled. -/
def World.Reveals (b : Booking) (known : Bool) (w : World) : Prop :=
  w.ledger.booking? b.id = some b.asCancelled ∨ known = false ∧ w.ledger.booking? b.id = some b

theorem World.Reveals.of_ledger {b : Booking} {known : Bool} {w w' : World} (h : w.Reveals b known)
    (hl : w'.ledger = w.ledger) : w'.Reveals b known := by
  unfold World.Reveals
  rwa [hl]

/-- Whoever looks at a booking changes nothing. -/
theorem World.Undisturbed.perform_get {w : World} (hw : w.Undisturbed) (id : BookingId) :
    w.perform (.ledger (.get id)) = (.ok (w.ledger.booking? id), w) :=
  hw.callLedger (.get id)

namespace Process

variable {α β : Type} {b : Booking} {known : Bool} {Q : Bool → α → Prop} {R : Bool → β → Prop}

/-- What a process comes to is as demanded, whatever becomes of the booking before each of its
actions. -/
def ComesTo (b : Booking) (Q : Bool → α → Prop) : Bool → Process α → Prop
  | known, .done a => Q known a
  | known, .act x next => ∀ w : World, w.Undisturbed → w.Reveals b known →
      ∃ known', (w.perform x).2.Reveals b known' ∧ ComesTo b Q known' (next (w.perform x).1)
  | known, .enter _ next => ∀ t, ComesTo b Q known (next t)

theorem ComesTo.bind {p : Process α} {f : α → Process β} (hp : p.ComesTo b Q known)
    (hf : ∀ known a, Q known a → (f a).ComesTo b R known) : (p >>= f).ComesTo b R known := by
  change (p.bind f).ComesTo b R known
  induction p generalizing known with
  | done a => exact hf known a hp
  | act x next ih =>
    intro w hw hs
    obtain ⟨known', hs', hn⟩ := hp w hw hs
    exact ⟨known', hs', ih _ hn⟩
  | enter room next ih => exact fun t => ih t (hp t)

/-- Who does not touch the ledger learns nothing of the booking. -/
theorem comesTo_of_offLedger {p : Process α} (hp : p.Uses Action.OffLedger) :
    p.ComesTo b (fun known' _ => known' = known) known := by
  induction p with
  | done a => rfl
  | act x next ih =>
    intro w _ hs
    exact ⟨known, hs.of_ledger (World.perform_offLedger hp.1).1, ih _ (hp.2 _)⟩
  | enter room next ih => exact fun t => ih t (hp t)

end Process

namespace Job

variable {α : Type} {b : Booking} {known : Bool} {Q : Bool → α → Prop} {j : Job α} {w : World}

/-- What is left of a call comes to what is demanded. -/
def ComesTo (b : Booking) (Q : Bool → α → Prop) (known : Bool) : Job α → Prop
  | running p _ => p.ComesTo b Q known
  | waiting _ next _ => ∀ t, (next t).ComesTo b Q known
  | finished a => Q known a
  | dropped => True

theorem ComesTo.advance (hj : j.ComesTo b Q known) (hw : w.Undisturbed) (hs : w.Reveals b known) :
    ∃ known', (j.advance w).2.Reveals b known' ∧ (j.advance w).1.ComesTo b Q known' := by
  cases j with
  | running p held =>
    cases p with
    | done a => exact ⟨known, hs, hj⟩
    | act x next => exact hj w hw hs
    | enter room next => exact ⟨known, hs.of_ledger rfl, hj⟩
  | waiting t next held =>
    simp only [Job.advance]
    split
    · exact ⟨known, hs, hj t⟩
    · exact ⟨known, hs, hj⟩
  | finished a => exact ⟨known, hs, hj⟩
  | dropped => exact ⟨known, hs, trivial⟩

theorem ComesTo.drop (hj : j.ComesTo b Q known) (w : World) : (j.drop w).1.ComesTo b Q known := by
  cases j with
  | finished a => exact hj
  | _ => trivial

end Job

namespace Desk

open Process (ComesTo comesTo_of_offLedger)

variable {α β : Type} {b : Booking} {known : Bool} {R : Bool → Except BookingFailure β → Prop}

theorem comesTo_task_bind {Q : Bool → α → Prop} {t : Task α} {f : α → Task β}
    (ht : t.run.ComesTo b (fun known x => ∃ a, x = .ok a ∧ Q known a) known)
    (hf : ∀ known a, Q known a → (f a).run.ComesTo b R known) :
    (t >>= f).run.ComesTo b R known := by
  refine ComesTo.bind ht ?_
  rintro known' _ ⟨a, rfl, ha⟩
  exact hf known' a ha

/-- A look at the booking. -/
theorem comesTo_get {f : Option Booking → Task β}
    (hopen : known = false → (f (some b)).run.ComesTo b R false)
    (hcancelled : (f (some b.asCancelled)).run.ComesTo b R true) :
    (ask (.get b.id) >>= f).run.ComesTo b R known := by
  intro w hw hs
  rw [hw.perform_get]
  rcases hs with hrow | ⟨hknown, hrow⟩ <;> rw [hrow]
  · exact ⟨true, .inl hrow, hcancelled⟩
  · exact ⟨false, .inr ⟨rfl, hrow⟩, hopen hknown⟩

/-- The booking is marked, unless someone has been faster. -/
theorem comesTo_mark (hb : b.status ≠ .cancelled) {f : Option Booking → Task β}
    (hmarked : (f (some b.asCancelled)).run.ComesTo b R true)
    (hlate : (f none).run.ComesTo b R true) :
    (ask (.updateStatus b.id b.status .cancelled) >>= f).run.ComesTo b R known := by
  intro w hw hs
  have hperform : w.perform (.ledger (.updateStatus b.id b.status .cancelled)) = _ :=
    hw.callLedger (.updateStatus b.id b.status .cancelled)
  rw [hperform]
  rcases hs with hrow | ⟨-, hrow⟩
  · have hne : ∀ c, w.ledger.booking? b.id = some c → c.status ≠ b.status := by
      intro c hc hs
      obtain rfl := Option.some.inj (hrow.symm.trans hc)
      exact hb hs.symm
    have ha : w.ledger.answer w.now (.updateStatus b.id b.status .cancelled) =
        (.ok none, w.ledger) := by
      simp only [Ledger.answer, Ledger.updateStatus_of_ne .cancelled hne]
    rw [ha]
    exact ⟨true, .inl hrow, hlate⟩
  · have ha : w.ledger.answer w.now (.updateStatus b.id b.status .cancelled) =
        (.ok (some b.asCancelled), w.ledger.moved b .cancelled) := by
      simp only [Ledger.answer, Ledger.updateStatus_of_eq hrow]
      rfl
    rw [ha]
    refine ⟨true, .inl ?_, hmarked⟩
    change (w.ledger.moved b .cancelled).booking? b.id = _
    rw [Ledger.booking?_moved (Ledger.booking?_eq_some hrow).1, Option.filter_some,
      if_pos (by simp)]
    rfl

theorem comesTo_owned : (owned b.id b.user).run.ComesTo b
    (fun known x => ∃ c, x = .ok c ∧ (c = b ∨ known = true ∧ c = b.asCancelled)) known := by
  have howner : b.asCancelled.user = b.user := rfl
  refine comesTo_get (fun _ => ?_) ?_
  · simp only [if_true]
    exact ⟨b, rfl, .inl rfl⟩
  · simp only [howner, if_true]
    exact ⟨b.asCancelled, rfl, .inr ⟨rfl, rfl⟩⟩

theorem comesTo_markCancelled (hb : b.status ≠ .cancelled) : (markCancelled b).run.ComesTo b
    (fun known x => ∃ c, x = .ok c ∧ known = true ∧ c = b.asCancelled) known := by
  refine comesTo_mark hb ⟨b.asCancelled, rfl, rfl, rfl⟩ ?_
  have hstatus : b.asCancelled.status = .cancelled := rfl
  refine comesTo_get (fun h => by cases h) ?_
  simp only [hstatus, if_true]
  exact ⟨b.asCancelled, rfl, rfl, rfl⟩

/-- The cancelled booking is shown, and nothing else. -/
def ShownCancelled (b : Booking) (known : Bool) (x : Except BookingFailure BookingSummary) : Prop :=
  known = true ∧ x = .ok b.asCancelled.summary

/-- The owner of a booking who has it cancelled is shown the cancelled booking. -/
theorem comesTo_cancel (hb : b.status ≠ .cancelled) (p : RetryPolicy) (r : RequestId) :
    (cancel (.direct p) b.id b.user r).run.ComesTo b (ShownCancelled b) known := by
  rw [cancel_eq]
  refine comesTo_task_bind comesTo_owned fun known c hc => ?_
  unfold withdraw
  rcases hc with rfl | ⟨rfl, rfl⟩
  · -- read as it was: the ledger may show anything until the booking is marked
    rw [if_neg hb]
    have hquiet : (releaseQuietly (.direct p) c r).Uses Action.OffLedger :=
      uses_releaseQuietly (fun _ => trivial) ((Outlet.direct p).offLedger.release _ _ r)
    have hrelease : (ExceptT.lift (releaseQuietly (.direct p) c r) : Task Unit).run.ComesTo c
        (fun known' x => ∃ u, x = .ok u ∧ known' = known) known :=
      ComesTo.bind (comesTo_of_offLedger hquiet) fun known' u hu => ⟨u, rfl, hu⟩
    refine comesTo_task_bind hrelease fun known _ _ => ?_
    refine comesTo_task_bind (comesTo_markCancelled hb) ?_
    rintro _ _ ⟨rfl, rfl⟩
    have hnote : (note .bookingCancelled).run.ComesTo c
        (fun known x => ∃ u, x = .ok u ∧ known = true) true :=
      fun w _ hs => ⟨true, hs.of_ledger rfl, (), rfl, rfl⟩
    exact comesTo_task_bind hnote fun known _ hknown => ⟨hknown, rfl⟩
  · -- read as cancelled: nothing is left to do
    have hstatus : b.asCancelled.status = .cancelled := rfl
    rw [if_pos hstatus]
    exact ⟨rfl, rfl⟩

end Desk

end Lodging
