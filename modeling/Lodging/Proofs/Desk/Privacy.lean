import Lodging.Proofs.Desk.Parts
import Lodging.Proofs.Privacy
import Lodging.World.Sample

/-!
The users of the booking desk are apart. What the desk tells one of them depends on their own
bookings only, and an order of theirs touches no others. Whoever asks for a booking of someone else
is told that it is missing, and nothing else is done.
-/

namespace Lodging.Desk

open Process (Alike Discreet EndsAfter)

variable {α : Type} {g : Gateway} {user : UserId} {id : BookingId} {v w : World}

/-- What a user gets to see of the booking that was found under an id. -/
def shown (id : BookingId) (user : UserId) :
    Except BookingFailure (Option Booking) → Except BookingFailure Booking
  | .ok (some b) => if b.user = user then .ok b else .error (.notFound id)
  | .ok none => .error (.notFound id)
  | .error f => .error f

theorem owned_bind (id : BookingId) (user : UserId) (f : Booking → Task α) :
    (owned id user >>= f).run =
      .act (.ledger (.get id)) fun a => ExceptT.bindCont f (shown id user a) := by
  change Process.act _ _ = _
  congr 1
  funext a
  match a with
  | .ok (some b) =>
    change Process.bind (ExceptT.run (if b.user = user then pure b else throw (.notFound id)))
      (ExceptT.bindCont f) = ExceptT.bindCont f
        (if b.user = user then .ok b else .error (.notFound id))
    split <;> rfl
  | .ok none => rfl
  | .error f => rfl

theorem of_shown_eq_ok {a : Except BookingFailure (Option Booking)} {b : Booking}
    (h : shown id user a = .ok b) : a = .ok (some b) ∧ b.user = user := by
  match a with
  | .ok (some c) =>
    by_cases hc : c.user = user
    · simp only [shown, hc, if_true] at h
      obtain rfl := Except.ok.inj h
      exact ⟨rfl, hc⟩
    · simp [shown, hc] at h
  | .ok none => cases h
  | .error f => cases h

/-- A booking that a user does not have is as good as missing. -/
theorem shown_booking? {l : Ledger} (h : ¬ l.Has user id) :
    shown id user (.ok (l.booking? id)) = .error (.notFound id) := by
  cases hb : l.booking? id with
  | none => rfl
  | some b =>
    obtain ⟨hmem, hid⟩ := Ledger.booking?_eq_some hb
    have huser : b.user ≠ user := fun huser => h ⟨b, hmem, hid, huser⟩
    simp only [shown, huser, if_false]

/-- What a user is shown depends on the user's own bookings. -/
theorem shown_same (h : v.SameFor user w) (id : BookingId) :
    shown id user (v.callLedger (.get id)).1 = shown id user (w.callLedger (.get id)).1 := by
  obtain ⟨m, hv, hw⟩ := h.exists_met (.get id)
  rw [hv, hw]
  cases m with
  | some m => rfl
  | none =>
    change shown id user (.ok (v.ledger.booking? id)) = shown id user (.ok (w.ledger.booking? id))
    -- without a booking of the user's, the two may find different ones, or none
    by_cases hid : v.ledger.Has user id
    · obtain ⟨b, -, hv, hw⟩ := h.ledger.exists_booking? hid
      rw [hv, hw]
    · rw [shown_booking? hid, shown_booking? fun hw => hid (h.ledger.symm.has hw)]

/-- A user who is shown a booking has one. -/
theorem has_of_shown {b : Booking} (h : shown id user (w.callLedger (.get id)).1 = .ok b) :
    b.id = id ∧ b.user = user ∧ w.ledger.Has user id := by
  obtain ⟨hanswer, huser⟩ := of_shown_eq_ok h
  rcases w.callLedger_cases (.get id) with ⟨ha, -⟩ | ⟨p, -, ha, -⟩
  · obtain ⟨hmem, hid⟩ := Ledger.booking?_eq_some (Except.ok.inj (ha.symm.trans hanswer))
    exact ⟨hid, huser, b, hmem, hid, huser⟩
  · have hnone : (if p.mishap = .nothing then .ok none else .error .storage :
        Except BookingFailure (Option Booking)) = .ok (some b) := ha.symm.trans hanswer
    split at hnone <;> cases hnone

/-- To look at the ledger is discreet, if nothing that others have shows in what follows. -/
theorem discreet_reads {c : LedgerCall} (hc : c.Reads) {next : c.Answer → Process α}
    (hnext : ∀ v w : World, v.SameFor user w →
      Alike user (v.callLedger c).2 (next (v.callLedger c).1) (next (w.callLedger c).1)) :
    Discreet user (.act (.ledger c) next) := by
  refine fun past => .act (fun v w hvw _ => hvw.callLedger_reads hc) (fun v hv _ other _ => ?_)
    fun v w hvw _ => hnext v w hvw
  change v.ledger.SameFor other (v.callLedger c).2.ledger
  rw [World.callLedger_reads hc]
  exact .refl hv other

theorem discreet_owned {f : Booking → Task α}
    (hf : ∀ (past : World) b, past.ledger.Has user b.id → Alike user past (f b).run (f b).run) :
    (owned id user >>= f).run.Discreet user := by
  rw [owned_bind]
  have hreads : (LedgerCall.get id).Reads := trivial
  refine discreet_reads hreads fun v w hvw => ?_
  rw [shown_same hvw]
  cases hb : shown id user (w.callLedger (.get id)).1 with
  | error e => exact .done (Except.error e)
  | ok b =>
    rw [← shown_same hvw] at hb
    obtain ⟨rfl, -, hid⟩ := has_of_shown hb
    refine hf _ b ?_
    rw [World.callLedger_reads hreads]
    exact hid

theorem discreet_get (id : BookingId) (user : UserId) : (get id user).run.Discreet user :=
  discreet_owned fun _ b _ => .done (Except.ok b.summary)

theorem discreet_cancel (hg : g.OffLedger) (id : BookingId) (user : UserId) (r : RequestId) :
    (cancel g id user r).run.Discreet user := by
  rw [cancel_eq]
  refine discreet_owned fun past b hid => ?_
  have huses : (withdraw g r b).run.Uses (Action.About b.id) :=
    uses_withdraw (fun _ => trivial) rfl (fun _ => rfl)
      ((hg.release b.room b.uid r).mono fun _ hx => hx.about b.id)
  exact huses.alike hid

/-- A page tells a user of the user's own bookings. -/
theorem pageOf_same (h : v.SameFor user w) (p : PageRequest) :
    (v.callLedger (.pageOf user p)).1 = (w.callLedger (.pageOf user p)).1 := by
  obtain ⟨m, hv, hw⟩ := h.exists_met (.pageOf user p)
  rw [hv, hw]
  cases m with
  | some m => rfl
  | none =>
    change Except.ok (v.ledger.pageOf user p) = .ok (w.ledger.pageOf user p)
    unfold Ledger.pageOf
    rw [h.ledger.bookingsOf]

theorem discreet_list (user : UserId) (p : PageRequest) : (list user p).run.Discreet user := by
  have hreads : (LedgerCall.pageOf user p).Reads := trivial
  refine discreet_reads hreads fun v w hvw => ?_
  rw [pageOf_same hvw]
  cases (w.callLedger (.pageOf user p)).1 with
  | ok page => exact .done (Except.ok (page.map (·.summary)))
  | error f => exact .done (Except.error f)

theorem advance_get (w : World) (id : BookingId) (user : UserId) :
    ((get id user).run.advance w).1 =
      .inl ((shown id user (w.callLedger (.get id)).1).map (·.summary)) := by
  have hget : (get id user).run = .act (.ledger (.get id)) fun a =>
      ExceptT.bindCont (fun b => pure b.summary) (shown id user a) :=
    owned_bind id user fun b => pure b.summary
  rw [hget]
  change (Process.advance (ExceptT.bindCont _ (shown id user (w.callLedger (.get id)).1)) _).1 = _
  cases shown id user (w.callLedger (.get id)).1 <;> rfl

theorem advance_list (w : World) (user : UserId) (p : PageRequest) :
    ((list user p).run.advance w).1 =
      .inl ((w.callLedger (.pageOf user p)).1.map fun page => page.map (·.summary)) := by
  change (Process.advance (ExceptT.bindCont _ (w.callLedger (.pageOf user p)).1) _).1 = _
  cases (w.callLedger (.pageOf user p)).1 <;> rfl

/-- Where a user has no booking, nothing is done but to look for it. -/
theorem endsAfter_owned (f : Booking → Task α) {e : BookingFailure}
    (h : shown id user (w.callLedger (.get id)).1 = .error e) :
    (owned id user >>= f).run.EndsAfter (.ledger (.get id)) w (.error e) := by
  refine ⟨_, owned_bind id user f, ?_⟩
  change ExceptT.bindCont f (shown id user (w.callLedger (.get id)).1) = _
  rw [h]
  rfl

theorem exists_error_of_not_has (h : ¬ w.ledger.Has user id) :
    ∃ e, shown id user (w.callLedger (.get id)).1 = .error e ∧
      (w.ledgerPlans = [] → e = .notFound id) := by
  cases hb : shown id user (w.callLedger (.get id)).1 with
  | ok b => exact absurd (has_of_shown hb).2.2 h
  | error e =>
    refine ⟨e, rfl, fun hplans => ?_⟩
    rw [World.callLedger_eq, hplans] at hb
    exact Except.error.inj (hb.symm.trans (shown_booking? h))

theorem advance_get_of_mem (hplans : w.ledgerPlans = []) (hids : w.ledger.Distinct) {b : Booking}
    (hb : b ∈ w.ledger.bookings) :
    ((get b.id b.user).run.advance w).1 = .inl (.ok b.summary) := by
  have hfound : (w.callLedger (.get b.id)).1 = .ok (w.ledger.booking? b.id) :=
    congrArg Prod.fst (World.perform_ledger hplans (.get b.id))
  have hmem : w.ledger.booking? b.id = some b := Rows.find?_of_mem hids hb
  rw [advance_get, hfound, hmem]
  unfold shown
  simp only [if_true]
  rfl

theorem advance_list_of_plain (hplans : w.ledgerPlans = []) (user : UserId) (p : PageRequest) :
    ((list user p).run.advance w).1 =
      .inl (.ok ((Page.ofList (w.ledger.bookingsOf user) p).map (·.summary))) := by
  have hpage : (w.callLedger (.pageOf user p)).1 = .ok (w.ledger.pageOf user p) :=
    congrArg Prod.fst (World.perform_ledger hplans (.pageOf user p))
  rw [advance_list, hpage]
  rfl

/-- Users neither see nor touch the bookings of one another. In worlds that look the same to a user,
whatever the bookings of others are, a search and a list come to the same, and so does a
cancellation, which leaves worlds that look the same again. This holds at each action, with anything
that others may do in between. Where a user has no booking under a number, there being none or one
of someone else, a search or a cancellation is the same failure, after a look at the ledger that
leaves everything as it is. What users have they see: a search finds it, and the pages of their
lists are those of all of it. -/
theorem users_are_apart (hg : g.OffLedger) (user : UserId) :
    (∀ v w : World, v.SameFor user w →
      (∀ id, ∃ a, ((get id user).run.advance v).1 = .inl a ∧
        ((get id user).run.advance w).1 = .inl a) ∧
      (∀ p, ∃ a, ((list user p).run.advance v).1 = .inl a ∧
        ((list user p).run.advance w).1 = .inl a) ∧
      ∀ id r, ((cancel g id user r).run.advance v).1.getLeft? =
          ((cancel g id user r).run.advance w).1.getLeft? ∧
        ((cancel g id user r).run.advance v).2.SameFor user
          ((cancel g id user r).run.advance w).2) ∧
    ((∀ id, (get id user).run.Discreet user) ∧ (∀ p, (list user p).run.Discreet user) ∧
      ∀ id r, (cancel g id user r).run.Discreet user) ∧
    (∀ (w : World) (id : BookingId), ¬ w.ledger.Has user id → ∃ e,
      (get id user).run.EndsAfter (.ledger (.get id)) w (.error e) ∧
      (∀ r, (cancel g id user r).run.EndsAfter (.ledger (.get id)) w (.error e)) ∧
      (∃ plans, (w.perform (.ledger (.get id))).2 = { w with ledgerPlans := plans }) ∧
      (w.ledgerPlans = [] → e = .notFound id)) ∧
    ∀ w : World, w.ledgerPlans = [] → w.ledger.Distinct →
      (∀ b ∈ w.ledger.bookings, b.user = user →
        ((get b.id user).run.advance w).1 = .inl (.ok b.summary)) ∧
      ∀ p, ∃ bs, bs.Perm (w.ledger.bookings.filter (·.user = user)) ∧
        ((list user p).run.advance w).1 = .inl (.ok ((Page.ofList bs p).map (·.summary))) := by
  refine ⟨fun v w hvw => ⟨fun id => ?_, fun p => ?_, fun id r => ?_⟩,
    ⟨fun id => discreet_get id user, discreet_list user, fun id r => discreet_cancel hg id user r⟩,
    fun w id hid => ?_, fun w hplans hids => ⟨?_, fun p => ?_⟩⟩
  · -- an answer is made of what is shown to the user, which is the same in both worlds
    exact ⟨_, advance_get v id user, by rw [advance_get, shown_same hvw]⟩
  · exact ⟨_, advance_list v user p, by rw [advance_list, pageOf_same hvw]⟩
  · exact (discreet_cancel hg id user r v).advance hvw fun _ h => h
  · have hreads : (LedgerCall.get id).Reads := trivial
    obtain ⟨e, he, hplain⟩ := exists_error_of_not_has hid
    exact ⟨e, endsAfter_owned _ he, fun r => endsAfter_owned (withdraw g r) he,
      ⟨_, World.callLedger_reads hreads w⟩, hplain⟩
  · rintro b hb rfl
    exact advance_get_of_mem hplans hids hb
  · exact ⟨_, List.mergeSort_perm _ Ledger.later, advance_list_of_plain hplans user p⟩

/-- A world in which people have confirmed bookings, told by their numbers and those of people. -/
def peopled (bookings : List (Int × Int)) : World :=
  { World.atTime Sample.newYear with
    ledger := ⟨[], bookings.map fun b => ⟨⟨b.1⟩, Sample.uid b.1.toNat, ⟨b.2⟩, ⟨1⟩,
      Sample.twoNights, .confirmed, Sample.newYear⟩, 9⟩ }

/-- The second of two people does not get at the booking of the first, and is told the same as if
the booking were not there, but there were one of a third. -/
theorem users_are_apart_strangers : (Gateway.direct .once).OffLedger ∧
    (peopled [(1, 1), (2, 2)]).SameFor ⟨2⟩ (peopled [(2, 2), (5, 3)]) ∧
    ¬ (peopled [(1, 1), (2, 2)]).ledger.Has ⟨2⟩ ⟨1⟩ ∧
    (∃ a, ((list ⟨2⟩ (.make 0 20)).run.advance (peopled [(1, 1), (2, 2)])).1 = .inl (.ok a) ∧
      ((list ⟨2⟩ (.make 0 20)).run.advance (peopled [(2, 2), (5, 3)])).1 = .inl (.ok a) ∧
        a.total = 1) ∧
    (cancel (.direct .once) ⟨1⟩ ⟨2⟩ ⟨"steal"⟩).run.EndsAfter (.ledger (.get ⟨1⟩))
      (peopled [(1, 1), (2, 2)]) (.error (.notFound ⟨1⟩)) := by
  have hg : (Gateway.direct .once).OffLedger := Gateway.offLedger_direct .once
  have hsame : (peopled [(1, 1), (2, 2)]).SameFor ⟨2⟩ (peopled [(2, 2), (5, 3)]) :=
    ⟨.of_filter (by decide) (by decide) (by decide), rfl⟩
  have hno : ¬ (peopled [(1, 1), (2, 2)]).ledger.Has ⟨2⟩ ⟨1⟩ := by decide
  obtain ⟨hrun, -, hmissing, hown⟩ := users_are_apart hg ⟨2⟩
  obtain ⟨-, hlist, -⟩ := hrun _ _ hsame
  obtain ⟨a, hv, hw⟩ := hlist (.make 0 20)
  obtain ⟨bs, hperm, hpage⟩ := (hown (peopled [(1, 1), (2, 2)]) rfl (by decide)).2 (.make 0 20)
  obtain rfl := Sum.inl.inj (hv.symm.trans hpage)
  obtain ⟨e, -, hcancel, -, he⟩ := hmissing _ _ hno
  obtain rfl := he rfl
  exact ⟨hg, hsame, hno, ⟨_, hv, hw, hperm.length_eq⟩, hcancel ⟨"steal"⟩⟩

end Lodging.Desk
