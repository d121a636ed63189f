import Lodging.Proofs.Desk.Blame
import Lodging.Proofs.Desk.Requests

/-!
Orders for a new booking that make no sense. One that is turned down for its dates has done nothing.
One that neither names a room nor takes any is turned down too, but only after its request has been
accepted: nothing else is changed then, yet the request is used up.
-/

namespace Lodging

/-- The ledger said that a request makes no sense. -/
def Deed.Objects (m : String) : Deed → Prop
  | did (.ledger _) a => a = .error (.invalid m)
  | _ => False

namespace Scene

variable {κ α : Type} {code : κ → Process α} {s : Scene code}

/-- It never says so. -/
theorem not_objects_of_mem_journal {es : List (Event κ)} {i : ℕ} {d : Deed}
    (h : (i, d) ∈ s.journal es) (m : String) : ¬ d.Objects m := by
  match d with
  | .linedUp room t => exact id
  | .did (.ledger c) a =>
    intro ha
    rcases error_of_mem_journal h ha with hf | ⟨q, -, hf⟩ <;> cases hf
  | .did (.rooms _) _ | .did (.leave _) _ | .did (.meter _) _ | .did .readings _
  | .did (.attempt _) _ | .did (.planned _) _ | .did (.sleep _) _ => exact id

end Scene

/-- A call that is not at an action leaves the world alone, unless it lines up for a room. -/
theorem Job.advance_of_deed?_eq_none {α : Type} {w : World} {j : Job α} (h : j.deed? w = none) :
    (j.advance w).2 = w := by
  cases j with
  | running p held =>
    cases p with
    | done a => rfl
    | act x next => cases h
    | enter room next => cases h
  | waiting t next held =>
    simp only [Job.advance]
    split <;> rfl
  | finished a => rfl
  | dropped => rfl

namespace Desk

open Process (Leads)

section Blame

variable {α : Type}

/-- Something that only fails for making no sense if the ledger says so. -/
def Blameless (p : Process (Except BookingFailure α)) : Prop :=
  ∀ ds m, Leads p ds (.done (.error (.invalid m))) → ∃ d ∈ ds, d.Objects m

theorem Candid.blameless {p : Process (Except BookingFailure α)}
    (h : Candid (fun f => ∃ m, f = .invalid m) p) : Blameless p := by
  intro ds m hp
  obtain ⟨c, a, hmem, ha⟩ := h ds _ ⟨m, rfl⟩ hp
  exact ⟨_, hmem, ha⟩

end Blame

section Rejected

variable {g : Gateway} {user : UserId} {wish : BookingRequest} {r : RequestId} {today : Date}
  {uid : Uid} {ds : List Deed} {m : String}

/-- Why an order makes no sense, and what was done before this was found. -/
inductive Rejected (wish : BookingRequest) (r : RequestId) (today : Date) (m : String) :
    List Deed → Prop
  | dates (h : Stay.requested wish.arrival wish.departure today = .error (.invalid m)) :
    Rejected wish r today m [.did (.meter .bookingStarted) ()]
  | room {stay : Stay} (h : Stay.requested wish.arrival wish.departure today = .ok stay)
    (hany : wish.anyRoom = false) (hroom : wish.room = none)
    (hm : BookingFailure.invalid m = .roomMissing) :
    Rejected wish r today m
      [.did (.meter .bookingStarted) (), .did (.ledger (.accept r)) (.ok ())]

/-- Of an order whose dates make sense, nothing else can be wrong than that no room is named. -/
theorem rejected_of_book {stay : Stay} (hds : ∀ d ∈ ds, ¬ d.Objects m)
    (h : Leads (book g user wish r uid stay).run ds (.done (.error (.invalid m)))) :
    ds = [] ∧ wish.anyRoom = false ∧ wish.room = none ∧
      BookingFailure.invalid m = .roomMissing := by
  have hno : ∀ ds' : List Deed, (∀ d ∈ ds', d ∈ ds) → ¬ ∃ d ∈ ds', d.Objects m := by
    rintro ds' hsub ⟨d, hd, hm⟩
    exact hds d (hsub d hd) hm
  rcases Leads.of_task_bind_done (t := chooseRoom g wish stay r) h with
    ⟨e, he, hchoose⟩ | ⟨room, first, last, rfl, -, hlast⟩
  · cases he
    cases hany : wish.anyRoom with
    | true =>
      have hblame : Blameless (chooseRoom g wish stay r).run :=
        (candid_recommended nofun nofun hany stay).blameless
      exact absurd (hblame ds m hchoose) (hno ds fun _ => id)
    | false =>
      unfold chooseRoom at hchoose
      rw [hany] at hchoose
      cases hroom : wish.room with
      | some room =>
        rw [hroom] at hchoose
        exact absurd ((candid_ok room).blameless ds m hchoose) (hno ds fun _ => id)
      | none =>
        rw [hroom] at hchoose
        obtain ⟨rfl, hm⟩ := Leads.of_done (a := Except.error BookingFailure.roomMissing) hchoose
        cases Process.done.inj hm
        exact ⟨rfl, rfl, rfl, rfl⟩
  · have hcandid : Candid (fun f => ∃ m, f = .invalid m)
        (ask (.insertPending ⟨uid, user, room, stay⟩) >>= conclude g r).run :=
      (candid_ask _).task_bind fun b => candid_conclude nofun nofun g r b
    exact absurd (hcandid.blameless last m hlast) (hno last fun _ => List.mem_append_right _)

theorem rejected_of_leads (hds : ∀ d ∈ ds, ¬ d.Objects m)
    (h : Leads (create g user wish r today uid).run ds (.done (.error (.invalid m)))) :
    Rejected wish r today m ds := by
  cases ends_of_leads h with
  | untimely hstay => exact .dates hstay
  | failed hstay hf =>
    have hmem : .did (.ledger (.accept r)) (.error (.invalid m)) ∈
        [.did (.meter .bookingStarted) (), Deed.did (.ledger (.accept r)) (.error (.invalid m))] :=
      List.mem_cons_of_mem _ List.mem_cons_self
    exact absurd rfl (hds _ hmem)
  | booked hstay h =>
    have hrest := fun d hd => hds d (List.mem_cons_of_mem _ (List.mem_cons_of_mem _ hd))
    obtain ⟨rfl, hany, hroom, hm⟩ := rejected_of_book hrest h
    exact .room hstay hany hroom hm

/-- What an order that makes no sense does to the world at one go. Only if it names no room, it may
use up its request. -/
structure Spares (r : RequestId) (m : String) (u u' : World) : Prop where
  inventory : u'.inventory = u.inventory
  holds : u'.holds = u.holds
  attempts : u'.attempts = u.attempts
  ledger : u'.ledger = u.ledger ∨ BookingFailure.invalid m = .roomMissing ∧
    u'.ledger = { u.ledger with requests := r :: u.ledger.requests }

theorem spares_refl (u : World) : Spares r m u u := ⟨rfl, rfl, rfl, .inl rfl⟩

theorem perform_accept {u : World} (h : (u.perform (.ledger (.accept r))).1 = .ok ()) :
    (u.perform (.ledger (.accept r))).2.ledger =
      { u.ledger with requests := r :: u.ledger.requests } := by
  change (u.callLedger (.accept r)).1 = .ok () at h
  change (u.callLedger (.accept r)).2.ledger = _
  rcases u.callLedger_cases (.accept r) with ⟨ha, hl⟩ | ⟨p, -, ha, -⟩
  · rw [hl]
    rw [ha] at h
    change (u.ledger.accept r).1 = .ok () at h
    change (u.ledger.accept r).2 = _
    unfold Ledger.accept at h ⊢
    split at h
    next => cases h
    next hno => rw [if_neg hno]
  · rw [ha] at h
    cases h

theorem Rejected.not_mem_linedUp (h : Rejected wish r today m ds) {room : RoomId} {t : Ticket} :
    .linedUp room t ∉ ds := by
  cases h <;> simp

theorem Rejected.spares (h : Rejected wish r today m ds) {u : World} {x : Action}
    (hx : .did x (u.perform x).1 ∈ ds) : Spares r m u (u.perform x).2 := by
  have hmeter : ∀ e, Spares r m u (u.perform (.meter e)).2 := fun e => ⟨rfl, rfl, rfl, .inl rfl⟩
  cases h with
  | dates h =>
    injection List.mem_singleton.mp hx with hx
    subst hx
    exact hmeter _
  | room h hany hroom hm =>
    rcases List.mem_cons.mp hx with hx | hx
    · injection hx with hx
      subst hx
      exact hmeter _
    · injection List.mem_singleton.mp hx with hx ha
      subst hx
      have hsame : (u.callLedger (.accept r)).2.holds = u.holds ∧
          (u.callLedger (.accept r)).2.attempts = u.attempts := by
        unfold World.callLedger
        split <;> exact ⟨rfl, rfl⟩
      exact ⟨World.perform_inventory fun _ => nofun, hsame.1, hsame.2,
        .inr ⟨hm, perform_accept (eq_of_heq ha)⟩⟩

end Rejected

/-- Whatever else goes on and whatever goes wrong, an order for a new booking that is turned down
because it makes no sense has asked nothing of the inventory and has left the inventory and the
bookings as they were. If its dates are at fault, it has not even had its request accepted, which
may so be used again. It has if they are not: then the order neither took any room nor named one,
and its request is the only thing that has changed. -/
theorem rejected_order_spares (w : World) (es : List (Event Order)) (i : ℕ) (o : Outlet)
    (user : UserId) (wish : BookingRequest) (r : RequestId) (today : Date) (uid : Uid) (m : String)
    (h : ((orders w).run es).jobs[i]? =
      some (.create o user wish r today uid, .finished (.error (.invalid m)))) :
    Rejected wish r today m (Deed.doneBy i ((orders w).journal es)) ∧
      ∀ before after, es = before ++ .advance i :: after →
        Spares r m ((orders w).run before).world
          ((orders w).run (before ++ [.advance i])).world := by
  have hrejected : Rejected wish r today m (Deed.doneBy i ((orders w).journal es)) := by
    refine rejected_of_leads (fun d hd => ?_) (Scene.told w es h)
    exact Scene.not_objects_of_mem_journal (Deed.mem_doneBy.mp hd) m
  refine ⟨hrejected, ?_⟩
  rintro before after rfl
  rw [Scene.run_concat]
  cases hj : ((orders w).run before).jobs[i]? with
  | none =>
    simp only [Scene.step, Scene.update, hj]
    exact spares_refl _
  | some y =>
    obtain ⟨c, j⟩ := y
    simp only [Scene.step, Scene.update, hj]
    cases hd : j.deed? ((orders w).run before).world with
    | none =>
      rw [Job.advance_of_deed?_eq_none hd]
      exact spares_refl _
    | some d =>
      -- what it does now is in the journal, so it is one of the few things that are done
      have hmem : d ∈ Deed.doneBy i ((orders w).journal (before ++ .advance i :: after)) := by
        have hdeed : (i, d) ∈ ((orders w).run before).deeds (.advance i) := by
          rw [Scene.deeds_advance hj, hd]
          exact List.mem_singleton_self _
        refine Deed.mem_doneBy.mpr ?_
        rw [Scene.journal_append]
        exact List.mem_append_right _ (List.mem_append_left _ hdeed)
      rcases j.advance_cases ((orders w).run before).world with ⟨x, hx, hw⟩ | ⟨hline, -⟩
      · obtain rfl := Option.some.inj (hd.symm.trans hx)
        rw [hw]
        exact hrejected.spares hmem
      · obtain ⟨room, t, rfl⟩ := hline d hd
        exact absurd hmem hrejected.not_mem_linedUp

/-- Someone wants a certain room and does not say which. -/
def roomless : Order :=
  .create (.direct .once) ⟨1⟩
    ⟨some Sample.twoNights.arrival, some Sample.twoNights.departure, false, none⟩ ⟨"1"⟩ Sample.newYear.date (Sample.uid 1)

theorem rejected_order_spares_roomless : ∃ m,
    Rejected ⟨some Sample.twoNights.arrival, some Sample.twoNights.departure, false, none⟩ ⟨"1"⟩
      Sample.newYear.date m
        (Deed.doneBy 0 ((orders (.furnished Sample.newYear [Sample.room])).journal
          (.start roomless :: List.replicate 3 (.advance 0)))) :=
  ⟨_, (rejected_order_spares (.furnished Sample.newYear [Sample.room])
    (.start roomless :: List.replicate 3 (.advance 0)) 0 (.direct .once) ⟨1⟩ _ ⟨"1"⟩
    Sample.newYear.date (Sample.uid 1) _ rfl).1⟩

/-- The same order, which now names a room. -/
def roomNamed : Order :=
  .create (.direct .once) ⟨1⟩
    (.ofRoom ⟨1⟩ Sample.twoNights.arrival Sample.twoNights.departure) ⟨"1"⟩ Sample.newYear.date (Sample.uid 1)

/-- Whoever forgets to name a room cannot make up for it under the same request. -/
theorem request_used_up :
    let s := (orders (.furnished Sample.newYear [Sample.room])).run
      (.start roomless :: List.replicate 3 (.advance 0))
    s.jobs[0]? = some (roomless, .finished (.error .roomMissing)) ∧
      s.world.ledger.requests = [⟨"1"⟩] ∧
      (s.run (.start roomNamed :: List.replicate 4 (.advance 1))).jobs[1]? =
        some (roomNamed, .finished (.error (.duplicate ⟨"1"⟩))) :=
  ⟨rfl, rfl, rfl⟩

end Desk

end Lodging
