import Lodging.Proofs.Desk.Parts
import Lodging.Proofs.Entries
import Lodging.World.Sample
import Mathlib.Data.List.Infix

/-!
The life of a booking. It is pending at first, and then confirmed or cancelled; what is confirmed
may be cancelled later, and what is cancelled stays so. The ledger itself does not see to this, but
makes any move that is asked for, so it is seen to by those who ask. Only the order that has made a
booking ever confirms it, and does not come to its end before the booking is pending no more.
-/

namespace Lodging

/-- The statuses that a booking may have had so far. -/
def Status.Course (h : List Status) : Prop :=
  h <+: [.pending, .confirmed, .cancelled] ∨ h <+: [.pending, .cancelled]

namespace Status.Course

variable {h : List Status} {s : Status}

theorem cases (hc : Course h) : h = [] ∨ h = [.pending] ∨ h = [.pending, .confirmed] ∨
    h = [.pending, .confirmed, .cancelled] ∨ h = [.pending, .cancelled] := by
  unfold Course at hc
  simp only [List.prefix_cons_iff, List.prefix_nil] at hc
  rcases hc with (rfl | ⟨_, rfl, rfl | ⟨_, rfl, rfl | ⟨_, rfl, rfl⟩⟩⟩) |
    (rfl | ⟨_, rfl, rfl | ⟨_, rfl, rfl⟩⟩) <;> simp

theorem first : Course [.pending] := .inl ⟨[.confirmed, .cancelled], rfl⟩

/-- A booking goes on to live as the rules allow. -/
theorem concat {next : Status} (hc : Course h) (hs : h.getLast? = some s) (ha : s.allows next) :
    Course (h ++ [next]) := by
  rcases hc.cases with rfl | rfl | rfl | rfl | rfl
  · cases hs
  · obtain rfl := Option.some.inj hs
    cases next with
    | pending => cases ha
    | confirmed => exact .inl ⟨[.cancelled], rfl⟩
    | cancelled => exact .inr ⟨[], rfl⟩
  · obtain rfl := Option.some.inj hs
    cases next with
    | cancelled => exact .inl ⟨[], rfl⟩
    | _ => cases ha
  · obtain rfl := Option.some.inj hs
    cases next <;> cases ha
  · obtain rfl := Option.some.inj hs
    cases next <;> cases ha

/-- Whoever has moved on is no longer pending. -/
theorem getLast?_ne (hc : Course h) (hlen : 2 ≤ h.length) : h.getLast? ≠ some .pending := by
  rcases hc.cases with rfl | rfl | rfl | rfl | rfl
  · exact absurd hlen (by decide)
  · exact absurd hlen (by decide)
  · decide
  · decide
  · decide

/-- Whoever has moved on without being confirmed was cancelled. -/
theorem getLast?_of_not_mem (hc : Course h) (hlen : 2 ≤ h.length) (hno : .confirmed ∉ h) :
    h.getLast? = some .cancelled := by
  rcases hc.cases with rfl | rfl | rfl | rfl | rfl
  · exact absurd hlen (by decide)
  · exact absurd hlen (by decide)
  · exact absurd (by decide) hno
  · rfl
  · rfl

/-- Whoever was confirmed has moved on. -/
theorem two_le_of_mem (hc : Course h) (hmem : .confirmed ∈ h) : 2 ≤ h.length := by
  rcases hc.cases with rfl | rfl | rfl | rfl | rfl
  · cases hmem
  · exact absurd hmem (by decide)
  · decide
  · decide
  · decide

theorem two_le_length (hc : Course h) (hs : h.getLast? = some s) (hne : s ≠ .pending) :
    2 ≤ h.length := by
  rcases hc.cases with rfl | rfl | rfl | rfl | rfl
  · cases hs
  · exact absurd (Option.some.inj hs).symm hne
  · decide
  · decide
  · decide

end Status.Course

/-- An action that moves bookings on in certain ways only. -/
def Action.Moves (P : BookingId → Status → Status → Prop) : Action → Prop
  | ledger (.updateStatus id expected next) => P id expected next
  | _ => True

theorem Action.OffLedger.moves {P : BookingId → Status → Status → Prop} {x : Action}
    (h : x.OffLedger) : x.Moves P := by
  cases x with
  | ledger c => cases h
  | _ => trivial

/-- A pending booking was confirmed. -/
def Deed.confirmed (id : BookingId) (b : Booking) : Deed :=
  .did (.ledger (.updateStatus id .pending .confirmed)) (.ok (some b))

namespace Desk

open Process (Uses Leads)

section Steps

variable {g : Gateway} {wish : BookingRequest} {r : RequestId} {today : Date} {b : Booking}
  {ds : List Deed} {P : BookingId → Status → Status → Prop}

theorem moves_draft (hg : g.OffLedger) : (draft g wish r today).run.Uses (Action.Moves P) :=
  uses_draft (fun _ => trivial) trivial fun stay =>
    (hg.recommend stay r).mono fun _ => Action.OffLedger.moves

theorem moves_conclude (hg : g.OffLedger) (hP : ∀ next, next ≠ .pending → P b.id .pending next) :
    (conclude g r b).run.Uses (Action.Moves P) :=
  uses_conclude (fun _ => trivial) hP ((hg.confirm _ _).mono fun _ => Action.OffLedger.moves)
    ((hg.release _ _ r).mono fun _ => Action.OffLedger.moves)

theorem moves_compensate (hg : g.OffLedger) (hP : P b.id .pending .cancelled) :
    (compensate g b r).Uses (Action.Moves P) :=
  uses_compensate (fun _ => trivial) hP ((hg.release _ _ r).mono fun _ => Action.OffLedger.moves)

theorem moves_cancel (hg : g.OffLedger) (hP : ∀ id s, s ≠ .cancelled → P id s .cancelled)
    (id : BookingId) (user : UserId) : (cancel g id user r).run.Uses (Action.Moves P) :=
  uses_cancel (fun _ => trivial) (fun _ => trivial) (fun b => hP b.id b.status)
    (fun _ _ => (hg.release _ _ r).mono fun _ => Action.OffLedger.moves) id user

/-- A booking was moved on if this is what was answered. -/
theorem leads_move {expected next : Status} {x : Except BookingFailure Booking}
    (h : Leads (move b expected next).run ds (.done x)) :
    ∃ a, ds = [.did (.ledger (.updateStatus b.id expected next)) a] ∧
      ∀ d, x = .ok d ↔ a = .ok (some d) := by
  change Leads (.act (.ledger (.updateStatus b.id expected next)) _) ds (.done x) at h
  cases h with
  | @did _ _ a rest _ h =>
    match a with
    | .ok (some c) | .ok none | .error f =>
      obtain ⟨rfl, hx⟩ := h.of_done
      cases hx
      exact ⟨_, rfl, fun d => by simp⟩

/-- A booking is confirmed if all that has to be done for this succeeds. -/
theorem leads_secure (hg : g.OffLedger) {x : Except BookingFailure Booking}
    (h : Leads (secure g b r).run ds (.done x)) :
    ∀ d, x = .ok d ↔ Deed.confirmed b.id d ∈ ds := by
  have hinvoke : (invoke (g.confirm b.room ⟨b.stay.arrival, b.stay.departure, b.uid, r⟩)).run.Uses
      (Action.Moves fun _ _ _ => False) :=
    uses_invoke ((hg.confirm _ _).mono fun _ => Action.OffLedger.moves)
  intro d
  rcases h.of_task_bind_done with ⟨f, rfl, hfirst⟩ | ⟨_, first, rest, rfl, hfirst, hmove⟩
  · exact ⟨nofun, fun hd => False.elim (hfirst.of_uses hinvoke hd)⟩
  · obtain ⟨a, rfl, ha⟩ := leads_move hmove
    rw [ha]
    constructor
    · rintro rfl
      exact List.mem_append_right _ List.mem_cons_self
    · intro hd
      rcases List.mem_append.mp hd with hd | hd
      · exact False.elim (hfirst.of_uses hinvoke hd)
      · injection List.mem_singleton.mp hd with _ heq
        exact heq.symm

/-- Whoever compensates tries to cancel, and confirms nothing. -/
theorem leads_compensate (hg : g.OffLedger) {u : Unit}
    (h : Leads (compensate g b r) ds (.done u)) : (∀ d, Deed.confirmed b.id d ∉ ds) ∧
      ∃ a, .did (.ledger (.updateStatus b.id .pending .cancelled)) a ∈ ds := by
  constructor
  · intro d hd
    have hmoves : (compensate g b r).Uses (Action.Moves fun _ _ next => next = .cancelled) :=
      moves_compensate hg rfl
    cases (h.of_uses hmoves hd : Status.confirmed = .cancelled)
  · obtain ⟨x, moved, quiet, rfl, hmove, -⟩ := h.of_bind_done
    obtain ⟨a, rfl, -⟩ := leads_move hmove
    exact ⟨a, List.mem_append_left _ List.mem_cons_self⟩

/-- An order that has come to its end has confirmed its booking, or has tried to cancel it. -/
theorem leads_conclude (hg : g.OffLedger) {x : Except BookingFailure BookingSummary}
    (h : Leads (conclude g r b).run ds (.done x)) :
    (∃ d, x = .ok d.summary ∧ Deed.confirmed b.id d ∈ ds) ∨
      (∃ f, x = .error f) ∧ (∀ d, Deed.confirmed b.id d ∉ ds) ∧
        ∃ a, .did (.ledger (.updateStatus b.id .pending .cancelled)) a ∈ ds := by
  cases concludes_of_leads h with
  | @confirmed secured d hsecure =>
    exact .inl ⟨d, rfl, List.mem_append_left _ ((leads_secure hg hsecure d).mp rfl)⟩
  | @undone secured undone f hsecure hundo =>
    obtain ⟨hno, a, ha⟩ := leads_compensate hg hundo
    refine .inr ⟨⟨f, rfl⟩, fun d hd => ?_, a, ?_⟩
    · rcases List.mem_append.mp hd with hd | hd
      · cases (leads_secure hg hsecure d).mpr hd
      rcases List.mem_cons.mp hd with hd | hd
      · cases hd
      rcases List.mem_append.mp hd with hd | hd
      · exact hno d hd
      · cases List.mem_singleton.mp hd
    · exact List.mem_append_right _ (List.mem_cons_of_mem _ (List.mem_append_left _ ha))

/-- Orders move bookings on as the rules allow: those for new bookings move what they have written
down, and all others only cancel. -/
theorem Order.moves {c : Order} {p : Process (Except BookingFailure BookingSummary)}
    (h : c.process.Leads ds p) {id : BookingId} {e next : Status}
    {a : (Action.ledger (.updateStatus id e next)).Answer}
    (hmove : .did (.ledger (.updateStatus id e next)) a ∈ ds) : e.allows next = true ∧
      ((∃ n b, .did (.ledger (.insertPending n)) (.ok b) ∈ ds ∧ b.id = id) ∨
        c.uid? = none ∧ next = .cancelled) := by
  cases c with
  | cancel o id' user r =>
    have hcancel : (Desk.cancel o.gateway id' user r).run.Uses
        (Action.Moves fun _ e next => e.allows next = true ∧ next = .cancelled) := by
      refine moves_cancel o.offLedger (fun _ s hs => ⟨?_, rfl⟩) id' user
      cases s with
      | cancelled => exact absurd rfl hs
      | _ => rfl
    obtain ⟨hallowed, hnext⟩ := h.of_uses hcancel hmove
    exact ⟨hallowed, .inr ⟨rfl, hnext⟩⟩
  | create o user wish r today uid =>
    have hdraft : (draft o.gateway wish r today).run.Uses (Action.Moves fun _ _ _ => False) :=
      moves_draft o.offLedger
    obtain ⟨n, b, rest, hb, hrest, hmove⟩ :=
      (creating_of_leads h).after_entry hmove (fun _ => nofun) hdraft fun hno => hno
    have hconclude : (conclude o.gateway r b).run.Uses
        (Action.Moves fun id e next => id = b.id ∧ e.allows next = true) := by
      refine moves_conclude o.offLedger fun next hnext => ⟨rfl, ?_⟩
      cases next with
      | pending => exact absurd rfl hnext
      | _ => rfl
    obtain ⟨rfl, hallowed⟩ := hrest.of_uses hconclude hmove
    exact ⟨hallowed, .inl ⟨n, b, hb, rfl⟩⟩

end Steps

section Runs

variable {w : World} {es : List (Event Order)} {i : ℕ} {id : BookingId} {b : Booking}

theorem moves_of_mem_journal {e next : Status}
    {a : (Action.ledger (.updateStatus id e next)).Answer}
    (h : (i, .did (.ledger (.updateStatus id e next)) a) ∈ (orders w).journal es) :
    ∃ c j, ((orders w).run es).jobs[i]? = some (c, j) ∧ e.allows next = true ∧
      ((∃ n b, (i, .did (.ledger (.insertPending n)) (.ok b)) ∈ (orders w).journal es ∧ b.id = id) ∨
        c.uid? = none ∧ next = .cancelled) := by
  obtain ⟨c, j, q, hj, hq⟩ := Scene.leads_of_mem_journal h
  obtain ⟨hallowed, hown⟩ := Order.moves hq (Deed.mem_doneBy.mpr h)
  refine ⟨c, j, hj, hallowed, hown.imp_left ?_⟩
  rintro ⟨n, b, hb, hid⟩
  exact ⟨n, b, Deed.mem_doneBy.mp hb, hid⟩

theorem status_run (hw : w.Unmeddled) (hrows : w.ledger.bookings = []) (es : List (Event Order))
    (id : BookingId) : (((orders w).run es).world.ledger.booking? id).map (·.status) =
      (Deed.history id ((orders w).journal es)).getLast? := by
  rw [Scene.booking?_run hw hrows]
  exact List.getLast?_map.symm

/-- What is written for a booking is what may come next. -/
theorem course_step (hw : w.Unmeddled) (hrows : w.ledger.bookings = [])
    (h : Status.Course (Deed.history id ((orders w).journal es))) (e : Event Order) :
    Status.Course (Deed.history id ((orders w).journal (es ++ [e]))) := by
  have hstatus := status_run hw hrows es id
  have hjournal := Scene.journal_concat (orders w) es e
  rw [hjournal, Scene.history_append]
  rcases ((orders w).run es).step_cases e with ⟨i, x, hd, -⟩ | ⟨hd, -⟩
  · rw [hd] at hjournal ⊢
    obtain ⟨-, hwrites⟩ := (Scene.unmeddled_run hw es).booking?_perform
      (Scene.numbered_run (s := orders w) (Ledger.numbered_of_nil hrows) es).1 x
    have hmem := hjournal ▸ List.mem_append_right _ (List.mem_singleton_self _)
    generalize (((orders w).run es).world.perform x).1 = a at hwrites hmem ⊢
    rw [Scene.history_singleton]
    cases hwr : (Deed.did x a).written?.filter (·.id = id) with
    | none => rwa [Option.toList_none, List.map_nil, List.append_nil]
    | some b =>
      obtain ⟨hwritten, hid⟩ := Option.filter_eq_some_iff.mp hwr
      obtain rfl := of_decide_eq_true hid
      -- a booking that is new has no history, one that is moved had the status expected
      cases hwrites b hwritten with
      | new hpending hnone =>
        rw [hnone, Option.map_none] at hstatus
        rw [List.getLast?_eq_none_iff.mp hstatus.symm]
        change Status.Course [b.status]
        rw [hpending]
        exact .first
      | moved hc =>
        obtain ⟨-, -, -, hallowed, -⟩ := moves_of_mem_journal hmem
        rw [hc, Option.map_some] at hstatus
        exact h.concat hstatus.symm hallowed
  · rwa [Scene.history_of_linedUp hd, List.append_nil]

theorem course_run (hw : w.Unmeddled) (hrows : w.ledger.bookings = []) (es : List (Event Order))
    (id : BookingId) : Status.Course (Deed.history id ((orders w).journal es)) := by
  induction es using List.reverseRecOn with
  | nil => exact .inl List.nil_prefix
  | append_singleton es e ih => exact course_step hw hrows ih e

/-- What was written of a booking that was confirmed is this booking, as it was made. -/
theorem confirmed_of_mem_journal (hw : w.Unmeddled) (hrows : w.ledger.bookings = []) {d : Booking}
    (h : (i, Deed.confirmed id d) ∈ (orders w).journal es) :
    d.id = id ∧ d.status = .confirmed ∧ d.asMade ∈ Scene.entries ((orders w).journal es) := by
  obtain ⟨l, hwrites, hmade⟩ := Scene.exists_writes (s := orders w) hw hrows h rfl
  generalize hx : Action.ledger (.updateStatus id .pending .confirmed) = x at hwrites
  cases hwrites with
  | new hpending hnone => cases hx
  | @moved c next hc =>
    injection hx with hx
    injection hx with hid _ hnext
    subst hid hnext
    exact ⟨rfl, rfl, hmade c (Ledger.booking?_eq_some hc).1⟩

theorem exists_confirmed (hw : w.Unmeddled) (hrows : w.ledger.bookings = [])
    (h : .confirmed ∈ Deed.history id ((orders w).journal es)) :
    ∃ i d, (i, Deed.confirmed id d) ∈ (orders w).journal es := by
  obtain ⟨b, hb, hs⟩ := List.mem_map.mp h
  obtain ⟨i, d, hmem, hwritten, rfl⟩ := Scene.mem_writes.mp hb
  cases d with
  | linedUp room t => cases hwritten
  | did x a =>
    obtain ⟨l, hwrites, -⟩ := Scene.exists_writes (s := orders w) hw hrows hmem hwritten
    cases hwrites with
    | new hpending hnone =>
      rw [hs] at hpending
      cases hpending
    | @moved c next hc =>
      change next = .confirmed at hs
      subst hs
      obtain ⟨-, -, -, hallowed, -⟩ := moves_of_mem_journal hmem
      have hpending : c.status = .pending := by
        cases hc : c.status with
        | pending => rfl
        | _ => rw [hc] at hallowed; cases hallowed
      match a with
      | .ok (some d) =>
        obtain rfl := Option.some.inj hwritten
        rw [hpending] at hmem
        exact ⟨i, _, hmem⟩

/-- Nobody but the order that has made a booking confirms it. -/
theorem eq_of_confirmed (hrows : w.ledger.bookings = []) {k : ℕ} {n : NewBooking} {d : Booking}
    (hb : (i, .did (.ledger (.insertPending n)) (.ok b)) ∈ (orders w).journal es)
    (hd : (k, Deed.confirmed b.id d) ∈ (orders w).journal es) : k = i := by
  obtain ⟨-, -, -, -, ⟨m, c, hc, hid⟩ | ⟨-, hno⟩⟩ := moves_of_mem_journal hd
  · have hids := (Scene.made_run (s := orders w) hrows es).2
    exact congrArg Prod.fst (Scene.eq_of_entry hids hc hb rfl rfl hid)
  · cases hno

/-- An order for a new booking has written down what it moves on. -/
theorem made_before {before after : List (Event Order)} {e : Event Order} {c : Order}
    {j : Job (Except BookingFailure BookingSummary)}
    (hj : ((orders w).run (before ++ e :: after)).jobs[i]? = some (c, j)) {uid : Uid}
    (hc : c.uid? = some uid) {expected next : Status}
    {a : (Action.ledger (.updateStatus id expected next)).Answer}
    (he : ((orders w).run before).deeds e =
      [(i, .did (.ledger (.updateStatus id expected next)) a)]) :
    ∃ n b, (i, .did (.ledger (.insertPending n)) (.ok b)) ∈ (orders w).journal before ∧
      b.id = id := by
  have hjournal := Scene.journal_concat (orders w) before e
  rw [he] at hjournal
  have hmem := hjournal ▸ List.mem_append_right ((orders w).journal before) List.mem_cons_self
  obtain ⟨c', j', hj', -, ⟨n, b, hb, hid⟩ | ⟨hno, -⟩⟩ := moves_of_mem_journal hmem
  · rw [hjournal] at hb
    rcases List.mem_append.mp hb with hb | hb
    · exact ⟨n, b, hb, hid⟩
    · cases List.mem_singleton.mp hb
  · obtain ⟨j'', hj''⟩ := Scene.exists_job_run hj' after
    rw [← Scene.run_append, List.append_assoc, List.singleton_append, hj] at hj''
    obtain ⟨rfl, -⟩ := Prod.mk.inj (Option.some.inj hj'')
    rw [hc] at hno
    cases hno

/-- Whoever tries to cancel a booking that was pending leaves it pending no more. -/
theorem two_le_of_cancel (hw : w.ledgerPlans = []) (hrows : w.ledger.bookings = [])
    {before : List (Event Order)} {e : Event Order}
    {a : (Action.ledger (.updateStatus id .pending .cancelled)).Answer}
    (he : ((orders w).run before).deeds e =
      [(i, .did (.ledger (.updateStatus id .pending .cancelled)) a)])
    (ha : a = (((orders w).run before).world.perform
      (.ledger (.updateStatus id .pending .cancelled))).1)
    (hmade : Deed.history id ((orders w).journal before) ≠ []) :
    2 ≤ (Deed.history id ((orders w).journal (before ++ [e]))).length := by
  have hun : w.Unmeddled := fun p hp => absurd (hw ▸ hp) List.not_mem_nil
  have hstatus := status_run hun hrows before id
  have hpos := List.length_pos_iff.mpr hmade
  rw [Scene.journal_concat, he, Scene.history_append, List.length_append]
  cases hfound : ((orders w).run before).world.ledger.booking? id with
  | none =>
    rw [hfound, Option.map_none] at hstatus
    exact absurd (List.getLast?_eq_none_iff.mp hstatus.symm) hmade
  | some c =>
    rw [hfound, Option.map_some] at hstatus
    by_cases hpending : c.status = .pending
    · -- nobody has been faster, so that the booking is cancelled now
      have hid := (Ledger.booking?_eq_some hfound).2
      have hplans := Scene.run_ledgerPlans (s := orders w) hw before
      have hone := World.perform_updateStatus hplans hfound .cancelled
      rw [hpending, ← ha] at hone
      have hkept : (Deed.did (.ledger (.updateStatus id .pending .cancelled))
          (.ok (some { c with status := .cancelled }))).written?.filter (·.id = id) =
            some { c with status := .cancelled } :=
        Option.filter_eq_some_iff.mpr ⟨rfl, decide_eq_true hid⟩
      rw [hone, Scene.history_singleton, hkept]
      exact Nat.add_le_add hpos (Nat.le_refl 1)
    · have hlen := (course_run hun hrows before id).two_le_length hstatus.symm hpending
      omega

/-- An order that has tried to cancel what it has made leaves it pending no more. -/
theorem two_le_of_mem_journal (hw : w.ledgerPlans = []) (hrows : w.ledger.bookings = [])
    {c : Order} {j : Job (Except BookingFailure BookingSummary)}
    (hj : ((orders w).run es).jobs[i]? = some (c, j)) {uid : Uid} (hc : c.uid? = some uid)
    {a : (Action.ledger (.updateStatus id .pending .cancelled)).Answer}
    (h : (i, .did (.ledger (.updateStatus id .pending .cancelled)) a) ∈ (orders w).journal es) :
    2 ≤ (Deed.history id ((orders w).journal es)).length := by
  obtain ⟨before, e, after, rfl, he, ha, -⟩ := Scene.exists_perform h
  obtain ⟨n, b, hb, rfl⟩ := made_before hj hc he
  have hmade : b.status ∈ Deed.history b.id ((orders w).journal before) :=
    List.mem_map_of_mem (Scene.mem_writes.mpr ⟨i, _, hb, rfl, rfl⟩)
  have hlen := two_le_of_cancel hw hrows he ha (List.ne_nil_of_mem hmade)
  rw [← List.singleton_append, ← List.append_assoc, Scene.journal_append, Scene.history_append,
    List.length_append]
  omega

/-- An order that has come to its end has confirmed what it has made, or has tried to cancel it. -/
theorem concluded {c : Order} {x : Except BookingFailure BookingSummary} {n : NewBooking}
    (hj : ((orders w).run es).jobs[i]? = some (c, .finished x))
    (hb : (i, .did (.ledger (.insertPending n)) (.ok b)) ∈ (orders w).journal es) :
    (∃ d, x = .ok d.summary ∧ (i, Deed.confirmed b.id d) ∈ (orders w).journal es) ∨
      (∃ f, x = .error f) ∧ (∀ d, (i, Deed.confirmed b.id d) ∉ (orders w).journal es) ∧
        ∃ uid a, c.uid? = some uid ∧
          (i, .did (.ledger (.updateStatus b.id .pending .cancelled)) a) ∈ (orders w).journal es := by
  have htold := Scene.told w es hj
  have hmem := Deed.mem_doneBy.mpr hb
  cases c with
  | cancel o id user r =>
    rcases Order.entries htold with hnil | ⟨_, _, _, hu, _⟩
    · have hentry : b ∈ [] := hnil ▸ List.mem_filterMap.mpr ⟨_, hmem, rfl⟩
      cases hentry
    · cases hu
  | create o user wish r today uid =>
    -- what the order does is parted where it writes the booking down
    obtain ⟨first, rest, q, hds, hfirst, hrest⟩ :=
      (creating_of_leads htold).of_entry o.offLedger hmem
    rcases leads_conclude o.offLedger hrest with ⟨d, hx, hd⟩ | ⟨hx, hno, a, ha⟩
    · refine .inl ⟨d, hx, Deed.mem_doneBy.mp ?_⟩
      rw [hds]
      exact List.mem_append_right _ (List.mem_cons_of_mem _ hd)
    · refine .inr ⟨hx, fun d hd => ?_, uid, a, rfl, Deed.mem_doneBy.mp ?_⟩
      · have hd := Deed.mem_doneBy.mpr hd
        rw [hds] at hd
        rcases List.mem_append.mp hd with hd | hd
        · have hdraft : (draft o.gateway wish r today).run.Uses
              (Action.Moves fun _ _ _ => False) := moves_draft o.offLedger
          exact hfirst.of_uses hdraft hd
        rcases List.mem_cons.mp hd with hd | hd
        · cases hd
        · exact hno d hd
      · rw [hds]
        exact List.mem_append_right _ (List.mem_cons_of_mem _ ha)

/-- A booking whose order has come to its end is confirmed, or has been, or is cancelled. -/
theorem settled_of_finished (hplans : w.ledgerPlans = []) (hrows : w.ledger.bookings = [])
    {c : Order} {x : Except BookingFailure BookingSummary} {n : NewBooking}
    (hj : ((orders w).run es).jobs[i]? = some (c, .finished x))
    (hb : (i, .did (.ledger (.insertPending n)) (.ok b)) ∈ (orders w).journal es) :
    ∃ d, ((orders w).run es).world.ledger.booking? b.id = some d ∧ b.Same d ∧
      d.status ≠ .pending ∧ (x = .ok { b with status := .confirmed }.summary ∨
        (∃ f, x = .error f) ∧ d.status = .cancelled) := by
  have hw : w.Unmeddled := fun p hp => absurd (hplans ▸ hp) List.not_mem_nil
  have hcourse := course_run hw hrows es b.id
  have hstatus := status_run hw hrows es b.id
  obtain ⟨hmade, hids⟩ := Scene.made_run (s := orders w) hrows es
  have hsame : ∀ d, d.asMade ∈ Scene.entries ((orders w).journal es) → d.id = b.id → b.Same d := by
    intro d hd hid
    obtain ⟨-, hpending⟩ := Scene.entry_of_mem_journal hb
    have hentry := Rows.eq_of_key hids hd (Scene.mem_entries.mpr ⟨i, n, hb⟩) hid
    refine .of_asMade (hentry.trans ?_)
    unfold Booking.asMade
    rw [← hpending]
  -- being pending is not the last entry of its history
  have hmoved : 2 ≤ (Deed.history b.id ((orders w).journal es)).length ∧
      (x = .ok { b with status := .confirmed }.summary ∨ (∃ f, x = .error f) ∧
        .confirmed ∉ Deed.history b.id ((orders w).journal es)) := by
    rcases concluded hj hb with ⟨d, rfl, hd⟩ | ⟨hx, hno, uid, a, hu, ha⟩
    · obtain ⟨hid, hs, hentry⟩ := confirmed_of_mem_journal hw hrows hd
      have hmem : .confirmed ∈ Deed.history b.id ((orders w).journal es) :=
        hs ▸ List.mem_map_of_mem (Scene.mem_writes.mpr ⟨i, _, hd, rfl, hid⟩)
      have hd : d = { b with status := .confirmed } := hs ▸ hsame d hentry hid
      exact ⟨hcourse.two_le_of_mem hmem, .inl (hd ▸ rfl)⟩
    · refine ⟨two_le_of_mem_journal hplans hrows hj hu ha, .inr ⟨hx, fun hmem => ?_⟩⟩
      obtain ⟨k, d, hd⟩ := exists_confirmed hw hrows hmem
      obtain rfl := eq_of_confirmed hrows hb hd
      exact hno d hd
  obtain ⟨hlen, hx⟩ := hmoved
  -- the last entry is the status that the ledger shows
  cases hfound : ((orders w).run es).world.ledger.booking? b.id with
  | none =>
    rw [hfound, Option.map_none] at hstatus
    rw [List.getLast?_eq_none_iff.mp hstatus.symm] at hlen
    exact absurd hlen (by decide)
  | some d =>
    rw [hfound, Option.map_some] at hstatus
    obtain ⟨hd, hid⟩ := Ledger.booking?_eq_some hfound
    refine ⟨d, rfl, hsame d (hmade ▸ List.mem_map_of_mem hd) hid, ?_, hx.imp_right ?_⟩
    · intro hpending
      exact hcourse.getLast?_ne hlen (hpending ▸ hstatus.symm)
    · rintro ⟨hf, hno⟩
      exact ⟨hf, Option.some.inj (hstatus.trans (hcourse.getLast?_of_not_mem hlen hno))⟩

/-- Bookings live as the rules allow, whoever orders what, whatever the inventory answers and
whatever goes wrong there: what has been written for one is pending at first, then confirmed or
cancelled, and nothing once it is cancelled; and no move is even tried that is not allowed. If the
ledger itself does not fail, a booking is pending no more from the moment on at which the order that
has written it down comes to its end: this order succeeds with what callers see of the booking as
confirmed, or fails and the booking is cancelled. -/
theorem bookings_move_on (w : World) (hw : w.Unmeddled) (hrows : w.ledger.bookings = [])
    (es : List (Event Order)) :
    (∀ id, Status.Course (Deed.history id ((orders w).journal es)) ∧
        (((orders w).run es).world.ledger.booking? id).map (·.status) =
          (Deed.history id ((orders w).journal es)).getLast?) ∧
      (∀ i id e next a, (i, .did (.ledger (.updateStatus id e next)) a) ∈ (orders w).journal es →
        e.allows next = true) ∧
      (w.ledgerPlans = [] → ∀ i c x n b, ((orders w).run es).jobs[i]? = some (c, .finished x) →
        (i, .did (.ledger (.insertPending n)) (.ok b)) ∈ (orders w).journal es → ∀ fs,
        ∃ d, ((orders w).run (es ++ fs)).world.ledger.booking? b.id = some d ∧ b.Same d ∧
          d.status ≠ .pending ∧ (x = .ok { b with status := .confirmed }.summary ∨
            (∃ f, x = .error f) ∧ d.status = .cancelled)) := by
  refine ⟨fun id => ⟨course_run hw hrows es id, status_run hw hrows es id⟩, ?_, ?_⟩
  · intro i id e next a h
    obtain ⟨-, -, -, hallowed, -⟩ := moves_of_mem_journal h
    exact hallowed
  · intro hplans i c x n b hj hb fs
    have hj := Scene.finished_run hj fs
    have hb := List.mem_append_left (((orders w).run es).journal fs) hb
    rw [← Scene.run_append] at hj
    rw [← Scene.journal_append] at hb
    exact settled_of_finished hplans hrows hj hb

end Runs

/-- A booking is cancelled after its room has been locked, and before it can be confirmed. -/
def outrun : List (Event Order) :=
  [.start (.ofCall (Sample.booking 1)), .start (.ofCall (Sample.cancellation 1))] ++
    List.replicate 12 (.advance 0) ++ List.replicate 20 (.advance 1) ++
    List.replicate 20 (.advance 0)

theorem bookings_move_on_of_outrun :
    Status.Course (Deed.history ⟨1⟩
      ((orders (.furnished Sample.newYear [Sample.room])).journal outrun)) ∧
    ∃ d, ((orders (.furnished Sample.newYear [Sample.room])).run
      outrun).world.ledger.booking? ⟨1⟩ = some d ∧ d.status = .cancelled := by
  have hentry : ∃ b ∈ (Deed.doneBy 0 ((orders (.furnished Sample.newYear
      [Sample.room])).journal outrun)).filterMap Deed.made?, b.id = ⟨1⟩ := by
    decide +kernel
  obtain ⟨b, hb, hid⟩ := hentry
  obtain ⟨d, hd, hdb⟩ := List.mem_filterMap.mp hb
  obtain ⟨n, rfl⟩ := Deed.of_made?_eq_some hdb
  have hjob : ((orders (.furnished Sample.newYear [Sample.room])).run outrun).jobs[0]?.map
      (·.2.failed) = some true := by
    decide +kernel
  obtain ⟨⟨c, j⟩, hj, hfailed⟩ := Option.map_eq_some_iff.mp hjob
  obtain ⟨f, rfl⟩ := Job.exists_of_failed hfailed
  obtain ⟨hcourse, -, hend⟩ := bookings_move_on (.furnished Sample.newYear [Sample.room])
    (fun p hp => absurd hp List.not_mem_nil) rfl outrun
  obtain ⟨d, hfound, -, -, hx⟩ := hend rfl 0 c _ n b hj (Deed.mem_doneBy.mp hd) []
  rw [List.append_nil] at hfound
  refine ⟨(hcourse ⟨1⟩).1, d, hid ▸ hfound, ?_⟩
  rcases hx with hx | ⟨-, hs⟩
  · cases hx
  · exact hs

end Desk

end Lodging
