import Lodging.Proofs.Desk.Outlet

/-!
The parts of an order to the booking desk, and what each of them does. An order for a new booking
first drafts the booking, without asking for anything but the acceptance of its request and a room,
then writes it down, and from then on does nothing but for this booking.
-/

namespace Lodging

/-- An action that writes no booking down. -/
def Action.Bookless : Action → Prop
  | ledger (.insertPending _) => False
  | _ => True

theorem Action.OffLedger.bookless {x : Action} (h : x.OffLedger) : x.Bookless := by
  cases x with
  | ledger c => cases h
  | _ => trivial

theorem Action.Bookless.made?_eq_none {x : Action} (hx : x.Bookless) (a : x.Answer) :
    (Deed.did x a).made? = none := by
  match x with
  | .ledger (.insertPending n) => exact hx.elim
  | .ledger (.accept _) | .ledger (.updateStatus ..) | .ledger (.get _) | .ledger (.pageOf ..)
  | .rooms _ | .leave _ | .meter _ | .readings | .attempt _ | .planned _ | .sleep _ => rfl

theorem Process.Leads.entries_of_bookless {α : Type} {p q : Process α} {ds : List Deed}
    (h : p.Leads ds q) (hp : p.Uses Action.Bookless) : ds.filterMap Deed.made? = [] := by
  refine List.filterMap_eq_nil_iff.mpr fun d hd => ?_
  cases d with
  | linedUp room t => rfl
  | did x a => exact Action.Bookless.made?_eq_none (h.of_uses hp hd) a

namespace Desk

open Process (Uses Leads Solely)

section Parts

variable {α : Type} {kind : Action → Prop} {g : Gateway} {b : Booking} {r : RequestId}

theorem solely_ask {c : LedgerCall} (hc : kind (.ledger c)) : (ask c).run.Solely kind :=
  ⟨hc, fun _ => trivial⟩

theorem uses_ask {c : LedgerCall} (hc : kind (.ledger c)) : (ask c).run.Uses kind :=
  (solely_ask hc).uses

theorem uses_note {m : Meter} (hm : kind (.meter m)) : (note m).run.Uses kind :=
  ⟨hm, fun _ => trivial⟩

theorem uses_invoke {p : Process (Except CallFailure α)} (hp : p.Uses kind) :
    (invoke p).run.Uses kind :=
  Uses.bind hp fun _ => trivial

theorem solely_accept (haccept : kind (.ledger (.accept r))) (hmeter : ∀ m, kind (.meter m)) :
    (accept r).run.Solely kind := by
  refine ⟨haccept, fun a => ?_⟩
  match a with
  | .ok () => trivial
  | .error (.duplicate q) => exact ⟨hmeter _, fun _ => trivial⟩
  | .error (.invalid _) | .error .noRoom | .error (.notFound _) | .error (.stale ..)
  | .error (.inventory _) | .error .storage | .error .migration => trivial

theorem uses_chooseRoom {stay : Stay} (hrecommend : (g.recommend stay r).Uses kind)
    (q : BookingRequest) : (chooseRoom g q stay r).run.Uses kind := by
  unfold chooseRoom
  cases q.anyRoom with
  | true =>
    refine Uses.task_bind (uses_invoke hrecommend) fun rooms => ?_
    cases rooms <;> trivial
  | false => cases q.room <;> trivial

theorem solely_move {expected next : Status}
    (hmove : kind (.ledger (.updateStatus b.id expected next))) :
    (move b expected next).run.Solely kind := by
  refine Solely.task_bind (solely_ask hmove) fun c => ?_
  cases c <;> trivial

theorem uses_move {expected next : Status}
    (hmove : kind (.ledger (.updateStatus b.id expected next))) :
    (move b expected next).run.Uses kind :=
  (solely_move hmove).uses

theorem uses_releaseQuietly (hmeter : ∀ m, kind (.meter m))
    (hrelease : (g.release b.room b.uid r).Uses kind) : (releaseQuietly g b r).Uses kind := by
  refine Uses.bind hrelease fun x => ?_
  cases x with
  | ok a => trivial
  | error f => exact ⟨hmeter _, fun _ => trivial⟩

theorem uses_compensate (hmeter : ∀ m, kind (.meter m))
    (hcancel : kind (.ledger (.updateStatus b.id .pending .cancelled)))
    (hrelease : (g.release b.room b.uid r).Uses kind) : (compensate g b r).Uses kind := by
  have hquiet := uses_releaseQuietly hmeter hrelease
  refine Uses.bind (uses_move hcancel) fun x => ?_
  cases x with
  | ok c => exact hquiet
  | error f => exact ⟨hmeter _, fun _ => hquiet⟩

theorem uses_secure (hconfirmed : kind (.ledger (.updateStatus b.id .pending .confirmed)))
    (hconfirm : (g.confirm b.room ⟨b.stay.arrival, b.stay.departure, b.uid, r⟩).Uses kind) :
    (secure g b r).run.Uses kind :=
  Uses.task_bind (uses_invoke hconfirm) fun _ => uses_move hconfirmed

theorem uses_settle (hmeter : ∀ m, kind (.meter m))
    (hmove : ∀ next, next ≠ .pending → kind (.ledger (.updateStatus b.id .pending next)))
    (hconfirm : (g.confirm b.room ⟨b.stay.arrival, b.stay.departure, b.uid, r⟩).Uses kind)
    (hrelease : (g.release b.room b.uid r).Uses kind) : (settle g b r).Uses kind := by
  refine Uses.bind (uses_secure (hmove _ nofun) hconfirm) fun x => ?_
  cases x with
  | ok c => exact ⟨hmeter _, fun _ => trivial⟩
  | error f =>
    refine ⟨hmeter _, fun _ => ?_⟩
    change (compensate g b r >>= _).Uses kind
    exact Uses.bind (uses_compensate hmeter (hmove _ nofun) hrelease) fun _ => trivial

theorem solely_owned {id : BookingId} (hget : kind (.ledger (.get id))) (user : UserId) :
    (owned id user).run.Solely kind := by
  refine Solely.task_bind (solely_ask hget) fun b => ?_
  cases b with
  | none => trivial
  | some b =>
    simp only
    split <;> trivial

theorem uses_owned {id : BookingId} (hget : kind (.ledger (.get id))) (user : UserId) :
    (owned id user).run.Uses kind :=
  (solely_owned hget user).uses

theorem solely_markCancelled (hcancel : kind (.ledger (.updateStatus b.id b.status .cancelled)))
    (hget : kind (.ledger (.get b.id))) : (markCancelled b).run.Solely kind := by
  refine Solely.task_bind (solely_ask hcancel) fun c => ?_
  cases c with
  | some c => trivial
  | none =>
    refine Solely.task_bind (solely_ask hget) fun d => ?_
    cases d with
    | none => trivial
    | some d =>
      simp only
      split <;> trivial

theorem uses_markCancelled (hcancel : kind (.ledger (.updateStatus b.id b.status .cancelled)))
    (hget : kind (.ledger (.get b.id))) : (markCancelled b).run.Uses kind :=
  (solely_markCancelled hcancel hget).uses

/-- What is left of a cancellation once the booking was found. -/
def withdraw (g : Gateway) (r : RequestId) (b : Booking) : Task BookingSummary :=
  if b.status = .cancelled then return b.summary
  else do
    ExceptT.lift (releaseQuietly g b r)
    let b' ← markCancelled b
    note .bookingCancelled
    return b'.summary

theorem cancel_eq (g : Gateway) (id : BookingId) (user : UserId) (r : RequestId) :
    cancel g id user r = owned id user >>= withdraw g r := rfl

theorem uses_withdraw (hmeter : ∀ m, kind (.meter m)) (hget : kind (.ledger (.get b.id)))
    (hcancel : b.status ≠ .cancelled → kind (.ledger (.updateStatus b.id b.status .cancelled)))
    (hrelease : (g.release b.room b.uid r).Uses kind) : (withdraw g r b).run.Uses kind := by
  unfold withdraw
  split
  next => trivial
  next hb =>
    have hquiet := uses_releaseQuietly hmeter hrelease
    refine Uses.task_bind (Uses.bind hquiet fun _ => trivial) fun _ => ?_
    refine Uses.task_bind (uses_markCancelled (hcancel hb) hget) fun _ => ?_
    exact Uses.task_bind (uses_note (hmeter _)) fun _ => trivial

theorem uses_cancel (hmeter : ∀ m, kind (.meter m)) (hget : ∀ id, kind (.ledger (.get id)))
    (hcancel : ∀ b : Booking, b.status ≠ .cancelled →
      kind (.ledger (.updateStatus b.id b.status .cancelled)))
    (hrelease : ∀ room uid, (g.release room uid r).Uses kind) (id : BookingId) (user : UserId) :
    (cancel g id user r).run.Uses kind := by
  rw [cancel_eq]
  exact Uses.task_bind (uses_owned (hget id) user) fun b =>
    uses_withdraw hmeter (hget b.id) (hcancel b) (hrelease b.room b.uid)

end Parts

section Creating

variable {kind : Action → Prop} {g : Gateway} {user : UserId} {wish : BookingRequest}
  {r : RequestId} {today : Date} {uid : Uid} {b : Booking} {ds : List Deed}
  {p : Process (Except BookingFailure BookingSummary)}

/-- What comes before the booking is written down: its room and its stay are found. -/
def draft (g : Gateway) (q : BookingRequest) (r : RequestId) (today : Date) :
    Task (RoomId × Stay) := do
  note .bookingStarted
  match Stay.requested q.arrival q.departure today with
  | .error f => throw f
  | .ok stay =>
    accept r
    let room ← chooseRoom g q stay r
    return (room, stay)

/-- What comes after. -/
def conclude (g : Gateway) (r : RequestId) (b : Booking) : Task BookingSummary :=
  ExceptT.mk ((settle g b r).metered fun _ => .bookingTimed)

theorem create_eq_draft (g : Gateway) (user : UserId) (q : BookingRequest) (r : RequestId)
    (today : Date) (uid : Uid) : create g user q r today uid = draft g q r today >>= fun x =>
      ask (.insertPending ⟨uid, user, x.1, x.2⟩) >>= conclude g r := by
  unfold create draft
  rw [bind_assoc]
  congr 1
  funext _
  cases Stay.requested q.arrival q.departure today with
  | error f => rfl
  | ok stay =>
    simp only [bind_assoc, pure_bind]
    rfl

theorem uses_draft (hmeter : ∀ m, kind (.meter m)) (haccept : kind (.ledger (.accept r)))
    (hrecommend : ∀ stay, (g.recommend stay r).Uses kind) :
    (draft g wish r today).run.Uses kind := by
  refine Uses.task_bind (uses_note (hmeter _)) fun _ => ?_
  cases Stay.requested wish.arrival wish.departure today with
  | error f => trivial
  | ok stay =>
    refine Uses.task_bind ((solely_accept haccept hmeter).uses) fun _ => ?_
    exact Uses.task_bind (uses_chooseRoom (hrecommend stay) wish) fun _ => trivial

theorem uses_conclude (hmeter : ∀ m, kind (.meter m))
    (hmove : ∀ next, next ≠ .pending → kind (.ledger (.updateStatus b.id .pending next)))
    (hconfirm : (g.confirm b.room ⟨b.stay.arrival, b.stay.departure, b.uid, r⟩).Uses kind)
    (hrelease : (g.release b.room b.uid r).Uses kind) : (conclude g r b).run.Uses kind :=
  Uses.bind (uses_settle hmeter hmove hconfirm hrelease) fun _ => ⟨hmeter _, fun _ => trivial⟩

/-- The ways in which the order for a pending booking comes to its end: the booking is confirmed, or
it is undone. The time is taken at the end, however the order went. -/
inductive Concludes (g : Gateway) (r : RequestId) (b : Booking) :
    List Deed → Except BookingFailure BookingSummary → Prop
  | confirmed {secured : List Deed} {d : Booking}
    (h : Leads (secure g b r).run secured (.done (.ok d))) :
    Concludes g r b
      (secured ++ [.did (.meter .bookingConfirmed) (), .did (.meter .bookingTimed) ()])
      (.ok d.summary)
  | undone {secured undone : List Deed} {f : BookingFailure}
    (h : Leads (secure g b r).run secured (.done (.error f)))
    (hundo : Leads (compensate g b r) undone (.done ())) :
    Concludes g r b
      (secured ++ .did (.meter (.compensation f.kind)) () ::
        (undone ++ [.did (.meter .bookingTimed) ()])) (.error f)

theorem concludes_of_leads {x : Except BookingFailure BookingSummary}
    (h : Leads (conclude g r b).run ds (.done x)) : Concludes g r b ds x := by
  obtain ⟨y, settled, timed, rfl, hsettle, htimed⟩ := h.of_bind_done
  cases htimed with
  | did hend =>
    obtain ⟨rfl, hx⟩ := hend.of_done
    cases hx
    obtain ⟨z, secured, rest, rfl, hsecure, hrest⟩ := hsettle.of_bind_done
    rw [List.append_assoc]
    cases z with
    | ok d =>
      cases hrest with
      | did hend =>
        obtain ⟨rfl, hx⟩ := hend.of_done
        cases hx
        exact .confirmed hsecure
    | error f =>
      cases hrest with
      | @did _ _ _ rest _ hrest =>
        change Leads (compensate g b r >>= fun _ => .done (.error f)) rest (.done x) at hrest
        obtain ⟨u, undone, last, rfl, hundo, hlast⟩ := hrest.of_bind_done
        obtain ⟨rfl, hx⟩ := hlast.of_done
        cases hx
        rw [List.append_nil]
        exact .undone hsecure hundo

/-- What an order for a new booking has done, and where it stands. -/
inductive Creating (g : Gateway) (user : UserId) (wish : BookingRequest) (r : RequestId)
    (today : Date) (uid : Uid) :
    List Deed → Process (Except BookingFailure BookingSummary) → Prop
  | drafting {ds : List Deed} {p : Process (Except BookingFailure BookingSummary)}
    {q : Process (Except BookingFailure (RoomId × Stay))}
    (h : Leads (draft g wish r today).run ds q) : Creating g user wish r today uid ds p
  | failed {ds : List Deed} {n : NewBooking} {f : BookingFailure}
    {q : Process (Except BookingFailure (RoomId × Stay))}
    (h : Leads (draft g wish r today).run ds q) :
    Creating g user wish r today uid (ds ++ [.did (.ledger (.insertPending n)) (.error f)])
      (.done (.error f))
  | written {ds rest : List Deed} {p : Process (Except BookingFailure BookingSummary)}
    {q : Process (Except BookingFailure (RoomId × Stay))} {n : NewBooking} {b : Booking}
    (h : Leads (draft g wish r today).run ds q) (hn : n.uid = uid)
    (hrest : Leads (conclude g r b).run rest p) :
    Creating g user wish r today uid (ds ++ .did (.ledger (.insertPending n)) (.ok b) :: rest) p

theorem creating_of_leads (h : Leads (create g user wish r today uid).run ds p) :
    Creating g user wish r today uid ds p := by
  rw [create_eq_draft] at h
  rcases Leads.of_bind h with ⟨q, hq, -⟩ | ⟨x, first, rest, rfl, hfirst, hrest⟩
  · exact .drafting hq
  cases x with
  | error f =>
    obtain ⟨rfl, -⟩ := hrest.of_done
    rw [List.append_nil]
    exact .drafting hfirst
  | ok x =>
    change Leads (.act (.ledger (.insertPending ⟨uid, user, x.1, x.2⟩)) fun a =>
      ExceptT.bindCont (conclude g r) a) rest p at hrest
    cases hrest with
    | stay =>
      rw [List.append_nil]
      exact .drafting hfirst
    | @did _ _ a rest _ hrest =>
      cases a with
      | ok b => exact .written hfirst rfl hrest
      | error f =>
        obtain ⟨rfl, rfl⟩ := hrest.of_done
        exact .failed hfirst

/-- What is not done before the booking is written down is done for the booking. -/
theorem Creating.after_entry (h : Creating g user wish r today uid ds p) {x : Action}
    {a : x.Answer} (hx : .did x a ∈ ds) (hinsert : ∀ n, x ≠ .ledger (.insertPending n))
    (hdraft : (draft g wish r today).run.Uses kind) (hno : ¬ kind x) :
    ∃ n b rest, .did (.ledger (.insertPending n)) (.ok b) ∈ ds ∧
      Leads (conclude g r b).run rest p ∧ .did x a ∈ rest := by
  cases h with
  | drafting h => exact absurd (h.of_uses hdraft hx) hno
  | @failed _ n f _ h =>
    rcases List.mem_append.mp hx with hx | hx
    · exact absurd (h.of_uses hdraft hx) hno
    · injection List.mem_singleton.mp hx with hx _
      exact absurd hx (hinsert n)
  | @written first rest _ _ n b h _ hrest =>
    rcases List.mem_append.mp hx with hx | hx
    · exact absurd (h.of_uses hdraft hx) hno
    rcases List.mem_cons.mp hx with hx | hx
    · injection hx with hx _
      exact absurd hx (hinsert n)
    · exact ⟨n, b, rest, List.mem_append_right _ List.mem_cons_self, hrest, hx⟩

theorem bookless_draft (hg : g.OffLedger) : (draft g wish r today).run.Uses Action.Bookless :=
  uses_draft (fun _ => trivial) trivial fun stay =>
    (hg.recommend stay r).mono fun _ => Action.OffLedger.bookless

theorem bookless_conclude (hg : g.OffLedger) : (conclude g r b).run.Uses Action.Bookless :=
  uses_conclude (fun _ => trivial) (fun _ _ => trivial)
    ((hg.confirm _ _).mono fun _ => Action.OffLedger.bookless)
    ((hg.release _ _ r).mono fun _ => Action.OffLedger.bookless)

/-- An order for a new booking writes one down at most, under its own uid. -/
theorem Creating.entries (hg : g.OffLedger) (h : Creating g user wish r today uid ds p) :
    ds.filterMap Deed.made? = [] ∨ ∃ n b, .did (.ledger (.insertPending n)) (.ok b) ∈ ds ∧
      n.uid = uid ∧ ds.filterMap Deed.made? = [b] := by
  cases h with
  | drafting h => exact .inl (h.entries_of_bookless (bookless_draft hg))
  | failed h =>
    rw [List.filterMap_append, h.entries_of_bookless (bookless_draft hg)]
    exact .inl rfl
  | @written first rest _ _ n b h hn hrest =>
    refine .inr ⟨n, b, List.mem_append_right _ List.mem_cons_self, hn, ?_⟩
    have hentry : (Deed.did (.ledger (.insertPending n)) (.ok b)).made? = some b := rfl
    rw [List.filterMap_append, h.entries_of_bookless (bookless_draft hg),
      List.filterMap_cons_some hentry, hrest.entries_of_bookless (bookless_conclude hg)]
    rfl

/-- After it has written a booking down, it goes on for this one. -/
theorem Creating.of_entry (hg : g.OffLedger) (h : Creating g user wish r today uid ds p)
    {n : NewBooking} (hb : .did (.ledger (.insertPending n)) (.ok b) ∈ ds) :
    ∃ first rest q, ds = first ++ .did (.ledger (.insertPending n)) (.ok b) :: rest ∧
      Leads (draft g wish r today).run first q ∧ Leads (conclude g r b).run rest p := by
  cases h with
  | drafting h => exact False.elim (h.of_uses (bookless_draft hg) hb)
  | failed h =>
    rcases List.mem_append.mp hb with hb | hb
    · exact False.elim (h.of_uses (bookless_draft hg) hb)
    · cases List.mem_singleton.mp hb
  | @written first rest _ q m c h _ hrest =>
    rcases List.mem_append.mp hb with hb | hb
    · exact False.elim (h.of_uses (bookless_draft hg) hb)
    rcases List.mem_cons.mp hb with hb | hb
    · cases hb
      exact ⟨first, rest, q, rfl, h, hrest⟩
    · exact False.elim (hrest.of_uses (bookless_conclude hg) hb)

end Creating

/-- So does any order. -/
theorem Order.entries {c : Order} {ds : List Deed}
    {p : Process (Except BookingFailure BookingSummary)} (h : c.process.Leads ds p) :
    ds.filterMap Deed.made? = [] ∨ ∃ n b, .did (.ledger (.insertPending n)) (.ok b) ∈ ds ∧
      c.uid? = some n.uid ∧ ds.filterMap Deed.made? = [b] := by
  cases c with
  | create o user wish r today uid =>
    refine ((creating_of_leads h).entries o.offLedger).imp_right ?_
    rintro ⟨n, b, hmem, rfl, hds⟩
    exact ⟨n, b, hmem, rfl, hds⟩
  | cancel o id user r =>
    have hcancel : (Desk.cancel o.gateway id user r).run.Uses Action.Bookless :=
      uses_cancel (fun _ => trivial) (fun _ => trivial) (fun _ _ => trivial)
        (fun _ _ => (o.offLedger.release _ _ r).mono fun _ => Action.OffLedger.bookless) id user
    exact .inl (h.entries_of_bookless hcancel)

end Desk

end Lodging
