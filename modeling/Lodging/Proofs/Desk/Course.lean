import Lodging.Proofs.Desk.Errand
import Lodging.Proofs.Ledger

/-!
The course of an order to the booking desk. A new booking passes from the acceptance of its
request to its row in the ledger, has its room locked and is confirmed, or is cancelled and its
room released. A cancellation reads the booking, releases its room and marks it, if nobody has
moved it on meanwhile.
-/

namespace Lodging.Desk

inductive Point where
  /-- Given up. -/
  | rest
  /-- At the end. -/
  | over
  | asking (uid : Uid) (r : RequestId)
  | accepted (uid : Uid) (r : RequestId)
  /-- The booking is written down, and its room is being locked. -/
  | securing (b : Booking) (r : RequestId) (e : Errand)
  | failing (b : Booking) (r : RequestId)
  | undoing (b : Booking) (r : RequestId) (e : Errand)
  | reading (id : BookingId)
  /-- The booking to be cancelled was read, and its room is being released. -/
  | releasing (b : Booking) (e : Errand)
  /-- The booking has been moved on by someone else. -/
  | checking (b : Booking)
  /-- Nor was it cancelled by someone else. -/
  | stale (b : Booking)

/-- The order for the lock of a booking. -/
def lockFor (b : Booking) (r : RequestId) : NewLock := ⟨b.room, b.stay, b.uid, r⟩

/-- The point of the call to the keeper that is a part of the order. -/
def Point.keeper : Point → Keeper.Point
  | securing _ _ e | undoing _ _ e | releasing _ e => e.keeper
  | _ => .rest

inductive Move : Point → Stock → Point → Stock → Prop
  | accept {uid : Uid} {r : RequestId} {s : Stock} (h : r ∉ s.ledger.requests) :
    Move (.asking uid r) s (.accepted uid r)
      { s with ledger := { s.ledger with requests := r :: s.ledger.requests } }
  | insert {uid : Uid} {r : RequestId} {s : Stock} (now : Instant) {n : NewBooking}
    (h : n.uid = uid) :
    Move (.accepted uid r) s (.securing (s.ledger.newBooking now n) r .ready)
      { s with ledger := s.ledger.withBooking now n }
  | secure {b : Booking} {r : RequestId} {e e' : Errand} {s s' : Stock}
    (h : Errand.Move .confirm (.wants (lockFor b r)) e s e' s') :
    Move (.securing b r e) s (.securing b r e') s'
  | confirm {b c : Booking} {r : RequestId} {e : Errand} {s : Stock} (he : e.Ended true)
    (h : s.ledger.booking? b.id = some c) (hc : c.status = .pending) :
    Move (.securing b r e) s .over { s with ledger := s.ledger.moved c .confirmed }
  | overtaken {b : Booking} {r : RequestId} {e : Errand} {s : Stock} (he : e.Ended true)
    (h : ∀ c, s.ledger.booking? b.id = some c → c.status ≠ .pending) :
    Move (.securing b r e) s (.failing b r) s
  | fail {b : Booking} {r : RequestId} {e : Errand} (s : Stock) (he : e.Ended false) :
    Move (.securing b r e) s (.failing b r) s
  | cancel {b c : Booking} {r : RequestId} {s : Stock} (h : s.ledger.booking? b.id = some c)
    (hc : c.status = .pending) :
    Move (.failing b r) s (.undoing b r .ready) { s with ledger := s.ledger.moved c .cancelled }
  | lost {b : Booking} {r : RequestId} {s : Stock}
    (h : ∀ c, s.ledger.booking? b.id = some c → c.status ≠ .pending) :
    Move (.failing b r) s (.undoing b r .ready) s
  | undo {b : Booking} {r : RequestId} {e e' : Errand} {s s' : Stock}
    (h : Errand.Move .release (.wantsOut b.room b.uid) e s e' s') :
    Move (.undoing b r e) s (.undoing b r e') s'
  | undone {b : Booking} {r : RequestId} {e : Errand} {ok : Bool} (s : Stock) (he : e.Ended ok) :
    Move (.undoing b r e) s .over s
  | missing (id : BookingId) (s : Stock) : Move (.reading id) s .over s
  | read {id : BookingId} {b : Booking} {s : Stock} (h : s.ledger.booking? id = some b)
    (hb : b.status ≠ .cancelled) : Move (.reading id) s (.releasing b .ready) s
  | release {b : Booking} {e e' : Errand} {s s' : Stock}
    (h : Errand.Move .release (.wantsOut b.room b.uid) e s e' s') :
    Move (.releasing b e) s (.releasing b e') s'
  | mark {b c : Booking} {e : Errand} {ok : Bool} {s : Stock} (he : e.Ended ok)
    (h : s.ledger.booking? b.id = some c) (hc : c.status = b.status) :
    Move (.releasing b e) s .over { s with ledger := s.ledger.moved c .cancelled }
  | tooLate {b : Booking} {e : Errand} {ok : Bool} {s : Stock} (he : e.Ended ok)
    (h : ∀ c, s.ledger.booking? b.id = some c → c.status ≠ b.status) :
    Move (.releasing b e) s (.checking b) s
  | alike {b c : Booking} {s : Stock} (h : s.ledger.booking? b.id = some c)
    (hc : c.status = .cancelled) : Move (.checking b) s .over s
  | goneOn {b : Booking} {s : Stock}
    (h : ∀ c, s.ledger.booking? b.id = some c → c.status ≠ .cancelled) :
    Move (.checking b) s (.stale b) s

/-- The script that orders to the desk follow. -/
def script : Script Point where
  Move := Move
  inside p := p.keeper.inside
  rest := .rest
  inside_rest := rfl

section Parts

variable {α : Type} {b : Booking} {r : RequestId} {held : Script.Held}

/-- What the keeper answers to the order for a lock is passed on as it looks from afar. -/
theorem runs_confirmDirectly (b : Booking) (r : RequestId) :
    Keeper.script.Runs [] (fun x k => ∃ y, k = .placed (lockFor b r) y ∧
        x = (y.map fun _ => ()).mapError RoomFailure.seen) (.wants (lockFor b r))
      (Gateway.confirmDirectly b.room ⟨b.stay.arrival, b.stay.departure, b.uid, r⟩) := by
  unfold Gateway.confirmDirectly
  rw [Stay.ofDates_eq_ok.mpr ⟨rfl, rfl⟩]
  apply Script.Runs.bind (Keeper.runs_confirm (lockFor b r))
  rintro y _ rfl
  exact Script.Runs.done ⟨y, rfl, rfl⟩

theorem ended_of_placed {n : NewLock} {x : Except CallFailure Unit} {k : Keeper.Point}
    (h : ∃ y, k = .placed n y ∧ x = (y.map fun _ => ()).mapError RoomFailure.seen) :
    k.Ended x.isOk := by
  obtain ⟨y, rfl, rfl⟩ := h
  cases y <;> rfl

theorem runs_confirm (policy : RetryPolicy) (b : Booking) (r : RequestId) :
    script.Runs [] (fun x p => ∃ e, p = .securing b r e ∧ e.Ended x.isOk) (.securing b r .ready)
      ((Gateway.direct policy).confirm b.room ⟨b.stay.arrival, b.stay.departure, b.uid, r⟩) := by
  have hall := Errand.runs_came (o := .confirm) policy rfl (fun _ _ => ended_of_placed)
    (runs_confirmDirectly b r)
  have hplay := Script.Follows.embed (T := script) (.securing b r) (fun _ _ _ _ => .secure)
    (fun _ => rfl) hall
  apply hplay.mono
  rintro held x _ ⟨e, rfl, hheld, he⟩
  exact ⟨hheld, e, rfl, he.ended fun _ _ => ended_of_placed⟩

theorem runs_releaseDirectly (b : Booking) :
    Keeper.script.Runs [] (fun x k => k.Ended x.isOk) (.wantsOut b.room b.uid)
      (Gateway.releaseDirectly b.room b.uid) := by
  apply Script.Runs.bind (Keeper.runs_release b.room b.uid)
  rintro x _ rfl
  cases x <;> exact Script.Runs.done rfl

section Asking

variable {σ β : Type} {S : Script σ} {p : σ}

/-- A look at a booking. -/
theorem runs_get {Q : Except BookingFailure β → σ → Prop} {id : BookingId}
    {f : Option Booking → Task β}
    (h : ∀ s : Stock, ∃ p', S.Step p s p' s ∧ S.Stays p p' ∧
      S.Runs held Q p' (f (s.ledger.booking? id)).run) :
    S.Runs held Q p (ask (.get id) >>= f).run := by
  refine Script.Runs.ledger (c := .get id) (f := fun r => ExceptT.bindCont f r) fun w => ?_
  exact h w.stock

/-- A change of status, which is made if the booking is still where it is expected to be. -/
theorem runs_update {Q : Except BookingFailure β → σ → Prop} {id : BookingId}
    {expected next : Status} {f : Option Booking → Task β}
    (hyes : ∀ (s : Stock) c, s.ledger.booking? id = some c → c.status = expected → ∃ p',
      S.Step p s p' { s with ledger := s.ledger.moved c next } ∧ S.Stays p p' ∧
        S.Runs held Q p' (f (some { c with status := next })).run)
    (hno : ∀ s : Stock, (∀ c, s.ledger.booking? id = some c → c.status ≠ expected) → ∃ p',
      S.Step p s p' s ∧ S.Stays p p' ∧ S.Runs held Q p' (f none).run) :
    S.Runs held Q p (ask (.updateStatus id expected next) >>= f).run := by
  refine Script.Runs.ledger (c := .updateStatus id expected next)
    (f := fun r => ExceptT.bindCont f r) fun w => ?_
  by_cases hc : ∃ c, w.ledger.booking? id = some c ∧ c.status = expected
  · obtain ⟨c, hb, rfl⟩ := hc
    have ha : w.ledger.answer w.now (.updateStatus id c.status next) =
        (.ok (some { c with status := next }), w.ledger.moved c next) := by
      simp only [Ledger.answer, Ledger.updateStatus_of_eq hb]
    rw [ha]
    exact hyes w.stock c hb rfl
  · have hc : ∀ c, w.ledger.booking? id = some c → c.status ≠ expected :=
      fun c hb hs => hc ⟨c, hb, hs⟩
    have ha : w.ledger.answer w.now (.updateStatus id expected next) = (.ok none, w.ledger) := by
      simp only [Ledger.answer, Ledger.updateStatus_of_ne next hc]
    rw [ha]
    exact hno w.stock hc

/-- The acceptance of a request, which may have been accepted before. -/
theorem runs_accept {Q : Except BookingFailure Unit → σ → Prop} {r : RequestId}
    (hyes : ∀ s : Stock, r ∉ s.ledger.requests → ∃ p', S.Step p s p'
        { s with ledger := { s.ledger with requests := r :: s.ledger.requests } } ∧
      S.Stays p p' ∧ Q (.ok ()) p')
    (hno : ∀ s : Stock, r ∈ s.ledger.requests → ∃ p', S.Step p s p' s ∧ S.Stays p p' ∧
      Q (.error (.duplicate r)) p') :
    S.Runs held Q p (accept r).run := by
  refine Script.Runs.ledger (c := .accept r) fun w => ?_
  by_cases hr : r ∈ w.ledger.requests
  · have ha : w.ledger.answer w.now (.accept r) = (.error (.duplicate r), w.ledger) := by
      simp only [Ledger.answer, Ledger.accept, hr, if_true]
    obtain ⟨p', hs, hi, hq⟩ := hno w.stock hr
    rw [ha]
    exact ⟨p', hs, hi, Script.Runs.meter (.stay _ _) (.refl _) (Script.Runs.done hq)⟩
  · have ha : w.ledger.answer w.now (.accept r) =
        (.ok (), { w.ledger with requests := r :: w.ledger.requests }) := by
      simp only [Ledger.answer, Ledger.accept, hr, if_false]
    obtain ⟨p', hs, hi, hq⟩ := hyes w.stock hr
    rw [ha]
    exact ⟨p', hs, hi, Script.Runs.done hq⟩

/-- Releasing the room of a booking. -/
theorem runs_releaseQuietly (policy : RetryPolicy) (b : Booking) (r : RequestId)
    (point : Errand → σ) (hin : ∀ e, S.inside (point e) = e.keeper.inside)
    (hmove : ∀ e s e' s', Errand.Move .release (.wantsOut b.room b.uid) e s e' s' →
      S.Move (point e) s (point e') s') :
    S.Runs [] (fun _ p => ∃ e ok, p = point e ∧ e.Ended ok) (point .ready)
      (releaseQuietly (.direct policy) b r) := by
  have hall := Errand.runs_errand (o := .release) policy rfl (runs_releaseDirectly b)
  have hplay := Script.Follows.embed (T := S) point hmove hin hall
  refine Script.Runs.bind (Q := fun x p => ∃ e, p = point e ∧ e.Ended x.isOk) ?_ ?_
  · apply hplay.mono
    rintro held x _ ⟨e, rfl, hheld, he⟩
    exact ⟨hheld, e, rfl, he⟩
  · rintro x _ ⟨e, rfl, he⟩
    cases x with
    | ok a => exact Script.Runs.done ⟨e, true, rfl, he⟩
    | error f =>
      apply Script.Runs.meter (.stay _ _) (.refl _)
      exact Script.Runs.done ⟨e, false, rfl, he⟩

end Asking

variable {p : Point}

theorem runs_secure (policy : RetryPolicy) (b : Booking) (r : RequestId) :
    script.Runs [] (fun x p => (x.isOk = true → p = .over) ∧ (x.isOk = false →
        p = .failing b r ∨ ∃ e, p = .securing b r e ∧ e.Ended false)) (.securing b r .ready)
      (secure (.direct policy) b r).run := by
  refine Script.Runs.bind (Q := fun x p => ∃ e, p = .securing b r e ∧ e.Ended x.isOk) ?_ ?_
  · apply Script.Runs.bind (runs_confirm policy b r)
    rintro x _ ⟨e, rfl, he⟩
    cases x <;> exact Script.Runs.done ⟨e, rfl, he⟩
  · rintro x _ ⟨e, rfl, he⟩
    cases x with
    | error f => exact Script.Runs.done ⟨nofun, fun _ => .inr ⟨e, rfl, he⟩⟩
    | ok a =>
      refine runs_update ?_ ?_
      · intro s c hb hc
        exact ⟨.over, .inl (.confirm he hb hc), Script.stays_out rfl,
          Script.Runs.done ⟨fun _ => rfl, nofun⟩⟩
      · intro s hno
        exact ⟨.failing b r, .inl (.overtaken he hno), Script.stays_out rfl,
          Script.Runs.done ⟨nofun, fun _ => .inl rfl⟩⟩

theorem runs_compensate (policy : RetryPolicy) (b : Booking) (r : RequestId) :
    script.Runs [] (fun _ p => ∃ e ok, p = .undoing b r e ∧ e.Ended ok) (.failing b r)
      (compensate (.direct policy) b r) := by
  have hrelease := runs_releaseQuietly (S := script) policy b r (.undoing b r) (fun _ => rfl)
    fun _ _ _ _ => Move.undo
  refine Script.Runs.bind (Q := fun _ p => p = .undoing b r .ready) ?_ ?_
  · refine runs_update ?_ ?_
    · intro s c hb hc
      exact ⟨.undoing b r .ready, .inl (.cancel hb hc), Script.stays_out rfl,
        Script.Runs.done rfl⟩
    · intro s hno
      exact ⟨.undoing b r .ready, .inl (.lost hno), Script.stays_out rfl, Script.Runs.done rfl⟩
  · rintro x _ rfl
    cases x with
    | ok c => exact hrelease
    | error f => exact Script.Runs.meter (.stay _ _) (.refl _) hrelease

/-- An order that has brought its booking to an end has confirmed it, or has released its room. -/
def Settled (b : Booking) (r : RequestId) (x : Except BookingFailure BookingSummary) (p : Point) :
    Prop :=
  (x.isOk = true → p = .over) ∧ (x.isOk = false → ∃ e ok, p = .undoing b r e ∧ e.Ended ok)

theorem runs_settle (policy : RetryPolicy) (b : Booking) (r : RequestId) :
    script.Runs [] (Settled b r) (.securing b r .ready) (settle (.direct policy) b r) := by
  apply Script.Runs.bind (runs_secure policy b r)
  rintro x p ⟨hok, herr⟩
  cases x with
  | ok c =>
    obtain rfl := hok rfl
    exact Script.Runs.meter (.stay _ _) (.refl _) (Script.Runs.done ⟨fun _ => rfl, nofun⟩)
  | error f =>
    -- the room could not be locked, or the booking not be confirmed
    have hfail : ∀ s : Stock, script.Step p s (.failing b r) s := by
      intro s
      rcases herr rfl with rfl | ⟨e, rfl, he⟩
      · exact .stay script _ s
      · exact .inl (.fail s he)
    apply Script.Runs.meter hfail (Script.stays_out rfl)
    change script.Runs [] _ _ (compensate (.direct policy) b r >>= _)
    refine Script.Runs.bind (runs_compensate policy b r) fun x p hp => ?_
    exact Script.Runs.done ⟨nofun, fun _ => hp⟩

theorem runs_chooseRoom (policy : RetryPolicy) (q : BookingRequest) (stay : Stay)
    (r : RequestId) : script.Runs held (fun _ p' => p' = p) p
      (chooseRoom (.direct policy) q stay r).run := by
  have hlook : script.Runs held (fun _ p' => p' = p) p
      ((Gateway.direct policy).recommend stay r) := by
    refine runs_attemptFrom policy ?_ ?_ ?_ _ _
    · apply Script.Runs.attempt
      change script.Runs held _ p ((Keeper.recommend stay).run >>= _)
      apply Script.Runs.bind (Keeper.runs_recommend stay)
      rintro x _ rfl
      exact Script.Runs.done rfl
    · rintro f _ rfl
      exact ⟨.stay _ _, .refl _⟩
    · exact fun f f' p' hp => hp
  unfold chooseRoom
  cases q.anyRoom with
  | true =>
    refine Script.Runs.bind (Q := fun _ p' => p' = p) ?_ ?_
    · apply Script.Runs.bind hlook
      rintro x _ rfl
      exact Script.Runs.done rfl
    · rintro x _ rfl
      cases x with
      | error f => exact Script.Runs.done rfl
      | ok rooms => cases rooms <;> exact Script.Runs.done rfl
  | false =>
    cases q.room <;> exact Script.Runs.done rfl

/-- An order for a new booking fails before the booking is written down, or brings it to its end. -/
theorem runs_create_of {Q : Except BookingFailure BookingSummary → Point → Prop}
    (policy : RetryPolicy) (user : UserId) (q : BookingRequest) (r : RequestId) (today : Date)
    (uid : Uid) (hasking : ∀ f, Q (.error f) (.asking uid r))
    (haccepted : ∀ f, Q (.error f) (.accepted uid r))
    (hsettled : ∀ b x p, b.uid = uid → Settled b r x p → ∃ p', (∀ s, script.Step p s p' s) ∧
      script.Stays p p' ∧ Q x p') :
    script.Runs [] Q (.asking uid r) (create (.direct policy) user q r today uid).run := by
  unfold create
  cases Stay.requested q.arrival q.departure today with
  | error f =>
    exact Script.Runs.meter (.stay _ _) (.refl _) (Script.Runs.done (hasking f))
  | ok stay =>
    apply Script.Runs.meter (.stay _ _) (.refl _)
    change script.Runs [] _ _ ((accept r).run >>= _)
    -- from here on the point tells whether the request was accepted
    refine Script.Runs.bind (Q := fun x p => (x.isOk = true → p = .accepted uid r) ∧
      (x.isOk = false → p = .asking uid r)) ?_ fun x p hx => ?_
    · apply runs_accept
      · intro s hr
        exact ⟨.accepted uid r, .inl (.accept hr), Script.stays_out rfl, fun _ => rfl, nofun⟩
      · intro s hr
        exact ⟨.asking uid r, .stay script _ s, .refl _, nofun, fun _ => rfl⟩
    cases x with
    | error f =>
      obtain rfl := hx.2 rfl
      exact Script.Runs.done (hasking f)
    | ok a =>
      obtain rfl := hx.1 rfl
      change script.Runs [] _ _ ((chooseRoom (.direct policy) q stay r).run >>= _)
      apply Script.Runs.bind (runs_chooseRoom policy q stay r)
      rintro x _ rfl
      cases x with
      | error f => exact Script.Runs.done (haccepted f)
      | ok room =>
        refine Script.Runs.ledger (c := .insertPending ⟨uid, user, room, stay⟩) fun w => ?_
        refine ⟨_, .inl (.insert w.now rfl), Script.stays_out rfl, ?_⟩
        change script.Runs [] _ _ (settle (.direct policy) _ r >>= _)
        refine Script.Runs.bind (runs_settle policy _ r) fun x p hp => ?_
        obtain ⟨p', hs, hi, hq⟩ := hsettled _ x p rfl hp
        exact Script.Runs.meter hs hi (Script.Runs.done hq)

theorem runs_create (policy : RetryPolicy) (user : UserId) (q : BookingRequest) (r : RequestId)
    (today : Date) (uid : Uid) :
    script.Runs [] (fun _ p => p = .over ∨ p = .asking uid r ∨ p = .accepted uid r) (.asking uid r)
      (create (.direct policy) user q r today uid).run := by
  refine runs_create_of policy user q r today uid (fun _ => .inr (.inl rfl))
    (fun _ => .inr (.inr rfl)) fun b x p hb hp => ?_
  -- what is made of the booking is answered, whether it was confirmed or given up
  refine ⟨.over, fun s => ?_, Script.stays_out rfl, .inl rfl⟩
  cases hx : x.isOk with
  | true =>
    rw [hp.1 hx]
    exact .stay script _ s
  | false =>
    obtain ⟨e, ok, rfl, he⟩ := hp.2 hx
    exact .inl (.undone s he)

theorem runs_markCancelled (b : Booking) {e : Errand} {ok : Bool} (he : e.Ended ok) :
    script.Runs held (fun x p => p = .over ∨ p = .stale b ∧ x = .error (.stale b.id b.status))
      (.releasing b e) (markCancelled b).run := by
  refine runs_update ?_ ?_
  · intro s c hb hc
    exact ⟨.over, .inl (.mark he hb hc), Script.stays_out rfl, Script.Runs.done (.inl rfl)⟩
  · intro s hno
    refine ⟨.checking b, .inl (.tooLate he hno), Script.stays_out rfl, ?_⟩
    refine runs_get fun s => ?_
    cases hb : s.ledger.booking? b.id with
    | none =>
      refine ⟨.stale b, .inl (.goneOn fun c hc => ?_), Script.stays_out rfl,
        Script.Runs.done (.inr ⟨rfl, rfl⟩)⟩
      rw [hb] at hc
      cases hc
    | some c =>
      by_cases hc : c.status = .cancelled
      · refine ⟨.over, .inl (.alike hb hc), Script.stays_out rfl, ?_⟩
        simp only [hc, if_true]
        exact Script.Runs.done (.inl rfl)
      · refine ⟨.stale b, .inl (.goneOn fun d hd => ?_), Script.stays_out rfl, ?_⟩
        · rw [hb] at hd
          rwa [← Option.some.inj hd]
        · simp only [hc, if_false]
          exact Script.Runs.done (.inr ⟨rfl, rfl⟩)

/-- A look at a booking that is to be cancelled. -/
theorem runs_owned (id : BookingId) (user : UserId) :
    script.Runs held (fun x p => (∀ f, x = .error f → p = .over) ∧ ∀ b, x = .ok b →
        b.status = .cancelled ∧ p = .over ∨ b.status ≠ .cancelled ∧ p = .releasing b .ready)
      (.reading id) (owned id user).run := by
  refine runs_get fun s => ?_
  cases hb : s.ledger.booking? id with
  | none =>
    refine ⟨.over, .inl (.missing id s), Script.stays_out rfl, ?_⟩
    exact Script.Runs.done ⟨fun _ _ => rfl, fun _ h => by cases h⟩
  | some b =>
    by_cases hu : b.user = user
    · simp only [hu, if_true]
      by_cases hc : b.status = .cancelled
      · refine ⟨.over, .inl (.missing id s), Script.stays_out rfl, ?_⟩
        refine Script.Runs.done ⟨fun _ h => (nomatch h), ?_⟩
        rintro _ ⟨⟩
        exact .inl ⟨hc, rfl⟩
      · refine ⟨.releasing b .ready, .inl (.read hb hc), Script.stays_out rfl, ?_⟩
        refine Script.Runs.done ⟨fun _ h => (nomatch h), ?_⟩
        rintro _ ⟨⟩
        exact .inr ⟨hc, rfl⟩
    · simp only [hu, if_false]
      refine ⟨.over, .inl (.missing id s), Script.stays_out rfl, ?_⟩
      exact Script.Runs.done ⟨fun _ _ => rfl, fun _ h => by cases h⟩

theorem runs_cancel (policy : RetryPolicy) (id : BookingId) (user : UserId) (r : RequestId) :
    script.Runs [] (fun x p => p = .over ∨
        ∃ b, p = .stale b ∧ x = .error (.stale b.id b.status)) (.reading id)
      (cancel (.direct policy) id user r).run := by
  refine Script.Runs.bind (runs_owned id user) ?_
  rintro x p ⟨herr, hok⟩
  cases x with
  | error f => exact Script.Runs.done (.inl (herr f rfl))
  | ok b =>
    change script.Runs [] _ p (ExceptT.run (if b.status = .cancelled then _ else _))
    rcases hok b rfl with ⟨hc, rfl⟩ | ⟨hc, rfl⟩
    · rw [if_pos hc]
      exact Script.Runs.done (.inl rfl)
    rw [if_neg hc]
    -- whatever comes of the release, the booking is marked next
    refine Script.Runs.bind
      (Q := fun x p => x = .ok () ∧ ∃ e ok, p = .releasing b e ∧ e.Ended ok) ?_ ?_
    · have hrelease := runs_releaseQuietly (S := script) policy b r (.releasing b)
        (fun _ => rfl) fun _ _ _ _ => Move.release
      refine Script.Runs.bind hrelease fun x p hp => ?_
      exact Script.Runs.done ⟨rfl, hp⟩
    · rintro _ _ ⟨rfl, e, ok, rfl, he⟩
      change script.Runs [] _ _ ((markCancelled b).run >>= _)
      apply Script.Runs.bind (runs_markCancelled b he)
      rintro x p hx
      cases x with
      | ok c =>
        rcases hx with rfl | ⟨-, hx⟩
        · exact Script.Runs.meter (.stay _ _) (.refl _) (Script.Runs.done (.inl rfl))
        · cases hx
      | error f =>
        rcases hx with rfl | ⟨rfl, hx⟩
        · exact Script.Runs.done (.inl rfl)
        · obtain rfl := Except.error.inj hx
          exact Script.Runs.done (.inr ⟨b, rfl, rfl⟩)

end Parts

/-- Where an order begins. -/
def Call.first : Call → Point
  | .create _ _ _ r _ uid => .asking uid r
  | .cancel _ id _ _ => .reading id

/-- The point at which an order is that has come to its end. -/
def Call.Ends : Call → Except BookingFailure BookingSummary → Point → Prop
  | .create _ _ _ r _ uid, _, p => p = .over ∨ p = .asking uid r ∨ p = .accepted uid r
  | .cancel .., x, p => p = .over ∨ ∃ b, p = .stale b ∧ x = .error (.stale b.id b.status)

theorem Call.runs (c : Call) : script.Runs [] c.Ends c.first c.process := by
  cases c with
  | create policy user q r today uid => exact runs_create policy user q r today uid
  | cancel policy id user r => exact runs_cancel policy id user r

theorem Call.inside_first (c : Call) : script.inside c.first = none := by
  cases c <;> rfl

end Lodging.Desk
