import Lodging.Proofs.Desk.Course
import Lodging.World.Contest

/-!
The course of a bid for a room. It is the course of an order for a new booking, told in more
detail: what the booking is, why it could not be confirmed, and what is answered in the end.
-/

namespace Lodging.Desk

/-- Why the room could not be locked, as the last attempt tells it. -/
def Errand.Failed (f : CallFailure) : Errand → Prop
  | .ready => False
  | .denied => True
  | .on (.placed _ (.error g)) => g.seen.retryable = false → f = g.seen
  | .on _ => False

namespace Contest

inductive Point (room : RoomId) where
  | rest
  | asking (x : Bid room)
  | refused (x : Bid room)
  | accepted (x : Bid room)
  /-- The booking is written down, and the room is being locked. -/
  | securing (x : Bid room) (b : Booking) (e : Errand)
  | failing (x : Bid room) (b : Booking) (f : BookingFailure)
  /-- The booking could not be confirmed, and the room is being released. -/
  | undoing (x : Bid room) (b : Booking) (f : BookingFailure) (e : Errand)
  | confirmed (x : Bid room) (b : Booking)

variable {room : RoomId}

/-- The point of the call to the keeper that is a part of the bid. -/
def Point.keeper : Point room → Keeper.Point
  | securing _ _ e | undoing _ _ _ e => e.keeper
  | _ => .rest

/-- The booking to be written down. -/
def entry (x : Bid room) : NewBooking := ⟨x.uid, x.user, room, x.stay⟩

inductive Move : Point room → Stock → Point room → Stock → Prop
  | accept {x : Bid room} {s : Stock} (h : x.request ∉ s.ledger.requests) :
    Move (.asking x) s (.accepted x)
      { s with ledger := { s.ledger with requests := x.request :: s.ledger.requests } }
  | refuse {x : Bid room} {s : Stock} (h : x.request ∈ s.ledger.requests) :
    Move (.asking x) s (.refused x) s
  | insert (x : Bid room) (now : Instant) (s : Stock) :
    Move (.accepted x) s (.securing x (s.ledger.newBooking now (entry x)) .ready)
      { s with ledger := s.ledger.withBooking now (entry x) }
  | secure {x : Bid room} {b : Booking} {e e' : Errand} {s s' : Stock}
    (h : Errand.Move .confirm (.wants (lockFor b x.request)) e s e' s') :
    Move (.securing x b e) s (.securing x b e') s'
  | confirm {x : Bid room} {b c : Booking} {e : Errand} {s : Stock} (he : e.Ended true)
    (h : s.ledger.booking? b.id = some c) (hc : c.status = .pending) :
    Move (.securing x b e) s (.confirmed x { c with status := .confirmed })
      { s with ledger := s.ledger.moved c .confirmed }
  | overtaken {x : Bid room} {b : Booking} {e : Errand} {s : Stock} (he : e.Ended true)
    (h : ∀ c, s.ledger.booking? b.id = some c → c.status ≠ .pending) :
    Move (.securing x b e) s (.failing x b (.stale b.id .pending)) s
  | fail {x : Bid room} {b : Booking} {e : Errand} {f : CallFailure} (s : Stock) (he : e.Failed f) :
    Move (.securing x b e) s (.failing x b (.inventory f)) s
  | cancel {x : Bid room} {b c : Booking} {f : BookingFailure} {s : Stock}
    (h : s.ledger.booking? b.id = some c) (hc : c.status = .pending) :
    Move (.failing x b f) s (.undoing x b f .ready)
      { s with ledger := s.ledger.moved c .cancelled }
  | lost {x : Bid room} {b : Booking} {f : BookingFailure} {s : Stock}
    (h : ∀ c, s.ledger.booking? b.id = some c → c.status ≠ .pending) :
    Move (.failing x b f) s (.undoing x b f .ready) s
  | undo {x : Bid room} {b : Booking} {f : BookingFailure} {e e' : Errand} {s s' : Stock}
    (h : Errand.Move .release (.wantsOut b.room b.uid) e s e' s') :
    Move (.undoing x b f e) s (.undoing x b f e') s'

/-- The script that bids follow. -/
def script (room : RoomId) : Script (Point room) where
  Move := Move
  inside p := p.keeper.inside
  rest := .rest
  inside_rest := rfl

variable {x : Bid room} {b : Booking}

/-- The failure that the keeper tells is the one that is passed on, unless it may pass. -/
theorem failed_of_came {e : Errand} {n : NewLock} {f : CallFailure}
    (h : Errand.Came (fun x k => ∃ y, k = .placed n y ∧
      x = (y.map fun _ => ()).mapError RoomFailure.seen) (.error f) e) : e.Failed f := by
  rcases h with h | ⟨g, f', hf, hg, h⟩
  · cases e with
    | ready => cases h
    | denied => trivial
    | on k =>
      obtain ⟨y, rfl, hy⟩ := h
      cases y with
      | ok a => cases hy
      | error g => exact fun _ => Except.error.inj hy
  · cases e with
    | ready => cases h
    | denied => trivial
    | on k =>
      obtain ⟨y, rfl, hy⟩ := h
      cases y with
      | ok a => cases hy
      | error z =>
        obtain rfl : g = z.seen := Except.error.inj hy
        intro hz
        rw [hz] at hg
        cases hg

theorem runs_confirm (x : Bid room) (b : Booking) :
    (script room).Runs [] (fun r p => ∃ e, p = .securing x b e ∧ (r = .ok () → e.Ended true) ∧
        ∀ f, r = .error f → e.Failed f) (.securing x b .ready)
      ((Gateway.direct x.policy).confirm b.room
        ⟨b.stay.arrival, b.stay.departure, b.uid, x.request⟩) := by
  have hall := Errand.runs_came (o := .confirm) x.policy rfl (fun _ _ => ended_of_placed)
    (runs_confirmDirectly b x.request)
  have hplay := Script.Follows.embed (T := script room) (.securing x b) (fun _ _ _ _ => .secure)
    (fun _ => rfl) hall
  apply hplay.mono
  rintro held r _ ⟨e, rfl, hheld, he⟩
  refine ⟨hheld, e, rfl, ?_, ?_⟩
  · rintro rfl
    exact he.ended fun _ _ => ended_of_placed
  · rintro f rfl
    exact failed_of_came he

theorem runs_secure (x : Bid room) (b : Booking) :
    (script room).Runs [] (fun r p => (∀ c, r = .ok c → p = .confirmed x c) ∧
        ∀ f, r = .error f → p = .failing x b f ∨
          ∃ e g, f = .inventory g ∧ p = .securing x b e ∧ e.Failed g)
      (.securing x b .ready) (secure (.direct x.policy) b x.request).run := by
  -- the point remembers how the errand to the keeper has ended
  refine Script.Runs.bind (Q := fun r p => ∃ e, p = .securing x b e ∧
    (r = .ok () → e.Ended true) ∧ ∀ f, r = .error f → ∃ g, f = .inventory g ∧ e.Failed g) ?_ ?_
  · refine Script.Runs.bind (runs_confirm x b) ?_
    rintro r _ ⟨e, rfl, hok, herror⟩
    refine Script.Runs.done ⟨e, rfl, ?_, ?_⟩
    · intro hr
      cases r with
      | ok u => exact hok rfl
      | error g => cases hr
    · intro f hr
      cases r with
      | ok u => cases hr
      | error g => exact ⟨g, (Except.error.inj hr).symm, herror g rfl⟩
  · rintro r _ ⟨e, rfl, hok, herror⟩
    cases r with
    | error f =>
      obtain ⟨g, rfl, hg⟩ := herror f rfl
      refine Script.Runs.done ⟨fun c hc => (by cases hc), fun f' hf => ?_⟩
      exact .inr ⟨e, g, (Except.error.inj hf).symm, rfl, hg⟩
    | ok u =>
      -- the row may have been moved on in the meantime
      refine runs_update ?_ ?_
      · intro s c hb hc
        refine ⟨.confirmed x { c with status := .confirmed }, .inl (.confirm (hok rfl) hb hc),
          Script.stays_out rfl, Script.Runs.done ⟨fun d hd => ?_, fun f hf => by cases hf⟩⟩
        rw [Except.ok.inj hd]
      · intro s hno
        refine ⟨.failing x b (.stale b.id .pending), .inl (.overtaken (hok rfl) hno),
          Script.stays_out rfl, Script.Runs.done ⟨fun c hc => (by cases hc), fun f hf => ?_⟩⟩
        rw [Except.error.inj hf]
        exact .inl rfl

theorem runs_compensate (x : Bid room) (b : Booking) (f : BookingFailure) :
    (script room).Runs [] (fun _ p => ∃ e ok, p = .undoing x b f e ∧ e.Ended ok) (.failing x b f)
      (compensate (.direct x.policy) b x.request) := by
  have hrelease := runs_releaseQuietly (S := script room) x.policy b x.request (.undoing x b f)
    (fun _ => rfl) fun _ _ _ _ => Move.undo
  refine Script.Runs.bind (Q := fun _ p => p = .undoing x b f .ready) ?_ ?_
  · refine runs_update ?_ ?_
    · intro s c hb hc
      exact ⟨.undoing x b f .ready, .inl (.cancel hb hc), Script.stays_out rfl,
        Script.Runs.done rfl⟩
    · intro s hno
      exact ⟨.undoing x b f .ready, .inl (.lost hno), Script.stays_out rfl, Script.Runs.done rfl⟩
  · rintro r _ rfl
    cases r with
    | ok c => exact hrelease
    | error g => exact Script.Runs.meter (.stay _ _) (.refl _) hrelease

/-- The point at which a bid is that has come to its end. -/
def Ends (x : Bid room) : Except BookingFailure BookingSummary → Point room → Prop
  | .ok c, p => ∃ b, c = b.summary ∧ p = .confirmed x b
  | .error f, p => p = .refused x ∨ ∃ b e ok, p = .undoing x b f e ∧ e.Ended ok

theorem runs_settle (x : Bid room) (b : Booking) :
    (script room).Runs [] (Ends x) (.securing x b .ready)
      (settle (.direct x.policy) b x.request) := by
  apply Script.Runs.bind (runs_secure x b)
  rintro r p ⟨hok, herror⟩
  cases r with
  | ok c =>
    obtain rfl := hok c rfl
    exact Script.Runs.meter (.stay _ _) (.refl _) (Script.Runs.done ⟨c, rfl, rfl⟩)
  | error f =>
    have hfail : ∀ s : Stock, (script room).Step p s (.failing x b f) s := by
      intro s
      rcases herror f rfl with rfl | ⟨e, g, rfl, rfl, he⟩
      · exact .stay (script room) _ s
      · exact .inl (.fail s he)
    apply Script.Runs.meter hfail (Script.stays_out rfl)
    change (script room).Runs [] _ _ (compensate (.direct x.policy) b x.request >>= _)
    refine Script.Runs.bind (runs_compensate x b f) fun u p hp => ?_
    exact Script.Runs.done (.inr ⟨b, hp⟩)

theorem runs (x : Bid room) : (script room).Runs [] (Ends x) (.asking x) x.process := by
  unfold Bid.process Bid.call Call.process create
  simp only [BookingRequest.ofRoom, x.timely]
  apply Script.Runs.meter (.stay _ _) (.refl _)
  change (script room).Runs [] _ _ ((accept x.request).run >>= _)
  refine Script.Runs.bind (Q := fun r p => (r = .ok () → p = .accepted x) ∧
    ∀ f, r = .error f → p = .refused x) ?_ fun r p hr => ?_
  · apply runs_accept
    · intro s h
      refine ⟨.accepted x, .inl (.accept h), Script.stays_out rfl, fun _ => rfl, fun f hf => ?_⟩
      cases hf
    · intro s h
      refine ⟨.refused x, .inl (.refuse h), Script.stays_out rfl, fun hf => ?_, fun _ _ => rfl⟩
      cases hf
  · cases r with
    | error f => exact Script.Runs.done (.inl (hr.2 f rfl))
    | ok u =>
      obtain rfl := hr.1 rfl
      -- the room is the one that was asked for
      refine Script.Runs.ledger (c := .insertPending (entry x)) fun w => ?_
      refine ⟨_, .inl (.insert x w.now w.stock), Script.stays_out rfl, ?_⟩
      change (script room).Runs [] _ _ (settle (.direct x.policy) _ x.request >>= _)
      refine Script.Runs.bind (runs_settle x _) fun r p hp => ?_
      exact Script.Runs.meter (.stay _ _) (.refl _) (Script.Runs.done hp)

end Contest

end Lodging.Desk
