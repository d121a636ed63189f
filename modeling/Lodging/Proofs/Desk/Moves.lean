import Lodging.Proofs.Desk.Course
import Lodging.Proofs.Keeper.Overlap

/-!
What orders to the desk stand for at the points of their course, and what their moves do to the
ledger and to the inventory: the facts from which all invariants of the desk follow.
-/

namespace Lodging.Desk

namespace Point

/-- The uid and the request of an order for a new booking. -/
def maker? : Point → Option (Uid × RequestId)
  | asking uid r | accepted uid r => some (uid, r)
  | securing b r _ | failing b r | undoing b r _ => some (b.uid, r)
  | _ => none

/-- The same once the request has been accepted. -/
def claim? : Point → Option (Uid × RequestId)
  | accepted uid r => some (uid, r)
  | securing b r _ | failing b r | undoing b r _ => some (b.uid, r)
  | _ => none

/-- The uid of a booking that is not written down yet. -/
def fresh? : Point → Option Uid
  | asking uid _ | accepted uid _ => some uid
  | _ => none

/-- The booking that is being made. -/
def making? : Point → Option Booking
  | securing b _ _ | failing b _ | undoing b _ _ => some b
  | _ => none

/-- The booking as it was written down or read. -/
def row? : Point → Option Booking
  | securing b _ _ | failing b _ | undoing b _ _ | releasing b _ | checking b | stale b => some b
  | _ => none

/-- The id of the booking that is to be cancelled. -/
def target? : Point → Option BookingId
  | reading id => some id
  | releasing b _ | checking b | stale b => some b.id
  | _ => none

/-- A call to the keeper is about the booking. -/
def Fits : Point → Prop
  | securing b r (.on k) => k.call? = some (.confirm (lockFor b r))
  | undoing b _ (.on k) | releasing b (.on k) => k.call? = some (.release b.room b.uid)
  | _ => True

def errand? : Point → Option Errand
  | securing _ _ e | undoing _ _ e | releasing _ e => some e
  | _ => none

/-- The booking that is being cancelled, as it was read. -/
def read? : Point → Option Booking
  | releasing b _ | checking b | stale b => some b
  | _ => none

/-- The order has had the room of a booking locked, and confirms the booking or releases the room.
-/
def Answers (uid : Uid) : Point → Prop
  | securing b _ e => b.uid = uid ∧ e.Ended true
  | failing b _ | undoing b _ _ => b.uid = uid
  | _ => False

variable {p : Point} {b : Booking} {e : Errand} {uid : Uid}

theorem maker?_of_making? (h : p.making? = some b) :
    ∃ r, p.maker? = some (b.uid, r) := by
  cases p <;> cases h <;> exact ⟨_, rfl⟩

theorem maker?_of_fresh? (h : p.fresh? = some uid) :
    ∃ r, p.maker? = some (uid, r) := by
  cases p <;> cases h <;> exact ⟨_, rfl⟩

theorem row?_of_making? (h : p.making? = some b) : p.row? = some b := by
  cases p <;> first | exact h | cases h

theorem row?_of_read? (h : p.read? = some b) : p.row? = some b := by
  cases p <;> first | exact h | cases h

theorem row?_of_errand? (h : p.errand? = some e) : ∃ b, p.row? = some b := by
  cases p <;> first | exact ⟨_, rfl⟩ | cases h

theorem read?_of_making? (h : p.making? = some b) : p.read? = none := by
  cases p <;> first | rfl | cases h

theorem Answers.making? (h : p.Answers uid) : ∃ b, p.making? = some b ∧ b.uid = uid := by
  cases p with
  | securing b r e => exact ⟨b, rfl, h.1⟩
  | failing b r => exact ⟨b, rfl, h⟩
  | undoing b r e => exact ⟨b, rfl, h⟩
  | _ => cases h

/-- An errand to release a room that has come to its end. -/
theorem Fits.removed (hf : p.Fits) {ok : Bool} (hp : (∃ r, p = .undoing b r e) ∨ p = .releasing b e)
    (he : e.Ended ok) (hd : e ≠ .denied) : ∃ x, p.keeper = .removed b.room b.uid x := by
  have hcall : ∀ k, e = .on k → k.call? = some (.release b.room b.uid) := by
    rintro k rfl
    rcases hp with ⟨r, rfl⟩ | rfl <;> exact hf
  have hkeeper : p.keeper = e.keeper := by
    rcases hp with ⟨r, rfl⟩ | rfl <;> rfl
  rw [hkeeper]
  cases e with
  | ready => cases he
  | denied => exact absurd rfl hd
  | on k =>
    have hc := hcall k rfl
    cases k with
    | removed room uid x =>
      injection Option.some.inj hc with hroom huid
      exact ⟨x, by rw [← hroom, ← huid]; rfl⟩
    | placed n x => cases hc
    | _ => cases he

end Point

section Moves

variable {p p' : Point} {s s' : Stock} {b c : Booking} {uid : Uid} {k k' : Keeper.Point}

theorem Move.maker? {x : Uid × RequestId} (h : Move p s p' s') (hx : p'.maker? = some x) :
    p.maker? = some x := by
  cases h with
  | insert now hn =>
    subst hn
    exact hx
  | _ => first | exact hx | cases hx

theorem Move.claim? {x : Uid × RequestId} (h : Move p s p' s') (hx : p'.claim? = some x) :
    p.claim? = some x ∨ x.2 ∉ s.ledger.requests ∧ x.2 ∈ s'.ledger.requests ∧
      s'.inventory = s.inventory := by
  cases h with
  | accept hr =>
    obtain rfl := Option.some.inj hx
    exact .inr ⟨hr, List.mem_cons_self, rfl⟩
  | insert now hn =>
    subst hn
    exact .inl hx
  | _ => first | exact .inl hx | cases hx

theorem Move.fresh? (h : Move p s p' s') (hu : p'.fresh? = some uid) :
    p.fresh? = some uid ∧ s'.ledger.bookings = s.ledger.bookings := by
  cases h with
  | accept => exact ⟨hu, rfl⟩
  | _ => cases hu

theorem Move.target? {id : BookingId} (h : Move p s p' s') (hx : p'.target? = some id) :
    p.target? = some id := by
  cases h with
  | read hb =>
    obtain ⟨-, rfl⟩ := Ledger.booking?_eq_some hb
    exact hx
  | _ => first | exact hx | cases hx

theorem Move.fits (h : Move p s p' s') (hf : p.Fits) : p'.Fits := by
  cases h with
  | secure h | undo h | release h =>
    cases h with
    | go => rfl
    | keeper hk => exact hk.call?_eq hf
    | _ => trivial
  | _ => trivial

/-- A booking that an order has come to know is in the ledger. -/
theorem Move.row? (h : Move p s p' s') (hb : p'.row? = some b) :
    p.row? = some b ∨ b ∈ s'.ledger.bookings := by
  cases h with
  | insert now hn =>
    obtain rfl := Option.some.inj hb
    exact .inr (Ledger.mem_withBooking.mpr (.inr rfl))
  | read hr =>
    obtain rfl := Option.some.inj hb
    exact .inr (Ledger.booking?_eq_some hr).1
  | _ => first | exact .inl hb | cases hb

/-- A booking begins to be made when it is written down. -/
theorem Move.making? (h : Move p s p' s') (hb : p'.making? = some b) :
    p.making? = some b ∨ p.fresh? = some b.uid ∧ ∀ c ∈ s'.ledger.bookings,
      c ∈ s.ledger.bookings ∨ c.status = .pending := by
  cases h with
  | insert now hn =>
    obtain rfl := Option.some.inj hb
    refine .inr ⟨congrArg some hn.symm, fun c hc => ?_⟩
    rcases Ledger.mem_withBooking.mp hc with hc | rfl
    · exact .inl hc
    · exact .inr rfl
  | _ => first | exact .inl hb | cases hb

/-- How an order moves a booking on. -/
inductive Shift : Point → Booking → Status → Point → Prop
  | confirm {b c : Booking} {r : RequestId} {e : Errand} (he : e.Ended true) (hid : c.id = b.id)
    (hc : c.status = .pending) : Shift (.securing b r e) c .confirmed .over
  | cancel {b c : Booking} {r : RequestId} (hid : c.id = b.id) (hc : c.status = .pending) :
    Shift (.failing b r) c .cancelled (.undoing b r .ready)
  | mark {b c : Booking} {e : Errand} {ok : Bool} (he : e.Ended ok) (hid : c.id = b.id)
    (hc : c.status = b.status) : Shift (.releasing b e) c .cancelled .over

/-- What a move does to the ledger: a request is accepted, a booking is written down, or one moves
on. -/
theorem Move.ledger_cases (h : Move p s p' s') :
    s'.ledger = s.ledger ∨
      (∃ uid r, p = .asking uid r ∧
        s'.ledger = { s.ledger with requests := r :: s.ledger.requests }) ∨
      (∃ uid r now n, p = .accepted uid r ∧ n.uid = uid ∧
        p' = .securing (s.ledger.newBooking now n) r .ready ∧
        s'.ledger = s.ledger.withBooking now n) ∨
      ∃ c next, c ∈ s.ledger.bookings ∧ s'.ledger = s.ledger.moved c next ∧
        Shift p c next p' := by
  cases h with
  | accept hr => exact .inr (.inl ⟨_, _, rfl, rfl⟩)
  | insert now hn => exact .inr (.inr (.inl ⟨_, _, now, _, rfl, hn, rfl, rfl⟩))
  | secure h | undo h | release h => exact .inl h.ledger
  | confirm he hb hc =>
    obtain ⟨hm, hid⟩ := Ledger.booking?_eq_some hb
    exact .inr (.inr (.inr ⟨_, _, hm, rfl, .confirm he hid hc⟩))
  | cancel hb hc =>
    obtain ⟨hm, hid⟩ := Ledger.booking?_eq_some hb
    exact .inr (.inr (.inr ⟨_, _, hm, rfl, .cancel hid hc⟩))
  | mark he hb hc =>
    obtain ⟨hm, hid⟩ := Ledger.booking?_eq_some hb
    exact .inr (.inr (.inr ⟨_, _, hm, rfl, .mark he hid hc⟩))
  | _ => exact .inl rfl

theorem Move.requests {r : RequestId} (h : Move p s p' s') (hr : r ∈ s.ledger.requests) :
    r ∈ s'.ledger.requests := by
  rcases h.ledger_cases with hl | ⟨uid, q, -, hl⟩ | ⟨uid, q, now, n, -, -, -, hl⟩ |
    ⟨c, next, -, hl, -⟩ <;> rw [hl]
  · exact hr
  · exact List.mem_cons_of_mem _ hr
  · exact hr
  · exact hr

/-- No booking is ever lost. -/
theorem Move.rows (h : Move p s p' s') (hl : s.ledger.Sound) (hb : b ∈ s.ledger.bookings) :
    ∃ c ∈ s'.ledger.bookings, b.Same c := by
  rcases h.ledger_cases with he | ⟨uid, q, -, he⟩ | ⟨uid, q, now, n, -, -, -, he⟩ |
    ⟨c, next, hc, he, -⟩ <;> rw [he]
  · exact ⟨b, hb, .refl b⟩
  · exact ⟨b, hb, .refl b⟩
  · exact ⟨b, Ledger.mem_withBooking.mpr (.inl hb), .refl b⟩
  · obtain ⟨d, hd, hsame, -⟩ := hl.exists_moved (s := next) hc hb
    exact ⟨d, hd, hsame⟩

/-- A booking that is in the ledger was there before, is new, or has moved on. -/
theorem Move.row_cases (h : Move p s p' s') (hc : c ∈ s'.ledger.bookings) :
    c ∈ s.ledger.bookings ∨
      (p.fresh? = some c.uid ∧ p'.making? = some c ∧ c.status = .pending) ∨
      ∃ d ∈ s.ledger.bookings, d.Same c ∧ Shift p d c.status p' := by
  rcases h.ledger_cases with he | ⟨uid, q, -, he⟩ | ⟨uid, q, now, n, rfl, hn, rfl, he⟩ |
    ⟨d, next, hd, he, hshift⟩ <;> rw [he] at hc
  · exact .inl hc
  · exact .inl hc
  · rcases Ledger.mem_withBooking.mp hc with hc | rfl
    · exact .inl hc
    · exact .inr (.inl ⟨congrArg some hn.symm, rfl, rfl⟩)
  · rcases (Ledger.mem_moved hd).mp hc with rfl | ⟨hc, -⟩
    · exact .inr (.inr ⟨d, hd, (Booking.Same.refl d).moved next, hshift⟩)
    · exact .inl hc

theorem Move.rows_back (h : Move p s p' s') (hc : c ∈ s'.ledger.bookings) :
    (∃ b ∈ s.ledger.bookings, b.Same c) ∨ p.fresh? = some c.uid ∧ p'.making? = some c := by
  rcases h.row_cases hc with hc | ⟨hf, hmk, -⟩ | ⟨d, hd, hsame, -⟩
  · exact .inl ⟨c, hc, .refl c⟩
  · exact .inr ⟨hf, hmk⟩
  · exact .inl ⟨d, hd, hsame⟩

/-- A booking is confirmed by the order that made it, once its room is locked. -/
theorem Move.confirmed (h : Move p s p' s') (hc : c ∈ s'.ledger.bookings)
    (hs : c.status = .confirmed) : c ∈ s.ledger.bookings ∨ p' = .over ∧
      ∃ d ∈ s.ledger.bookings, d.Same c ∧ d.status = .pending ∧
        ∃ b r e, p = .securing b r e ∧ e.Ended true ∧ b.id = c.id := by
  rcases h.row_cases hc with hc | ⟨-, -, hnew⟩ | ⟨d, hd, hsame, hshift⟩
  · exact .inl hc
  · rw [hnew] at hs
    cases hs
  · rw [hs] at hshift
    cases hshift with
    | confirm he hid hpending =>
      exact .inr ⟨rfl, d, hd, hsame, hpending, _, _, _, rfl, he, hid.symm.trans hsame.id_eq.symm⟩

/-- A move within a call to the keeper, of an order that goes on otherwise as before. -/
inductive Within (k k' : Keeper.Point) : Point → Point → Prop
  | securing (b : Booking) (r : RequestId) :
    Within k k' (.securing b r (.on k)) (.securing b r (.on k'))
  | undoing (b : Booking) (r : RequestId) :
    Within k k' (.undoing b r (.on k)) (.undoing b r (.on k'))
  | releasing (b : Booking) : Within k k' (.releasing b (.on k)) (.releasing b (.on k'))

/-- No call to the keeper is under way, or it has not got further than its beginning. -/
def Point.AtDoor (p : Point) : Prop :=
  p.keeper = .rest ∨ (∃ n, p.keeper = .wants n) ∨ ∃ room uid, p.keeper = .wantsOut room uid

/-- Inventories are changed by calls to the keeper only. -/
theorem Move.keeper_cases (h : Move p s p' s') :
    (∃ k k', Within k k' p p' ∧ Keeper.Move k s.inventory k' s'.inventory ∧
      s'.ledger = s.ledger) ∨ s'.inventory = s.inventory ∧ p'.AtDoor := by
  cases h with
  | secure h =>
    cases h with
    | keeper hk => exact .inl ⟨_, _, .securing _ _, hk, rfl⟩
    | go => exact .inr ⟨rfl, .inr (.inl ⟨_, rfl⟩)⟩
    | _ => exact .inr ⟨rfl, .inl rfl⟩
  | undo h =>
    cases h with
    | keeper hk => exact .inl ⟨_, _, .undoing _ _, hk, rfl⟩
    | go => exact .inr ⟨rfl, .inr (.inr ⟨_, _, rfl⟩)⟩
    | _ => exact .inr ⟨rfl, .inl rfl⟩
  | release h =>
    cases h with
    | keeper hk => exact .inl ⟨_, _, .releasing _, hk, rfl⟩
    | go => exact .inr ⟨rfl, .inr (.inr ⟨_, _, rfl⟩)⟩
    | _ => exact .inr ⟨rfl, .inl rfl⟩
  | _ => exact .inr ⟨rfl, .inl rfl⟩

theorem Within.keeper (h : Within k k' p p') : p.keeper = k ∧ p'.keeper = k' := by
  cases h <;> exact ⟨rfl, rfl⟩

/-- A lock is placed for the booking that is being made. -/
theorem Move.locks {l : Lock} (h : Move p s p' s') (hf : p.Fits)
    (hl : l ∈ s'.inventory.locks) : l ∈ s.inventory.locks ∨ s'.ledger = s.ledger ∧
      ∃ b r, p = .securing b r (.on (.free (lockFor b r))) ∧ l.uid = b.uid ∧ l.room = b.room ∧
        l.stay = b.stay ∧ l.request = r ∧ s.inventory.room? b.room ≠ none ∧
          ((∃ m, p' = .securing b r (.on (.placed (lockFor b r) (.ok (.locked m))))) ∨
            s.inventory.raced = true ∧
              ∃ c, p' = .securing b r (.on (.refused (lockFor b r) c))) := by
  rcases h.keeper_cases with ⟨k, k', hw, hk, hledger⟩ | ⟨hv, -⟩
  · rcases hk.inventory_cases with hv | ⟨n, rfl, rfl, hv⟩ | ⟨n, now, rfl, hroom, -, hv, hk'⟩ |
      ⟨room, uid, m, rfl, rfl, hv⟩ <;> rw [hv] at hl
    · exact .inl hl
    · exact .inl hl
    · rw [Inventory.withLock_locks] at hl
      rcases List.mem_append.mp hl with hl | hl
      · exact .inl hl
      · rw [List.mem_singleton.mp hl]
        cases hw with
        | securing b r =>
          obtain rfl : n = lockFor b r := by
            injection Option.some.inj hf
          refine .inr ⟨hledger, b, r, rfl, rfl, rfl, rfl, rfl, hroom, ?_⟩
          -- in a race the lock is there although the order was refused
          rcases hk' with rfl | ⟨hraced, rfl⟩
          · exact .inl ⟨_, rfl⟩
          · exact .inr ⟨hraced, _, rfl⟩
        | undoing b r => cases hf
        | releasing b => cases hf
    · exact .inl (Inventory.mem_withoutLock.mp hl).1
  · rw [hv] at hl
    exact .inl hl

/-- A lock is removed by an order that releases its room, for the booking that it works on. -/
theorem Move.unlocks {l : Lock} (h : Move p s p' s') (hf : p.Fits) (hl : l ∈ s.inventory.locks) :
    l ∈ s'.inventory.locks ∨ s'.ledger = s.ledger ∧ ∃ b m,
      p.keeper = .removing b.room b.uid m ∧ l.id = m.id ∧
      p'.keeper = .removed b.room b.uid (.ok .released) ∧
        ((∃ e r, p = .undoing b r e) ∧ (∃ e r, p' = .undoing b r e) ∨
          (∃ e, p = .releasing b e) ∧ ∃ e, p' = .releasing b e) := by
  rcases h.keeper_cases with ⟨k, k', hw, hk, hledger⟩ | ⟨hv, -⟩
  · rcases hk.inventory_cases with hv | ⟨n, rfl, rfl, hv⟩ | ⟨n, now, rfl, hroom, -, hv, hk'⟩ |
      ⟨room, uid, m, rfl, rfl, hv⟩ <;> rw [hv]
    · exact .inl hl
    · exact .inl hl
    · rw [Inventory.withLock_locks]
      exact .inl (List.mem_append_left _ hl)
    · by_cases hid : l.id = m.id
      · cases hw with
        | securing b r => cases hf
        | undoing b r =>
          injection Option.some.inj hf with hroom huid
          subst hroom huid
          exact .inr ⟨hledger, b, m, rfl, hid, rfl, .inl ⟨⟨_, _, rfl⟩, _, _, rfl⟩⟩
        | releasing b =>
          injection Option.some.inj hf with hroom huid
          subst hroom huid
          exact .inr ⟨hledger, b, m, rfl, hid, rfl, .inr ⟨⟨_, rfl⟩, _, rfl⟩⟩
      · exact .inl (Inventory.mem_withoutLock.mpr ⟨hl, hid⟩)
  · rw [hv]
    exact .inl hl

theorem Move.planned (h : Move p s p' s') (o : Operation) : s'.planned o = s.planned o := by
  cases h with
  | secure h | undo h | release h => exact h.planned o
  | _ => cases o <;> rfl

theorem Move.ne_denied (h : Move p s p' s') (hp : ∀ o, s.planned o = none) :
    p'.errand? ≠ some .denied := by
  cases h with
  | secure h | undo h | release h => exact fun he => h.ne_denied (hp _) (Option.some.inj he)
  | _ => nofun

theorem Move.ne_denied_of_undoing {r : RequestId} {e : Errand}
    (h : Move p s (.undoing b r e) s') (hp : s.planned .release = none) : e ≠ .denied := by
  cases h with
  | undo h => exact h.ne_denied hp
  | _ => nofun

theorem Move.ne_denied_of_releasing {e : Errand}
    (h : Move p s (.releasing b e) s') (hp : s.planned .release = none) : e ≠ .denied := by
  cases h with
  | release h => exact h.ne_denied hp
  | _ => nofun

/-- Whoever releases the room of a booking has read it, or reads it now. -/
theorem Move.releasing_cases {e : Errand} (h : Move p s (.releasing b e) s') :
    (∃ e', p = .releasing b e') ∨ s.ledger.booking? b.id = some b ∧ b.status ≠ .cancelled := by
  cases h with
  | release h => exact .inl ⟨_, rfl⟩
  | read hb hs =>
    obtain ⟨-, rfl⟩ := Ledger.booking?_eq_some hb
    exact .inr ⟨hb, hs⟩

theorem Move.raced (h : Move p s p' s') (hr : s.inventory.raced = false) :
    s'.inventory.raced = false := by
  rcases h.keeper_cases with ⟨k, k', -, hk, -⟩ | ⟨hv, -⟩
  · exact hk.raced hr
  · rwa [hv]

theorem Move.serves? {room : RoomId} (h : Move p s p' s') (hr : s.inventory.serves? room ≠ none) :
    s'.inventory.serves? room ≠ none := by
  rcases h.keeper_cases with ⟨k, k', -, hk, -⟩ | ⟨hv, -⟩
  · exact hk.serves? hr
  · rwa [hv]

/-- A booking that is to be cancelled is one of the ledger, and not cancelled yet. -/
theorem Move.read? (h : Move p s p' s') (hb : p'.read? = some b) :
    p.read? = some b ∨ b ∈ s.ledger.bookings ∧ b.status ≠ .cancelled ∧ s' = s := by
  cases h with
  | read hr hs =>
    obtain rfl := Option.some.inj hb
    exact .inr ⟨(Ledger.booking?_eq_some hr).1, hs, rfl⟩
  | _ => first | exact .inl hb | cases hb

/-- A lock appears for the booking that is being made, and the errand has gone well. -/
theorem Move.gains (h : Move p s p' s') (hf : p.Fits) (hr : s.inventory.raced = false)
    (hno : ¬ s.inventory.HasLock uid) (hyes : s'.inventory.HasLock uid) : s'.ledger = s.ledger ∧
      ∃ b r e e', b.uid = uid ∧ p = .securing b r e ∧ ¬ e.Ended true ∧ p' = .securing b r e' ∧
        e'.Ended true := by
  obtain ⟨l, hl, hu⟩ := hyes
  rcases h.locks hf hl with hl | ⟨hled, b, r, hp, hbu, -, -, -, -, ⟨m, hp'⟩ | ⟨hraced, -⟩⟩
  · exact absurd ⟨l, hl, hu⟩ hno
  · exact ⟨hled, b, r, _, _, hbu.symm.trans hu, hp, id, hp', rfl⟩
  · rw [hr] at hraced
    cases hraced

end Moves

end Lodging.Desk
