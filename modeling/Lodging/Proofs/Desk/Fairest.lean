import Lodging.Proofs.Desk.Alone
import Lodging.Proofs.Desk.Locks
import Lodging.Proofs.Desk.Requests

/-!
An order for any room, when nobody else is about. It takes the room that is booked least, and of
several the one with the lowest id; the lock for it cannot be refused, since the uid and the request
of the order are new.
-/

namespace Lodging

/-- A stay that is yet to come may be asked for. -/
theorem Stay.requested_of_le {s : Stay} {today : Date} (h : today ≤ s.arrival) :
    Stay.requested (some s.arrival) (some s.departure) today = .ok s := by
  have hdates : Stay.ofDates s.arrival s.departure = .ok s := Stay.ofDates_eq_ok.mpr ⟨rfl, rfl⟩
  simp only [Stay.requested, hdates]
  exact if_neg h

namespace Ledger

variable {l : Ledger} {now : Instant} {n : NewBooking}

/-- A booking that was just written down moves on by itself. -/
theorem Numbered.bookings_moved_newBooking (hl : l.Numbered) (s : Status) :
    ((l.withBooking now n).moved (l.newBooking now n) s).bookings =
      l.bookings ++ [{ l.newBooking now n with status := s }] := by
  -- the other bookings have other ids
  have hold : ∀ b ∈ l.bookings, (if b.id = (l.newBooking now n).id
      then { l.newBooking now n with status := s } else b) = b := by
    intro b hb
    have hne := List.find?_eq_none.mp (hl.booking?_newBooking now n) b hb
    exact if_neg fun hid => hne (decide_eq_true hid)
  have hmap := List.map_congr_left (g := id) hold
  rw [List.map_id] at hmap
  change (l.bookings ++ [l.newBooking now n]).map _ = _
  rw [List.map_append, hmap, List.map_singleton, if_pos rfl]

/-- The ledger with a request taken. -/
def withRequest (l : Ledger) (r : RequestId) : Ledger := { l with requests := r :: l.requests }

theorem accept_of_not_mem {r : RequestId} (h : r ∉ l.requests) :
    l.accept r = (.ok (), l.withRequest r) :=
  if_neg h

theorem Numbered.withRequest (hl : l.Numbered) (r : RequestId) : (l.withRequest r).Numbered :=
  ⟨hl.counted, hl.ids⟩

end Ledger

/-- The books once an order for any room has found none. -/
def Books.turnedDown (s : Books) (r : RequestId) : Books :=
  ⟨s.inventory, s.ledger.withRequest r, s.attempts.add .recommend⟩

/-- The books with a booking that was written down for an order for any room. -/
def Books.pending (s : Books) (now : Instant) (n : NewBooking) (r : RequestId) : Books :=
  { s.turnedDown r with ledger := (s.ledger.withRequest r).withBooking now n }

/-- The books once the room of the booking was locked and the booking confirmed. -/
def Books.fulfilled (s : Books) (now : Instant) (n : NewBooking) (r : RequestId) : Books where
  inventory := s.inventory.withLock now ⟨n.room, n.stay, n.uid, r⟩
  ledger := (s.pending now n r).ledger.moved (s.ledger.newBooking now n) .confirmed
  attempts := (s.attempts.add .recommend).add .confirm

namespace Desk

open Process (Comes)

variable {now : Instant} {s s' : Books} {policy : RetryPolicy} {user : UserId}
  {wish : BookingRequest} {r : RequestId} {today : Date} {uid : Uid} {stay : Stay}

theorem comes_invoke {α : Type} {p : Process (Except CallFailure α)} {a : α}
    (h : Comes now s p (.ok a) s') : Comes now s (invoke p).run (.ok a) s' :=
  h.bind .done

theorem comes_ask {c : LedgerCall} {x : c.Answer} {l : Ledger}
    (h : s.ledger.answer now c = (x, l)) : Comes now s (ask c).run x { s with ledger := l } :=
  Comes.ledger h .done

/-- Of the rooms that are recommended the first one is chosen. -/
theorem comes_chooseRoom (hwish : wish.anyRoom = true) {x : Except BookingFailure RoomId}
    (hx : x = match Keeper.ranked (s.inventory.offered stay) with
      | room :: _ => .ok room.id
      | [] => .error .noRoom) :
    Comes now s (chooseRoom (.direct policy) wish stay r).run x
      { s with attempts := s.attempts.add .recommend } := by
  subst hx
  unfold chooseRoom
  rw [if_pos hwish]
  refine Comes.task_bind (comes_invoke (Gateway.comes_recommend policy stay r)) ?_
  cases Keeper.ranked (s.inventory.offered stay) with
  | nil => exact .done
  | cons room rest => exact .done

/-- A pending booking of a room that is offered is confirmed. -/
theorem comes_settle {b : Booking} (hb : s.ledger.booking? b.id = some b)
    (hpending : b.status = .pending) (hraced : s.inventory.raced = false)
    (hnew : ∀ l ∈ s.inventory.locks, l.uid ≠ b.uid ∧ l.request ≠ r)
    (hroom : s.inventory.Offers b.room b.stay) :
    Comes now s (settle (.direct policy) b r) (.ok { b with status := .confirmed }.summary)
      ⟨s.inventory.withLock now ⟨b.room, b.stay, b.uid, r⟩, s.ledger.moved b .confirmed,
        s.attempts.add .confirm⟩ := by
  have hmove : s.ledger.updateStatus b.id .pending .confirmed =
      (some { b with status := .confirmed }, s.ledger.moved b .confirmed) :=
    hpending ▸ Ledger.updateStatus_of_eq hb .confirmed
  have hsecure : Comes now s (secure (.direct policy) b r).run (.ok { b with status := .confirmed })
      ⟨s.inventory.withLock now ⟨b.room, b.stay, b.uid, r⟩, s.ledger.moved b .confirmed,
        s.attempts.add .confirm⟩ := by
    refine Comes.task_bind (comes_invoke (Gateway.comes_confirm policy hraced hnew hroom)) ?_
    refine Comes.task_bind (a := some { b with status := .confirmed }) (comes_ask ?_) .done
    simp only [Ledger.answer, hmove]
  exact hsecure.bind (Comes.meter .done)

/-- An order whose dates will do and whose request is new is accepted. -/
theorem comes_accepted (hstay : Stay.requested wish.arrival wish.departure today = .ok stay)
    (hr : r ∉ s.ledger.requests) {x : Except BookingFailure BookingSummary}
    (h : Comes now { s with ledger := s.ledger.withRequest r }
      (book (.direct policy) user wish r uid stay).run x s') :
    Comes now s (create (.direct policy) user wish r today uid).run x s' := by
  rw [create_eq hstay]
  exact Comes.meter (Comes.ledger (Ledger.accept_of_not_mem hr) h)

/-- If nothing is offered, the order comes to its end with the recommendation. -/
theorem comes_create_of_none (policy : RetryPolicy) (user : UserId) (wish : BookingRequest)
    (uid : Uid) (hwish : wish.anyRoom = true)
    (hstay : Stay.requested wish.arrival wish.departure today = .ok stay)
    (hr : r ∉ s.ledger.requests) (hnone : s.inventory.offered stay = []) :
    Comes now s (create (.direct policy) user wish r today uid).run (.error .noRoom)
      (s.turnedDown r) := by
  refine comes_accepted hstay hr (Comes.task_bind_error (comes_chooseRoom hwish ?_))
  rw [hnone, Keeper.ranked_nil]

/-- The room that comes first is booked. -/
theorem comes_create_of_offered (policy : RetryPolicy) (user : UserId) (wish : BookingRequest)
    (hwish : wish.anyRoom = true)
    (hstay : Stay.requested wish.arrival wish.departure today = .ok stay)
    (hr : r ∉ s.ledger.requests) (hl : s.ledger.Numbered) (hraced : s.inventory.raced = false)
    (hnew : ∀ l ∈ s.inventory.locks, l.uid ≠ uid ∧ l.request ≠ r) {room : RoomSummary}
    {rest : List RoomSummary} (hfound : Keeper.ranked (s.inventory.offered stay) = room :: rest)
    (hroom : s.inventory.Offers room.id stay) :
    Comes now s (create (.direct policy) user wish r today uid).run
      (.ok { s.ledger.newBooking now ⟨uid, user, room.id, stay⟩ with status := .confirmed }.summary)
      (s.fulfilled now ⟨uid, user, room.id, stay⟩ r) := by
  have hchoose : Comes now { s with ledger := s.ledger.withRequest r }
      (chooseRoom (.direct policy) wish stay r).run (.ok room.id) (s.turnedDown r) :=
    comes_chooseRoom hwish (by rw [hfound])
  have hinsert : Comes now (s.turnedDown r) (ask (.insertPending ⟨uid, user, room.id, stay⟩)).run
      (.ok (s.ledger.newBooking now ⟨uid, user, room.id, stay⟩))
      (s.pending now ⟨uid, user, room.id, stay⟩ r) :=
    comes_ask rfl
  -- the booking is found again by its id, as no other one has it
  have hbooking : (s.pending now ⟨uid, user, room.id, stay⟩ r).ledger.booking?
      (s.ledger.newBooking now ⟨uid, user, room.id, stay⟩).id =
        some (s.ledger.newBooking now ⟨uid, user, room.id, stay⟩) :=
    ((hl.withRequest r).withBooking now _).booking?_of_mem (Ledger.mem_withBooking.mpr (.inr rfl))
  have hsettle : Comes now (s.pending now ⟨uid, user, room.id, stay⟩ r) (settle (.direct policy)
        (s.ledger.newBooking now ⟨uid, user, room.id, stay⟩) r)
      (.ok { s.ledger.newBooking now ⟨uid, user, room.id, stay⟩ with status := .confirmed }.summary)
      (s.fulfilled now ⟨uid, user, room.id, stay⟩ r) :=
    comes_settle hbooking rfl hraced hnew hroom
  exact comes_accepted hstay hr
    (Comes.task_bind hchoose (Comes.task_bind hinsert (hsettle.bind (Comes.meter .done))))

/-- A desk as it is found after a run that began in a house with these rooms. -/
abbrev after (now : Instant) (rooms : List NewRoom) (es : List (Event Call)) : Scene Call.process :=
  (Scene.opening Call.process (.furnished now rooms)).run es

/-- A desk that is not busy, to which an order comes with a uid and a request that are new. -/
structure Awaits (w : World) (uid : Uid) (r : RequestId) : Prop where
  alone : w.Alone
  ascending : w.inventory.Ascending
  numbered : w.ledger.Numbered
  request : r ∉ w.ledger.requests
  fresh : ∀ l ∈ w.inventory.locks, l.uid ≠ uid ∧ l.request ≠ r

theorem ascending_furnished (rooms : List NewRoom) : (Inventory.furnished rooms).Ascending := by
  have hall : ∀ v : Inventory, v.Ascending →
      (rooms.foldl (fun v n => (v.insertRoom n).2) v).Ascending := by
    induction rooms with
    | nil => exact fun v hv => hv
    | cons n rest ih => exact fun v hv => ih _ ((v.extends_insertRoom n).ascending hv)
  exact hall .empty Inventory.ascending_empty

/-- Every lock is of a booking that an earlier order made, and of its request. -/
theorem Accounts.fresh_lock {st : Stage Call Point} (h : Accounts st) {c : Call}
    (hd : Distinct (st.calls ++ [c])) (huid : c.uid? = some uid)
    (hr : r ∉ st.stock.ledger.requests) {l : Lock} (hl : l ∈ st.stock.inventory.locks) :
    l.uid ≠ uid ∧ l.request ≠ r := by
  refine ⟨fun heq => ?_, fun heq => hr (heq ▸ h.named l hl)⟩
  obtain ⟨b, hb, hu, -⟩ := h.covered l hl
  obtain ⟨c', hc', hcu⟩ := h.rows b hb
  have huid' : c'.uid? = some uid := calc
    c'.uid? = some b.uid := hcu
    _ = some l.uid := congrArg some hu
    _ = some uid := congrArg some heq
  -- so two orders would be for the same booking, of which only one is the last
  obtain ⟨i, hi⟩ := List.mem_iff_getElem?.mp hc'
  have hlt : i < st.calls.length := (List.getElem?_eq_some_iff.mp hi).1
  have hold : (st.calls ++ [c])[i]? = some c' := by rwa [List.getElem?_append_left hlt]
  have hlast : (st.calls ++ [c])[st.calls.length]? = some c := List.getElem?_concat_length
  exact absurd (hd.index_eq hold hlast huid' huid) (Nat.ne_of_lt hlt)

theorem Accounts.awaits {x : Scene Call.process} {st : Stage Call Point} {c : Call}
    (h : Accounts st) (ht : script.Tells Call.Ends x st) (hquiet : x.Quiet)
    (hasc : x.world.inventory.Ascending) (hd : Distinct (x.jobs.map Prod.fst ++ [c]))
    (huid : c.uid? = some uid) (hr : r ∉ x.world.ledger.requests) : Awaits x.world uid r := by
  have hlocks : x.world.inventory.locks = st.stock.inventory.locks := by
    rw [ht.stock]
    rfl
  have hledger : x.world.ledger = st.stock.ledger := by
    rw [ht.stock]
    rfl
  refine ⟨⟨ht.undisturbed, ht.sound, ht.visitors_of_quiet hquiet⟩, hasc, ?_, hr, ?_⟩
  · rw [hledger]
    exact h.ledger.numbered
  · rw [hlocks]
    rw [hledger] at hr
    rw [← ht.calls] at hd
    exact fun l hl => h.fresh_lock hd huid hr hl

theorem awaits_after (now : Instant) (rooms : List NewRoom) (es : List (Event Call)) {c : Call}
    (hquiet : (after now rooms es).Quiet)
    (hdistinct : Distinct ((after now rooms es).jobs.map Prod.fst ++ [c]))
    (huid : c.uid? = some uid) (hr : r ∉ (after now rooms es).world.ledger.requests) :
    Awaits (after now rooms es).world uid r := by
  obtain ⟨st, ht, ha⟩ := exists_accounts now rooms es hdistinct.of_append
  have hasc : (after now rooms es).world.inventory.Ascending :=
    (Scene.extends_run _ es).ascending (ascending_furnished rooms)
  exact ha.awaits ht hquiet hasc hdistinct huid hr

/-- What an order leaves behind that has a room: one booking and one lock more, one more that is
counted for the room, and one attempt to recommend and one to lock. -/
structure Served (w w' : World) (b : Booking) (r : RequestId) : Prop where
  bookings : w'.ledger.bookings = w.ledger.bookings ++ [b]
  locks : w'.inventory.locks =
    w.inventory.locks ++ [⟨w.inventory.lastLock + 1, b.room, b.stay, b.uid, r, w.now⟩]
  rooms : w'.inventory.rooms = w.inventory.rooms.map fun x =>
    if x.id = b.room then { x with timesBooked := x.timesBooked + 1 } else x
  attempts : w'.attempts = { w.attempts with
    recommend := w.attempts.recommend + 1
    confirm := w.attempts.confirm + 1 }

/-- What an order leaves behind that found no room: nothing but an attempt to recommend. -/
structure Unserved (w w' : World) : Prop where
  bookings : w'.ledger.bookings = w.ledger.bookings
  inventory : w'.inventory = w.inventory
  attempts : w'.attempts = { w.attempts with recommend := w.attempts.recommend + 1 }

theorem Awaits.shows {w : World} (h : Awaits w uid r) (hagreed : w.confirmFailure = none) :
    w.Shows w.now ⟨w.inventory, w.ledger, w.attempts⟩ :=
  ⟨h.alone, hagreed, rfl, rfl, rfl, rfl⟩

/-- Of the rooms that are offered one comes first, and it comes before all others. -/
theorem exists_first {v : Inventory} (hv : v.Ascending) (hsome : ∃ y, y ∈ v.offered stay) :
    ∃ y ∈ v.offered stay, (∃ rest, Keeper.ranked (v.offered stay) = y.summary :: rest) ∧
      ∀ z ∈ v.offered stay, z.id ≠ y.id → y.summary.Before z.summary := by
  have hbefore := Keeper.ranked_before (hv.offered stay)
  cases hranked : Keeper.ranked (v.offered stay) with
  | nil =>
    obtain ⟨y, hy⟩ := hsome
    have hmem : y.summary ∈ Keeper.ranked (v.offered stay) := Keeper.mem_ranked.mpr ⟨y, hy, rfl⟩
    rw [hranked] at hmem
    cases hmem
  | cons a rest =>
    obtain ⟨y, hy, rfl⟩ := Keeper.mem_ranked.mp (hranked ▸ List.mem_cons_self (a := a))
    refine ⟨y, hy, ⟨rest, rfl⟩, fun z hz hne => ?_⟩
    have hmem : z.summary ∈ Keeper.ranked (v.offered stay) := Keeper.mem_ranked.mpr ⟨z, hz, rfl⟩
    rw [hranked] at hmem hbefore
    rcases List.mem_cons.mp hmem with heq | hmem
    · exact absurd (congrArg RoomSummary.id heq) hne
    · exact List.rel_of_pairwise_cons hbefore hmem

section Order

variable {w w' : World} {n : NewBooking}

theorem served_of_shows (hl : w.ledger.Numbered)
    (hw' : w'.Shows w.now (Books.fulfilled ⟨w.inventory, w.ledger, w.attempts⟩ w.now n r)) :
    Served w w' { w.ledger.newBooking w.now n with status := .confirmed } r where
  bookings := by
    rw [hw'.ledger]
    exact (hl.withRequest r).bookings_moved_newBooking .confirmed
  locks := by
    rw [hw'.inventory]
    rfl
  rooms := by
    rw [hw'.inventory]
    rfl
  attempts := hw'.attempts

theorem unserved_of_shows
    (hw' : w'.Shows w.now (Books.turnedDown ⟨w.inventory, w.ledger, w.attempts⟩ r)) :
    Unserved w w' where
  bookings := by
    rw [hw'.ledger]
    rfl
  inventory := hw'.inventory
  attempts := hw'.attempts

/-- An order for any room that is awaited either books the first room of those that are offered, or
finds that none is. -/
theorem Awaits.order (h : Awaits w uid r) (room? : Option RoomId)
    (hraced : w.inventory.raced = false) (hagreed : w.confirmFailure = none)
    (policy : RetryPolicy) (user : UserId) (hahead : today ≤ stay.arrival) :
    ∃ x w', (Call.process (.create policy user ⟨some stay.arrival, some stay.departure, true, room?⟩
        r today uid)).advance w = (.inl x, w') ∧
      ((∃ y, y ∈ w.inventory.offered stay) → ∃ y ∈ w.inventory.offered stay,
        (∀ z ∈ w.inventory.offered stay, z.id ≠ y.id → y.summary.Before z.summary) ∧
        ∃ b : Booking, b = ⟨⟨w.ledger.lastBooking + 1⟩, uid, user, y.id, stay, .confirmed, w.now⟩ ∧
          x = .ok b.summary ∧ Served w w' b r) ∧
      ((∀ y, y ∉ w.inventory.offered stay) → x = .error .noRoom ∧ Unserved w w') := by
  have hstay := Stay.requested_of_le hahead
  have hshows := h.shows hagreed
  by_cases hsome : ∃ y, y ∈ w.inventory.offered stay
  · obtain ⟨y, hy, ⟨rest, hranked⟩, hbefore⟩ := exists_first h.ascending hsome
    have hoffers : w.inventory.Offers y.id stay := h.ascending.exists_offered.mp ⟨y, hy, rfl⟩
    obtain ⟨w', hw', hafter⟩ := comes_create_of_offered policy user
      ⟨some stay.arrival, some stay.departure, true, room?⟩ rfl hstay h.request h.numbered hraced
      h.fresh hranked hoffers w hshows
    exact ⟨_, w', hw', fun _ => ⟨y, hy, hbefore, _, rfl, rfl, served_of_shows h.numbered hafter⟩,
      fun hnone => absurd hsome (not_exists.mpr hnone)⟩
  · have hnone : w.inventory.offered stay = [] :=
      List.eq_nil_iff_forall_not_mem.mpr (not_exists.mp hsome)
    obtain ⟨w', hw', hafter⟩ := comes_create_of_none policy user
      ⟨some stay.arrival, some stay.departure, true, room?⟩ uid rfl hstay h.request hnone w hshows
    exact ⟨_, w', hw', fun hsome' => absurd hsome' hsome, fun _ => ⟨rfl, unserved_of_shows hafter⟩⟩

end Order

/-- When no order is under way and no failure in store, an order for any room is met if and only if
some room in service has no lock that overlaps the stay. It gets the one that is booked least, and
of several the one with the lowest id, with a single attempt. Otherwise it fails and leaves the rooms
and the bookings as they were. -/
theorem least_booked_room_is_taken (now : Instant) (rooms : List NewRoom) (es : List (Event Call))
    (policy : RetryPolicy) (user : UserId) (stay : Stay) (room? : Option RoomId) (r : RequestId)
    (today : Date) (uid : Uid) (hquiet : (after now rooms es).Quiet)
    (hdistinct : Distinct ((after now rooms es).jobs.map Prod.fst ++ [.create policy user
      ⟨some stay.arrival, some stay.departure, true, room?⟩ r today uid]))
    (hraced : (after now rooms es).world.inventory.raced = false)
    (hagreed : (after now rooms es).world.confirmFailure = none)
    (hr : r ∉ (after now rooms es).world.ledger.requests) (hahead : today ≤ stay.arrival) :
    let w := (after now rooms es).world
    ∃ x w', (Call.process (.create policy user ⟨some stay.arrival, some stay.departure, true, room?⟩
        r today uid)).advance w = (.inl x, w') ∧
      ((∃ b, x = .ok b ∧ b.status = .confirmed) ↔ ∃ y, y ∈ w.inventory.offered stay) ∧
      ((∃ y, y ∈ w.inventory.offered stay) → ∃ y ∈ w.inventory.offered stay,
        (∀ z ∈ w.inventory.offered stay, z.id ≠ y.id → y.summary.Before z.summary) ∧
        ∃ b : Booking, b = ⟨⟨w.ledger.lastBooking + 1⟩, uid, user, y.id, stay, .confirmed, w.now⟩ ∧
          x = .ok b.summary ∧ Served w w' b r) ∧
      ((∀ y, y ∉ w.inventory.offered stay) → x = .error .noRoom ∧ Unserved w w') := by
  intro w
  have hawaits : Awaits w uid r := awaits_after now rooms es hquiet hdistinct rfl hr
  obtain ⟨x, w', hw', hoffered, hnone⟩ := hawaits.order room? hraced hagreed policy user hahead
  refine ⟨x, w', hw', ⟨?_, fun hsome => ?_⟩, hoffered, hnone⟩
  · -- an order that was met has found a room
    rintro ⟨b, rfl, -⟩
    by_contra hsome
    cases (hnone (not_exists.mp hsome)).1
  · obtain ⟨y, -, -, b, rfl, rfl, -⟩ := hoffered hsome
    exact ⟨_, rfl, rfl⟩

/-- An order for any room, after another one has taken the first. -/
def laterOrder : Call :=
  .create .once ⟨2⟩ (.ofAnyRoom Sample.twoNights.arrival Sample.twoNights.departure) ⟨"2"⟩
    Sample.newYear.date (Sample.uid 2)

def firstTaken : List (Event Call) := .start (Sample.booking 1) :: List.replicate 30 (.advance 0)

theorem second_room_is_taken :
    ∃ b w', laterOrder.process.advance (after Sample.newYear [Sample.room, Sample.room]
        firstTaken).world = (.inl (.ok b), w') ∧ b.room = ⟨2⟩ ∧
      w'.inventory.rooms.map (·.timesBooked) = [1, 1] := by
  obtain ⟨x, w', hw', -, hoffered, -⟩ := least_booked_room_is_taken Sample.newYear
    [Sample.room, Sample.room] firstTaken .once ⟨2⟩ Sample.twoNights none ⟨"2"⟩ Sample.newYear.date
    (Sample.uid 2) (by decide +kernel) (by decide +kernel) (by decide +kernel) (by decide +kernel)
    (by decide +kernel) (by decide +kernel)
  obtain ⟨y, hy, -, b, rfl, rfl, hserved⟩ :=
    hoffered ⟨⟨⟨2⟩, ⟨1⟩, "101", true, 0⟩, by decide +kernel⟩
  have hsecond : ∀ y ∈ (after Sample.newYear [Sample.room, Sample.room]
      firstTaken).world.inventory.offered Sample.twoNights, y.id = ⟨2⟩ := by decide +kernel
  refine ⟨_, w', hw', hsecond y hy, ?_⟩
  rw [hserved.rooms, hsecond y hy]
  decide +kernel

end Desk

end Lodging
