import Lodging.Proofs.Contest.Course
import Lodging.Proofs.Keeper.Effect

/-!
How a contest stands while it goes on. As long as no bid has locked the room, the inventory is as it
was at first; from then on it has the lock of that bid, and of no other one. Whoever is turned down
has been so by the one who won.
-/

namespace Lodging.Desk

/-- The failure of a bid that comes too late. -/
def Bid.turnedDown {room : RoomId} (x : Bid room) : BookingFailure :=
  .inventory (RoomFailure.unavailable room x.stay).seen

namespace Contest

section Keeper

variable {n : NewLock} {room : RoomId} {uid : Uid} {k k' : Keeper.Point} {v v' : Inventory}

/-- The order for a lock that nobody else asks for is on its way, or was turned down for a lock
that overlaps. -/
def Bids (n : NewLock) : Keeper.Point → Prop
  | .wants m | .entered m | .unclaimed m | .free m => m = n
  | .known m o => m = n ∧ o = true
  | .placed m r => m = n ∧
    ((∃ l, r = .ok (.locked l)) ∨ r = .error (.unavailable n.room n.stay))
  | _ => False

/-- The release of a room for a booking that has no lock. -/
def Leaves (room : RoomId) (uid : Uid) : Keeper.Point → Prop
  | .wantsOut q u | .cameIn q u | .checked q u => q = room ∧ u = uid
  | .removed q u r => q = room ∧ u = uid ∧ r = .ok .nothingToRelease
  | _ => False

/-- The order looks at the inventory, is turned down, or places the lock. -/
inductive Progress (n : NewLock) (v : Inventory) : Keeper.Point → Keeper.Point → Inventory → Prop
  | look {k k' : Keeper.Point} (hk : ∀ m r, k' ≠ .placed m r)
    (hfree : ∀ m, k' = .free m → v.overlapping n.room n.stay = []) : Progress n v k k' v
  | down {k : Keeper.Point} (h : v.overlapping n.room n.stay ≠ []) :
    Progress n v k (.placed n (.error (.unavailable n.room n.stay))) v
  | lock (now : Instant) (l : Lock) :
    Progress n v (.free n) (.placed n (.ok (.locked l))) (v.withLock now n)

theorem Bids.move (h : Bids n k) (hserves : v.serves? n.room = some true)
    (hno : ∀ l ∈ v.locks, l.uid ≠ n.uid ∧ l.request ≠ n.request) (hraced : v.raced = false)
    (hm : Keeper.Move k v k' v') : Bids n k' ∧ Progress n v k k' v' := by
  have hroom : v.room? n.room ≠ none := by
    intro hr
    rw [Inventory.serves?_eq_none.mpr hr] at hserves
    cases hserves
  have hrequest : v.lockByRequest? n.request = none :=
    Inventory.lockByRequest?_eq_none.mpr fun l hl => (hno l hl).2
  have hclash : v.clash? n = none := Inventory.clash?_eq_none.mpr hno
  cases hm with
  | enter m => exact ⟨h, .look (fun _ _ h => by cases h) fun _ h => by cases h⟩
  | @room m _ r hr =>
    obtain rfl : m = n := h
    rw [Keeper.serves?_eq_some hr] at hserves
    exact ⟨⟨rfl, Option.some.inj hserves⟩, .look (fun _ _ h => by cases h) fun _ h => by cases h⟩
  | first => exact ⟨h.1, .look (fun _ _ h => by cases h) fun _ h => by cases h⟩
  | @free m _ hover =>
    obtain rfl : m = n := h
    exact ⟨rfl, .look (fun _ _ h => by cases h) fun _ _ => hover⟩
  | @taken m _ hover =>
    obtain rfl : m = n := h
    exact ⟨⟨rfl, .inr rfl⟩, .down hover⟩
  | @insert m _ r now =>
    obtain rfl : m = n := h
    exact ⟨⟨rfl, .inl ⟨_, rfl⟩⟩, .lock now _⟩
  -- the room is there and in service, and nothing is known of the bid
  | @noRoom m _ hr =>
    obtain rfl : m = n := h
    exact absurd hr hroom
  | @vanished m _ hr =>
    obtain rfl : m = n := h
    exact absurd hr hroom
  | @repeated m _ _ l hl =>
    obtain ⟨rfl, -⟩ : m = n ∧ _ := h
    rw [hrequest] at hl
    cases hl
  | outOfService => cases h.2
  | @race m _ r now hr hc hrace =>
    rw [hraced] at hrace
    cases hrace
  | @clash m _ r key hr hc =>
    obtain rfl : m = n := h
    rw [hclash] at hc
    cases hc
  | _ => cases h

theorem Leaves.move (h : Leaves room uid k) (hserves : v.serves? room ≠ none)
    (hno : ∀ l ∈ v.locks, l.uid ≠ uid) (hm : Keeper.Move k v k' v') :
    Leaves room uid k' ∧ v' = v := by
  have hroom : v.room? room ≠ none := mt Inventory.serves?_eq_none.mpr hserves
  have huid : v.lockByUid? uid = none := Inventory.lockByUid?_eq_none.mpr hno
  cases hm with
  | comeIn => exact ⟨h, rfl⟩
  | check => exact ⟨h, rfl⟩
  | nothing => exact ⟨⟨h.1, h.2, rfl⟩, rfl⟩
  | noSuchRoom hr =>
    obtain ⟨rfl, -⟩ := h
    exact absurd hr hroom
  | elsewhere hl =>
    obtain ⟨-, rfl⟩ := h
    rw [huid] at hl
    cases hl
  | here hl =>
    obtain ⟨-, rfl⟩ := h
    rw [huid] at hl
    cases hl
  | _ => cases h

end Keeper

variable {room : RoomId}

namespace Point

def bid? : Point room → Option (Bid room)
  | rest => none
  | asking x | refused x | accepted x | securing x _ _ | failing x _ _ | undoing x _ _ _
  | confirmed x _ => some x

/-- The bid whose request was accepted. -/
def accepted? : Point room → Option (Bid room)
  | accepted x | securing x _ _ | failing x _ _ | undoing x _ _ _ | confirmed x _ => some x
  | _ => none

/-- The booking as it stands in the ledger. -/
def row? : Point room → Option Booking
  | securing _ b _ | failing _ b _ | confirmed _ b => some b
  | undoing _ b _ _ => some { b with status := .cancelled }
  | _ => none

/-- The room has been locked. -/
def Won : Point room → Prop
  | securing _ _ (.on (.placed _ (.ok _))) | confirmed .. => True
  | _ => False

/-- The room could not be locked. -/
def Lost : Point room → Prop
  | securing _ _ (.on (.placed _ (.error _))) | failing .. | undoing .. => True
  | _ => False

/-- All that is known of the bid is as it should be. -/
def Fits : Point room → Prop
  | rest | asking _ | accepted _ => True
  | refused _ => False
  | securing x b e => b = x.row b.id b.createdAt .pending ∧
    match e with
    | .ready => True
    | .denied => False
    | .on k => Bids x.lock k
  | failing x b f => b = x.row b.id b.createdAt .pending ∧ f = x.turnedDown
  | undoing x b f e => b = x.row b.id b.createdAt .pending ∧ f = x.turnedDown ∧
    match e with
    | .ready => True
    | .denied => False
    | .on k => Leaves room x.uid k
  | confirmed x b => b = x.row b.id b.createdAt .confirmed

variable {p : Point room} {x : Bid room} {b : Booking}

theorem Won.bid? (h : p.Won) : ∃ x, p.bid? = some x := by
  cases p with
  | rest => cases h
  | _ => exact ⟨_, rfl⟩

theorem Won.not_lost (h : p.Won) : ¬ p.Lost := by
  cases p with
  | securing x b e =>
    cases e with
    | on k =>
      cases k with
      | placed n r =>
        cases r with
        | ok a => exact id
        | error f => cases h
      | _ => cases h
    | _ => cases h
  | confirmed x b => exact id
  | _ => cases h

/-- A bid that is securing its room has won when the errand has gone well. -/
theorem won_iff_ended {e : Errand} (hf : (securing x b e).Fits) :
    (securing x b e).Won ↔ e.Ended true := by
  cases e with
  | ready => exact Iff.rfl
  | denied => exact hf.2.elim
  | on k =>
    cases k with
    | placed n r =>
      cases r with
      | ok a => exact ⟨fun _ => rfl, fun _ => trivial⟩
      | error f => exact ⟨fun h => h.elim, fun h => by cases h⟩
    | removed q u r => exact hf.2.elim
    | _ => exact Iff.rfl

theorem lost_of_failed {e : Errand} {f : CallFailure} (hf : (securing x b e).Fits)
    (he : e.Failed f) : (securing x b e).Lost ∧ BookingFailure.inventory f = x.turnedDown := by
  cases e with
  | ready => exact he.elim
  | denied => exact hf.2.elim
  | on k =>
    cases k with
    | placed n r =>
      cases r with
      | ok a => exact he.elim
      | error g =>
        obtain ⟨rfl, ⟨l, hl⟩ | hg⟩ := hf.2
        · cases hl
        · obtain rfl := Except.error.inj hg
          -- that a room is not free is no failure that may pass
          exact ⟨trivial, congrArg BookingFailure.inventory (he rfl)⟩
    | _ => exact he.elim

theorem Won.not_free {n : NewLock} (h : p.Won) : p.keeper ≠ .free n := by
  intro hk
  cases p with
  | securing x b e =>
    cases e with
    | on k =>
      obtain rfl : k = .free n := hk
      cases h
    | _ => cases hk
  | confirmed x b => cases hk
  | _ => cases h

theorem bid?_of_accepted? (h : p.accepted? = some x) : p.bid? = some x := by
  cases p <;> first | exact h | cases h

theorem Fits.of_row? (hf : p.Fits) (h : p.row? = some b) :
    ∃ x s, p.bid? = some x ∧ b = x.row b.id b.createdAt s := by
  cases p with
  | securing x c e =>
    obtain rfl := Option.some.inj h
    exact ⟨x, _, rfl, hf.1⟩
  | failing x c f =>
    obtain rfl := Option.some.inj h
    exact ⟨x, _, rfl, hf.1⟩
  | undoing x c f e =>
    obtain rfl := Option.some.inj h
    refine ⟨x, .cancelled, rfl, ?_⟩
    rw [hf.1]
    rfl
  | confirmed x c =>
    obtain rfl := Option.some.inj h
    exact ⟨x, _, rfl, hf⟩
  | _ => cases h

/-- A bid that has found the room free is in it. -/
theorem Fits.of_free {n : NewLock} (hf : p.Fits) (h : p.keeper = .free n) :
    (∃ x b, p = .securing x b (.on (.free x.lock))) ∧ p.keeper.inside = some room := by
  cases p with
  | securing x b e =>
    cases e with
    | on k =>
      obtain rfl : k = .free n := h
      obtain rfl : n = x.lock := hf.2
      exact ⟨⟨x, b, rfl⟩, rfl⟩
    | _ => cases h
  | undoing x b f e =>
    cases e with
    | on k =>
      obtain rfl : k = .free n := h
      exact hf.2.2.elim
    | _ => cases h
  | _ => cases h

end Point

section State

variable {v inv : Inventory} {l ledger : Ledger} {point : ℕ → Point room} {i k : ℕ}
  {p q : Point room} {x : Bid room} {b c : Booking}

/-- The inventory has changed by the lock of the bid that has won, if there is one. -/
structure Contended (v : Inventory) (point : ℕ → Point room) (inv : Inventory) : Prop where
  raced : inv.raced = false
  taken : ∀ i x, (point i).Won → (point i).bid? = some x → ∃ t, inv = v.withLock t x.lock
  vacant : (∀ i, ¬ (point i).Won) → inv = v
  /-- As long as someone is about to lock the room, nobody has done so. -/
  free : ∀ i n, (point i).keeper = .free n → ∀ k, ¬ (point k).Won
  lost : ∀ i, (point i).Lost → ∃ k, (point k).Won

/-- A bid goes on without locking the room. -/
theorem Contended.keep (h : Contended v point inv) (hi : point i = q) (hwon : p.Won ↔ q.Won)
    (hbid : p.Won → p.bid? = q.bid?)
    (hfree : ∀ n, p.keeper = .free n → q.keeper = .free n ∨ ∀ k, ¬ (point k).Won)
    (hlost : p.Lost → q.Lost ∨ ∃ k, (point k).Won) :
    Contended v (Function.update point i p) inv := by
  subst hi
  have hall : ∀ k, (Function.update point i p k).Won ↔ (point k).Won :=
    (Function.forall_update_iff point fun k q => q.Won ↔ (point k).Won).mpr
      ⟨hwon, fun _ _ => Iff.rfl⟩
  refine ⟨h.raced, ?_, ?_, ?_, ?_⟩
  · -- whoever has won by now had won before
    intro k x hk hx
    apply h.taken k x ((hall k).mp hk)
    by_cases hki : k = i
    · subst hki
      rw [Function.update_self] at hk hx
      exact (hbid hk).symm.trans hx
    · rwa [Function.update_of_ne hki] at hx
  · intro hno
    exact h.vacant fun k hk => hno k ((hall k).mpr hk)
  · -- a bid that finds the room free does so while nobody has won
    intro k n hk m hm
    have hold : (point k).keeper = .free n ∨ ∀ m, ¬ (point m).Won := by
      rcases update_cases (fun q : Point room => q.keeper = .free n) hk with ⟨rfl, hp⟩ | ⟨-, hp⟩
      · exact hfree n hp
      · exact .inl hp
    rcases hold with hk | hno
    · exact h.free k n hk m ((hall m).mp hm)
    · exact hno m ((hall m).mp hm)
  · intro k hk
    have hex : ∃ m, (point m).Won := by
      rcases update_cases Point.Lost hk with ⟨rfl, hp⟩ | ⟨-, hp⟩
      · exact (hlost hp).elim (h.lost k) id
      · exact h.lost k hp
    obtain ⟨m, hm⟩ := hex
    exact ⟨m, (hall m).mpr hm⟩

/-- The lock is placed, and whoever else is in the room has not found it free. -/
theorem Contended.win {now : Instant} (h : Contended v point inv)
    (hfits : ∀ k, (point k).Fits) (hex : (script room).Exclusive point) {n : NewLock}
    (hi : (point i).keeper = .free n) (hp : p.Won) (hx : p.bid? = some x) :
    Contended v (Function.update point i p) (inv.withLock now x.lock) := by
  have hno := h.free i n hi
  have hwon : ∀ k, (Function.update point i p k).Won → k = i := by
    intro k hk
    rcases update_cases Point.Won hk with ⟨hki, -⟩ | ⟨-, hk⟩
    · exact hki
    · exact absurd hk (hno k)
  refine ⟨rfl, ?_, ?_, ?_, ?_⟩
  · intro k y hk hy
    obtain rfl := hwon k hk
    rw [Function.update_self, hx] at hy
    obtain rfl := Option.some.inj hy
    rw [h.vacant hno]
    exact ⟨now, rfl⟩
  · intro hnone
    refine absurd ?_ (hnone i)
    rwa [Function.update_self]
  · intro k m hk
    rcases update_cases (fun q : Point room => q.keeper = .free m) hk with ⟨-, hk⟩ | ⟨hki, hk⟩
    · exact absurd hk hp.not_free
    · -- two bids would be in the room
      refine absurd ((hfits k).of_free hk).2 ?_
      exact hex i k room hki.symm ((hfits i).of_free hi).2
  · intro k _
    refine ⟨i, ?_⟩
    rwa [Function.update_self]

/-- The ledger has changed by the rows of the bids and by their requests. -/
structure Booked (l : Ledger) (point : ℕ → Point room) (ledger : Ledger) : Prop where
  numbered : ledger.Numbered
  last : l.lastBooking ≤ ledger.lastBooking
  old : ∃ rows, ledger.bookings = l.bookings ++ rows
  rows : ∀ b, b ∈ ledger.bookings ↔ b ∈ l.bookings ∨ ∃ i, (point i).row? = some b
  new : ∀ i b, (point i).row? = some b → l.lastBooking < b.id.number
  requests : ∀ r ∈ ledger.requests,
    r ∈ l.requests ∨ ∃ i x, (point i).accepted? = some x ∧ x.request = r

theorem Booked.booking? (h : Booked l point ledger) (hi : (point i).row? = some b) :
    b ∈ ledger.bookings ∧ ledger.booking? b.id = some b := by
  have hb : b ∈ ledger.bookings := (h.rows b).mpr (.inr ⟨i, hi⟩)
  exact ⟨hb, h.numbered.booking?_of_mem hb⟩

/-- What has been added to the ledger is the rows of the bids. -/
theorem Booked.mem_new {rows : List Booking} (h : Booked l point ledger) (hl : l.Numbered)
    (hrows : ledger.bookings = l.bookings ++ rows) :
    rows.Nodup ∧ ∀ b, b ∈ rows ↔ ∃ i, (point i).row? = some b := by
  have hids := h.numbered.ids
  rw [hrows, List.map_append] at hids
  obtain ⟨-, hnodup, hapart⟩ := List.nodup_append'.mp hids
  refine ⟨List.Nodup.of_map _ hnodup, fun b => ?_⟩
  have hall := h.rows b
  rw [hrows, List.mem_append] at hall
  constructor
  · intro hb
    refine (hall.mp (.inr hb)).resolve_left fun hold => ?_
    exact hapart (List.mem_map_of_mem hold) (List.mem_map_of_mem hb)
  · rintro ⟨i, hi⟩
    refine (hall.mpr (.inr ⟨i, hi⟩)).resolve_left fun hold => ?_
    have hle := hl.counted b hold
    have hlt := h.new i b hi
    omega

theorem exists_update_row (hp : p.row? = some c) :
    (∃ k, (Function.update point i p k).row? = some b) ↔
      b = c ∨ ∃ k, k ≠ i ∧ (point k).row? = some b := by
  constructor
  · rintro ⟨k, hk⟩
    rcases update_cases (fun q : Point room => q.row? = some b) hk with ⟨-, hb⟩ | ⟨hki, hb⟩
    · rw [hp] at hb
      exact .inl (Option.some.inj hb).symm
    · exact .inr ⟨k, hki, hb⟩
  · rintro (rfl | ⟨k, hki, hk⟩)
    · refine ⟨i, ?_⟩
      rwa [Function.update_self]
    · refine ⟨k, ?_⟩
      rwa [Function.update_of_ne hki]

/-- Requests that were accepted stay so. -/
theorem Booked.requests_update (h : Booked l point ledger) (hi : point i = q)
    (hp : ∀ x, q.accepted? = some x → p.accepted? = some x) {r : RequestId}
    (hr : r ∈ ledger.requests) : r ∈ l.requests ∨
      ∃ k x, (Function.update point i p k).accepted? = some x ∧ x.request = r := by
  subst hi
  rcases h.requests r hr with hr | ⟨k, x, hx, rfl⟩
  · exact .inl hr
  · refine .inr ⟨k, x, ?_, rfl⟩
    by_cases hki : k = i
    · subst hki
      rw [Function.update_self]
      exact hp x hx
    · rwa [Function.update_of_ne hki]

/-- A bid goes on without the ledger. -/
theorem Booked.keep (h : Booked l point ledger) (hi : point i = q) (hrow : p.row? = q.row?)
    (hp : ∀ x, q.accepted? = some x → p.accepted? = some x) :
    Booked l (Function.update point i p) ledger := by
  have hrequests := fun r => h.requests_update (r := r) hi hp
  subst hi
  have hall : ∀ k, (Function.update point i p k).row? = (point k).row? :=
    (Function.forall_update_iff point fun k q => q.row? = (point k).row?).mpr
      ⟨hrow, fun _ _ => rfl⟩
  refine ⟨h.numbered, h.last, h.old, ?_, ?_, hrequests⟩
  · intro b
    rw [h.rows]
    refine or_congr Iff.rfl (exists_congr fun k => ?_)
    rw [hall]
  · intro k b hb
    rw [hall] at hb
    exact h.new k b hb

theorem Booked.accept (h : Booked l point ledger) {r : RequestId}
    (hx : (point i).accepted? = some x) (hr : x.request = r) :
    Booked l point { ledger with requests := r :: ledger.requests } := by
  refine ⟨⟨h.numbered.counted, h.numbered.ids⟩, h.last, h.old, h.rows, h.new, ?_⟩
  intro q hq
  rcases List.mem_cons.mp hq with rfl | hq
  · exact .inr ⟨i, x, hx, hr⟩
  · exact h.requests q hq

theorem Booked.insert {now : Instant} {n : NewBooking} (h : Booked l point ledger)
    (hi : point i = q) (hq : q.row? = none) (hrow : p.row? = some (ledger.newBooking now n))
    (hp : ∀ x, q.accepted? = some x → p.accepted? = some x) :
    Booked l (Function.update point i p) (ledger.withBooking now n) := by
  have hlast := h.last
  refine ⟨h.numbered.withBooking now n, ?_, ?_, ?_, ?_, fun r => h.requests_update hi hp⟩
  · change l.lastBooking ≤ ledger.lastBooking + 1
    omega
  · obtain ⟨rows, hrows⟩ := h.old
    refine ⟨rows ++ [ledger.newBooking now n], ?_⟩
    change ledger.bookings ++ [_] = _
    rw [hrows, List.append_assoc]
  · -- the rows of all others are those of before, for the bid itself had none
    intro b
    rw [Ledger.mem_withBooking, h.rows, exists_update_row hrow, or_assoc]
    refine or_congr Iff.rfl ?_
    rw [or_comm]
    refine or_congr Iff.rfl (exists_congr fun k => ?_)
    refine ⟨fun hk => ⟨?_, hk⟩, fun hk => hk.2⟩
    rintro rfl
    rw [hi, hq] at hk
    cases hk
  · intro k b hb
    rcases update_cases (fun q : Point room => q.row? = some b) hb with ⟨-, hb⟩ | ⟨-, hb⟩
    · rw [hrow] at hb
      obtain rfl := Option.some.inj hb
      change l.lastBooking < ledger.lastBooking + 1
      omega
    · exact h.new k b hb

/-- The booking of a bid moves on, and no other one. -/
theorem Booked.moved {s : Status} (h : Booked l point ledger) (hl : l.Numbered)
    (hi : point i = q) (hq : q.row? = some c) (honly : ∀ k, (point k).row? = some c → k = i)
    (hrow : p.row? = some { c with status := s })
    (hp : ∀ x, q.accepted? = some x → p.accepted? = some x) :
    Booked l (Function.update point i p) (ledger.moved c s) := by
  have hrequests := fun r => h.requests_update (r := r) hi hp
  subst hi
  have hc := (h.booking? hq).1
  have hnew := h.new i c hq
  -- the bookings from before have other ids
  have hold : ∀ b ∈ l.bookings, b.id ≠ c.id := by
    intro b hb hid
    have hle := hl.counted b hb
    rw [hid] at hle
    omega
  have hothers : ∀ k b, k ≠ i → (point k).row? = some b → b.id ≠ c.id := by
    intro k b hki hk hid
    obtain rfl := h.numbered.eq_of_id (h.booking? hk).1 hc hid
    exact hki (honly k hk)
  refine ⟨h.numbered.moved hc, h.last, ?_, ?_, ?_, hrequests⟩
  · obtain ⟨rows, hrows⟩ := h.old
    refine ⟨rows.map fun d => if d.id = c.id then { c with status := s } else d, ?_⟩
    unfold Ledger.moved
    rw [hrows, List.map_append]
    refine congrArg (· ++ _) ?_
    rw [List.map_congr_left fun d hd => if_neg (hold d hd), List.map_id']
  · intro b
    rw [Ledger.mem_moved hc, h.rows, exists_update_row hrow]
    constructor
    · rintro (rfl | ⟨hb | ⟨k, hk⟩, hid⟩)
      · exact .inr (.inl rfl)
      · exact .inl hb
      · refine .inr (.inr ⟨k, ?_, hk⟩)
        rintro rfl
        rw [hq] at hk
        exact hid (congrArg Booking.id (Option.some.inj hk).symm)
    · rintro (hb | rfl | ⟨k, hki, hk⟩)
      · exact .inr ⟨.inl hb, hold b hb⟩
      · exact .inl rfl
      · exact .inr ⟨.inr ⟨k, hk⟩, hothers k b hki hk⟩
  · intro k b hb
    rcases update_cases (fun q : Point room => q.row? = some b) hb with ⟨-, hb⟩ | ⟨-, hb⟩
    · rw [hrow] at hb
      obtain rfl := Option.some.inj hb
      exact hnew
    · exact h.new k b hb

end State

end Contest

end Lodging.Desk
