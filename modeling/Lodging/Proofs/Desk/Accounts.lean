import Lodging.Proofs.Desk.Moves

/-!
The accounts of the desk. However orders are interleaved, given up or fail, every lock is of a
booking in the ledger, for the same room and stay, and a request belongs to one order alone. A
booking that is being made is not confirmed yet.
-/

namespace Lodging.Desk

/-- New bookings have uids of their own. -/
def Distinct (calls : List Call) : Prop := (calls.filterMap Call.uid?).Nodup

instance (calls : List Call) : Decidable (Distinct calls) :=
  inferInstanceAs (Decidable (List.Nodup _))

structure Accounts (st : Stage Call Point) : Prop where
  clear : Keeper.Clear (fun i => (st.point i).keeper) st.stock.inventory
  ledger : st.stock.ledger.Sound
  off : ∀ i, st.calls.length ≤ i → st.point i = .rest
  maker : ∀ i x, (st.point i).maker? = some x → ∃ c, st.calls[i]? = some c ∧ c.uid? = some x.1
  target : ∀ i id, (st.point i).target? = some id →
    ∃ c, st.calls[i]? = some c ∧ c.target? = some id
  fits : ∀ i, (st.point i).Fits
  /-- Whoever made a booking has begun. -/
  rows : ∀ b ∈ st.stock.ledger.bookings, ∃ c ∈ st.calls, c.uid? = some b.uid
  fresh : ∀ i uid, (st.point i).fresh? = some uid → ∀ b ∈ st.stock.ledger.bookings, b.uid ≠ uid
  known : ∀ i b, (st.point i).row? = some b → ∃ c ∈ st.stock.ledger.bookings, b.Same c
  sole : ∀ i k x y, (st.point i).claim? = some x → (st.point k).claim? = some y →
    x.2 = y.2 → i = k
  accepted : ∀ i x, (st.point i).claim? = some x → x.2 ∈ st.stock.ledger.requests
  named : ∀ l ∈ st.stock.inventory.locks, l.request ∈ st.stock.ledger.requests
  claimed : ∀ i x, (st.point i).claim? = some x → ∀ l ∈ st.stock.inventory.locks,
    l.request = x.2 → l.uid = x.1
  covered : ∀ l ∈ st.stock.inventory.locks, ∃ b ∈ st.stock.ledger.bookings,
    b.uid = l.uid ∧ b.room = l.room ∧ b.stay = l.stay
  unconfirmed : ∀ i b, (st.point i).making? = some b → ∀ c ∈ st.stock.ledger.bookings,
    c.uid = b.uid → c.status ≠ .confirmed

variable {st st' : Stage Call Point} {s' : Stock} {i k : ℕ} {p : Point} {b c : Booking}
  {c' : Call} {e : Event Call}

theorem Distinct.of_append {calls rest : List Call} (h : Distinct (calls ++ rest)) :
    Distinct calls := by
  unfold Distinct at *
  rw [List.filterMap_append] at h
  exact (List.nodup_append.mp h).1

theorem Distinct.index_eq {calls : List Call} (h : Distinct calls) {uid : Uid} {c d : Call}
    (hi : calls[i]? = some c) (hk : calls[k]? = some d) (hc : c.uid? = some uid)
    (hd : d.uid? = some uid) : i = k :=
  Rows.index_eq h hi hk hc hd

/-- A booking has one maker at most. -/
theorem Accounts.maker_unique (h : Accounts st) (hd : Distinct st.calls) {x y : Uid × RequestId}
    (hi : (st.point i).maker? = some x) (hk : (st.point k).maker? = some y) (hxy : x.1 = y.1) :
    i = k := by
  obtain ⟨c, hc, hcu⟩ := h.maker i x hi
  obtain ⟨d, hdk, hdu⟩ := h.maker k y hk
  exact hd.index_eq hc hdk hcu (hxy ▸ hdu)

theorem Accounts.making_unique (h : Accounts st) (hd : Distinct st.calls)
    (hi : (st.point i).making? = some b) (hk : (st.point k).making? = some c) (hu : b.uid = c.uid) :
    i = k := by
  obtain ⟨r, hmi⟩ := Point.maker?_of_making? hi
  obtain ⟨q, hmk⟩ := Point.maker?_of_making? hk
  exact h.maker_unique hd hmi hmk hu

theorem update_some {β : Type} (f : Point → Option β) {point : ℕ → Point} {x : β}
    (h : f (Function.update point i p k) = some x) :
    k = i ∧ f p = some x ∨ k ≠ i ∧ f (point k) = some x :=
  update_cases (fun p => f p = some x) h

theorem keeper_update (point : ℕ → Point) (i : ℕ) (p : Point) :
    (fun k => (Function.update point i p k).keeper) =
      Function.update (fun k => (point k).keeper) i p.keeper :=
  Function.comp_update Point.keeper point i p

theorem Point.AtDoor.ne_free {n : NewLock} (h : p.AtDoor) : p.keeper ≠ .free n := by
  rcases h with h | ⟨m, h⟩ | ⟨room, uid, h⟩ <;> rw [h] <;> nofun

theorem Point.AtDoor.ne_removing {room : RoomId} {uid : Uid} {l : Lock} (h : p.AtDoor) :
    p.keeper ≠ .removing room uid l := by
  rcases h with h | ⟨m, h⟩ | ⟨room, uid, h⟩ <;> rw [h] <;> nofun

theorem Accounts.clear_move (h : Accounts st) (hex : script.Exclusive st.point)
    (hm : Move (st.point i) st.stock p s') :
    Keeper.Clear (fun k => (Function.update st.point i p k).keeper) s'.inventory := by
  rw [keeper_update]
  rcases hm.keeper_cases with ⟨k, k', hw, hk, -⟩ | ⟨hv, hdoor⟩
  · obtain ⟨hp, hp'⟩ := hw.keeper
    rw [← hp] at hk
    rw [hp']
    exact h.clear.move hex hk
  · rw [hv]
    exact h.clear.update (fun _ => hdoor.ne_free) fun _ _ _ => hdoor.ne_removing

theorem Accounts.ledger_move (h : Accounts st) (hm : Move (st.point i) st.stock p s') :
    s'.ledger.Sound := by
  rcases hm.ledger_cases with hl | ⟨uid, r, -, hl⟩ | ⟨uid, r, now, n, hp, hn, -, hl⟩ |
    ⟨c, next, hc, hl, -⟩ <;> rw [hl]
  · exact h.ledger
  · exact ⟨h.ledger.counted, h.ledger.ids, h.ledger.uids⟩
  · apply h.ledger.withBooking
    rw [hn]
    exact h.fresh i uid (by rw [hp]; rfl)
  · exact h.ledger.moved hc

theorem Accounts.fresh_move (h : Accounts st) (hd : Distinct st.calls)
    (hm : Move (st.point i) st.stock p s') {uid : Uid}
    (hk : (Function.update st.point i p k).fresh? = some uid) (hc : c ∈ s'.ledger.bookings) :
    c.uid ≠ uid := by
  have hold : ∀ b ∈ st.stock.ledger.bookings, b.uid ≠ uid := by
    rcases update_some Point.fresh? hk with ⟨rfl, hq⟩ | ⟨-, hk⟩
    · exact h.fresh k uid (hm.fresh? hq).1
    · exact h.fresh k uid hk
  rcases hm.rows_back hc with ⟨b, hb, hsame⟩ | ⟨hf, hnew⟩
  · rw [hsame.uid_eq]
    exact hold b hb
  · -- the booking is of another order than the one that has none yet
    intro hcu
    rcases update_some Point.fresh? hk with ⟨-, hq⟩ | ⟨hki, hk⟩
    · rw [(hm.fresh? hq).2] at hc
      exact hold c hc hcu
    · obtain ⟨r, hmk⟩ := Point.maker?_of_fresh? hk
      obtain ⟨q, hmi⟩ := Point.maker?_of_fresh? hf
      exact hki (h.maker_unique hd hmk hmi hcu.symm)

theorem Accounts.known_move (h : Accounts st) (hm : Move (st.point i) st.stock p s')
    (hk : (Function.update st.point i p k).row? = some b) :
    ∃ c ∈ s'.ledger.bookings, b.Same c := by
  have hback : (st.point k).row? = some b → ∃ c ∈ s'.ledger.bookings, b.Same c := by
    intro hk
    obtain ⟨c, hc, hsame⟩ := h.known k b hk
    obtain ⟨d, hd, hsame'⟩ := hm.rows h.ledger hc
    exact ⟨d, hd, hsame.trans hsame'⟩
  rcases update_some Point.row? hk with ⟨rfl, hq⟩ | ⟨-, hk⟩
  · rcases hm.row? hq with hq | hb
    · exact hback hq
    · exact ⟨b, hb, .refl b⟩
  · exact hback hk

/-- A request that was not accepted before is claimed by nobody else. -/
theorem Accounts.sole_move (h : Accounts st) (hm : Move (st.point i) st.stock p s') {m : ℕ}
    {x y : Uid × RequestId} (hk : (Function.update st.point i p k).claim? = some x)
    (hl : (Function.update st.point i p m).claim? = some y) (hxy : x.2 = y.2) : k = m := by
  rcases update_some Point.claim? hk with ⟨hki, hq⟩ | ⟨-, hk⟩
  · rcases update_some Point.claim? hl with ⟨hmi, -⟩ | ⟨-, hl⟩
    · exact hki.trans hmi.symm
    · rcases hm.claim? hq with hq | ⟨hno, -⟩
      · exact hki.trans (h.sole i m x y hq hl hxy)
      · exact absurd (hxy ▸ h.accepted m y hl) hno
  · rcases update_some Point.claim? hl with ⟨hmi, hq⟩ | ⟨-, hl⟩
    · rcases hm.claim? hq with hq | ⟨hno, -⟩
      · exact (h.sole k i x y hk hq hxy).trans hmi.symm
      · exact absurd (hxy ▸ h.accepted k x hk) hno
    · exact h.sole k m x y hk hl hxy

theorem Accounts.claimed_move (h : Accounts st) (hm : Move (st.point i) st.stock p s')
    {x : Uid × RequestId} (hk : (Function.update st.point i p k).claim? = some x) {l : Lock}
    (hl : l ∈ s'.inventory.locks) (hlr : l.request = x.2) : l.uid = x.1 := by
  rcases hm.locks (h.fits i) hl with hl | ⟨-, b, r, hp, hu, -, -, hr, -, hp'⟩
  · rcases update_some Point.claim? hk with ⟨-, hq⟩ | ⟨-, hk⟩
    · rcases hm.claim? hq with hq | ⟨hno, -⟩
      · exact h.claimed i x hq l hl hlr
      · exact absurd (hlr ▸ h.named l hl) hno
    · exact h.claimed k x hk l hl hlr
  · -- the lock is new, and its request is claimed by the order that placed it
    have hclaim : (st.point i).claim? = some (b.uid, r) := by
      rw [hp]
      rfl
    rw [hr] at hlr
    rcases update_some Point.claim? hk with ⟨-, hq⟩ | ⟨hki, hk⟩
    · have hx : p.claim? = some (b.uid, r) := by
        rcases hp' with ⟨m, rfl⟩ | ⟨-, c, rfl⟩ <;> rfl
      rw [hq] at hx
      obtain rfl := Option.some.inj hx
      exact hu
    · exact absurd (h.sole k i x _ hk hclaim hlr.symm) hki

theorem Accounts.covered_move (h : Accounts st) (hm : Move (st.point i) st.stock p s') {l : Lock}
    (hl : l ∈ s'.inventory.locks) :
    ∃ b ∈ s'.ledger.bookings, b.uid = l.uid ∧ b.room = l.room ∧ b.stay = l.stay := by
  rcases hm.locks (h.fits i) hl with hl | ⟨hled, b, r, hp, hu, hroom, hstay, -, -, -⟩
  · obtain ⟨b, hb, hbu, hbr, hbs⟩ := h.covered l hl
    obtain ⟨c, hc, hsame⟩ := hm.rows h.ledger hb
    exact ⟨c, hc, hsame.uid_eq.trans hbu, hsame.room_eq.trans hbr, hsame.stay_eq.trans hbs⟩
  · obtain ⟨c, hc, hsame⟩ := h.known i b (by rw [hp]; rfl)
    refine ⟨c, hled ▸ hc, ?_, ?_, ?_⟩
    · exact hsame.uid_eq.trans hu.symm
    · exact hsame.room_eq.trans hroom.symm
    · exact hsame.stay_eq.trans hstay.symm

/-- The order that confirms a booking is the one that makes it, and is at its end. -/
theorem Accounts.unconfirmed_move (h : Accounts st) (hd : Distinct st.calls)
    (hm : Move (st.point i) st.stock p s')
    (hk : (Function.update st.point i p k).making? = some b) (hc : c ∈ s'.ledger.bookings)
    (hcu : c.uid = b.uid) : c.status ≠ .confirmed := by
  intro hs
  have hold : (st.point k).making? = some b → c ∉ st.stock.ledger.bookings :=
    fun hk hc => h.unconfirmed k b hk c hc hcu hs
  rcases hm.confirmed hc hs with hc' | ⟨hover, d, hd', hsame, -, b', r, e, hp, -, hid⟩
  · rcases update_some Point.making? hk with ⟨rfl, hq⟩ | ⟨-, hk⟩
    · rcases hm.making? hq with hq | ⟨hf, -⟩
      · exact hold hq hc'
      · exact h.fresh k b.uid hf c hc' hcu
    · exact hold hk hc'
  · rcases update_some Point.making? hk with ⟨-, hq⟩ | ⟨hki, hk⟩
    · rw [hover] at hq
      cases hq
    · have hmi : (st.point i).making? = some b' := by rw [hp]; rfl
      -- so the two orders would make the same booking
      obtain ⟨d', hd'', hsame'⟩ := h.known i b' (Point.row?_of_making? hmi)
      have hdd : d.id = d'.id := calc
        d.id = c.id := hsame.id_eq.symm
        _ = b'.id := hid.symm
        _ = d'.id := hsame'.id_eq.symm
      obtain rfl := h.ledger.eq_of_id hd' hd'' hdd
      have hu : b.uid = b'.uid := calc
        b.uid = c.uid := hcu.symm
        _ = d.uid := hsame.uid_eq
        _ = b'.uid := hsame'.uid_eq
      exact hki (h.making_unique hd hk hmi hu)

theorem Accounts.move (h : Accounts st) (hd : Distinct st.calls)
    (hex : script.Exclusive st.point) (hi : i < st.calls.length)
    (hm : Move (st.point i) st.stock p s') :
    Accounts ⟨s', st.calls, Function.update st.point i p⟩ where
  clear := h.clear_move hex hm
  ledger := h.ledger_move hm
  off k hle := by
    change Function.update st.point i p k = .rest
    rw [Function.update_of_ne (Nat.ne_of_gt (Nat.lt_of_lt_of_le hi hle))]
    exact h.off k hle
  maker k x hk := by
    rcases update_some Point.maker? hk with ⟨rfl, hq⟩ | ⟨-, hk⟩
    · exact h.maker k x (hm.maker? hq)
    · exact h.maker k x hk
  target k id hk := by
    rcases update_some Point.target? hk with ⟨rfl, hq⟩ | ⟨-, hk⟩
    · exact h.target k id (hm.target? hq)
    · exact h.target k id hk
  fits k := by
    change (Function.update st.point i p k).Fits
    by_cases hki : k = i
    · subst hki
      rw [Function.update_self]
      exact hm.fits (h.fits k)
    · rw [Function.update_of_ne hki]
      exact h.fits k
  rows c hc := by
    rcases hm.rows_back hc with ⟨b, hb, hsame⟩ | ⟨hf, -⟩
    · rw [hsame.uid_eq]
      exact h.rows b hb
    · -- a row that is new is that of the order that moves
      obtain ⟨r, hmk⟩ := Point.maker?_of_fresh? hf
      obtain ⟨d, hd, hu⟩ := h.maker i _ hmk
      exact ⟨d, List.mem_of_getElem? hd, hu⟩
  fresh k uid hk c hc := h.fresh_move hd hm hk hc
  known k b hk := h.known_move hm hk
  sole k m x y hk hl hxy := h.sole_move hm hk hl hxy
  accepted k x hk := by
    rcases update_some Point.claim? hk with ⟨-, hq⟩ | ⟨-, hk⟩
    · rcases hm.claim? hq with hq | ⟨-, hr, -⟩
      · exact hm.requests (h.accepted i x hq)
      · exact hr
    · exact hm.requests (h.accepted k x hk)
  named l hl := by
    rcases hm.locks (h.fits i) hl with hl | ⟨-, b, r, hp, -, -, -, hr, -⟩
    · exact hm.requests (h.named l hl)
    · rw [hr]
      exact hm.requests (h.accepted i (b.uid, r) (by rw [hp]; rfl))
  claimed k x hk l hl hlr := h.claimed_move hm hk hl hlr
  covered l hl := h.covered_move hm hl
  unconfirmed k b hk c hc hcu := h.unconfirmed_move hd hm hk hc hcu

/-- No call to the keeper is under way, and there is no booking yet and no request that was
accepted. -/
structure Point.Blank (p : Point) : Prop where
  keeper : p.keeper = .rest
  claim : p.claim? = none
  row : p.row? = none

theorem Point.blank_rest : rest.Blank := ⟨rfl, rfl, rfl⟩

theorem Call.blank_first (c : Call) : c.first.Blank := by
  cases c <;> exact ⟨rfl, rfl, rfl⟩

theorem Point.Blank.fits (h : p.Blank) : p.Fits := by
  cases p with
  | securing b r e => cases h.row
  | undoing b r e => cases h.row
  | releasing b e => cases h.row
  | _ => trivial

/-- An order that has a uid, but no booking yet, has not written it down. -/
theorem Point.Blank.fresh? (h : p.Blank) {x : Uid × RequestId} (hx : p.maker? = some x) :
    p.fresh? = some x.1 := by
  cases p with
  | asking uid r | accepted uid r =>
    obtain rfl := Option.some.inj hx
    rfl
  | securing b r e | failing b r | undoing b r e => cases h.row
  | _ => cases hx

theorem Point.Blank.update (h : p.Blank) (point : ℕ → Point) (i k : ℕ) :
    Function.update point i p k = point k ∨ (Function.update point i p k).Blank := by
  by_cases hk : k = i
  · rw [hk, Function.update_self]
    exact .inr h
  · exact .inl (Function.update_of_ne hk ..)

/-- Whoever begins or is given up knows nothing that was not known before. -/
theorem Accounts.replace (h : Accounts st) {calls : List Call} {point : ℕ → Point}
    (hpoint : ∀ k, point k = st.point k ∨ (point k).Blank)
    (hcalls : ∀ c ∈ st.calls, c ∈ calls)
    (hoff : ∀ i, calls.length ≤ i → point i = .rest)
    (hmaker : ∀ k x, (point k).maker? = some x → ∃ c, calls[k]? = some c ∧ c.uid? = some x.1)
    (htarget : ∀ k id, (point k).target? = some id → ∃ c, calls[k]? = some c ∧ c.target? = some id)
    (hfresh : ∀ k uid, (point k).fresh? = some uid → ∀ b ∈ st.stock.ledger.bookings, b.uid ≠ uid) :
    Accounts ⟨st.stock, calls, point⟩ := by
  -- a point is as it was or blank, and a blank one tells nothing
  have hkeeper : ∀ k q, q ≠ .rest → (point k).keeper = q → (st.point k).keeper = q := by
    intro k q hq hk
    rcases hpoint k with he | hb
    · rwa [← he]
    · exact absurd (hk.symm.trans hb.keeper) hq
  have hclaim : ∀ k x, (point k).claim? = some x → (st.point k).claim? = some x := by
    intro k x hk
    rcases hpoint k with he | hb
    · rwa [← he]
    · cases hb.claim.symm.trans hk
  have hrow : ∀ k b, (point k).row? = some b → point k = st.point k := by
    intro k b hk
    rcases hpoint k with he | hb
    · exact he
    · cases hb.row.symm.trans hk
  refine ⟨?_, h.ledger, hoff, hmaker, htarget, ?_, ?_, hfresh, ?_, ?_, ?_, h.named, ?_, h.covered,
    ?_⟩
  · exact h.clear.of_points rfl rfl (fun k n => hkeeper k _ nofun)
      fun k room uid l => hkeeper k _ nofun
  · intro k
    change (point k).Fits
    rcases hpoint k with he | hb
    · rw [he]
      exact h.fits k
    · exact hb.fits
  · intro b hb
    obtain ⟨c, hc, hu⟩ := h.rows b hb
    exact ⟨c, hcalls c hc, hu⟩
  · exact fun k b hk => h.known k b (hrow k b hk ▸ hk)
  · exact fun k m x y hk hm hxy => h.sole k m x y (hclaim k x hk) (hclaim m y hm) hxy
  · exact fun k x hk => h.accepted k x (hclaim k x hk)
  · exact fun k x hk => h.claimed k x (hclaim k x hk)
  · exact fun k b hk => h.unconfirmed k b (hrow k b (Point.row?_of_making? hk) ▸ hk)

theorem Accounts.start (h : Accounts st) (hd : Distinct (st.calls ++ [c'])) :
    Accounts ⟨st.stock, st.calls ++ [c'],
      Function.update st.point st.calls.length c'.first⟩ := by
  have hlast : (st.calls ++ [c'])[st.calls.length]? = some c' := List.getElem?_concat_length
  have hleft : ∀ {m : ℕ} {d : Call}, st.calls[m]? = some d → (st.calls ++ [c'])[m]? = some d := by
    intro m d hd
    rwa [List.getElem?_append_left (List.getElem?_eq_some_iff.mp hd).1]
  have huid : ∀ x, c'.first.maker? = some x → c'.uid? = some x.1 := by
    intro x hx
    cases c' <;> cases hx
    rfl
  refine h.replace (c'.blank_first.update st.point _) ?_ ?_ ?_ ?_ ?_
  · exact fun d hd => List.mem_append_left _ hd
  · intro k hle
    rw [List.length_append, List.length_singleton] at hle
    rw [Function.update_of_ne (by omega)]
    exact h.off k (by omega)
  · intro k x hx
    rcases update_some Point.maker? hx with ⟨hk, hx⟩ | ⟨-, hx⟩
    · exact ⟨c', hk ▸ hlast, huid x hx⟩
    · obtain ⟨d, hd, hu⟩ := h.maker k x hx
      exact ⟨d, hleft hd, hu⟩
  · intro k id hid
    rcases update_some Point.target? hid with ⟨hk, hid⟩ | ⟨-, hid⟩
    · refine ⟨c', hk ▸ hlast, ?_⟩
      cases c' <;> cases hid
      rfl
    · obtain ⟨d, hd, ht⟩ := h.target k id hid
      exact ⟨d, hleft hd, ht⟩
  · intro k uid hk b hb
    rcases update_some Point.fresh? hk with ⟨-, hf⟩ | ⟨-, hf⟩
    · -- the bookings there are have been made by others
      rintro rfl
      obtain ⟨r, hmk⟩ := Point.maker?_of_fresh? hf
      obtain ⟨d, hd', hu⟩ := h.rows b hb
      obtain ⟨m, hm, rfl⟩ := List.getElem_of_mem hd'
      have := hd.index_eq (hleft (List.getElem?_eq_getElem hm)) hlast hu (huid _ hmk)
      omega
    · exact h.fresh k uid hf b hb

theorem Accounts.drop (h : Accounts st) (i : ℕ) :
    Accounts ⟨st.stock, st.calls, Function.update st.point i .rest⟩ := by
  have hpoint : ∀ k, Function.update st.point i .rest k = st.point k ∨
      Function.update st.point i .rest k = .rest := by
    intro k
    by_cases hk : k = i
    · rw [hk, Function.update_self]
      exact .inr rfl
    · rw [Function.update_of_ne hk]
      exact .inl rfl
  have hback : ∀ {β : Type} (f : Point → Option β) (k : ℕ) (x : β), f .rest = none →
      f (Function.update st.point i .rest k) = some x → f (st.point k) = some x := by
    intro β f k x hf hk
    rcases hpoint k with he | he
    · rwa [← he]
    · rw [he, hf] at hk
      cases hk
  refine h.replace (Point.blank_rest.update st.point i) (fun _ hc => hc) ?_ ?_ ?_ ?_
  · intro k hle
    rcases hpoint k with he | he
    · exact he.trans (h.off k hle)
    · exact he
  · exact fun k x hk => h.maker k x (hback Point.maker? k x rfl hk)
  · exact fun k id hk => h.target k id (hback Point.target? k id rfl hk)
  · exact fun k uid hk => h.fresh k uid (hback Point.fresh? k uid rfl hk)

theorem Accounts.turn (h : Accounts st) (t : Turn) :
    Accounts ⟨st.stock.turn t, st.calls, st.point⟩ := by
  have hclear : Keeper.Clear (fun i => (st.point i).keeper) (st.stock.turn t).inventory := by
    cases t <;> exact h.clear.of_points rfl rfl (fun _ _ hk => hk) fun _ _ _ _ hk => hk
  cases t <;>
    exact ⟨hclear, h.ledger, h.off, h.maker, h.target, h.fits, h.rows, h.fresh, h.known, h.sole,
      h.accepted, h.named, h.claimed, h.covered, h.unconfirmed⟩

/-- Orders that have begun are not forgotten, so their uids were distinct before too. -/
theorem Distinct.of_next (hd : Distinct st'.calls) (hn : script.Next Call.first e st st') :
    Distinct st.calls := by
  obtain ⟨rest, hrest⟩ := hn.calls
  rw [hrest] at hd
  exact hd.of_append

/-- Whatever happens, the accounts stay in order. -/
theorem Accounts.next (h : Accounts st) (hd : Distinct st'.calls)
    (hex : script.Exclusive st.point) (hn : script.Next Call.first e st st') : Accounts st' := by
  cases hn with
  | start c => exact h.start hd
  | move hi hm => exact h.move hd hex hi hm
  | drop hi => exact h.drop _
  | turn t => exact h.turn t
  | idle => exact h

theorem accounts_opening {v : Inventory} (hs : v.Sound) (hl : v.locks = [])
    (f g : Option CallFailure) : Accounts ⟨⟨v, .empty, f, g⟩, [], fun _ => .rest⟩ where
  clear := by
    apply Keeper.clear_rest hs
    unfold Inventory.Apart
    rw [hl]
    exact List.Pairwise.nil
  ledger := Ledger.sound_empty
  off _ _ := rfl
  maker _ _ h := nomatch h
  target _ _ h := nomatch h
  fits _ := trivial
  rows b hb := absurd hb List.not_mem_nil
  fresh _ _ h := nomatch h
  known _ _ h := nomatch h
  sole _ _ _ _ h := nomatch h
  accepted _ _ h := nomatch h
  named l h := by
    rw [hl] at h
    cases h
  claimed _ _ h := nomatch h
  covered l h := by
    rw [hl] at h
    cases h
  unconfirmed _ _ h := nomatch h

end Lodging.Desk
