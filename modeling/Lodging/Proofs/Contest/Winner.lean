import Lodging.Proofs.Contest.Releases
import Lodging.Proofs.Contest.Rivalry
import Lodging.World.Sample

/-!
One winner. When all bids of a contest have come to their ends, exactly one of them has the room,
and all others have been turned down and left nothing behind but a cancelled booking.
-/

namespace Lodging

theorem House.Ready.faultless {w : World} (hw : House.Ready w) : w.Faultless := by
  refine ⟨hw.tidy.undisturbed, fun o => ?_⟩
  cases o with
  | recommend => rfl
  | confirm => exact hw.confirmFailure
  | release => exact hw.releaseFailure

namespace Desk

/-- How a contest for a room comes out, for a bid that has won. -/
structure Decided {room : RoomId} (w : World) (es : List (Event (Bid room))) (k : ℕ)
    (x : Bid room) : Prop where
  winner : ∃ b : BookingSummary, b.status = .confirmed ∧
    ((contest room w).run es).jobs[k]? = some (x, .finished (.ok b))
  /-- All others are told of a conflict, and each of them has asked for a release once. -/
  losers : ∀ i y, i ≠ k → (es.filterMap Event.begun?)[i]? = some y →
    (∃ m, ((contest room w).run es).jobs[i]? =
      some (y, .finished (.error (.inventory (.conflict m))))) ∧
    (Deed.doneBy i ((contest room w).journal es)).countP (·.attempts .release) = 1
  /-- Every bid has left one booking. -/
  bookings : ∃ rows, ((contest room w).run es).world.ledger.bookings = w.ledger.bookings ++ rows ∧
    (rows.map fun b => (b.uid, b.status)).Perm ((es.filterMap Event.begun?).map fun y =>
      (y.uid, if y.uid = x.uid then .confirmed else .cancelled))
  lock : ∃ t, ((contest room w).run es).world.inventory = w.inventory.withLock t x.lock
  counter : ∀ r, w.inventory.room? room = some r →
    ((contest room w).run es).world.inventory.room? room =
      some { r with timesBooked := r.timesBooked + 1 }
  /-- No release has taken a lock away. -/
  removed : (contest room w).trail Scene.lost es = []

namespace Contest

variable {room : RoomId} {w : World} {st : Stage (Bid room) (Point room)}
  {s : Scene (@Bid.process room)} {i k : ℕ} {x y : Bid room} {b : Booking}

/-- When no bid is under way, each has been confirmed, or was turned down and has left. -/
theorem Standing.ended (h : Standing w st) (ht : (script room).Tells Ends s st) (hq : s.Quiet)
    (hx : st.calls[i]? = some x) :
    (∃ b, st.point i = .confirmed x b ∧ s.jobs[i]? = some (x, .finished (.ok b.summary))) ∨
      ∃ b e, st.point i = .undoing x b x.turnedDown e ∧
        s.jobs[i]? = some (x, .finished (.error x.turnedDown)) := by
  rw [ht.calls, List.getElem?_map, Option.map_eq_some_iff] at hx
  obtain ⟨⟨y, j⟩, hj, hyx⟩ := hx
  obtain rfl : x = y := hyx.symm
  have hdown : j.underWay = false := hq _ (List.mem_of_getElem? hj)
  have hfits := h.fits i
  have hkeeps := ht.keeps i x j hj
  cases j with
  | running p held => cases hdown
  | waiting t next held => cases hdown
  | dropped =>
    -- a bid that has begun is somewhere
    have hbid := h.bids i
    rw [show st.point i = .rest from hkeeps, ht.calls, List.getElem?_map, hj] at hbid
    cases hbid
  | finished a =>
    obtain ⟨hend, -⟩ := hkeeps
    cases a with
    | ok c =>
      obtain ⟨b, rfl, hp⟩ := hend
      exact .inl ⟨b, hp, hj⟩
    | error f =>
      rcases hend with hp | ⟨b, e, ok, hp, -⟩
      · rw [hp] at hfits
        exact hfits.elim
      · rw [hp] at hfits
        obtain rfl := hfits.2.1
        exact .inr ⟨b, e, hp, hj⟩

/-- When no bid is under way, and there has been one at all, one has won. -/
theorem Standing.exists_won (h : Standing w st) (ht : (script room).Tells Ends s st)
    (hq : s.Quiet) (hne : st.calls ≠ []) : ∃ k, (st.point k).Won := by
  obtain ⟨x, hx⟩ : ∃ x, st.calls[0]? = some x :=
    ⟨_, List.getElem?_eq_getElem (List.length_pos_iff.mpr hne)⟩
  rcases h.ended ht hq hx with ⟨b, hp, -⟩ | ⟨b, e, hp, -⟩
  · refine ⟨0, ?_⟩
    rw [hp]
    trivial
  · apply h.contended.lost 0
    rw [hp]
    trivial

/-- Every bid has its row in the end. -/
theorem Standing.row (h : Standing w st) (hr : Rivals w st.calls)
    (ht : (script room).Tells Ends s st) (hq : s.Quiet) (hk : (st.point k).Won)
    (hx : (st.point k).bid? = some x) (hy : st.calls[i]? = some y) :
    ∃ b, (st.point i).row? = some b ∧ b.uid = y.uid ∧
      b.status = if y.uid = x.uid then .confirmed else .cancelled := by
  have hbid : (st.point i).bid? = some y := (h.bids i).trans hy
  have hfits := h.fits i
  rcases h.ended ht hq hy with ⟨b, hp, -⟩ | ⟨b, e, hp, -⟩
  · have hwon : (st.point i).Won := by rw [hp]; trivial
    obtain rfl := h.won_unique hr hwon hk
    obtain rfl := Option.some.inj (hbid.symm.trans hx)
    rw [hp] at hfits
    refine ⟨b, by rw [hp]; rfl, ?_, ?_⟩
    · rw [show b = _ from hfits]
      rfl
    · rw [show b = _ from hfits, if_pos rfl]
      rfl
  · have hki : y.uid ≠ x.uid := by
      intro hu
      obtain rfl := h.eq_of_key hr.uids hbid hx hu
      rw [hp] at hk
      exact hk
    rw [hp] at hfits
    refine ⟨{ b with status := .cancelled }, by rw [hp]; rfl, ?_, ?_⟩
    · rw [hfits.1]
      rfl
    · rw [if_neg hki]

/-- The rows of all bids have been added to the ledger, and nothing else. -/
theorem Standing.rows (h : Standing w st) (hl : w.ledger.Numbered) (hr : Rivals w st.calls)
    (ht : (script room).Tells Ends s st) (hq : s.Quiet) (hk : (st.point k).Won)
    (hx : (st.point k).bid? = some x) :
    ∃ rows, st.stock.ledger.bookings = w.ledger.bookings ++ rows ∧
      (rows.map fun b => (b.uid, b.status)).Perm (st.calls.map fun y =>
        (y.uid, if y.uid = x.uid then .confirmed else .cancelled)) := by
  obtain ⟨rows, hrows⟩ := h.booked.old
  obtain ⟨hnodup, hmem⟩ := h.booked.mem_new hl hrows
  refine ⟨rows, hrows, (List.perm_ext_iff_of_nodup ?_ ?_).mpr ?_⟩
  · -- rows have uids of their own, as the bids have
    refine List.Nodup.map_on ?_ hnodup
    intro b hb c hc hbc
    obtain ⟨i, hi⟩ := (hmem b).mp hb
    obtain ⟨m, hm⟩ := (hmem c).mp hc
    obtain ⟨y, hy, hyu⟩ := h.owner hi
    obtain ⟨z, hz, hzu⟩ := h.owner hm
    have huid : y.uid = z.uid := calc
      y.uid = b.uid := hyu.symm
      _ = c.uid := congrArg Prod.fst hbc
      _ = z.uid := hzu
    obtain rfl := h.eq_of_key hr.uids hy hz huid
    exact Option.some.inj (hi.symm.trans hm)
  · refine List.Nodup.of_map Prod.fst ?_
    rw [List.map_map]
    exact hr.uids
  · intro u
    rw [List.mem_map, List.mem_map]
    constructor
    · rintro ⟨b, hb, rfl⟩
      obtain ⟨i, hi⟩ := (hmem b).mp hb
      obtain ⟨y, hy, -⟩ := h.owner hi
      obtain ⟨c, hc, hcu, hcs⟩ := h.row hr ht hq hk hx ((h.bids i).symm.trans hy)
      obtain rfl := Option.some.inj (hi.symm.trans hc)
      exact ⟨y, h.mem hy, by rw [hcu, hcs]⟩
    · rintro ⟨y, hy, rfl⟩
      obtain ⟨i, hi⟩ := List.getElem?_of_mem hy
      obtain ⟨b, hb, hu, hs⟩ := h.row hr ht hq hk hx hi
      exact ⟨b, (hmem b).mpr ⟨i, hb⟩, by rw [hu, hs]⟩

end Contest

/-- A bid that is told of a failure of the inventory has asked for a release once. -/
theorem released_once {room : RoomId} {w : World} (hw : House.Ready w)
    {es : List (Event (Bid room))} (hcalm : ∀ e ∈ es, e.Calm) {i : ℕ} {y : Bid room}
    {f : CallFailure}
    (hj : ((contest room w).run es).jobs[i]? = some (y, .finished (.error (.inventory f)))) :
    (Deed.doneBy i ((contest room w).journal es)).countP (·.attempts .release) = 1 := by
  have hfair : ∀ d ∈ Deed.doneBy i ((contest room w).journal es), d.Fair :=
    fun d hd => Scene.fair_of_mem_journal hw.faultless hcalm (Deed.mem_doneBy.mp hd)
  -- its releases can be counted along its code, for all its deeds were answered fairly
  have hone := y.tallies.of_leads (Scene.told w es hj) hfair f rfl
  rwa [Nat.zero_add] at hone

open Contest in
/-- Of bids that exclude each other for a room that is there and free, exactly one gets it, in
whichever way their actions are interleaved, as long as nothing goes wrong and nobody else calls. -/
theorem one_winner {room : RoomId} {w : World} (hw : House.Ready w)
    (hroom : w.inventory.serves? room = some true) (es : List (Event (Bid room)))
    (hcalm : ∀ e ∈ es, e.Calm) (hr : Rivals w (es.filterMap Event.begun?))
    (hne : es.filterMap Event.begun? ≠ []) (hquiet : ((contest room w).run es).Quiet) :
    ∃ k x, Decided w es k x := by
  obtain ⟨st, ht, hcalls, hst, htrail⟩ := exists_standing hw hroom es hcalm hr
  rw [← hcalls] at hr hne
  obtain ⟨k, hk⟩ := hst.exists_won ht hquiet hne
  obtain ⟨x, hx⟩ := hk.bid?
  obtain ⟨t, hlock⟩ := hst.contended.taken k x hk hx
  rw [ht.stock] at hlock
  refine ⟨k, x, ?_, ?_, ?_, ⟨t, hlock⟩, ?_, htrail⟩
  · -- the bid that has won is at its end, and so it has been confirmed
    rcases hst.ended ht hquiet ((hst.bids k).symm.trans hx) with ⟨b, hp, hj⟩ | ⟨b, e, hp, -⟩
    · have hfits := hst.fits k
      rw [hp] at hfits
      refine ⟨b.summary, ?_, hj⟩
      rw [show b = _ from hfits]
      rfl
    · rw [hp] at hk
      exact hk.elim
  · -- any other bid has been turned down
    intro i y hik hy
    rw [← hcalls] at hy
    rcases hst.ended ht hquiet hy with ⟨b, hp, -⟩ | ⟨b, e, hp, hj⟩
    · have hwon : (st.point i).Won := by rw [hp]; trivial
      exact absurd (hst.won_unique hr hwon hk) hik
    · exact ⟨⟨_, hj⟩, released_once hw hcalm hj⟩
  · obtain ⟨rows, hrows, hperm⟩ := hst.rows hw.tidy.numbered hr ht hquiet hk hx
    rw [ht.stock] at hrows
    rw [← hcalls]
    exact ⟨rows, hrows, hperm⟩
  · intro r hroom
    rw [show ((contest room w).run es).world.inventory = _ from hlock]
    exact Inventory.room?_withLock hroom

/-- A room is added, and nothing else goes on. -/
def adding : List (Event House.Call) :=
  [.start (.keeper (.addRoom Sample.room)), .advance 0, .advance 0]

def rival (digit : Nat) : Bid ⟨1⟩ where
  policy := .once
  user := ⟨1⟩
  arrival := Sample.twoNights.arrival
  departure := Sample.twoNights.departure
  request := ⟨toString digit⟩
  today := Sample.newYear.date
  uid := Sample.uid digit
  stay := Sample.twoNights
  timely := rfl

/-- Two rivals go on by turns until both are at their ends. -/
def duel : List (Event (Bid ⟨1⟩)) :=
  .start (rival 1) :: .start (rival 2) :: Sample.byTurns 60

theorem one_winner_of_duel :
    ∃ k x, Decided (House.after Sample.newYear adding).world duel k x := by
  have hbegun : duel.filterMap Event.begun? = [rival 1, rival 2] := by rfl
  refine one_winner ⟨⟨_, _, by decide +kernel, rfl⟩, rfl, rfl, rfl⟩ (by decide +kernel) duel
    (by decide +kernel) ?_ ?_ (by decide +kernel)
  · rw [hbegun]
    exact ⟨by decide +kernel, by decide +kernel, by decide +kernel, by decide +kernel,
      by decide +kernel, by decide +kernel⟩
  · rw [hbegun]
    exact List.cons_ne_nil _ _

end Desk

end Lodging
