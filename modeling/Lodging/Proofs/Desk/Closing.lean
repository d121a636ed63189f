import Lodging.Proofs.Desk.Locks
import Lodging.World.Trail

/-!
A booking that has come to rest before it is cancelled. Once nobody makes it and nobody is about to
cancel it, all who cancel it later read the same: as it was, or cancelled. So they all release its
room first, and then the first of them marks it, and nobody ever locks the room for it again.
-/

namespace Lodging

/-- The booking once it has been cancelled. -/
def Booking.asCancelled (b : Booking) : Booking := { b with status := .cancelled }

theorem Booking.same_asCancelled (b : Booking) : b.Same b.asCancelled := rfl

theorem Booking.asCancelled_ne {b : Booking} (hb : b.status ≠ .cancelled) : b.asCancelled ≠ b :=
  fun h => hb (h ▸ rfl)

theorem Ledger.Numbered.booking?_withBooking_of_some {l : Ledger} (hl : l.Numbered)
    {now : Instant} {n : NewBooking} {id : BookingId} {c : Booking} (hc : l.booking? id = some c) :
    (l.withBooking now n).booking? id = some c := by
  have hne : (l.newBooking now n).id ≠ id := by
    rintro rfl
    rw [hl.booking?_newBooking now n] at hc
    cases hc
  rw [hl.booking?_withBooking, hc]
  simp [hne, Option.filter_some]

namespace Inventory

variable {v : Inventory} {l : Lock} {uid : Uid}

/-- The locks of a booking, of which there is one at most. -/
def locksFor (v : Inventory) (uid : Uid) : List Lock := v.locks.filter (·.uid = uid)

theorem locksFor_eq_nil : v.locksFor uid = [] ↔ ¬ v.HasLock uid := by
  unfold locksFor HasLock
  rw [List.filter_eq_nil_iff]
  simp

theorem locksFor_withLock {now : Instant} {n : NewLock} (hn : n.uid ≠ uid) :
    (v.withLock now n).locksFor uid = v.locksFor uid := by
  have hnew : (v.newLock now n).uid ≠ uid := hn
  unfold locksFor
  rw [withLock_locks, List.filter_append]
  simp [hnew]

/-- A lock that goes is the lock of no other booking. -/
theorem Sound.locksFor_withoutLock (hv : v.Sound) (hl : l ∈ v.locks) (hne : l.uid ≠ uid) :
    (v.withoutLock l).locksFor uid = v.locksFor uid := by
  change (v.locks.filter (·.id ≠ l.id)).filter (·.uid = uid) = v.locks.filter (·.uid = uid)
  rw [List.filter_filter]
  refine List.filter_congr fun m hm => ?_
  by_cases hu : m.uid = uid
  · have hid : m.id ≠ l.id := fun h => hne (hv.eq_of_id hm hl h ▸ hu)
    simp [hu, hid]
  · simp [hu]

theorem Sound.not_hasLock_withoutLock (hv : v.Sound) (hl : l ∈ v.locks) :
    ¬ (v.withoutLock l).HasLock l.uid := by
  rintro ⟨m, hm, hu⟩
  obtain ⟨hm, hid⟩ := mem_withoutLock.mp hm
  exact hid (hv.eq_of_uid hm hl hu ▸ rfl)

end Inventory

section Tells

variable {σ κ α : Type} {S : Script σ} {code : κ → Process α} {Q : κ → α → σ → Prop}
  {s : Scene code} {st : Stage κ σ}

theorem Script.Tells.ledger (ht : S.Tells Q s st) : s.world.ledger = st.stock.ledger := by
  rw [ht.stock]
  rfl

theorem Script.Tells.inventory (ht : S.Tells Q s st) :
    s.world.inventory = st.stock.inventory := by
  rw [ht.stock]
  rfl

end Tells

namespace Desk

variable {st st' : Stage Call Point} {s' : Stock} {i k : ℕ} {p : Point} {b c : Booking}
  {e : Errand} {ev : Event Call}

/-- The booking is as it was, or has been cancelled and has no lock. Whoever is about to cancel it
has read it as it was, and there is no lock once the room has been released. -/
structure Closing (b : Booking) (st : Stage Call Point) : Prop where
  planned : st.stock.planned .release = none
  housed : st.stock.inventory.Housed
  unmade : ∀ i c, (st.point i).making? = some c → c.uid ≠ b.uid
  read : ∀ i c e, st.point i = .releasing c e → c.id = b.id → c = b
  released : ∀ i e ok, st.point i = .releasing b e → e.Ended ok →
    ¬ st.stock.inventory.HasLock b.uid
  row : st.stock.ledger.booking? b.id = some b ∨
    st.stock.ledger.booking? b.id = some b.asCancelled ∧ ¬ st.stock.inventory.HasLock b.uid

theorem Closing.exists_row (h : Closing b st) :
    ∃ c, st.stock.ledger.booking? b.id = some c ∧ c ∈ st.stock.ledger.bookings ∧ b.Same c ∧
      (c = b ∨ c = b.asCancelled) := by
  rcases h.row with hrow | ⟨hrow, -⟩
  · exact ⟨b, hrow, (Ledger.booking?_eq_some hrow).1, .refl b, .inl rfl⟩
  · exact ⟨_, hrow, (Ledger.booking?_eq_some hrow).1, b.same_asCancelled, .inr rfl⟩

/-- What is made or released for another booking is not for this one. -/
theorem Closing.uid_eq_iff (h : Closing b st) (ha : Accounts st)
    (hc : (st.point i).row? = some c) : b.id = c.id ↔ b.uid = c.uid := by
  obtain ⟨d, -, hd, hsame, -⟩ := h.exists_row
  have hiff := ha.uid_eq_iff hc hd
  rwa [hsame.id_eq, hsame.uid_eq] at hiff

/-- Nobody places a lock for the booking. -/
theorem Closing.unlocked_move (h : Closing b st) (ha : Accounts st)
    (hm : Move (st.point i) st.stock p s') (hno : ¬ st.stock.inventory.HasLock b.uid) :
    ¬ s'.inventory.HasLock b.uid := by
  rintro ⟨l, hl, hu⟩
  rcases hm.locks (ha.fits i) hl with hl | ⟨-, c, r, hi, hc, -⟩
  · exact hno ⟨l, hl, hu⟩
  · -- whoever places a lock makes the booking that it is for
    exact h.unmade i c (by rw [hi]; rfl) (hc.symm.trans hu)

theorem Closing.unmade_move (h : Closing b st) (ha : Accounts st)
    (hm : Move (st.point i) st.stock p s')
    (hk : (Function.update st.point i p k).making? = some c) : c.uid ≠ b.uid := by
  rcases update_some Point.making? hk with ⟨rfl, hq⟩ | ⟨-, hk⟩
  · rcases hm.making? hq with hq | ⟨hf, -⟩
    · exact h.unmade k c hq
    · -- whoever writes a booking down does so under a uid that is not in use
      obtain ⟨d, -, hd, hsame, -⟩ := h.exists_row
      exact fun hu => ha.fresh k c.uid hf d hd (hsame.uid_eq.trans hu.symm)
  · exact h.unmade k c hk

theorem Closing.read_move (h : Closing b st) (hm : Move (st.point i) st.stock p s')
    (hk : Function.update st.point i p k = .releasing c e) (hid : c.id = b.id) : c = b := by
  rcases update_eq_cases hk with ⟨rfl, rfl⟩ | ⟨-, hk⟩
  · rcases hm.releasing_cases with ⟨e', hp⟩ | ⟨hfound, hs⟩
    · exact h.read k c e' hp hid
    · obtain ⟨d, hd, -, -, rfl | rfl⟩ := h.exists_row
      · exact Option.some.inj (hfound.symm.trans (hid ▸ hd))
      · obtain rfl := Option.some.inj (hfound.symm.trans (hid ▸ hd))
        exact absurd rfl hs
  · exact h.read k c e hk hid

theorem Closing.released_move (h : Closing b st) (ha : Accounts st)
    (hm : Move (st.point i) st.stock p s')
    (ha' : Accounts ⟨s', st.calls, Function.update st.point i p⟩) {ok : Bool}
    (hk : Function.update st.point i p k = .releasing b e) (he : e.Ended ok) :
    ¬ s'.inventory.HasLock b.uid := by
  rcases update_eq_cases hk with ⟨rfl, rfl⟩ | ⟨-, hk⟩
  · -- as no release is denied, one that has ended has left no lock
    have hnot := hm.ne_denied_of_releasing h.planned
    obtain ⟨x, hx⟩ := (hm.fits (ha.fits k)).removed (.inr rfl) he hnot
    exact ha.gone_of_removed h.housed hm ha' rfl hx
  · exact h.unlocked_move ha hm (h.released k e ok hk he)

/-- The booking is moved on by those who cancel it only, after they have released its room, and not
once it is cancelled. -/
theorem Closing.row_cases (h : Closing b st) (ha : Accounts st) (hb : b.status ≠ .cancelled)
    (hm : Move (st.point i) st.stock p s') :
    s'.ledger.booking? b.id = st.stock.ledger.booking? b.id ∨
      st.stock.ledger.booking? b.id = some b ∧ s'.ledger.booking? b.id = some b.asCancelled ∧
        ¬ st.stock.inventory.HasLock b.uid := by
  obtain ⟨d, hd, hmem, hsame, hcases⟩ := h.exists_row
  rcases hm.ledger_cases with hl | ⟨uid, r, -, hl⟩ | ⟨uid, r, now, n, -, -, -, hl⟩ |
    ⟨c, next, hc, hl, hshift⟩
  · exact .inl (by rw [hl])
  · exact .inl (by rw [hl]; rfl)
  · exact .inl (by rw [hl, ha.ledger.numbered.booking?_withBooking_of_some hd, hd])
  · by_cases hid : c.id = b.id
    · obtain rfl : c = d := ha.ledger.eq_of_id hc hmem (hid.trans hsame.id_eq.symm)
      -- whoever makes a booking makes another one
      have hmaking : ∀ b', (st.point i).making? = some b' → c.id ≠ b'.id := by
        intro b' hb' hid'
        have huid := (h.uid_eq_iff ha (Point.row?_of_making? hb')).mp (hid.symm.trans hid')
        exact h.unmade i b' hb' huid.symm
      generalize hp : st.point i = q at hshift
      cases hshift with
      | @confirm b' _ _ _ _ hid' _ => exact absurd hid' (hmaking b' (by rw [hp]; rfl))
      | @cancel b' _ _ hid' _ => exact absurd hid' (hmaking b' (by rw [hp]; rfl))
      | @mark b' _ e ok he hid' hstatus =>
        obtain rfl := h.read i b' e hp (hid'.symm.trans hid)
        rcases hcases with rfl | rfl
        · refine .inr ⟨hd, ?_, h.released i e ok hp he⟩
          rw [hl, Ledger.booking?_moved hc, Option.filter_some, if_pos (by simp)]
          rfl
        · exact absurd hstatus.symm hb
    · refine .inl ?_
      rw [hl, Ledger.booking?_moved hc, Option.filter_some, if_neg (by simpa using hid)]
      rfl

theorem Closing.row_move (h : Closing b st) (ha : Accounts st) (hb : b.status ≠ .cancelled)
    (hm : Move (st.point i) st.stock p s') :
    s'.ledger.booking? b.id = some b ∨
      s'.ledger.booking? b.id = some b.asCancelled ∧ ¬ s'.inventory.HasLock b.uid := by
  rcases h.row_cases ha hb hm with hsame | ⟨-, hrow, hno⟩
  · rw [hsame]
    exact h.row.imp_right fun ⟨hrow, hno⟩ => ⟨hrow, h.unlocked_move ha hm hno⟩
  · exact .inr ⟨hrow, h.unlocked_move ha hm hno⟩

theorem Closing.next (h : Closing b st) (ha : Accounts st) (ha' : Accounts st')
    (hb : b.status ≠ .cancelled) (hev : ∀ f, ev ≠ .turn (.failRelease (some f)))
    (hn : script.Next Call.first ev st st') : Closing b st' := by
  cases hn with
  | start c =>
    refine ⟨h.planned, h.housed, fun k d hk => ?_, fun k d e hk => ?_, fun k e ok hk => ?_, h.row⟩
    · rcases update_some Point.making? hk with ⟨-, hq⟩ | ⟨-, hk⟩
      · cases c.blank_first.row.symm.trans (Point.row?_of_making? hq)
      · exact h.unmade k d hk
    · exact h.read k d e ((ha.point_start rfl).mp hk)
    · exact h.released k e ok ((ha.point_start rfl).mp hk)
  | move hi hm =>
    exact ⟨(hm.planned _).trans h.planned, ha.housed_move hm h.housed,
      fun k c hk => h.unmade_move ha hm hk, fun k c e hk => h.read_move hm hk,
      fun k e ok hk he => h.released_move ha hm ha' hk he, h.row_move ha hb hm⟩
  | drop hi =>
    refine ⟨h.planned, h.housed, fun k d hk => ?_, fun k d e hk => ?_, fun k e ok hk => ?_, h.row⟩
    · rcases update_some Point.making? hk with ⟨-, hq⟩ | ⟨-, hk⟩
      · cases hq
      · exact h.unmade k d hk
    · rcases update_eq_cases hk with ⟨-, hq⟩ | ⟨-, hk⟩
      · cases hq
      · exact h.read k d e hk
    · rcases update_eq_cases hk with ⟨-, hq⟩ | ⟨-, hk⟩
      · cases hq
      · exact h.released k e ok hk
  | turn t =>
    cases t with
    | failRelease f =>
      cases f with
      | none => exact ⟨rfl, h.housed, h.unmade, h.read, h.released, h.row⟩
      | some f => exact absurd rfl (hev f)
    | _ => exact ⟨h.planned, h.housed, h.unmade, h.read, h.released, h.row⟩
  | idle => exact h

/-- Nobody undoes that a booking has been cancelled. -/
theorem Accounts.cancelled_next (ha : Accounts st) (hn : script.Next Call.first ev st st')
    (hrow : st.stock.ledger.booking? c.id = some c) (hs : c.status = .cancelled) :
    st'.stock.ledger.booking? c.id = some c := by
  cases hn with
  | @move _ i p s' hi hm =>
    rcases hm.ledger_cases with hl | ⟨uid, r, -, hl⟩ | ⟨uid, r, now, n, -, -, -, hl⟩ |
      ⟨d, next, hd, hl, hshift⟩ <;> rw [hl]
    · exact hrow
    · exact hrow
    · exact ha.ledger.numbered.booking?_withBooking_of_some hrow
    · rw [Ledger.booking?_moved hd, hrow, Option.filter_some]
      by_cases hid : d.id = c.id
      · -- whoever moves it on cancels it once more
        obtain rfl := Option.some.inj (hrow.symm.trans (hid ▸ ha.ledger.booking?_of_mem hd))
        generalize st.point i = q at hshift
        cases hshift with
        | confirm he hid hpending => cases hs.symm.trans hpending
        | cancel hid hpending => cases hs.symm.trans hpending
        | mark he hid hstatus =>
          rw [← hs, if_pos (decide_eq_true rfl)]
          rfl
      · rw [if_neg (by simpa using hid), Option.none_or]
  | turn t => cases t <;> exact hrow
  | _ => exact hrow

/-- An order changes the inventory for the booking that it works on only. If it cancels it, it
takes away its lock. -/
theorem Accounts.inventory_cases (ha : Accounts st) (hm : Move (st.point i) st.stock p s') :
    s'.inventory = st.stock.inventory ∨ ∃ c, (st.point i).row? = some c ∧
      (∀ uid, c.uid ≠ uid → s'.inventory.locksFor uid = st.stock.inventory.locksFor uid) ∧
      ((st.point i).making? = some c ∨ (∃ e, st.point i = .releasing c e) ∧
        ∃ l ∈ st.stock.inventory.locks, l.uid = c.uid ∧ l.room = c.room ∧
          s'.inventory = st.stock.inventory.withoutLock l) := by
  have hf := ha.fits i
  have hfound := ha.clear.found i
  -- it changes by an errand to the keeper, which is about the row of the point
  rcases hm.keeper_cases with ⟨k, k', hw, hk, -⟩ | ⟨hv, -⟩
  · rcases hk.inventory_cases with hv | ⟨n, rfl, rfl, hv⟩ | ⟨n, now, rfl, -, -, hv, -⟩ |
      ⟨room, uid, l, rfl, rfl, hv⟩
    · exact .inl hv
    · generalize st.point i = q at hf hw
      cases hw <;> cases hf
    · generalize st.point i = q at hf hw
      cases hw with
      | securing c r =>
        obtain rfl : n = lockFor c r := by
          injection Option.some.inj hf
        exact .inr ⟨c, rfl, fun uid hne => hv ▸ Inventory.locksFor_withLock hne, .inl rfl⟩
      | undoing c r => cases hf
      | releasing c => cases hf
    · obtain ⟨hmem, huid, hroom⟩ := hfound room uid l hw.keeper.1
      generalize st.point i = q at hf hw
      cases hw with
      | securing c r => cases hf
      | undoing c r =>
        injection Option.some.inj hf with hr hu
        refine .inr ⟨c, rfl, fun uid' hne => ?_, .inl rfl⟩
        rw [hv]
        exact ha.clear.sound.locksFor_withoutLock hmem (huid.trans hu ▸ hne)
      | releasing c =>
        injection Option.some.inj hf with hr hu
        refine .inr ⟨c, rfl, fun uid' hne => ?_, .inr ⟨⟨_, rfl⟩, l, hmem, huid.trans hu,
          hroom.trans hr, hv⟩⟩
        rw [hv]
        exact ha.clear.sound.locksFor_withoutLock hmem (huid.trans hu ▸ hne)
  · exact .inl hv

/-- The booking is confirmed, or pending although nobody makes it any more, and no order to cancel
it is under way. -/
structure AtRest (s : Scene Call.process) (b : Booking) : Prop where
  found : b ∈ s.world.ledger.bookings
  status : b.status = .confirmed ∨
    b.status = .pending ∧ ∀ x ∈ s.jobs, x.1.uid? = some b.uid → x.2.underWay = false
  alone : ∀ x ∈ s.jobs, x.1.target? = some b.id → x.2.underWay = false

theorem AtRest.ne_cancelled {s : Scene Call.process} (h : AtRest s b) : b.status ≠ .cancelled := by
  rcases h.status with hs | ⟨hs, -⟩ <;> rw [hs] <;> nofun

/-- The order that is at a point has not come to its end. -/
theorem underWay_of_point {s : Scene Call.process} (ht : script.Tells Call.Ends s st)
    (hrow : (st.point i).row? = some c) (hne : st.point i ≠ .stale c) {d : Call}
    (hd : st.calls[i]? = some d) : ∃ x ∈ s.jobs, x.1 = d ∧ x.2.underWay = true := by
  obtain ⟨d', j, hj, hup⟩ := underWay_of_row ht hrow hne
  rw [ht.calls, List.getElem?_map, hj] at hd
  exact ⟨_, List.mem_of_getElem? hj, Option.some.inj hd, hup⟩

/-- Nobody makes a booking once the order for it is over. -/
theorem unmade_of_over {s : Scene Call.process} {uid : Uid} (ht : script.Tells Call.Ends s st)
    (ha : Accounts st) (hover : ∀ x ∈ s.jobs, x.1.uid? = some uid → x.2.underWay = false)
    (hc : (st.point i).making? = some c) : c.uid ≠ uid := by
  rintro rfl
  have hne : st.point i ≠ .stale c := by
    intro hp
    rw [hp] at hc
    cases hc
  obtain ⟨r, hmaker⟩ := Point.maker?_of_making? hc
  obtain ⟨d, hd, huid⟩ := ha.maker i _ hmaker
  obtain ⟨x, hx, rfl, hup⟩ := underWay_of_point ht (Point.row?_of_making? hc) hne hd
  rw [hover x hx huid] at hup
  cases hup

/-- Nobody releases the room of a booking if no order to cancel it is under way. -/
theorem unread_of_over {s : Scene Call.process} {id : BookingId} (ht : script.Tells Call.Ends s st)
    (ha : Accounts st) (hover : ∀ x ∈ s.jobs, x.1.target? = some id → x.2.underWay = false)
    (hp : st.point i = .releasing c e) : c.id ≠ id := by
  rintro rfl
  have hrow : (st.point i).row? = some c := by rw [hp]; rfl
  obtain ⟨d, hd, htarget⟩ := ha.target i c.id (by rw [hp]; rfl)
  obtain ⟨x, hx, rfl, hup⟩ := underWay_of_point ht hrow (by rw [hp]; nofun) hd
  rw [hover x hx htarget] at hup
  cases hup

theorem AtRest.closing {s : Scene Call.process} (h : AtRest s b)
    (hspared : s.world.releaseFailure = none) (ht : script.Tells Call.Ends s st) (ha : Accounts st)
    (hhoused : st.stock.inventory.Housed) : Closing b st := by
  have hstock := ht.stock
  have hfound : b ∈ st.stock.ledger.bookings := by
    rw [hstock]
    exact h.found
  refine ⟨?_, hhoused, fun i c hc => ?_,
    fun i c e hp hid => absurd hid (unread_of_over ht ha h.alone hp),
    fun i e ok hp => absurd rfl (unread_of_over ht ha h.alone hp),
    .inl (ha.ledger.booking?_of_mem hfound)⟩
  · rw [hstock]
    exact hspared
  · rcases h.status with hs | ⟨-, hdone⟩
    · exact fun hu => ha.unconfirmed i c hc b hfound hu.symm hs
    · exact unmade_of_over ht ha hdone hc

theorem exists_housed (now : Instant) (rooms : List NewRoom) (es : List (Event Call))
    (hdistinct : Distinct (((Scene.opening Call.process (.furnished now rooms)).run es).jobs.map
      Prod.fst)) :
    ∃ st, script.Tells Call.Ends ((Scene.opening Call.process (.furnished now rooms)).run es) st ∧
      Accounts st ∧ st.stock.inventory.Housed := by
  refine accounts_run (P := fun _ st => st.stock.inventory.Housed) (tells_furnished now rooms)
    (accounts_furnished now rooms) ?_ ?_ es hdistinct
  · intro l hl
    change l ∈ (Inventory.furnished rooms).locks at hl
    rw [(furnished_locks rooms).2.1] at hl
    cases hl
  · intro es e st st' ht ha ha' hd hn ht' hhoused
    cases hn with
    | move hi hm => exact ha.housed_move hm hhoused
    | turn t => cases t <;> exact hhoused
    | _ => exact hhoused

/-- The calls of a run are distinct if they are so later on. -/
theorem distinct_of_run {s : Scene Call.process} {es fs : List (Event Call)}
    (h : Distinct ((s.run (es ++ fs)).jobs.map Prod.fst)) :
    Distinct ((s.run es).jobs.map Prod.fst) := by
  rw [Scene.run_append, Scene.calls_run] at h
  exact h.of_append

/-- What every event preserves from where the booking is at rest holds after the run. -/
theorem closing_run {s : Scene Call.process} {P : List (Event Call) → Prop}
    (ht : script.Tells Call.Ends s st) (ha : Accounts st) (hc : Closing b st)
    (hb : b.status ≠ .cancelled) (h0 : P [])
    (hstep : ∀ gs e st st', script.Tells Call.Ends (s.run gs) st → Accounts st → Closing b st →
      script.Next Call.first e st st' → script.Tells Call.Ends (s.run (gs ++ [e])) st' →
      Closing b st' → P gs → P (gs ++ [e]))
    (fs : List (Event Call)) (hdistinct : Distinct ((s.run fs).jobs.map Prod.fst))
    (hspared : ∀ f, .turn (.failRelease (some f)) ∉ fs) :
    ∃ st, script.Tells Call.Ends (s.run fs) st ∧ Accounts st ∧ Closing b st ∧ P fs := by
  obtain ⟨st, ht, ha, hst⟩ := accounts_run
    (P := fun gs st => (∀ f, .turn (.failRelease (some f)) ∉ gs) → Closing b st ∧ P gs) ht ha
    (fun _ => ⟨hc, h0⟩)
    (fun gs e st st' ht ha ha' _ hn ht' hP hspared => by
      obtain ⟨hc, hP⟩ := hP fun f hf => hspared f (List.mem_append_left _ hf)
      have hc' : Closing b st' := hc.next ha ha' hb (fun f he => hspared f (by simp [he])) hn
      exact ⟨hc', hstep gs e st st' ht ha hc hn ht' hc' hP⟩) fs hdistinct
  obtain ⟨hc, hP⟩ := hst hspared
  exact ⟨st, ht, ha, hc, hP⟩

end Desk

end Lodging
