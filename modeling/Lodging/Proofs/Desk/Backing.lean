import Lodging.Proofs.Desk.Parts
import Lodging.Proofs.Entries
import Lodging.Proofs.Inventory
import Lodging.World.Sample

/-!
No lock without a booking. Locks are placed only on behalf of bookings that have been written down
before, and what was written down is never removed, nor changed in anything but its status. So
whatever goes wrong, and wherever orders are given up, the booking of every lock can be found.
-/

namespace Lodging

/-- An action that places no locks but certain ones. -/
def Action.Locks (P : NewLock → Prop) : Action → Prop
  | rooms (.insertLock n) => P n
  | _ => True

namespace Action

variable {P : NewLock → Prop} {x : Action} {n : NewLock}

theorem Idle.locks (h : x.Idle) : x.Locks P := by
  cases x with
  | rooms c => cases h
  | _ => trivial

theorem Looking.locks (h : x.Looking) : x.Locks P := by
  cases x with
  | rooms c =>
    cases c with
    | insertLock n => cases h
    | _ => trivial
  | _ => trivial

theorem Placing.locks (h : x.Placing n) (hn : P n) : x.Locks P := by
  rcases h with h | rfl
  · exact h.locks
  · exact hn

theorem Removing.locks (h : x.Removing) : x.Locks P := by
  rcases h with h | ⟨id, room, rfl⟩
  · exact h.locks
  · trivial

theorem Locks.mono {Q : NewLock → Prop} (h : x.Locks P) (hPQ : ∀ n, P n → Q n) : x.Locks Q := by
  cases x with
  | rooms c =>
    cases c with
    | insertLock n => exact hPQ n h
    | _ => trivial
  | _ => trivial

end Action

/-- A gateway that places no locks but those that are asked of it. -/
structure Gateway.Faithful (g : Gateway) : Prop where
  recommend : ∀ stay r, (g.recommend stay r).Uses (Action.Locks fun _ => False)
  confirm : ∀ room o, (g.confirm room o).Uses (Action.Locks (NewLock.Meets room o))
  release : ∀ room uid r, (g.release room uid r).Uses (Action.Locks fun _ => False)

namespace Gateway

theorem faithful_direct (p : RetryPolicy) : (direct p).Faithful where
  recommend := uses_direct_recommend p (fun _ => Action.Idle.locks) fun _ => Action.Looking.locks
  confirm _ _ :=
    uses_direct_confirm p (fun _ => Action.Idle.locks) fun _ hn _ hx => hx.locks hn
  release := uses_direct_release p (fun _ => Action.Idle.locks) fun _ => Action.Removing.locks

end Gateway

namespace Scene

variable {κ α : Type} {code : κ → Process α} {s : Scene code}

/-- A lock is held from before, or someone has placed it. -/
theorem locked_run {l : Lock} (es : List (Event κ)) (h : l ∈ (s.run es).world.inventory.locks) :
    l ∈ s.world.inventory.locks ∨ ∃ i n a, (i, .did (.rooms (.insertLock n)) a) ∈ s.journal es ∧
      l.uid = n.uid ∧ l.room = n.room ∧ l.stay = n.stay := by
  induction es using List.reverseRecOn with
  | nil => exact .inl h
  | append_singleton es e ih =>
    rw [run_concat] at h
    rw [journal_concat]
    have hold : l ∈ (s.run es).world.inventory.locks → l ∈ s.world.inventory.locks ∨
        ∃ i n a, (i, .did (.rooms (.insertLock n)) a) ∈ s.journal es ++ (s.run es).deeds e ∧
          l.uid = n.uid ∧ l.room = n.room ∧ l.stay = n.stay := by
      intro hl
      refine (ih hl).imp_right ?_
      rintro ⟨i, n, a, hmem, hn⟩
      exact ⟨i, n, a, List.mem_append_left _ hmem, hn⟩
    rcases (s.run es).step_cases e with ⟨i, x, hd, hw⟩ | ⟨-, hw⟩
    · rw [hw] at h
      by_cases hx : ∃ c, x = .rooms c
      · obtain ⟨c, rfl⟩ := hx
        change l ∈ ((s.run es).world.callRooms c).2.inventory.locks at h
        rcases (s.run es).world.callRooms_cases c with ⟨-, hv⟩ | ⟨-, hv⟩ <;> rw [hv] at h
        · rcases Inventory.mem_answer_locks h with h | ⟨n, rfl, hn⟩
          · exact hold h
          · rw [hd]
            exact .inr ⟨i, n, _, List.mem_append_right _ (List.mem_singleton_self _), hn⟩
        · exact hold h
      · rw [World.perform_inventory fun c hc => hx ⟨c, hc⟩] at h
        exact hold h
    · exact hold (hw.locks ▸ h)

end Scene

namespace Desk

open Process (Leads)

variable {w : World} {es : List (Event Order)}

/-- A lock that an order for a new booking places is for the booking that it has written down. -/
theorem Order.locks_backed {c : Order} (hg : c.gateway.Faithful) {ds : List Deed}
    {p : Process (Except BookingFailure BookingSummary)} (h : c.process.Leads ds p) {n : NewLock}
    {a : (Action.rooms (.insertLock n)).Answer} (hn : .did (.rooms (.insertLock n)) a ∈ ds) :
    ∃ m b, .did (.ledger (.insertPending m)) (.ok b) ∈ ds ∧ n.uid = b.uid ∧ n.room = b.room ∧
      n.stay = b.stay := by
  cases c with
  | cancel o id user r =>
    have hcancel : (Desk.cancel o.gateway id user r).run.Uses (Action.Locks fun _ => False) :=
      uses_cancel (fun _ => trivial) (fun _ => trivial) (fun _ _ => trivial)
        (fun room uid => hg.release room uid r) id user
    have hno : Action.Locks (fun _ => False) (.rooms (.insertLock n)) := h.of_uses hcancel hn
    exact False.elim hno
  | create o user wish r today uid =>
    have hdraft : (draft o.gateway wish r today).run.Uses (Action.Locks fun _ => False) :=
      uses_draft (fun _ => trivial) trivial fun stay => hg.recommend stay r
    -- no lock is asked for before the booking is written down
    obtain ⟨m, b, rest, hb, hrest, hn⟩ :=
      (creating_of_leads h).after_entry hn (fun _ => nofun) hdraft id
    have hconclude : (conclude o.gateway r b).run.Uses
        (Action.Locks (NewLock.Meets b.room ⟨b.stay.arrival, b.stay.departure, b.uid, r⟩)) :=
      uses_conclude (fun _ => trivial) (fun _ _ => trivial) (hg.confirm _ _)
        ((hg.release _ _ r).mono fun x hx => hx.mono fun _ => False.elim)
    obtain ⟨hroom, huid, harr, hdep⟩ := hrest.of_uses hconclude hn
    refine ⟨m, b, hb, huid, hroom, ?_⟩
    cases hs : n.stay
    cases hb : b.stay
    rw [hs, hb] at harr hdep
    simp only at harr hdep
    subst harr hdep
    rfl

/-- The uids of the bookings that orders write down are those of the orders. -/
theorem nodup_uids
    (hd : ((((orders w).run es).jobs.map Prod.fst).filterMap Order.uid?).Nodup) :
    ((Scene.entries ((orders w).journal es)).map (·.uid)).Nodup := by
  have hjob : ∀ i, i < ((orders w).run es).jobs.length → ∃ c ds p,
      (((orders w).run es).jobs.map Prod.fst)[i]? = some c ∧
        ds = Deed.doneBy i ((orders w).journal es) ∧ c.process.Leads ds p := by
    intro i hi
    obtain ⟨p, hp⟩ := (Scene.told w es (List.getElem?_eq_getElem hi)).leads
    refine ⟨_, _, p, ?_, rfl, hp⟩
    rw [List.getElem?_map, List.getElem?_eq_getElem hi]
    rfl
  -- an order writes down one booking at most, with its own uid, which no other order has
  refine Scene.nodup_entries
    (fun i => (((orders w).run es).jobs.map Prod.fst)[i]?.bind Order.uid?) ?_ ?_ ?_
  · intro i
    by_cases hi : i < ((orders w).run es).jobs.length
    · obtain ⟨c, ds, p, -, rfl, hp⟩ := hjob i hi
      rcases Order.entries hp with hnil | ⟨n, b, -, -, hone⟩
      · rw [hnil]
        exact Nat.zero_le 1
      · rw [hone]
        exact Nat.le_refl 1
    · have hnil : Deed.doneBy i ((orders w).journal es) = [] :=
        Deed.doneBy_of_ne fun x hx hxi => hi (hxi ▸ Scene.lt_of_mem_journal hx)
      rw [hnil]
      exact Nat.zero_le 1
  · rintro ⟨i, d⟩ hx b hb
    obtain ⟨c, ds, p, hc, rfl, hp⟩ := hjob i (Scene.lt_of_mem_journal hx)
    have hmem : b ∈ (Deed.doneBy i ((orders w).journal es)).filterMap Deed.made? :=
      List.mem_filterMap.mpr ⟨d, Deed.mem_doneBy.mpr hx, hb⟩
    rcases Order.entries hp with hnil | ⟨n, b', hins, hu, hone⟩
    · rw [hnil] at hmem
      cases hmem
    · rw [hone] at hmem
      obtain rfl := List.mem_singleton.mp hmem
      obtain ⟨huid, -⟩ := Scene.entry_of_mem_journal (Deed.mem_doneBy.mp hins)
      change Option.bind _ _ = _
      rw [hc, huid]
      exact hu
  · intro i k z hi hk
    obtain ⟨c, hc, hcz⟩ := Option.bind_eq_some_iff.mp hi
    obtain ⟨d, hdk, hdz⟩ := Option.bind_eq_some_iff.mp hk
    exact Rows.index_eq hd hc hdk hcz hdz

/-- Whatever orders do and wherever they are given up, whatever their gateways answer and whatever
goes wrong in the inventory and the ledger, every lock is for exactly one booking, of the same room
and for the same stay. Bookings are never removed, and stay as they were made but for their status.
-/
theorem locks_are_backed (w : World) (hlocks : w.inventory.locks = [])
    (hrows : w.ledger.bookings = []) (es : List (Event Order))
    (hd : ((((orders w).run es).jobs.map Prod.fst).filterMap Order.uid?).Nodup)
    (hg : ∀ c ∈ ((orders w).run es).jobs.map Prod.fst, c.gateway.Faithful) :
    (∀ l ∈ ((orders w).run es).world.inventory.locks, ∃ b,
        ((orders w).run es).world.ledger.bookings.filter (·.uid = l.uid) = [b] ∧
          b.room = l.room ∧ b.stay = l.stay) ∧
      ∀ fs, ((orders w).run es).world.ledger.bookings.map Booking.asMade <+:
        ((orders w).run (es ++ fs)).world.ledger.bookings.map Booking.asMade := by
  refine ⟨fun l hl => ?_, fun fs => ?_⟩
  · obtain ⟨hmade, -⟩ := Scene.made_run (s := orders w) hrows es
    have huids : (((orders w).run es).world.ledger.bookings.map (·.uid)).Nodup := by
      have hsame := congrArg (List.map (·.uid)) hmade
      rw [List.map_map] at hsame
      have huid : (fun b : Booking => b.uid) ∘ Booking.asMade = (·.uid) := rfl
      rw [huid] at hsame
      rw [hsame]
      exact nodup_uids hd
    rcases Scene.locked_run es hl with hl | ⟨i, n, a, hmem, hu, hroom, hstay⟩
    · rw [show (orders w).world.inventory.locks = [] from hlocks] at hl
      cases hl
    · -- the order that placed the lock has written its booking down
      obtain ⟨c, j, p, hi, hp⟩ := Scene.leads_of_mem_journal hmem
      have hfaithful := hg c (List.mem_map_of_mem (List.mem_of_getElem? hi))
      obtain ⟨m, b, hins, hub, hroomb, hstayb⟩ :=
        Order.locks_backed hfaithful hp (Deed.mem_doneBy.mpr hmem)
      have hentry : b ∈ ((orders w).run es).world.ledger.bookings.map Booking.asMade := by
        rw [hmade]
        exact Scene.mem_entries.mpr ⟨_, m, Deed.mem_doneBy.mp hins⟩
      obtain ⟨c, hc, rfl⟩ := List.mem_map.mp hentry
      refine ⟨c, ?_, (hroom.trans hroomb).symm, (hstay.trans hstayb).symm⟩
      rw [hu, hub]
      exact Rows.filter_key huids hc
  · have hnum := (Scene.numbered_run (s := orders w) (Ledger.numbered_of_nil hrows) es).1
    rw [Scene.run_append, (Scene.numbered_run hnum fs).2]
    exact List.prefix_append ..

/-- An order is given up as soon as its lock is placed, and another one comes too late. -/
def leftBehind : List (Event Order) :=
  [.start (.ofCall (Sample.booking 1)), .start (.ofCall (Sample.booking 2))] ++
    List.replicate 11 (.advance 0) ++ [.drop 0] ++ List.replicate 20 (.advance 1)

theorem locks_are_backed_of_leftBehind :
    ((orders (.furnished Sample.newYear [Sample.room])).run
      leftBehind).world.inventory.HasLock (Sample.uid 1) ∧
    ∃ b, ((orders (.furnished Sample.newYear [Sample.room])).run
        leftBehind).world.ledger.bookings.filter (·.uid = Sample.uid 1) = [b] ∧
      b.room = ⟨1⟩ ∧ b.stay = Sample.twoNights := by
  have hlock : ∃ l ∈ ((orders (.furnished Sample.newYear [Sample.room])).run
      leftBehind).world.inventory.locks, l.uid = Sample.uid 1 ∧ l.room = ⟨1⟩ ∧
        l.stay = Sample.twoNights := by
    decide +kernel
  obtain ⟨l, hl, hu, hroom, hstay⟩ := hlock
  refine ⟨⟨l, hl, hu⟩, ?_⟩
  rw [← hu, ← hroom, ← hstay]
  refine (locks_are_backed (.furnished Sample.newYear [Sample.room]) rfl rfl leftBehind
    (by decide +kernel) fun c hc => ?_).1 l hl
  rw [Scene.calls_run] at hc
  rcases List.mem_cons.mp hc with rfl | hc
  · exact Gateway.faithful_direct _
  · rw [List.mem_singleton.mp hc]
    exact Gateway.faithful_direct _

end Desk

end Lodging
