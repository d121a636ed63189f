import Lodging.Proofs.Desk.Foresight
import Lodging.Proofs.Desk.Lifecycle
import Lodging.Proofs.Keeper.Frames
import Lodging.Proofs.Traffic.Strides
import Lodging.World.Sample

/-!
Several orders to cancel the same booking, at the same time and among others. Each of them is shown
the cancelled booking, whichever of them marks it. The lock of the booking goes with the first that
comes to remove it, and the others remove nothing, not even a lock that someone else has placed on
the room meanwhile.
-/

namespace Lodging

theorem Status.allows_self (s : Status) : s.allows s = false := by cases s <;> rfl

theorem Status.cancelled_allows (s : Status) : Status.cancelled.allows s = false := by
  cases s <;> rfl

theorem Inventory.length_rooms_furnished (rooms : List NewRoom) :
    (Inventory.furnished rooms).rooms.length = rooms.length := by
  induction rooms using List.reverseRecOn with
  | nil => rfl
  | append_singleton rest n ih =>
    have hlast : Inventory.furnished (rest ++ [n]) = ((Inventory.furnished rest).insertRoom n).2 :=
      List.foldl_concat ..
    rw [hlast]
    change ((Inventory.furnished rest).rooms ++ [_]).length = _
    rw [List.length_append, List.length_append, ih]
    rfl

/-- What the orders to cancel a booking make of the inventory with an event. -/
def Desk.withdrawals (id : BookingId) (s : Scene Desk.Call.process) :
    Event Desk.Call → List (Inventory × Inventory)
  | .advance i => if s.jobs[i]?.bind (·.1.target?) = some id then s.changes i (.advance i) else []
  | _ => []

namespace Desk

variable {st st' : Stage Call Point} {b : Booking} {e : Event Call} {s : Scene Call.process}
  {i : ℕ} {id : BookingId}

theorem withdrawals_of_same (h : (s.step e).world.inventory = s.world.inventory) :
    withdrawals id s e = [] := by
  cases e with
  | advance i =>
    simp only [withdrawals, Scene.changes, Event.changed, h]
    simp
  | _ => rfl

/-- What the orders to cancel a booking have made of an inventory so far: nothing, and its lock is
still as it was; or one change, in which the lock goes and its room counts one less. -/
inductive Removed (b : Booking) (v₀ : Inventory) : List (Inventory × Inventory) → Inventory → Prop
  | kept {v : Inventory} (h : v.locksFor b.uid = v₀.locksFor b.uid) : Removed b v₀ [] v
  | once {l : Lock} {u v : Inventory} (h₀ : v₀.locksFor b.uid = [l]) (hl : l ∈ u.locks)
    (hroom : l.room = b.room) (hv : v.locksFor b.uid = []) :
    Removed b v₀ [(u, .recount (· - 1) b.room { u with locks := u.locks.erase l })] v

/-- What an event does to the lock of a booking. An order to cancel the booking removes the lock or
changes nothing, and any other order leaves the lock alone. -/
inductive Withdraws (b : Booking) (s : Scene Call.process) (e : Event Call) : Prop
  | nothing (h : withdrawals b.id s e = [])
    (hv : (s.step e).world.inventory.locksFor b.uid = s.world.inventory.locksFor b.uid)
  | lock {l : Lock} (hl : l ∈ s.world.inventory.locks) (huid : l.uid = b.uid)
    (hroom : l.room = b.room)
    (h : withdrawals b.id s e = [(s.world.inventory, .recount (· - 1) b.room
      { s.world.inventory with locks := s.world.inventory.locks.erase l })])
    (hv : (s.step e).world.inventory.locksFor b.uid = [])

/-- What an order is to cancel. -/
theorem target_of_calls (ht : script.Tells Call.Ends s st) {c : Call}
    (hc : st.calls[i]? = some c) : s.jobs[i]?.bind (·.1.target?) = c.target? := by
  rw [ht.calls, List.getElem?_map] at hc
  obtain ⟨x, hx, rfl⟩ := Option.map_eq_some_iff.mp hc
  rw [hx]
  rfl

theorem withdraws_of_withoutLock (hexact : s.world.inventory.Exact) {l : Lock}
    (hl : l ∈ s.world.inventory.locks) (huid : l.uid = b.uid) (hroom : l.room = b.room)
    (htarget : s.jobs[i]?.bind (·.1.target?) = some b.id)
    (hnew : (s.step (.advance i)).world.inventory = s.world.inventory.withoutLock l) :
    Withdraws b s (.advance i) := by
  have hgone : ¬ (s.step (.advance i)).world.inventory.HasLock b.uid := by
    rw [hnew, ← huid]
    exact hexact.toSound.not_hasLock_withoutLock hl
  have hchanged : (s.step (.advance i)).world.inventory ≠ s.world.inventory := by
    intro heq
    exact hgone (heq ▸ ⟨l, hl, huid⟩)
  refine .lock hl huid hroom ?_ (Inventory.locksFor_eq_nil.mpr hgone)
  simp only [withdrawals, htarget, if_true, Scene.changes, Event.changed, hchanged, ne_eq,
    not_false_eq_true, and_self]
  rw [hnew, hexact.withoutLock_eq hl, hexact.toSound.filter_id hl, hroom]

theorem Closing.withdraws (hc : Closing b st) (ht : script.Tells Call.Ends s st) (ha : Accounts st)
    (hexact : s.world.inventory.Exact) (hn : script.Next Call.first e st st')
    (ht' : script.Tells Call.Ends (s.step e) st') : Withdraws b s e := by
  have hv := ht.inventory
  have hv' := ht'.inventory
  have hsame : st'.stock.inventory = st.stock.inventory → Withdraws b s e := by
    intro h
    have hstep : (s.step e).world.inventory = s.world.inventory := by rw [hv', h, hv]
    exact .nothing (withdrawals_of_same hstep) (by rw [hstep])
  cases hn with
  | turn t =>
    refine .nothing rfl ?_
    rw [hv', hv]
    cases t <;> rfl
  | @move _ i p s' hi hm =>
    have hother : ∀ c : Call, st.calls[i]? = some c → c.target? ≠ some b.id →
        s'.inventory.locksFor b.uid = st.stock.inventory.locksFor b.uid →
          Withdraws b s (.advance i) := by
      intro c hc hne hlocks
      refine .nothing (if_neg ?_) ?_
      · rw [target_of_calls ht hc]
        exact hne
      · rw [hv', hv]
        exact hlocks
    rcases ha.inventory_cases hm with hsame' | ⟨c, hrow, hothers, hmaking | ⟨⟨e, hp⟩, hremoved⟩⟩
    · exact hsame hsame'
    · -- an order for a new booking is not one to cancel
      obtain ⟨r, hmaker⟩ := Point.maker?_of_making? hmaking
      obtain ⟨d, hd, hdu⟩ := ha.maker i _ hmaker
      refine hother d hd ?_ (hothers b.uid (hc.unmade i c hmaking))
      cases d with
      | create => nofun
      | cancel => cases hdu
    · obtain ⟨d, hd, htarget⟩ := ha.target i c.id (by rw [hp]; rfl)
      by_cases hid : c.id = b.id
      · obtain rfl := hc.read i c e hp hid
        obtain ⟨l, hl, huid, hroom, hw⟩ := hremoved
        have htarget' := (target_of_calls ht hd).trans htarget
        exact withdraws_of_withoutLock hexact (hv ▸ hl) huid hroom htarget'
          ((hv'.trans hw).trans (hv ▸ rfl))
      · refine hother d hd ?_ (hothers b.uid fun hu => hid ?_)
        · rw [htarget]
          exact fun h => hid (Option.some.inj h)
        · exact ((hc.uid_eq_iff ha hrow).mpr hu.symm).symm
  | _ => exact hsame rfl

theorem Removed.step {v₀ : Inventory} {ws : List (Inventory × Inventory)}
    (h : Removed b v₀ ws s.world.inventory) (hsound : s.world.inventory.Sound)
    (hstep : Withdraws b s e) :
    Removed b v₀ (ws ++ withdrawals b.id s e) (s.step e).world.inventory := by
  cases hstep with
  | nothing hnone hsame =>
    rw [hnone, List.append_nil]
    cases h with
    | kept h => exact .kept (hsame.trans h)
    | once h₀ hl hroom hv => exact .once h₀ hl hroom (hsame.trans hv)
  | @lock l hl huid hroom hone hgone =>
    rw [hone]
    have honly : s.world.inventory.locksFor b.uid = [l] := by
      rw [← huid]
      exact hsound.filter_uid hl
    cases h with
    | kept h => exact .once (h.symm.trans honly) hl hroom hgone
    | once h₀ hl hroom hv =>
      rw [hv] at honly
      cases honly

theorem allows_of_mem_journal {w : World} {es : List (Event Call)} {e next : Status}
    {a : (Action.ledger (.updateStatus id e next)).Answer}
    (h : (i, .did (.ledger (.updateStatus id e next)) a) ∈
      (Scene.opening Call.process w).journal es) : e.allows next = true := by
  obtain ⟨c, j, q, -, hq⟩ := Scene.leads_of_mem_journal h
  have hprocess : (Order.ofCall c).process = c.process := by cases c <;> rfl
  rw [← hprocess] at hq
  exact (Order.moves hq (Deed.mem_doneBy.mpr h)).1

/-- What has been written for a booking, which is as it was or was cancelled once. -/
def CancelledOnce (b : Booking) (written : List Status) (row : Option Booking) : Prop :=
  written = [] ∧ row = some b ∨ written = [.cancelled] ∧ row = some b.asCancelled

/-- As no status is the next one of itself, and none is next to that of a cancelled booking, all
that can be written is that the booking is cancelled. -/
theorem CancelledOnce.write {l : Ledger} {x : Action} {c : Booking} {written : List Status}
    (h : CancelledOnce b written (l.booking? b.id)) (hwrites : l.Writes x c) (hid : c.id = b.id)
    (hallowed : ∀ id e next, x = .ledger (.updateStatus id e next) → e.allows next = true)
    (hrow : c = b ∨ c = b.asCancelled) : CancelledOnce b (written ++ [c.status]) (some c) := by
  cases hwrites with
  | new hpending hnone =>
    rw [← hid, hnone] at h
    rcases h with ⟨-, h⟩ | ⟨-, h⟩ <;> cases h
  | @moved d next hfound =>
    have hallowed := hallowed _ _ _ rfl
    have hid : d.id = b.id := hid
    rw [← hid, hfound] at h
    rcases h with ⟨rfl, h⟩ | ⟨-, h⟩
    · obtain rfl := Option.some.inj h
      rcases hrow with hsame | hcancelled
      · have hnext : next = d.status := congrArg Booking.status hsame
        rw [hnext, Status.allows_self] at hallowed
        cases hallowed
      · have hnext : next = .cancelled := congrArg Booking.status hcancelled
        rw [hnext]
        exact .inr ⟨rfl, rfl⟩
    · have hstatus : d.status = .cancelled := congrArg Booking.status (Option.some.inj h)
      rw [hstatus, Status.cancelled_allows] at hallowed
      cases hallowed

theorem CancelledOnce.step {w : World} {es : List (Event Call)} {written : List Status}
    (hs : (Scene.opening Call.process w).run es = s) (hplans : s.world.ledgerPlans = [])
    (hnum : s.world.ledger.Numbered)
    (hrow : (s.step e).world.ledger.booking? b.id = some b ∨
      (s.step e).world.ledger.booking? b.id = some b.asCancelled)
    (h : CancelledOnce b written (s.world.ledger.booking? b.id)) :
    CancelledOnce b (written ++ Deed.history b.id (s.deeds e))
      ((s.step e).world.ledger.booking? b.id) := by
  have hjournal := Scene.journal_concat (Scene.opening Call.process w) es e
  rw [hs] at hjournal
  -- with an event one action is taken, or the ledger is left alone
  rcases s.step_cases e with ⟨k, x, hd, hw⟩ | ⟨hd, hw⟩
  · rw [hd] at hjournal ⊢
    rw [hw] at hrow ⊢
    have hunmeddled : s.world.Unmeddled := by
      intro p hp
      rw [hplans] at hp
      cases hp
    obtain ⟨hfind, hwrites⟩ := hunmeddled.booking?_perform hnum x
    have hmem := hjournal ▸ List.mem_append_right _ (List.mem_singleton_self _)
    rw [hfind b.id] at hrow ⊢
    generalize (s.world.perform x).1 = a at hwrites hmem hrow ⊢
    rw [Scene.history_singleton]
    cases hwr : (Deed.did x a).written?.filter (·.id = b.id) with
    | none => simpa using h
    | some c =>
      rw [hwr, Option.some_or] at hrow
      obtain ⟨hwritten, hid⟩ := Option.filter_eq_some_iff.mp hwr
      refine h.write (hwrites c hwritten) (of_decide_eq_true hid) ?_
        (hrow.imp Option.some.inj Option.some.inj)
      rintro id e next rfl
      exact allows_of_mem_journal hmem
  · rw [Scene.history_of_linedUp hd, List.append_nil, hw.ledger]
    exact h

/-- What has become of an order by the owner to cancel the booking, since a scene. -/
def Cancels (s : Scene Call.process) (fs : List (Event Call)) (b : Booking) (i : ℕ)
    (j : Job (Except BookingFailure BookingSummary)) : Prop :=
  s.jobs.length ≤ i ∧ ∃ p r, (s.run fs).jobs[i]? = some (.cancel p b.id b.user r, j)

/-- The ledger shows no less of the booking than before. -/
theorem reveals_next (ha : Accounts st) (ht : script.Tells Call.Ends s st)
    (hn : script.Next Call.first e st st') (ht' : script.Tells Call.Ends (s.step e) st')
    (hrow : (s.step e).world.ledger.booking? b.id = some b ∨
      (s.step e).world.ledger.booking? b.id = some b.asCancelled) {known : Bool}
    (h : s.world.Reveals b known) : (s.step e).world.Reveals b known := by
  rcases h with hcancelled | ⟨hknown, -⟩
  · rw [ht.ledger] at hcancelled
    have hkept := ha.cancelled_next (c := b.asCancelled) hn hcancelled rfl
    rw [← ht'.ledger] at hkept
    exact .inl hkept
  · exact hrow.symm.imp_right fun hrow => ⟨hknown, hrow⟩

/-- What is left of any order by the owner comes to the cancelled booking, as far as the ledger
shows it. -/
def Foreseen (s : Scene Call.process) (fs : List (Event Call)) (b : Booking) : Prop :=
  ∀ i j, Cancels s fs b i j →
    ∃ known, (s.run fs).world.Reveals b known ∧ j.ComesTo b (ShownCancelled b) known

theorem Foreseen.concat {gs : List (Event Call)} (h : Foreseen s gs b)
    (hb : b.status ≠ .cancelled) (ha : Accounts st) (ht : script.Tells Call.Ends (s.run gs) st)
    (hn : script.Next Call.first e st st') (ht' : script.Tells Call.Ends (s.run (gs ++ [e])) st')
    (hrow : (s.run (gs ++ [e])).world.ledger.booking? b.id = some b ∨
      (s.run (gs ++ [e])).world.ledger.booking? b.id = some b.asCancelled) :
    Foreseen s (gs ++ [e]) b := by
  rintro i j ⟨hi, p, r, hj⟩
  rw [Scene.run_concat] at hj ht' hrow ⊢
  rcases Scene.step_jobs hj with ⟨hj, -⟩ | ⟨l, hl, rfl, hworld, -⟩ | ⟨l, hl, rfl, -⟩ | ⟨-, rfl, -⟩
  · obtain ⟨known, hs, hcomes⟩ := h i j ⟨hi, p, r, hj⟩
    exact ⟨known, reveals_next ha ht hn ht' hrow hs, hcomes⟩
  · obtain ⟨known, hs, hcomes⟩ := h i l ⟨hi, p, r, hl⟩
    rw [hworld]
    exact hcomes.advance ht.undisturbed hs
  · obtain ⟨known, hs, hcomes⟩ := h i l ⟨hi, p, r, hl⟩
    exact ⟨known, reveals_next ha ht hn ht' hrow hs, hcomes.drop _⟩
  · exact ⟨false, hrow.symm.imp_right fun hrow => ⟨rfl, hrow⟩, comesTo_cancel hb p r⟩

theorem foreseen_nil : Foreseen s [] b := by
  rintro i j ⟨hi, p, r, hj⟩
  rw [Scene.run, List.foldl_nil, List.getElem?_eq_none hi] at hj
  cases hj

/-- An order that is answered shows the cancelled booking, and so does the ledger from then on. -/
theorem Foreseen.answer {gs : List (Event Call)} (h : Foreseen s gs b)
    {x : Except BookingFailure BookingSummary} (hx : Cancels s gs b i (.finished x)) :
    x = .ok b.asCancelled.summary ∧
      (s.run gs).world.ledger.booking? b.id = some b.asCancelled := by
  obtain ⟨known, hs, rfl, hx⟩ := h i _ hx
  refine ⟨hx, ?_⟩
  rcases hs with hrow | ⟨hknown, -⟩
  · exact hrow
  · cases hknown

/-- An order to cancel a booking that is cancelled already does no more than look at it. -/
inductive Late (b : Booking) : Job (Except BookingFailure BookingSummary) → Prop
  | begun (p : RetryPolicy) (user : UserId) (r : RequestId) :
    Late b (.running (cancel (.direct p) b.id user r).run [])
  | looked (x : Except BookingFailure BookingSummary) : Late b (.running (.done x) [])
  | ended (x : Except BookingFailure BookingSummary) : Late b (.finished x)
  | dropped : Late b .dropped

theorem exists_look (b : Booking) (p : RetryPolicy) (user : UserId) (r : RequestId) :
    ∃ next, (cancel (.direct p) b.id user r).run = .act (.ledger (.get b.id)) next ∧
      ∃ x, next (.ok (some b.asCancelled)) = .done x := by
  refine ⟨_, rfl, ?_⟩
  by_cases huser : b.asCancelled.user = user
  · simp only [Process.bind, ExceptT.bindCont, if_pos huser]
    exact ⟨_, rfl⟩
  · simp only [Process.bind, ExceptT.bindCont, if_neg huser]
    exact ⟨_, rfl⟩

theorem Late.advance {j : Job (Except BookingFailure BookingSummary)} {w : World} (hj : Late b j)
    (hw : w.Undisturbed) (hrow : w.ledger.booking? b.id = some b.asCancelled) :
    (j.advance w).2 = w ∧ Late b (j.advance w).1 ∧
      ∀ d, j.deed? w = some d → ∃ a, d = .did (.ledger (.get b.id)) a := by
  cases hj with
  | begun p user r =>
    obtain ⟨next, hprocess, x, hx⟩ := exists_look b p user r
    have hperform := hw.perform_get b.id
    rw [hrow] at hperform
    rw [hprocess]
    simp only [Job.advance, Job.deed?, hperform, hx]
    exact ⟨trivial, .looked x, fun d hd => ⟨_, (Option.some.inj hd).symm⟩⟩
  | looked x => exact ⟨rfl, .ended x, fun d hd => by cases hd⟩
  | ended x => exact ⟨rfl, .ended x, fun d hd => by cases hd⟩
  | dropped => exact ⟨rfl, .dropped, fun d hd => by cases hd⟩

theorem Late.drop {j : Job (Except BookingFailure BookingSummary)} (hj : Late b j) (w : World) :
    Late b (j.drop w).1 := by
  cases hj with
  | ended x => exact .ended x
  | _ => exact .dropped

/-- Nothing happens when an order that comes too late goes on, or one that has not begun. -/
theorem late_advance (h : ∀ c j, s.jobs[i]? = some (c, j) → s.world.Undisturbed ∧
      s.world.ledger.booking? b.id = some b.asCancelled ∧ Late b j) :
    (s.step (.advance i)).world = s.world ∧
      ∀ d, (i, d) ∈ s.deeds (.advance i) → ∃ a, d = .did (.ledger (.get b.id)) a := by
  cases hj : s.jobs[i]? with
  | none =>
    simp only [Scene.step, Scene.update, Scene.deeds, hj]
    exact ⟨trivial, fun d hd => absurd hd List.not_mem_nil⟩
  | some x =>
    obtain ⟨c, j⟩ := x
    obtain ⟨hw, hrow, hlate⟩ := h c j hj
    obtain ⟨hworld, -, hdeed⟩ := hlate.advance hw hrow
    rw [Scene.deeds_advance hj]
    simp only [Scene.step, Scene.update, hj]
    refine ⟨hworld, fun d hd => ?_⟩
    obtain ⟨d', hd', heq⟩ := List.mem_map.mp hd
    obtain ⟨-, rfl⟩ := Prod.mk.inj heq
    exact hdeed d' (Option.mem_toList.mp hd')

/-- The booking stays cancelled, and whoever orders it cancelled comes too late. -/
structure Closed (s : Scene Call.process) (b : Booking) (fs : List (Event Call)) : Prop where
  row : (s.run fs).world.ledger.booking? b.id = some b.asCancelled
  late : ∀ i p user r j, s.jobs.length ≤ i →
    (s.run fs).jobs[i]? = some (.cancel p b.id user r, j) → Late b j

theorem exists_closed (ht : script.Tells Call.Ends s st) (ha : Accounts st)
    (hrow : s.world.ledger.booking? b.id = some b.asCancelled) (fs : List (Event Call))
    (hdistinct : Distinct ((s.run fs).jobs.map Prod.fst)) :
    ∃ st, script.Tells Call.Ends (s.run fs) st ∧ Accounts st ∧ Closed s b fs := by
  refine accounts_run (P := fun fs _ => Closed s b fs) ht ha ⟨hrow, ?_⟩ ?_ fs hdistinct
  · intro i p user r j hi hj
    rw [Scene.run, List.foldl_nil, List.getElem?_eq_none hi] at hj
    cases hj
  · intro gs e st st' ht ha _ _ hn ht' h
    refine ⟨?_, fun i p user r j' hi hj => ?_⟩
    · rw [ht'.ledger]
      exact ha.cancelled_next (c := b.asCancelled) hn (ht.ledger ▸ h.row) rfl
    · rw [Scene.run_concat] at hj
      rcases Scene.step_jobs hj with ⟨hj, -⟩ | ⟨l, hl, rfl, -⟩ | ⟨l, hl, rfl, -⟩ | ⟨-, rfl, -⟩
      · exact h.late i p user r j' hi hj
      · exact ((h.late i p user r l hi hl).advance ht.undisturbed h.row).2.1
      · exact (h.late i p user r l hi hl).drop _
      · exact .begun p user r

/-- What holds of a booking at rest, while orders cancel it. -/
structure Overseen (s : Scene Call.process) (b : Booking) (fs : List (Event Call)) : Prop where
  foreseen : Foreseen s fs b
  once : CancelledOnce b (Deed.history b.id (s.journal fs))
    ((s.run fs).world.ledger.booking? b.id)
  removed : Removed b s.world.inventory (s.trail (withdrawals b.id) fs) (s.run fs).world.inventory

theorem exists_overseen {now : Instant} {rooms : List NewRoom} {es fs : List (Event Call)}
    (hs : (Scene.opening Call.process (.furnished now rooms)).run es = s) (hrest : AtRest s b)
    (hplanned : s.world.releaseFailure = none)
    (hdistinct : Distinct ((s.run fs).jobs.map Prod.fst))
    (hspared : ∀ f, .turn (.failRelease (some f)) ∉ fs) :
    ∃ st, script.Tells Call.Ends (s.run fs) st ∧ Accounts st ∧ Closing b st ∧
      Overseen s b fs := by
  have hb := hrest.ne_cancelled
  have hbefore : Distinct ((s.run []).jobs.map Prod.fst) := distinct_of_run hdistinct
  obtain ⟨st, ht, ha, hhoused⟩ := exists_housed now rooms es (hs ▸ hbefore)
  rw [hs] at ht
  have hc := hrest.closing hplanned ht ha hhoused
  -- induction on the events, by which the row and the lock are accounted for together
  refine closing_run (P := Overseen s b) ht ha hc hb ⟨foreseen_nil, ?_, .kept rfl⟩ ?_ fs hdistinct
    hspared
  · refine .inl ⟨rfl, ?_⟩
    change s.world.ledger.booking? b.id = some b
    rw [ht.ledger]
    exact ha.ledger.booking?_of_mem (ht.ledger ▸ hrest.found)
  · intro gs e st st' ht ha hc hn ht' hc' h
    have hrun : (Scene.opening Call.process (.furnished now rooms)).run (es ++ gs) = s.run gs := by
      rw [Scene.run_append, hs]
    have hexact : (s.run gs).world.inventory.Exact := by
      rw [← hrun]
      exact (Scene.orderly_run Call.founded
        (Scene.orderly_opening (Inventory.exact_furnished rooms)) (es ++ gs)).inventory
    have hrow : (s.run (gs ++ [e])).world.ledger.booking? b.id = some b ∨
        (s.run (gs ++ [e])).world.ledger.booking? b.id = some b.asCancelled := by
      rw [ht'.ledger]
      exact hc'.row.imp_right And.left
    refine ⟨h.foreseen.concat hb ha ht hn ht' hrow, ?_, ?_⟩
    · rw [Scene.run_concat] at hrow ⊢
      rw [Scene.journal_concat, Scene.history_append]
      have hnum : (s.run gs).world.ledger.Numbered := ht.ledger ▸ ha.ledger.numbered
      exact h.once.step hrun ht.undisturbed.2 hnum hrow
    · rw [Scene.run_concat] at ht' ⊢
      rw [Scene.trail_concat]
      exact h.removed.step hexact.toSound (hc.withdraws ht ha hexact hn ht')

/-- All that an order does which came too late. -/
theorem untouched {gs hs : List (Event Call)} (ht : script.Tells Call.Ends (s.run gs) st)
    (ha : Accounts st) (hrow : (s.run gs).world.ledger.booking? b.id = some b.asCancelled)
    (hdistinct : Distinct ((s.run (gs ++ hs)).jobs.map Prod.fst)) {p : RetryPolicy} {user : UserId}
    {r : RequestId} {j : Job (Except BookingFailure BookingSummary)}
    (hi : (s.run gs).jobs.length ≤ i)
    (hj : (s.run (gs ++ hs)).jobs[i]? = some (.cancel p b.id user r, j)) :
    (∀ d, (i, d) ∈ s.journal (gs ++ hs) → ∃ a, d = .did (.ledger (.get b.id)) a) ∧
      ∀ before after, gs ++ hs = before ++ .advance i :: after →
        (s.run (before ++ [.advance i])).world = (s.run before).world := by
  have hstep : ∀ before after, gs ++ hs = before ++ .advance i :: after →
      ((s.run before).step (.advance i)).world = (s.run before).world ∧
        ∀ d, (i, d) ∈ (s.run before).deeds (.advance i) →
          ∃ a, d = .did (.ledger (.get b.id)) a := by
    intro before after hsplit
    refine late_advance fun c l hl => ?_
    rcases List.append_eq_append_iff.mp hsplit with ⟨mid, rfl, -⟩ | ⟨mid, rfl, -⟩
    · -- the order goes on after the booking was cancelled, and is the same one until the end
      rw [hsplit] at hdistinct hj
      obtain ⟨l', hl'⟩ := Scene.exists_job_run hl (.advance i :: after)
      rw [← Scene.run_append, hj] at hl'
      obtain ⟨rfl, -⟩ := Prod.mk.inj (Option.some.inj hl')
      have hdistinct := distinct_of_run hdistinct
      rw [Scene.run_append] at hdistinct hl ⊢
      obtain ⟨st, ht, -, h⟩ := exists_closed ht ha hrow mid hdistinct
      exact ⟨ht.undisturbed, h.row, h.late i p user r l hi hl⟩
    · -- an order that has begun by then is not one that begins later
      obtain ⟨l', hl'⟩ := Scene.exists_job_run hl mid
      rw [← Scene.run_append] at hl'
      exact absurd (List.getElem?_eq_some_iff.mp hl').1 (Nat.not_lt.mpr hi)
  refine ⟨fun d hd => ?_, fun before after hsplit => ?_⟩
  · obtain ⟨before, after, hsplit, hdeed⟩ := Scene.exists_of_mem_journal hd
    exact (hstep before after hsplit).2 d hdeed
  · rw [Scene.run_concat]
    exact (hstep before after hsplit).1

/-- The strides of orders to a desk that starts with new rooms. -/
theorem striding_furnished (now : Instant) (rooms : List NewRoom) (es : List (Event Call)) :
    ((Scene.opening Call.process (.furnished now rooms)).run es).Striding rooms.length
      (fun c => Traffic.Call.span rooms.length (.desk c))
      ((Scene.opening Call.process (.furnished now rooms)).strides es) :=
  Scene.striding_run (Scene.striding_opening (Inventory.length_rooms_furnished rooms).le)
    (Call.paced rooms.length) es

/-- An order by the owner has come to its end. -/
def Returned (s : Scene Call.process) (fs : List (Event Call)) (b : Booking) : Prop :=
  ∃ i x, Cancels s fs b i (.finished x)

/-- With an answer, the booking has no lock. -/
theorem Foreseen.unlocked {fs : List (Event Call)} (h : Foreseen s fs b)
    (ht : script.Tells Call.Ends (s.run fs) st) (hc : Closing b st) (hb : b.status ≠ .cancelled) :
    Returned s fs b → ¬ (s.run fs).world.inventory.HasLock b.uid := by
  rintro ⟨i, x, hx⟩
  have hrow := (h.answer hx).2
  rw [ht.ledger] at hrow
  rw [ht.inventory]
  rcases hc.row with hfound | ⟨-, hno⟩
  · exact absurd (Option.some.inj (hrow.symm.trans hfound)) (Booking.asCancelled_ne hb)
  · exact hno

theorem Overseen.returned {fs : List (Event Call)} (h : Overseen s b fs)
    (ht : script.Tells Call.Ends (s.run fs) st) (hc : Closing b st) (hb : b.status ≠ .cancelled) :
    Returned s fs b → Deed.history b.id (s.journal fs) = [.cancelled] ∧
      ¬ (s.run fs).world.inventory.HasLock b.uid := by
  intro hreturned
  refine ⟨?_, h.foreseen.unlocked ht hc hb hreturned⟩
  obtain ⟨i, x, hx⟩ := hreturned
  have hrow := (h.foreseen.answer hx).2
  rcases h.once with ⟨-, hfound⟩ | ⟨hwritten, -⟩
  · exact absurd (Option.some.inj (hrow.symm.trans hfound)) (Booking.asCancelled_ne hb)
  · exact hwritten

/-- Where no call can go on, all of them are over. -/
theorem over_of_still {fs : List (Event Call)} (ht : script.Tells Call.Ends (s.run fs) st)
    (hunburdened : ∀ x ∈ (s.run fs).jobs, x.2.Unburdened)
    (hstill : ∀ k, (s.run fs).strider? (.advance k) = none)
    {j : Job (Except BookingFailure BookingSummary)} (hj : Cancels s fs b i j) :
    j.givenUp = true ∨ ∃ x, j = .finished x := by
  have hquiet : (s.run fs).Quiet := by
    by_contra hquiet
    obtain ⟨k, hk⟩ := ht.exists_strider hunburdened hquiet
    rw [hstill k] at hk
    cases hk
  obtain ⟨-, p, r, hj⟩ := hj
  have hover := hquiet _ (List.mem_of_getElem? hj)
  cases j with
  | running q held => cases hover
  | waiting t next held => cases hover
  | finished x => exact .inr ⟨x, rfl⟩
  | dropped => exact .inl rfl

/-- Every run comes to where no call can go on, and all of them are over there. -/
theorem comes_to_rest {now : Instant} {rooms : List NewRoom} {es fs : List (Event Call)}
    (hs : (Scene.opening Call.process (.furnished now rooms)).run es = s)
    (ht : script.Tells Call.Ends (s.run fs) st) :
    ((∀ k, (s.run fs).strider? (.advance k) = none) →
      ∀ i j, Cancels s fs b i j → j.givenUp = true ∨ ∃ x, j = .finished x) ∧
    (s.strides fs).length ≤
      ((s.run fs).jobs.map fun x => Traffic.Call.span rooms.length (.desk x.1)).sum := by
  subst hs
  have hstriding := striding_furnished now rooms (es ++ fs)
  rw [Scene.run_append] at hstriding
  refine ⟨fun hstill i j => over_of_still ht hstriding.unburdened hstill, ?_⟩
  -- the strides since the scene are the last ones of all
  refine le_trans ?_ hstriding.length_le
  unfold Scene.strides
  rw [Scene.trail_append, List.length_append]
  exact Nat.le_add_left _ _

/-- In a run of a house with so many rooms, orders to cancel a booking take effect once. -/
structure TakeEffectOnce (rooms : ℕ) (s : Scene Call.process) (b : Booking)
    (fs : List (Event Call)) : Prop where
  /-- The owner is shown the cancelled booking, -/
  answers : ∀ i x, Cancels s fs b i (.finished x) → x = .ok b.asCancelled.summary
  /-- and gets an answer unless the order is given up, -/
  answered : (∀ k, (s.run fs).strider? (.advance k) = none) →
    ∀ i j, Cancels s fs b i j → j.givenUp = true ∨ ∃ x, j = .finished x
  /-- for all calls together make so many strides at most. -/
  bounded : (s.strides fs).length ≤
    ((s.run fs).jobs.map fun x => Traffic.Call.span rooms (.desk x.1)).sum
  status : CancelledOnce b (Deed.history b.id (s.journal fs))
    ((s.run fs).world.ledger.booking? b.id)
  lock : Removed b s.world.inventory (s.trail (withdrawals b.id) fs) (s.run fs).world.inventory
  /-- Once the owner has got an answer, all is done, -/
  returned : Returned s fs b → Deed.history b.id (s.journal fs) = [.cancelled] ∧
    ¬ (s.run fs).world.inventory.HasLock b.uid
  /-- and orders that begin later only look at the booking. -/
  late : ∀ gs hs, fs = gs ++ hs → Returned s gs b → ∀ i p user r j,
    (s.run gs).jobs.length ≤ i → (s.run fs).jobs[i]? = some (.cancel p b.id user r, j) →
    (∀ d, (i, d) ∈ s.journal fs → ∃ a, d = .did (.ledger (.get b.id)) a) ∧
      ∀ before after, fs = before ++ .advance i :: after →
        (s.run (before ++ [.advance i])).world = (s.run before).world

/-- Any number of orders to cancel a booking that is at rest take effect once, in any order of their
actions and those of other orders, if no release is planned to fail. The owner is always shown the
cancelled booking. The booking is marked once, its lock is removed once and counted for its room,
and nothing else is removed by these orders. Those that begin after one of them has returned ask the
inventory for nothing and change nothing. -/
theorem cancels_take_effect_once (now : Instant) (rooms : List NewRoom)
    (es fs : List (Event Call)) (b : Booking) :
    let s := (Scene.opening Call.process (.furnished now rooms)).run es
    AtRest s b → s.world.releaseFailure = none → Distinct ((s.run fs).jobs.map Prod.fst) →
      (∀ f, .turn (.failRelease (some f)) ∉ fs) → TakeEffectOnce rooms.length s b fs := by
  intro s hrest hplanned hdistinct hspared
  have hb := hrest.ne_cancelled
  obtain ⟨st, ht, ha, hc, h⟩ := exists_overseen rfl hrest hplanned hdistinct hspared
  obtain ⟨hanswered, hbounded⟩ := comes_to_rest (b := b) rfl ht
  refine ⟨fun i x hx => (h.foreseen.answer hx).1, hanswered, hbounded, h.once, h.removed,
    h.returned ht hc hb, ?_⟩
  rintro gs hs rfl ⟨k, x, hx⟩ i p user r j hi hj
  obtain ⟨st, ht, ha, hc, h⟩ := exists_overseen rfl hrest hplanned (distinct_of_run hdistinct)
    fun f hf => hspared f (List.mem_append_left _ hf)
  exact untouched ht ha (h.foreseen.answer hx).2 hdistinct hi hj

/-- A guest who has booked the room. -/
def booked : List (Event Call) := .start (Sample.booking 1) :: List.replicate 40 (.advance 0)

def bookedOne : Booking :=
  ⟨⟨1⟩, Sample.uid 1, ⟨1⟩, ⟨1⟩, Sample.twoNights, .confirmed, Sample.newYear⟩

/-- Two orders read the booking, and one of them cancels it. Someone else books the room before the
other one goes on, and a third order comes last. -/
def cancelledThrice : List (Event Call) :=
  [.start (Sample.cancellation 1), .start (Sample.cancellation 1), .advance 1, .advance 2] ++
    List.replicate 20 (.advance 1) ++ .start (Sample.booking 2) :: List.replicate 40 (.advance 3) ++
    List.replicate 20 (.advance 2) ++
    .start (Sample.cancellation 1) :: List.replicate 3 (.advance 4)

theorem cancels_take_effect_once_of_thrice :
    let s := (Scene.opening Call.process (.furnished Sample.newYear [Sample.room])).run booked
    (TakeEffectOnce 1 s bookedOne cancelledThrice ∧ (s.run cancelledThrice).Quiet) ∧
      s.world.inventory.HasLock (Sample.uid 1) ∧
      ¬ (s.run cancelledThrice).world.inventory.HasLock (Sample.uid 1) ∧
      (s.run cancelledThrice).world.inventory.HasLock (Sample.uid 2) := by
  have hrest : AtRest
      ((Scene.opening Call.process (.furnished Sample.newYear [Sample.room])).run booked)
      bookedOne := ⟨by decide +kernel, .inl rfl, by decide +kernel⟩
  have hcalm : ∀ e ∈ cancelledThrice, e.Calm := by decide
  exact ⟨⟨cancels_take_effect_once Sample.newYear [Sample.room] booked cancelledThrice bookedOne
    hrest (by decide +kernel) (by decide +kernel) fun f hf => hcalm _ hf, by decide +kernel⟩,
    by decide +kernel, by decide +kernel, by decide +kernel⟩

end Desk

end Lodging
