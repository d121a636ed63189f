import Lodging.Proofs.Entries
import Lodging.Proofs.Newest
import Lodging.World.Privacy

/-!
Worlds that look the same to a user. To look at the ledger, or to do something for a booking of the
user's, leaves them so, and nobody else can tell the difference. A process that does nothing else
has nothing to do with the bookings of others.
-/

namespace Lodging

namespace Ledger

variable {k l : Ledger} {user : UserId} {id : BookingId} {b c : Booking}

namespace SameFor

theorem refl (h : l.Distinct) (user : UserId) : l.SameFor user l := ⟨h, h, fun _ _ => .rfl⟩

theorem symm (h : k.SameFor user l) : l.SameFor user k :=
  ⟨h.right, h.left, fun b hb => (h.shared b hb).symm⟩

theorem trans {m : Ledger} (h : k.SameFor user l) (h' : l.SameFor user m) : k.SameFor user m :=
  ⟨h.left, h'.right, fun b hb => (h.shared b hb).trans (h'.shared b hb)⟩

theorem has (h : k.SameFor user l) (hid : k.Has user id) : l.Has user id := by
  obtain ⟨b, hb, hid, huser⟩ := hid
  exact ⟨b, (h.shared b huser).mp hb, hid, huser⟩

theorem of_filter (hk : k.Distinct) (hl : l.Distinct)
    (h : k.bookings.filter (·.user = user) = l.bookings.filter (·.user = user)) :
    k.SameFor user l := by
  refine ⟨hk, hl, fun b hb => ?_⟩
  have hmem : ∀ m : Ledger, b ∈ m.bookings.filter (·.user = user) ↔ b ∈ m.bookings := by
    intro m
    simp only [List.mem_filter, hb, decide_true, and_true]
  rw [← hmem k, h, hmem l]

/-- The user's bookings are listed in the same order. -/
theorem bookingsOf (h : k.SameFor user l) : k.bookingsOf user = l.bookingsOf user := by
  have hids : ((k.bookings.filter (·.user = user)).map (·.id)).Nodup :=
    h.left.sublist (List.filter_sublist.map _)
  have hids' : ((l.bookings.filter (·.user = user)).map (·.id)).Nodup :=
    h.right.sublist (List.filter_sublist.map _)
  -- the bookings may stand in another order, which the list does not show
  apply mergeSort_eq_of_perm hids
  rw [List.perm_ext_iff_of_nodup (.of_map _ hids) (.of_map _ hids')]
  intro b
  simp only [List.mem_filter, decide_eq_true_eq]
  exact and_congr_left (h.shared b)

/-- A booking of the user's is found in both. -/
theorem exists_booking? (h : k.SameFor user l) (hid : k.Has user id) :
    ∃ b, b.user = user ∧ k.booking? id = some b ∧ l.booking? id = some b := by
  obtain ⟨b, hb, rfl, huser⟩ := hid
  exact ⟨b, huser, Rows.find?_of_mem h.left hb, Rows.find?_of_mem h.right ((h.shared b huser).mp hb)⟩

end SameFor

theorem Distinct.moved (hl : l.Distinct) (c : Booking) (s : Status) : (l.moved c s).Distinct := by
  have hids : (l.moved c s).bookings.map (·.id) = l.bookings.map (·.id) := by
    unfold Ledger.moved
    rw [List.map_map]
    refine List.map_congr_left fun d _ => ?_
    change (if d.id = c.id then { c with status := s } else d).id = d.id
    split
    next hid => exact hid.symm
    next => rfl
  unfold Distinct
  rw [hids]
  exact hl

theorem SameFor.moved (h : k.SameFor user l) (hc : c ∈ k.bookings) (huser : c.user = user)
    (s : Status) : (k.moved c s).SameFor user (l.moved c s) := by
  refine ⟨h.left.moved c s, h.right.moved c s, fun b hb => ?_⟩
  rw [mem_moved hc, mem_moved ((h.shared c huser).mp hc), h.shared b hb]

theorem Distinct.sameFor_moved (hl : l.Distinct) (hc : c ∈ l.bookings) (s : Status)
    {other : UserId} (hother : c.user ≠ other) : l.SameFor other (l.moved c s) := by
  refine ⟨hl, hl.moved c s, fun b hb => ?_⟩
  rw [mem_moved hc]
  constructor
  · intro hmem
    refine .inr ⟨hmem, fun hid => hother ?_⟩
    rw [← hb, Rows.eq_of_key hl hmem hc hid]
  · rintro (rfl | ⟨hmem, -⟩)
    · exact absurd hb hother
    · exact hmem

/-- What becomes of two ledgers when a booking of the user's is all that is touched. -/
structure Kept (user : UserId) (id : BookingId) (k k' l' : Ledger) : Prop where
  same : k'.SameFor user l'
  others : ∀ other, other ≠ user → k.SameFor other k'
  has : k'.Has user id

theorem Kept.refl (h : k.SameFor user l) (hid : k.Has user id) : Kept user id k k l :=
  ⟨h, fun other _ => .refl h.left other, hid⟩

theorem kept_updateStatus (h : k.SameFor user l) (hid : k.Has user id) (expected next : Status) :
    (k.updateStatus id expected next).1 = (l.updateStatus id expected next).1 ∧
      Kept user id k (k.updateStatus id expected next).2 (l.updateStatus id expected next).2 := by
  obtain ⟨b, huser, hk, hl⟩ := h.exists_booking? hid
  by_cases hs : b.status = expected
  · subst hs
    obtain ⟨hb, rfl⟩ := booking?_eq_some hk
    rw [updateStatus_of_eq hk, updateStatus_of_eq hl]
    refine ⟨rfl, h.moved hb huser next, fun other hother => ?_, ?_⟩
    · exact h.left.sameFor_moved hb next fun heq => hother (heq.symm.trans huser)
    · exact ⟨{ b with status := next }, (mem_moved hb).mpr (.inl rfl), rfl, huser⟩
  · have hne : ∀ {m : Ledger}, m.booking? id = some b →
        ∀ c, m.booking? id = some c → c.status ≠ expected := by
      intro m hm c hc
      rw [hm] at hc
      obtain rfl := Option.some.inj hc
      exact hs
    rw [updateStatus_of_ne next (hne hk), updateStatus_of_ne next (hne hl)]
    exact ⟨rfl, .refl h hid⟩

end Ledger

/-- A call for one booking. -/
def LedgerCall.Concerns (id : BookingId) : LedgerCall → Prop
  | get i | updateStatus i .. => i = id
  | _ => False

/-- A call that only looks. -/
def LedgerCall.Reads : LedgerCall → Prop
  | get _ | pageOf .. => True
  | _ => False

/-- The answer to a call that goes well, or wrong in some way, and the ledger after it. -/
def Ledger.met (now : Instant) (l : Ledger) (c : LedgerCall) : Option Mishap → c.Answer × Ledger
  | none => l.answer now c
  | some m => l.spoiled now m c

theorem Ledger.kept_met {k l : Ledger} {user : UserId} {id : BookingId} {c : LedgerCall}
    (h : k.SameFor user l) (hid : k.Has user id) (hc : c.Concerns id) (now : Instant)
    (m : Option Mishap) : (k.met now c m).1 = (l.met now c m).1 ∧
      Kept user id k (k.met now c m).2 (l.met now c m).2 := by
  cases c with
  | get i =>
    obtain rfl := hc
    cases m with
    | none =>
      obtain ⟨b, -, hk, hl⟩ := h.exists_booking? hid
      exact ⟨congrArg Except.ok (hk.trans hl.symm), .refl h hid⟩
    | some m => exact ⟨rfl, .refl h hid⟩
  | updateStatus i expected next =>
    obtain rfl := hc
    cases m with
    | none =>
      obtain ⟨hanswer, hkept⟩ := kept_updateStatus h hid expected next
      exact ⟨congrArg Except.ok hanswer, hkept⟩
    | some m =>
      cases m with
      | overtaken s =>
        -- someone else moves the booking on before the call does
        obtain ⟨-, hkept⟩ := kept_updateStatus h hid expected s
        obtain ⟨hanswer, hkept'⟩ := kept_updateStatus hkept.same hkept.has expected next
        refine ⟨congrArg Except.ok hanswer, hkept'.same, fun other hother => ?_, hkept'.has⟩
        exact (hkept.others other hother).trans (hkept'.others other hother)
      | _ => exact ⟨rfl, .refl h hid⟩
  | accept r => cases hc
  | insertPending n => cases hc
  | pageOf user p => cases hc

/-- An action for one booking, if for any. -/
def Action.About (id : BookingId) : Action → Prop
  | ledger c => c.Concerns id
  | _ => True

theorem Action.OffLedger.about {x : Action} (h : x.OffLedger) (id : BookingId) : x.About id := by
  cases x with
  | ledger c => cases h
  | _ => trivial

namespace World

variable {v w past : World} {user : UserId} {id : BookingId} {c : LedgerCall} {x : Action}

theorem callLedger_eq (w : World) (c : LedgerCall) :
    w.callLedger c = ((w.ledger.met w.now c (Plan.meet c.kind c.target? w.ledgerPlans).1).1,
      { w with
        ledger := (w.ledger.met w.now c (Plan.meet c.kind c.target? w.ledgerPlans).1).2
        ledgerPlans := (Plan.meet c.kind c.target? w.ledgerPlans).2 }) := by
  unfold callLedger
  split <;> next hm => rw [hm]; rfl

theorem callLedger_reads (hc : c.Reads) (w : World) : (w.callLedger c).2 =
    { w with ledgerPlans := (Plan.meet c.kind c.target? w.ledgerPlans).2 } := by
  have hsame : ∀ m, (w.ledger.met w.now c m).2 = w.ledger := by
    intro m
    cases c with
    | get id => cases m <;> rfl
    | pageOf user p => cases m <;> rfl
    | _ => cases hc
  rw [callLedger_eq, hsame]

/-- To look at the ledger changes it for nobody. -/
theorem SameFor.callLedger_reads (h : v.SameFor user w) (hc : c.Reads) :
    (v.callLedger c).2.SameFor user (w.callLedger c).2 := by
  rw [World.callLedger_reads hc, World.callLedger_reads hc]
  obtain ⟨hledger, hrest⟩ := h
  refine ⟨hledger, ?_⟩
  rw [hrest]

/-- What befalls a call in the one befalls it in the other. -/
theorem SameFor.exists_met (h : v.SameFor user w) (c : LedgerCall) :
    ∃ m, (v.callLedger c).1 = (v.ledger.met v.now c m).1 ∧
      (w.callLedger c).1 = (w.ledger.met v.now c m).1 := by
  obtain ⟨-, hrest⟩ := h
  refine ⟨(Plan.meet c.kind c.target? v.ledgerPlans).1, ?_, ?_⟩
  · rw [callLedger_eq]
  · rw [callLedger_eq, hrest]

/-- The lines before rooms are the same. -/
theorem SameFor.withHolds (h : v.SameFor user w) : w.holds = v.holds ∧ ∀ holds : Holds,
    { v with holds := holds }.SameFor user { w with holds := holds } := by
  obtain ⟨hledger, hrest⟩ := h
  rw [hrest]
  exact ⟨rfl, fun _ => ⟨hledger, rfl⟩⟩

/-- The ledger has no part in an action that it is not asked in. -/
theorem perform_withLedger (hx : x.OffLedger) (w : World) (l : Ledger) :
    ({ w with ledger := l }.perform x).1 = (w.perform x).1 ∧
      ({ w with ledger := l }.perform x).2 = { (w.perform x).2 with ledger := l } := by
  cases x with
  | ledger c => cases hx
  | rooms c =>
    simp only [perform, callRooms]
    cases c.kind? with
    | none => exact ⟨rfl, rfl⟩
    | some kind =>
      simp only
      split <;> exact ⟨rfl, rfl⟩
  | planned o => cases o <;> exact ⟨rfl, rfl⟩
  | _ => exact ⟨rfl, rfl⟩

theorem perform_about (h : v.SameFor user w) (hid : v.ledger.Has user id) (hx : x.About id) :
    (v.perform x).1 = (w.perform x).1 ∧ (v.perform x).2.SameFor user (w.perform x).2 ∧
      Ledger.Kept user id v.ledger (v.perform x).2.ledger (w.perform x).2.ledger := by
  obtain ⟨hledger, hrest⟩ := h
  by_cases hoff : x.OffLedger
  · obtain ⟨hanswer, hafter⟩ := perform_withLedger hoff v w.ledger
    rw [hrest, hanswer, hafter]
    have hsame := (perform_offLedger (w := v) hoff).1
    refine ⟨rfl, ⟨?_, rfl⟩, ?_⟩ <;> rw [hsame]
    · exact hledger
    · exact .refl hledger hid
  · cases x with
    | ledger c =>
      change (v.callLedger c).1 = (w.callLedger c).1 ∧ (v.callLedger c).2.SameFor user
        (w.callLedger c).2 ∧ Ledger.Kept user id v.ledger (v.callLedger c).2.ledger
          (w.callLedger c).2.ledger
      rw [callLedger_eq, callLedger_eq, hrest]
      obtain ⟨hanswer, hkept⟩ := Ledger.kept_met hledger hid hx v.now
        (Plan.meet c.kind c.target? v.ledgerPlans).1
      exact ⟨hanswer, ⟨hkept.same, rfl⟩, hkept⟩
    | _ => exact absurd trivial hoff

end World

namespace Process

variable {α : Type} {user : UserId} {past v w : World}

/-- Processes that go side by side come to the same end when they are run, if they need not wait,
and leave worlds that look the same to the user. -/
theorem Alike.advance {p q : Process α} (h : Alike user past p q) (hvw : v.SameFor user w)
    (hpast : past.Retains user v) :
    (p.advance v).1.getLeft? = (q.advance w).1.getLeft? ∧
      (p.advance v).2.SameFor user (q.advance w).2 := by
  -- on the course that they share, in worlds that only they change
  induction h generalizing v w with
  | done a => exact ⟨rfl, hvw⟩
  | act same others next ih => exact ih v w hvw hpast (same v w hvw hpast) fun _ => id
  | enter next ih =>
    obtain ⟨hholds, hlined⟩ := hvw.withHolds
    unfold Process.advance
    rw [hholds]
    simp only
    split
    · exact ih _ (hlined _) hpast
    · exact ⟨rfl, hlined _⟩

/-- What is only done for a booking of the user's has nothing to do with those of others. -/
theorem Uses.alike {p : Process α} {id : BookingId} (hp : p.Uses (Action.About id))
    (hid : past.ledger.Has user id) : Alike user past p p := by
  -- on the process, for which it is enough to know that the user still has the booking
  induction p generalizing past with
  | done a => exact .done a
  | act x next ih =>
    obtain ⟨hx, hnext⟩ := hp
    refine .act (fun v w hvw hpast => ?_) (fun v hv hpast other hother => ?_)
      fun v w hvw hpast => ?_
    · exact (World.perform_about hvw (hpast id hid) hx).2.1
    · have hself : v.SameFor user v := ⟨.refl hv user, rfl⟩
      exact (World.perform_about hself (hpast id hid) hx).2.2.others other hother
    · obtain ⟨hanswer, -, hkept⟩ := World.perform_about hvw (hpast id hid) hx
      rw [← hanswer]
      exact ih _ (hnext _) hkept.has
  | enter room next ih => exact .enter fun t => ih t (hp t) hid

end Process

end Lodging
