import Lodging.Proofs.Journal
import Lodging.Proofs.Ledger

/-!
What the journal of a run tells of bookings. They are in the ledger in the order in which they were
written down, and stay as they were made but for their status. The status of each is the one that
was written last, unless someone who does not call meddles with it.
-/

namespace Lodging

namespace Plan

variable {kind : CallKind} {target : Option Status} {plans : List Plan}

theorem exists_of_meet {m : Mishap} (h : (meet kind target plans).1 = some m) :
    ∃ p ∈ plans, p.mishap = m := by
  induction plans with
  | nil => cases h
  | cons p rest ih =>
    unfold meet at h
    split at h
    · split at h
      · cases h
      · exact ⟨p, List.mem_cons_self, Option.some.inj h⟩
    · obtain ⟨q, hq, hm⟩ := ih h
      exact ⟨q, List.mem_cons_of_mem _ hq, hm⟩

/-- The plans that are left are of the same mishaps. -/
theorem exists_of_mem_meet {p : Plan} (h : p ∈ (meet kind target plans).2) :
    ∃ q ∈ plans, q.mishap = p.mishap := by
  induction plans with
  | nil => cases h
  | cons q rest ih =>
    unfold meet at h
    split at h
    · have hmem : ∀ q', q'.mishap = q.mishap → p ∈ q' :: rest →
          ∃ x ∈ q :: rest, x.mishap = p.mishap := by
        intro q' hq' hp
        rcases List.mem_cons.mp hp with rfl | hp
        · exact ⟨q, List.mem_cons_self, hq'.symm⟩
        · exact ⟨p, List.mem_cons_of_mem _ hp, rfl⟩
      split at h
      · exact hmem { q with skip := q.skip - 1 } rfl h
      · exact hmem { q with times := q.times - 1 } rfl h
    · rcases List.mem_cons.mp h with rfl | h
      · exact ⟨p, List.mem_cons_self, rfl⟩
      · obtain ⟨x, hx, hm⟩ := ih h
        exact ⟨x, List.mem_cons_of_mem _ hx, hm⟩

end Plan

theorem Deed.of_made?_eq_some {d : Deed} {b : Booking} (h : d.made? = some b) :
    ∃ n, d = .did (.ledger (.insertPending n)) (.ok b) := by
  cases d with
  | linedUp room t => cases h
  | did x a =>
    cases x with
    | ledger c =>
      cases c with
      | insertPending n =>
        cases a with
        | ok c =>
          obtain rfl := Option.some.inj h
          exact ⟨n, rfl⟩
        | error f => cases h
      | _ => cases h
    | _ => cases h

namespace Ledger

variable {l : Ledger} {now : Instant}

theorem Numbered.updateStatus (hl : l.Numbered) (id : BookingId) (expected next : Status) :
    (l.updateStatus id expected next).2.Numbered ∧
      (l.updateStatus id expected next).2.bookings.map Booking.asMade =
        l.bookings.map Booking.asMade := by
  by_cases hc : ∃ c, l.booking? id = some c ∧ c.status = expected
  · obtain ⟨c, hb, rfl⟩ := hc
    have hmem := (booking?_eq_some hb).1
    rw [updateStatus_of_eq hb]
    exact ⟨hl.moved hmem, hl.map_moved hmem _ fun _ _ => rfl⟩
  · rw [updateStatus_of_ne next fun c hb hs => hc ⟨c, hb, hs⟩]
    exact ⟨hl, rfl⟩

/-- A new booking comes last. -/
theorem Numbered.asMade_answer (hl : l.Numbered) (c : LedgerCall) :
    (l.answer now c).2.bookings.map Booking.asMade = l.bookings.map Booking.asMade ++
      (Deed.did (.ledger c) (l.answer now c).1).made?.toList := by
  cases c with
  | accept r =>
    simp only [Ledger.answer, Ledger.accept]
    split <;> exact (List.append_nil _).symm
  | insertPending n => exact List.map_append
  | updateStatus id expected next =>
    exact (hl.updateStatus id expected next).2.trans (List.append_nil _).symm
  | get id => exact (List.append_nil _).symm
  | pageOf user page => exact (List.append_nil _).symm

/-- What goes wrong writes nothing down. -/
theorem Numbered.spoiled (hl : l.Numbered) (now : Instant) (m : Mishap) (c : LedgerCall) :
    (l.spoiled now m c).2.Numbered ∧
      (Deed.did (.ledger c) (l.spoiled now m c).1).made? = none ∧
        (l.spoiled now m c).2.bookings.map Booking.asMade = l.bookings.map Booking.asMade := by
  cases c with
  | updateStatus id expected next =>
    refine ⟨?_, rfl, ?_⟩
    · cases m with
      | overtaken s => exact ((hl.updateStatus id expected s).1.updateStatus id expected next).1
      | _ => exact hl
    · cases m with
      | overtaken s =>
        obtain ⟨hl', hs⟩ := hl.updateStatus id expected s
        exact (hl'.updateStatus id expected next).2.trans hs
      | _ => rfl
  | _ => exact ⟨hl, rfl, rfl⟩

end Ledger

namespace World

variable {w : World} {x : Action}

/-- The ledger is asked as things really stand, or the call goes wrong as planned. -/
theorem callLedger_cases (w : World) (c : LedgerCall) :
    ((w.callLedger c).1 = (w.ledger.answer w.now c).1 ∧
        (w.callLedger c).2.ledger = (w.ledger.answer w.now c).2) ∨
      ∃ p ∈ w.ledgerPlans, (w.callLedger c).1 = (w.ledger.spoiled w.now p.mishap c).1 ∧
        (w.callLedger c).2.ledger = (w.ledger.spoiled w.now p.mishap c).2 := by
  unfold callLedger
  split
  next plans hm => exact .inl ⟨rfl, rfl⟩
  next m plans hm =>
    obtain ⟨p, hp, rfl⟩ := Plan.exists_of_meet (congrArg Prod.fst hm)
    exact .inr ⟨p, hp, rfl, rfl⟩

theorem exists_of_mem_ledgerPlans {p : Plan} (h : p ∈ (w.perform x).2.ledgerPlans) :
    ∃ q ∈ w.ledgerPlans, q.mishap = p.mishap := by
  have hsame : p ∈ w.ledgerPlans → ∃ q ∈ w.ledgerPlans, q.mishap = p.mishap :=
    fun hp => ⟨p, hp, rfl⟩
  cases x with
  | ledger c =>
    have hplans : (w.callLedger c).2.ledgerPlans =
        (Plan.meet c.kind c.target? w.ledgerPlans).2 := by
      unfold callLedger
      split <;> next hm => rw [hm]
    change p ∈ (w.callLedger c).2.ledgerPlans at h
    rw [hplans] at h
    exact Plan.exists_of_mem_meet h
  | rooms c =>
    rw [(perform_offLedger (x := .rooms c) trivial).2] at h
    exact hsame h
  | _ => exact hsame h

theorem numbered_perform (hl : w.ledger.Numbered) (x : Action) :
    (w.perform x).2.ledger.Numbered ∧
      (w.perform x).2.ledger.bookings.map Booking.asMade =
        w.ledger.bookings.map Booking.asMade ++ (Deed.did x (w.perform x).1).made?.toList := by
  have hsame : ∀ a, x.OffLedger → (Deed.did x a).made? = none →
      (w.perform x).2.ledger.Numbered ∧
        (w.perform x).2.ledger.bookings.map Booking.asMade =
          w.ledger.bookings.map Booking.asMade ++ (Deed.did x a).made?.toList := by
    intro a hx ha
    rw [(perform_offLedger hx).1, ha]
    exact ⟨hl, (List.append_nil _).symm⟩
  cases x with
  | ledger c =>
    change (w.callLedger c).2.ledger.Numbered ∧ (w.callLedger c).2.ledger.bookings.map _ =
      _ ++ (Deed.did (.ledger c) (w.callLedger c).1).made?.toList
    rcases w.callLedger_cases c with ⟨ha, hs⟩ | ⟨p, -, ha, hs⟩ <;> rw [ha, hs]
    · exact ⟨hl.answer w.now c, hl.asMade_answer c⟩
    · obtain ⟨hn, hno, hmade⟩ := hl.spoiled w.now p.mishap c
      rw [hno]
      exact ⟨hn, hmade.trans (List.append_nil _).symm⟩
  | _ => exact hsame _ trivial rfl

end World

namespace Scene

variable {κ α : Type} {code : κ → Process α} {s : Scene code}

/-- The bookings that were written down, as they were then. -/
def entries (ds : List (ℕ × Deed)) : List Booking := ds.filterMap (·.2.made?)

/-- Bookings are in the ledger from before, or because they were written down, in this order. -/
theorem numbered_run (hl : s.world.ledger.Numbered) (es : List (Event κ)) :
    (s.run es).world.ledger.Numbered ∧
      (s.run es).world.ledger.bookings.map Booking.asMade =
        s.world.ledger.bookings.map Booking.asMade ++ entries (s.journal es) := by
  induction es using List.reverseRecOn with
  | nil => exact ⟨hl, (List.append_nil _).symm⟩
  | append_singleton es e ih =>
    obtain ⟨hn, hmade⟩ := ih
    rw [run_concat, journal_concat]
    unfold entries
    rw [List.filterMap_append, ← List.append_assoc, ← entries, ← hmade]
    rcases (s.run es).step_cases e with ⟨i, x, hd, hw⟩ | ⟨hd, hw⟩
    · rw [hd, hw, Deed.filterMap_singleton Deed.made?]
      exact World.numbered_perform hn x
    · rw [hw.ledger, Deed.filterMap_of_linedUp Deed.made? (fun _ _ => rfl) hd, List.append_nil]
      exact ⟨hn, rfl⟩

/-- A booking was written down as it was ordered. -/
theorem entry_of_mem_journal {i : ℕ} {n : NewBooking} {b : Booking} {es : List (Event κ)}
    (h : (i, .did (.ledger (.insertPending n)) (.ok b)) ∈ s.journal es) :
    b.uid = n.uid ∧ b.status = .pending := by
  obtain ⟨before, e, after, -, -, ha, -⟩ := exists_perform h
  have ha : Except.ok b = ((s.run before).world.callLedger (.insertPending n)).1 := ha
  rcases (s.run before).world.callLedger_cases (.insertPending n) with ⟨hc, -⟩ | ⟨p, -, hc, -⟩ <;>
    rw [hc] at ha
  · obtain rfl := Except.ok.inj ha
    exact ⟨rfl, rfl⟩
  · cases ha

theorem mem_entries {b : Booking} {ds : List (ℕ × Deed)} :
    b ∈ entries ds ↔ ∃ i n, (i, .did (.ledger (.insertPending n)) (.ok b)) ∈ ds := by
  unfold entries
  rw [List.mem_filterMap]
  constructor
  · rintro ⟨⟨i, d⟩, hmem, hd⟩
    obtain ⟨n, rfl⟩ := Deed.of_made?_eq_some hd
    exact ⟨i, n, hmem⟩
  · rintro ⟨i, n, hmem⟩
    exact ⟨_, hmem, rfl⟩

/-- If every call writes one booking down at most, and those of different calls differ, they all
do. -/
theorem nodup_entries {β : Type} {key : Booking → β} (own : ℕ → Option β) {ds : List (ℕ × Deed)}
    (hone : ∀ i, ((Deed.doneBy i ds).filterMap Deed.made?).length ≤ 1)
    (hkey : ∀ x ∈ ds, ∀ b, x.2.made? = some b → own x.1 = some (key b))
    (hown : ∀ i k z, own i = some z → own k = some z → i = k) :
    ((entries ds).map key).Nodup := by
  induction ds with
  | nil => exact List.nodup_nil
  | cons x rest ih =>
    have hsplit : ∀ i, Deed.doneBy i (x :: rest) = Deed.doneBy i [x] ++ Deed.doneBy i rest :=
      fun i => by rw [← List.singleton_append, Deed.doneBy_append]
    have hrest := ih (fun i => ?_) fun y hy => hkey y (List.mem_cons_of_mem _ hy)
    · unfold entries at *
      cases hx : x.2.made? with
      | none => rwa [List.filterMap_cons_none (f := fun y : ℕ × Deed => y.2.made?) hx]
      | some b =>
        rw [List.filterMap_cons_some (f := fun y : ℕ × Deed => y.2.made?) hx, List.map_cons,
          List.nodup_cons]
        refine ⟨fun hmem => ?_, hrest⟩
        -- another booking of the same key would be a second one of the same call
        obtain ⟨c, hc, hcb⟩ := List.mem_map.mp hmem
        obtain ⟨y, hy, hyc⟩ := List.mem_filterMap.mp hc
        have hxb := hkey x List.mem_cons_self b hx
        have hyb := hkey y (List.mem_cons_of_mem _ hy) c hyc
        have hxy := hown _ _ _ hxb (hcb ▸ hyb)
        have htwo := hone x.1
        have hfirst : Deed.doneBy x.1 [x] = [x.2] := by simp [Deed.doneBy]
        have hlater : c ∈ (Deed.doneBy x.1 rest).filterMap Deed.made? :=
          List.mem_filterMap.mpr ⟨y.2, Deed.mem_doneBy.mpr (hxy ▸ hy), hyc⟩
        have hpos := List.length_pos_of_mem hlater
        rw [hsplit, hfirst, List.filterMap_append, List.length_append,
          List.filterMap_cons_some hx] at htwo
        simp only [List.filterMap_nil, List.length_singleton] at htwo
        omega
    · have hle := hone i
      rw [hsplit, List.filterMap_append, List.length_append] at hle
      omega

/-- A booking that is named by a key of its own was written down once. -/
theorem eq_of_entry {β : Type} {key : Booking → β} {ds : List (ℕ × Deed)}
    (h : ((entries ds).map key).Nodup) {x y : ℕ × Deed} {b c : Booking} (hx : x ∈ ds)
    (hy : y ∈ ds) (hb : x.2.made? = some b) (hc : y.2.made? = some c) (hk : key b = key c) :
    x = y := by
  unfold entries List.Nodup at h
  rw [List.pairwise_map, List.pairwise_filterMap, List.pairwise_iff_getElem] at h
  obtain ⟨i, hi, rfl⟩ := List.getElem_of_mem hx
  obtain ⟨k, hk', rfl⟩ := List.getElem_of_mem hy
  rcases Nat.lt_trichotomy i k with hik | rfl | hik
  · exact absurd hk (h i k hi hk' hik b hb c hc)
  · rfl
  · exact absurd hk.symm (h k i hk' hi hik c hc b hb)

/-- In a ledger that was empty, all bookings were written down, each under an id of its own. -/
theorem made_run (hrows : s.world.ledger.bookings = []) (es : List (Event κ)) :
    (s.run es).world.ledger.bookings.map Booking.asMade = entries (s.journal es) ∧
      ((entries (s.journal es)).map (·.id)).Nodup := by
  obtain ⟨hnum, hmade⟩ := numbered_run (Ledger.numbered_of_nil hrows) es
  rw [hrows, List.map_nil, List.nil_append] at hmade
  refine ⟨hmade, ?_⟩
  rw [← hmade, List.map_map]
  exact hnum.ids

end Scene

/-- Nobody but those who call moves bookings on. -/
def World.Unmeddled (w : World) : Prop := ∀ p ∈ w.ledgerPlans, ∀ s, p.mishap ≠ .overtaken s

/-- How a booking comes to be written: it is new, or moves on from where it was expected to be. -/
inductive Ledger.Writes (l : Ledger) : Action → Booking → Prop
  | new {n : NewBooking} {b : Booking} (hb : b.status = .pending) (hid : l.booking? b.id = none) :
    Writes l (.ledger (.insertPending n)) b
  | moved {c : Booking} {next : Status} (hc : l.booking? c.id = some c) :
    Writes l (.ledger (.updateStatus c.id c.status next)) { c with status := next }

namespace Ledger

variable {l : Ledger} {now : Instant}

/-- What is found of a booking is what was just written, or what was found before. -/
theorem Numbered.booking?_answer (hl : l.Numbered) (c : LedgerCall) :
    (∀ id, (l.answer now c).2.booking? id =
      ((Deed.did (.ledger c) (l.answer now c).1).written?.filter (·.id = id)).or (l.booking? id)) ∧
        ∀ b, (Deed.did (.ledger c) (l.answer now c).1).written? = some b →
          l.Writes (.ledger c) b := by
  cases c with
  | accept r =>
    simp only [Ledger.answer, Ledger.accept]
    split <;> exact ⟨fun id => rfl, fun b hb => by cases hb⟩
  | insertPending n =>
    refine ⟨hl.booking?_withBooking, fun b hb => ?_⟩
    obtain rfl := Option.some.inj hb
    exact .new rfl (hl.booking?_newBooking now n)
  | updateStatus id expected next =>
    by_cases hc : ∃ c, l.booking? id = some c ∧ c.status = expected
    · obtain ⟨c, hb, rfl⟩ := hc
      obtain ⟨hmem, rfl⟩ := booking?_eq_some hb
      simp only [Ledger.answer, updateStatus_of_eq hb]
      refine ⟨booking?_moved hmem, fun b hw => ?_⟩
      obtain rfl := Option.some.inj hw
      exact .moved hb
    · simp only [Ledger.answer, updateStatus_of_ne next fun c hb hs => hc ⟨c, hb, hs⟩]
      exact ⟨fun id => rfl, fun b hb => by cases hb⟩
  | get id => exact ⟨fun id => rfl, fun b hb => by cases hb⟩
  | pageOf user page => exact ⟨fun id => rfl, fun b hb => by cases hb⟩

end Ledger

namespace World

variable {w : World} {x : Action}

/-- A booking moves on if it is still where it is expected to be. -/
theorem perform_updateStatus (hw : w.ledgerPlans = []) {c : Booking} {id : BookingId}
    (hc : w.ledger.booking? id = some c) (next : Status) :
    (w.perform (.ledger (.updateStatus id c.status next))).1 =
      .ok (some { c with status := next }) := by
  rw [perform_ledger hw]
  simp only [Ledger.answer, Ledger.updateStatus_of_eq hc]

theorem Unmeddled.perform (hw : w.Unmeddled) (x : Action) : (w.perform x).2.Unmeddled := by
  intro p hp s
  obtain ⟨q, hq, hm⟩ := exists_of_mem_ledgerPlans hp
  exact hm ▸ hw q hq s

theorem Unmeddled.booking?_perform (hw : w.Unmeddled) (hl : w.ledger.Numbered) (x : Action) :
    (∀ id, (w.perform x).2.ledger.booking? id =
      ((Deed.did x (w.perform x).1).written?.filter (·.id = id)).or (w.ledger.booking? id)) ∧
        ∀ b, (Deed.did x (w.perform x).1).written? = some b → w.ledger.Writes x b := by
  by_cases hx : x.OffLedger
  · have hnone : ∀ a, (Deed.did x a).written? = none := by
      intro a
      cases x with
      | ledger c => cases hx
      | _ => rfl
    rw [(perform_offLedger hx).1, hnone]
    exact ⟨fun id => rfl, fun b hb => by cases hb⟩
  · cases x with
    | ledger c =>
      change (∀ id, (w.callLedger c).2.ledger.booking? id =
        ((Deed.did (.ledger c) (w.callLedger c).1).written?.filter (·.id = id)).or _) ∧
          ∀ b, (Deed.did (.ledger c) (w.callLedger c).1).written? = some b → _
      rcases w.callLedger_cases c with ⟨ha, hs⟩ | ⟨p, hp, ha, hs⟩ <;> rw [ha, hs]
      · exact hl.booking?_answer c
      · have hmishap := hw p hp
        cases c with
        | updateStatus id expected next =>
          -- the one mishap by which a booking moves is ruled out
          cases hm : p.mishap with
          | overtaken s => exact absurd hm (hmishap s)
          | _ => exact ⟨fun id => rfl, fun b hb => by cases hb⟩
        | _ => exact ⟨fun id => rfl, fun b hb => by cases hb⟩
    | _ => exact absurd trivial hx

end World

namespace Scene

variable {κ α : Type} {code : κ → Process α} {s : Scene code}

theorem unmeddled_run (hw : s.world.Unmeddled) (es : List (Event κ)) :
    (s.run es).world.Unmeddled := by
  induction es using List.reverseRecOn with
  | nil => exact hw
  | append_singleton es e ih =>
    rw [run_concat]
    rcases (s.run es).step_cases e with ⟨i, x, -, hs⟩ | ⟨-, hs⟩
    · rw [hs]
      exact ih.perform x
    · intro p hp
      rw [hs.ledgerPlans] at hp
      exact ih p hp

theorem writes_append (id : BookingId) (ds fs : List (ℕ × Deed)) :
    Deed.writes id (ds ++ fs) = Deed.writes id ds ++ Deed.writes id fs :=
  List.filterMap_append

theorem history_append (id : BookingId) (ds fs : List (ℕ × Deed)) :
    Deed.history id (ds ++ fs) = Deed.history id ds ++ Deed.history id fs := by
  unfold Deed.history
  rw [writes_append, List.map_append]

theorem writes_singleton (id : BookingId) (i : ℕ) (d : Deed) :
    Deed.writes id [(i, d)] = (d.written?.filter (·.id = id)).toList :=
  Deed.filterMap_singleton (fun d => d.written?.filter fun b : Booking => b.id = id) i d

theorem writes_of_linedUp {ds : List (ℕ × Deed)} (h : ∀ d ∈ ds, ∃ room t, d.2 = .linedUp room t)
    (id : BookingId) : Deed.writes id ds = [] :=
  Deed.filterMap_of_linedUp (fun d => d.written?.filter fun b : Booking => b.id = id)
    (fun _ _ => rfl) h

theorem history_singleton (id : BookingId) (i : ℕ) (d : Deed) :
    Deed.history id [(i, d)] = (d.written?.filter (·.id = id)).toList.map (·.status) := by
  unfold Deed.history
  rw [writes_singleton]

theorem history_of_linedUp {ds : List (ℕ × Deed)} (h : ∀ d ∈ ds, ∃ room t, d.2 = .linedUp room t)
    (id : BookingId) : Deed.history id ds = [] := by
  unfold Deed.history
  rw [writes_of_linedUp h, List.map_nil]

theorem mem_writes {id : BookingId} {b : Booking} {ds : List (ℕ × Deed)} :
    b ∈ Deed.writes id ds ↔ ∃ i d, (i, d) ∈ ds ∧ d.written? = some b ∧ b.id = id := by
  unfold Deed.writes
  simp [List.mem_filterMap, Option.filter_eq_some_iff]

/-- Whatever was written was new, or was made of what had been written down before. -/
theorem exists_writes (hw : s.world.Unmeddled) (hrows : s.world.ledger.bookings = [])
    {es : List (Event κ)} {i : ℕ} {x : Action} {a : x.Answer} {b : Booking}
    (h : (i, .did x a) ∈ s.journal es) (hb : (Deed.did x a).written? = some b) :
    ∃ l : Ledger, l.Writes x b ∧ ∀ c ∈ l.bookings, c.asMade ∈ entries (s.journal es) := by
  obtain ⟨before, e, after, rfl, -, rfl, -⟩ := exists_perform h
  have hnum := (numbered_run (Ledger.numbered_of_nil hrows) before).1
  obtain ⟨-, hwrites⟩ := (unmeddled_run hw before).booking?_perform hnum x
  refine ⟨(s.run before).world.ledger, hwrites b hb, fun c hc => ?_⟩
  have hmade := (made_run hrows before).1
  have hentry : c.asMade ∈ entries (s.journal before) := hmade ▸ List.mem_map_of_mem hc
  unfold entries at *
  rw [journal_append, List.filterMap_append]
  exact List.mem_append_left _ hentry

/-- A booking is found as it was last written. -/
theorem booking?_run (hw : s.world.Unmeddled) (hrows : s.world.ledger.bookings = [])
    (es : List (Event κ)) (id : BookingId) :
    (s.run es).world.ledger.booking? id = (Deed.writes id (s.journal es)).getLast? := by
  induction es using List.reverseRecOn with
  | nil =>
    change s.world.ledger.bookings.find? _ = none
    rw [hrows]
    rfl
  | append_singleton es e ih =>
    rw [run_concat, journal_concat, writes_append, List.getLast?_append, ← ih]
    rcases (s.run es).step_cases e with ⟨i, x, hd, hs⟩ | ⟨hd, hs⟩
    · obtain ⟨hfound, -⟩ := (unmeddled_run hw es).booking?_perform
        (numbered_run (Ledger.numbered_of_nil hrows) es).1 x
      rw [hs, hd, hfound, writes_singleton]
      cases Option.filter _ _ <;> rfl
    · rw [hs.ledger, writes_of_linedUp hd]
      rfl

end Scene

end Lodging
