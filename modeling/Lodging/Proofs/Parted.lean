import Lodging.Proofs.Brisk
import Lodging.Proofs.Entries
import Lodging.Proofs.Keeper.Frames

/-!
Two runs of a process, one in a world in which releases fail and one in the same world but that they
do not. What is done besides releases does the same in both. A release leaves nothing behind but
counts if it fails, and else takes away a lock; this is all in which the two worlds come to differ.
-/

namespace Lodging

/-- What is counted of releases: the lock that one removes, its repetitions and its failure. -/
def Meter.ofRelease : Meter → Bool
  | .lockReleased | .releaseFailed | .retry .release | .exhausted .release => true
  | _ => false

namespace World

/-- The world in which releases are to fail, or not to. -/
def withRelease (w : World) (f : Option CallFailure) : World := { w with releaseFailure := f }

/-- A world without the rooms and without all that a release leaves behind. -/
def aside (w : World) : World :=
  { w with
    inventory := .empty
    holds := .empty
    releaseFailure := none
    attempts := { w.attempts with release := 0 }
    events := w.events.filter fun m => !m.ofRelease
    elapsed := 0 }

/-- How two worlds differ in their rooms if a booking was perhaps released in the other one only:
its lock and the count of this lock may be gone, and with them a forsaken slot of the room. -/
inductive Parted (v v' : World) : Option Booking → Prop
  | same (inventory : v'.inventory = v.inventory) (holds : v'.holds = v.holds) : Parted v v' none
  | released {b : Booking} {x : Except RoomFailure Keeper.Removal}
    (inventory : v.inventory.Evicts b.room b.uid x v'.inventory)
    (visitors : v.holds.visitors = [] ∧ v'.holds.visitors = [])
    (gates : ∀ r, r ≠ b.room → v'.holds.gate? r = v.holds.gate? r) : Parted v v' (some b)

variable {v v' w : World} {f : Option CallFailure} {x : Action}

theorem Parted.of_eq {u u' : World} {who : Option Booking} (h : v.Parted v' who)
    (hv : u.inventory = v.inventory) (hh : u.holds = v.holds) (hv' : u'.inventory = v'.inventory)
    (hh' : u'.holds = v'.holds) : u.Parted u' who := by
  cases h with
  | same inventory holds =>
    exact .same (by rw [hv, hv', inventory]) (by rw [hh, hh', holds])
  | released inventory visitors gates =>
    rw [← hv, ← hv'] at inventory
    rw [← hh, ← hh'] at visitors gates
    exact .released inventory visitors gates

/-- It does not matter how far the booking has come meanwhile. -/
theorem Parted.of_same {b c : Booking} (h : v.Parted v' (some b)) (hc : b.Same c) :
    v.Parted v' (some c) := by
  cases h with
  | released inventory visitors gates =>
    rw [← hc.room_eq, ← hc.uid_eq] at inventory
    rw [← hc.room_eq] at gates
    exact .released inventory visitors gates

theorem Undisturbed.withRelease (hw : w.Undisturbed) (f : Option CallFailure) :
    (w.withRelease f).Undisturbed := hw

theorem Alone.withRelease (hw : w.Alone) (f : Option CallFailure) : (w.withRelease f).Alone :=
  ⟨hw.undisturbed, hw.sound, hw.visitors⟩

/-- Nothing but a release asks whether releases are to fail. -/
theorem perform_withRelease (hw : w.Undisturbed) (hx : x ≠ .planned .release)
    (f : Option CallFailure) :
    (w.withRelease f).perform x = ((w.perform x).1, (w.perform x).2.withRelease f) := by
  cases x with
  | rooms c =>
    change (w.withRelease f).callRooms c = ((w.callRooms c).1, (w.callRooms c).2.withRelease f)
    rw [hw.callRooms, (hw.withRelease f).callRooms]
    rfl
  | ledger c =>
    change (w.withRelease f).callLedger c = ((w.callLedger c).1, (w.callLedger c).2.withRelease f)
    rw [hw.callLedger, (hw.withRelease f).callLedger]
    rfl
  | planned o =>
    cases o with
    | release => exact absurd rfl hx
    | _ => rfl
  | _ => rfl

theorem Undisturbed.of_aside (hv : v.Undisturbed) (h : v'.aside = v.aside) : v'.Undisturbed := by
  have hplans : v'.aside.Undisturbed := by
    rw [h]
    exact hv
  exact hplans

/-- Where all is the same but the rooms, the ledger gives the same answers. -/
theorem callLedger_aside (hv : v.Undisturbed) (hv' : v'.Undisturbed) (h : v'.aside = v.aside)
    (c : LedgerCall) : (v'.callLedger c).1 = (v.callLedger c).1 ∧
      (v'.callLedger c).2.aside = (v.callLedger c).2.aside := by
  have hledger : v'.aside.ledger = v.aside.ledger := by rw [h]
  have hnow : v'.aside.now = v.aside.now := by rw [h]
  change v'.ledger = v.ledger at hledger
  change v'.now = v.now at hnow
  rw [hv.callLedger, hv'.callLedger, hledger, hnow]
  refine ⟨rfl, ?_⟩
  change { v'.aside with ledger := (v.ledger.answer v.now c).2, now := v.now } =
    { v.aside with ledger := (v.ledger.answer v.now c).2 }
  rw [h]
  rfl

/-- What is counted of releases is put aside, and everything else is kept. -/
theorem counted_aside (h : v'.aside = v.aside) (m : Meter) :
    { v' with events := m :: v'.events }.aside = { v with events := m :: v.events }.aside := by
  have hcount : ∀ w : World, { w with events := m :: w.events }.aside =
      { w.aside with events := if m.ofRelease then w.aside.events else m :: w.aside.events } := by
    intro w
    unfold aside
    cases hm : m.ofRelease <;> simp [hm]
  rw [hcount, hcount, h]

end World

/-- Ledgers that agree in how bookings were made find the same ones. -/
theorem Ledger.asMade_booking? {l l' : Ledger}
    (h : l'.bookings.map Booking.asMade = l.bookings.map Booking.asMade) (id : BookingId) :
    (l'.booking? id).map Booking.asMade = (l.booking? id).map Booking.asMade := by
  have hfind : ∀ l : Ledger, (l.booking? id).map Booking.asMade =
      (l.bookings.map Booking.asMade).find? (·.id = id) := by
    intro l
    rw [List.find?_map]
    rfl
  rw [hfind, hfind, h]

namespace Process

variable {α β : Type} {p : Process α} {w w' v v' : World} {a : α} {who : Option Booking}
  {f : CallFailure}

/-- What does no release does the same whether or not releases are to fail. -/
theorem Uses.advance_withRelease (hp : p.Uses (· ≠ .planned .release)) (hw : w.Undisturbed)
    (h : p.advance w = (.inl a, w')) (f : Option CallFailure) :
    p.advance (w.withRelease f) = (.inl a, w'.withRelease f) := by
  induction p generalizing w with
  | done b =>
    obtain ⟨hb, rfl⟩ := Prod.mk.inj h
    obtain rfl := Sum.inl.inj hb
    rfl
  | act x next ih =>
    simp only [advance] at h ⊢
    rw [World.perform_withRelease hw hp.1]
    exact ih _ (hp.2 _) (hw.perform x) h
  | enter room next ih =>
    simp only [advance] at h ⊢
    split at h
    next hg =>
      have hsame : ((w.withRelease f).holds.request room).2.granted
          ((w.withRelease f).holds.request room).1 = true := hg
      rw [if_pos hsame]
      exact ih (w := { w with holds := (w.holds.request room).2 }) _ (hp _) hw h
    next => cases (Prod.mk.inj h).1

/-- What writes no booking down leaves all bookings as they were made. -/
theorem Uses.asMade_advance (hp : p.Uses Action.Bookless) (hl : w.ledger.Numbered)
    (h : p.advance w = (.inl a, w')) : w'.ledger.Numbered ∧
      w'.ledger.bookings.map Booking.asMade = w.ledger.bookings.map Booking.asMade := by
  induction p generalizing w with
  | done b =>
    obtain ⟨-, rfl⟩ := Prod.mk.inj h
    exact ⟨hl, rfl⟩
  | act x next ih =>
    obtain ⟨hnum, hmade⟩ := World.numbered_perform hl x
    rw [hp.1.made?_eq_none, Option.toList_none, List.append_nil] at hmade
    obtain ⟨hnum', hmade'⟩ := ih _ (hp.2 _) hnum h
    exact ⟨hnum', hmade'.trans hmade⟩
  | enter room next ih =>
    simp only [advance] at h
    split at h
    · exact ih (w := { w with holds := (w.holds.request room).2 }) _ (hp _) hl h
    · cases (Prod.mk.inj h).1

/-- What comes after a process starts where the process has come to its end. -/
theorem exists_advance_of_bind {f : α → Process β} {b : β} {v : World}
    (h : (p >>= f).advance w = (.inl b, v)) :
    ∃ a w', p.advance w = (.inl a, w') ∧ (f a).advance w' = (.inl b, v) := by
  change (p.bind f).advance w = _ at h
  induction p generalizing w with
  | done a => exact ⟨a, w, rfl, h⟩
  | act x next ih => exact ih _ h
  | enter room next ih =>
    simp only [Process.bind, advance] at h
    split at h
    next hg =>
      obtain ⟨a, w', hp, hf⟩ := ih _ h
      refine ⟨a, w', ?_, hf⟩
      simp only [advance]
      rw [if_pos hg]
      exact hp
    next => cases (Prod.mk.inj h).1

/-- Work with the ledger, for which the rooms are of no interest. -/
def Clerical : Action → Prop
  | .ledger _ | .meter _ => True
  | _ => False

theorem Solely.advance_aside (hp : p.Solely Clerical) (hv : v.Undisturbed) (hv' : v'.Undisturbed)
    (h : v'.aside = v.aside) : ∃ a u u', p.advance v = (.inl a, u) ∧ p.advance v' = (.inl a, u') ∧
      (u.Undisturbed ∧ u'.Undisturbed) ∧ u'.aside = u.aside ∧
        (u.inventory = v.inventory ∧ u.holds = v.holds) ∧
          u'.inventory = v'.inventory ∧ u'.holds = v'.holds := by
  induction p generalizing v v' with
  | done a => exact ⟨a, v, v', rfl, rfl, ⟨hv, hv'⟩, h, ⟨rfl, rfl⟩, rfl, rfl⟩
  | enter room next ih => exact hp.elim
  | act x next ih =>
    have hrooms : ∀ w : World, (w.perform x).2.inventory = w.inventory ∧
        (w.perform x).2.holds = w.holds := by
      intro w
      refine ⟨World.perform_inventory ?_, World.perform_holds ?_⟩
      · rintro c rfl
        exact hp.1
      · rintro t rfl
        exact hp.1
    -- the ledger answers from what the two worlds have in common
    have hsame : (v'.perform x).1 = (v.perform x).1 ∧
        (v'.perform x).2.aside = (v.perform x).2.aside := by
      cases x with
      | ledger c => exact World.callLedger_aside hv hv' h c
      | meter m => exact ⟨rfl, World.counted_aside h m⟩
      | _ => exact hp.1.elim
    obtain ⟨a, u, u', hadv, hadv', hund, haside, ⟨hi, hh⟩, hi', hh'⟩ :=
      ih (v.perform x).1 (hp.2 _) (hv.perform x) (hv'.perform x) hsame.2
    refine ⟨a, u, u', hadv, ?_, hund, haside, ⟨hi.trans (hrooms v).1, hh.trans (hrooms v).2⟩,
      hi'.trans (hrooms v').1, hh'.trans (hrooms v').2⟩
    change (next (v'.perform x).1).advance (v'.perform x).2 = _
    rw [hsame.1]
    exact hadv'

/-- In two runs, of which one begins in a world in which releases fail and one in the same world but
that they do not, a process comes to the same. -/
def Unnoticed (f : CallFailure) (who : Option Booking) (w : World) (p : Process α) : Prop :=
  ∃ a v v', p.advance (w.withRelease (some f)) = (.inl a, v) ∧
    p.advance (w.withRelease none) = (.inl a, v') ∧ (v.Undisturbed ∧ v'.Undisturbed) ∧
      v'.aside = v.aside ∧ v.Parted v' who

/-- What is done before the release. -/
theorem Unnoticed.of_bind {g : α → Process β} (hp : p.Uses (· ≠ .planned .release))
    (hw : w.Undisturbed) (h : p.advance w = (.inl a, w')) (hg : Unnoticed f who w' (g a)) :
    Unnoticed f who w (p >>= g) := by
  obtain ⟨b, v, v', hv, hv', hrest⟩ := hg
  have hrun := fun y => advance_bind_of_done (f := g) (hp.advance_withRelease hw h y)
  exact ⟨b, v, v', (hrun (some f)).trans hv, (hrun none).trans hv', hrest⟩

/-- What is done after it. -/
theorem Unnoticed.bind {g : α → Process β} (hp : Unnoticed f who w p)
    (hg : ∀ a, (g a).Solely Clerical) : Unnoticed f who w (p >>= g) := by
  obtain ⟨a, v, v', hv, hv', ⟨hund, hund'⟩, haside, hparted⟩ := hp
  obtain ⟨b, u, u', hu, hu', hund, haside', ⟨hi, hh⟩, hi', hh'⟩ :=
    (hg a).advance_aside hund hund' haside
  exact ⟨b, u, u', (advance_bind_of_done hv).trans hu, (advance_bind_of_done hv').trans hu',
    hund, haside', hparted.of_eq hi hh hi' hh'⟩

/-- Nothing is to be noticed of a release that does not take place. -/
theorem Solely.unnoticed (hp : p.Solely Clerical) (hw : w.Undisturbed) :
    Unnoticed f none w p := by
  have hstart : Unnoticed f none w (.done ()) :=
    ⟨(), _, _, rfl, rfl, ⟨hw, hw⟩, rfl, .same rfl rfl⟩
  exact hstart.bind (g := fun _ => p) fun _ => hp

end Process

namespace Gateway

open Process (Uses)

variable {w w' : World} {p : RetryPolicy} {f : CallFailure}

/-- An attempt is counted. It fails as planned, or is made if no failure is planned. -/
theorem advance_directly {α : Type} (o : Operation) (q : Process (Except CallFailure α))
    (w : World) : (∀ f, w.planned o = some f → (directly o q).advance w =
        (.inl (.error f), { w with attempts := w.attempts.add o })) ∧
      (w.planned o = none →
        (directly o q).advance w = q.advance { w with attempts := w.attempts.add o }) := by
  have hsame : { w with attempts := w.attempts.add o }.planned o = w.planned o := by
    cases o <;> rfl
  unfold directly
  change (∀ f, _ → Process.advance (.act (.attempt o) fun _ => .act (.planned o) _) w = _) ∧
    (_ → Process.advance (.act (.attempt o) fun _ => .act (.planned o) _) w = _)
  simp only [Process.advance, World.perform, hsame]
  constructor
  · intro f hf
    rw [hf]
    rfl
  · intro hnone
    rw [hnone]
    rfl

/-- A release that fails leaves nothing but counts, and takes time. -/
theorem advance_release_of_failure (hw : w.releaseFailure = some f) (room : RoomId) (uid : Uid)
    (r : RequestId) :
    ∃ x w', ((direct p).release room uid r).advance w = (.inl x, w') ∧
      w'.aside = w.aside ∧ w'.inventory = w.inventory ∧ w'.holds = w.holds := by
  have hcome : ∀ w : World, w.releaseFailure = some f → ∃ x w',
      ((direct p).release room uid r).advance w = (.inl x, w') ∧
        w'.aside = w.aside ∧ w'.inventory = w.inventory ∧ w'.holds = w.holds := by
    refine Process.attemptFrom_ind
      (P := fun q => ∀ w : World, w.releaseFailure = some f → ∃ x w', q.advance w = (.inl x, w') ∧
        w'.aside = w.aside ∧ w'.inventory = w.inventory ∧ w'.holds = w.holds)
      p .release (fun k g hg w hw => ?_) (fun x w hw => ⟨x, w, rfl, rfl, rfl, rfl⟩)
      (fun m next hm hnext w hw => ?_) (fun n next hnext w hw => ?_) _ _
    · -- the attempt is counted, and fails as planned
      have hattempt := (advance_directly .release (releaseDirectly room uid) w).1 f hw
      rw [Process.advance_bind_of_done hattempt]
      exact hg _ _ hw
    · obtain ⟨x, w', hadv, haside, hrest⟩ := hnext { w with events := m :: w.events } hw
      refine ⟨x, w', hadv, haside.trans ?_, hrest⟩
      unfold World.aside
      rcases hm with rfl | rfl <;> rfl
    · exact hnext { w with elapsed := w.elapsed + Timer.wait n } hw
  exact hcome w hw

/-- What is done in a room that is released. -/
def Releasing : Action → Prop
  | .rooms _ | .leave _ => True
  | .meter m => m = .lockReleased
  | _ => False

theorem uses_release (room : RoomId) (uid : Uid) : (Keeper.release room uid).Uses Releasing := by
  have hmeter : Releasing (.meter .lockReleased) := rfl
  exact Keeper.uses_release_of (fun _ _ => trivial) (fun _ _ => trivial) (fun _ => trivial) hmeter
    room uid

theorem aside_of_releasing {α : Type} {q : Process α} (hq : q.Uses Releasing) {a : α}
    (hw : w.Undisturbed) (h : q.advance w = (.inl a, w')) : w'.aside = w.aside := by
  induction q generalizing w with
  | done b =>
    obtain ⟨-, rfl⟩ := Prod.mk.inj h
    rfl
  | act x next ih =>
    refine (ih _ (hq.2 _) (hw.perform x) h).trans ?_
    have hx := hq.1
    cases x with
    | rooms c =>
      change (w.callRooms c).2.aside = w.aside
      rw [hw.callRooms]
      rfl
    | leave t => rfl
    | meter m =>
      obtain rfl : m = .lockReleased := hx
      rfl
    | _ => exact hx.elim
  | enter room next ih =>
    simp only [Process.advance] at h
    split at h
    · exact ih (w := { w with holds := (w.holds.request room).2 }) _ (hq _) hw h
    · cases (Prod.mk.inj h).1

/-- A release that is spared removes the lock, if there is one, at the first attempt. -/
theorem advance_release_of_none (hw : w.Alone) (hv : w.inventory.Exact)
    (hnone : w.releaseFailure = none) (room : RoomId) (uid : Uid) (r : RequestId) :
    ∃ x w', ((direct p).release room uid r).advance w = (.inl x, w') ∧ w'.Undisturbed ∧
      w'.aside = w.aside ∧ (∃ y, w.inventory.Evicts room uid y w'.inventory) ∧
        w'.holds.visitors = [] ∧ ∀ q, q ≠ room → w'.holds.gate? q = w.holds.gate? q := by
  let w₀ : World := { w with attempts := w.attempts.add .release }
  have hw₀ : w₀.Alone := ⟨hw.undisturbed, hw.sound, hw.visitors⟩
  have hremove : (Keeper.remove room uid).run.Solely Action.Indoors :=
    Keeper.solely_remove (fun _ _ _ => nofun) (fun _ _ _ => nofun) (fun _ => nofun) room uid
  obtain ⟨u, hu, halone, hinventory, -⟩ := Keeper.advance_release room uid hw₀
  obtain ⟨y, u', hu', -, hholds⟩ := hremove.advance_within room hw₀
  obtain ⟨-, rfl⟩ := Prod.mk.inj (hu.symm.trans hu')
  have haside : u.aside = w₀.aside := aside_of_releasing (uses_release room uid) hw₀.undisturbed hu
  have hdirectly : (releaseDirectly room uid).advance w₀ =
      (.inl (((w.inventory.evict room uid).1.map fun _ => ()).mapError RoomFailure.seen), u) :=
    Process.advance_bind_of_done hu
  have hattempt : (directly .release (releaseDirectly room uid)).advance w =
      (.inl (((w.inventory.evict room uid).1.map fun _ => ()).mapError RoomFailure.seen), u) :=
    ((advance_directly .release (releaseDirectly room uid) w).2 hnone).trans hdirectly
  refine ⟨((w.inventory.evict room uid).1.map fun _ => ()).mapError RoomFailure.seen, u, ?_,
    halone.undisturbed, haside, ⟨_, hinventory ▸ hv.evicts_evict⟩, halone.visitors, fun q hq => ?_⟩
  · change Process.advance (RetryPolicy.attemptFrom ..) w = _
    rw [RetryPolicy.attemptFrom_eq, Process.advance_bind_of_done hattempt]
    cases he : (w.inventory.evict room uid).1 with
    | ok y => rfl
    | error e =>
      -- that there is no such room is not asked again
      obtain rfl := Inventory.eq_notFound_of_evict he
      rfl
  · rw [hholds]
    exact Holds.gate?_leave_request hw.visitors hq

end Gateway

end Lodging
