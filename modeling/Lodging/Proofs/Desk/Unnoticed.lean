import Lodging.Proofs.House
import Lodging.Proofs.Parted

/-!
Releases that fail, which nobody notices. An order given in a world in which releases fail comes to
the same as if they did not, and leaves the same ledger. The two runs differ in the lock of its
booking, and in what the release itself has left behind.
-/

namespace Lodging

namespace Desk

open Process (Uses Unnoticed Clerical Solely)

variable {w w' : World} {p : RetryPolicy} {b : Booking} {r : RequestId}

/-- Whatever a release has come to, there is nothing more to it than a count. -/
theorem advance_releaseQuietly {x : Except CallFailure Unit}
    (h : ((Gateway.direct p).release b.room b.uid r).advance w = (.inl x, w')) :
    ∃ u, (releaseQuietly (.direct p) b r).advance w = (.inl (), u) ∧ u.aside = w'.aside ∧
      u.inventory = w'.inventory ∧ u.holds = w'.holds := by
  cases x with
  | ok a => exact ⟨w', Process.advance_bind_of_done h, rfl, rfl, rfl⟩
  | error e =>
    exact ⟨{ w' with events := .releaseFailed :: w'.events }, Process.advance_bind_of_done h, rfl,
      rfl, rfl⟩

theorem unnoticed_releaseQuietly (hw : w.Alone) (hv : w.inventory.Exact) (f : CallFailure)
    (b : Booking) (r : RequestId) :
    Unnoticed f (some b) w (releaseQuietly (.direct p) b r) := by
  obtain ⟨x, v, hx, haside, hi, hh⟩ := Gateway.advance_release_of_failure (p := p)
    (w := w.withRelease (some f)) rfl b.room b.uid r
  obtain ⟨y, v', hy, hund, haside', ⟨z, hevicts⟩, hvisitors, hgates⟩ :=
    Gateway.advance_release_of_none (p := p) (hw.withRelease none) hv rfl b.room b.uid r
  obtain ⟨u, hu, huaside, hui, huh⟩ := advance_releaseQuietly hx
  obtain ⟨u', hu', huaside', hui', huh'⟩ := advance_releaseQuietly hy
  have hfirst : u.aside = w.aside := huaside.trans haside
  have hsecond : u'.aside = w.aside := huaside'.trans haside'
  refine ⟨(), u, u', hu, hu', ⟨hw.undisturbed.of_aside hfirst, hw.undisturbed.of_aside hsecond⟩,
    hsecond.trans hfirst.symm, ?_⟩
  have hsame : u.inventory = w.inventory ∧ u.holds = w.holds := ⟨hui.trans hi, huh.trans hh⟩
  refine .released (x := z) ?_ ⟨?_, ?_⟩ fun q hq => ?_
  · rw [hsame.1, hui']
    exact hevicts
  · rw [hsame.2]
    exact hw.visitors
  · rw [huh']
    exact hvisitors
  · rw [hsame.2, huh']
    exact hgates q hq

/-- An action that neither asks about releases nor removes a lock. -/
def Preparing (x : Action) : Prop := x ≠ .planned .release ∧ x.Lasting

theorem preparing_of_clerical {x : Action} (hx : Clerical x) : Preparing x := by
  cases x with
  | ledger c => exact ⟨nofun, trivial⟩
  | meter m => exact ⟨nofun, trivial⟩
  | _ => exact hx.elim

theorem uses_recommend (p : RetryPolicy) (stay : Stay) (r : RequestId) :
    ((Gateway.direct p).recommend stay r).Uses Preparing := by
  refine Process.uses_attemptFrom p _ (fun _ => ⟨nofun, trivial⟩) (fun _ => ⟨nofun, trivial⟩)
    (fun k => ?_) _ _
  refine ⟨⟨nofun, trivial⟩, fun _ => ?_⟩
  change (Gateway.recommendDirectly stay).Uses Preparing
  refine Uses.bind ((Keeper.uses_recommend stay).mono fun x hx => ⟨?_, ?_⟩) fun _ => trivial
  · rintro rfl
    exact hx
  · exact Keeper.founded_of_looking hx _

theorem uses_confirm (p : RetryPolicy) (room : RoomId) (o : LockOrder) :
    ((Gateway.direct p).confirm room o).Uses Preparing := by
  refine Process.uses_attemptFrom p _ (fun _ => ⟨nofun, trivial⟩) (fun _ => ⟨nofun, trivial⟩)
    (fun k => ?_) _ _
  refine ⟨⟨nofun, trivial⟩, fun _ => ⟨⟨nofun, trivial⟩, fun f => ?_⟩⟩
  cases f with
  | some f => trivial
  | none =>
    change (Gateway.confirmDirectly room o).Uses Preparing
    unfold Gateway.confirmDirectly
    cases Stay.ofDates o.arrival o.departure with
    | error e => trivial
    | ok stay =>
      refine Uses.bind ((Keeper.uses_confirm _).mono fun x hx => ?_) fun _ => trivial
      rcases hx with hx | rfl
      · refine ⟨?_, Keeper.founded_of_looking hx _⟩
        rintro rfl
        exact hx
      · exact ⟨nofun, trivial⟩

/-- All that is done before the release is the same in both runs. -/
theorem exists_prepared {α : Type} {q : Process α} (hq : q.Uses Preparing) (hbrisk : q.Brisk)
    (hw : w.Alone) (hv : w.inventory.Exact) :
    ∃ a w', q.advance w = (.inl a, w') ∧ w'.Alone ∧ w'.inventory.Exact ∧
      ∀ {β : Type} {f : CallFailure} {who : Option Booking} (g : α → Process β),
        Unnoticed f who w' (g a) → Unnoticed f who w (q >>= g) := by
  obtain ⟨a, w', h, hw'⟩ := hbrisk w hw
  have hlasting : q.Uses Action.Lasting := hq.mono fun _ hx => hx.2
  exact ⟨a, w', h, hw', hlasting.founded_of_lasting.exact_advance hv h, fun g hg =>
    Unnoticed.of_bind (hq.mono fun _ hx => hx.1) hw.undisturbed h hg⟩

theorem exists_prepared_of_clerical {α : Type} {q : Process α} (hq : q.Solely Clerical)
    (hw : w.Alone) (hv : w.inventory.Exact) :
    ∃ a w', q.advance w = (.inl a, w') ∧ w'.Alone ∧ w'.inventory.Exact ∧
      ∀ {β : Type} {f : CallFailure} {who : Option Booking} (g : α → Process β),
        Unnoticed f who w' (g a) → Unnoticed f who w (q >>= g) := by
  refine exists_prepared (hq.uses.mono fun _ => preparing_of_clerical) (Solely.brisk ?_) hw hv
  exact hq.mono fun x hx t ht => by rw [ht] at hx; exact hx

theorem unnoticed_compensate (hw : w.Alone) (hv : w.inventory.Exact) (f : CallFailure)
    (b : Booking) (r : RequestId) :
    Unnoticed f (some b) w (compensate (.direct p) b r) := by
  have hcancel : (move b .pending .cancelled).run.Solely Clerical := solely_move trivial
  obtain ⟨x, w₁, -, hw₁, hv₁, hmove⟩ := exists_prepared_of_clerical hcancel hw hv
  refine hmove _ ?_
  cases x with
  | ok c => exact unnoticed_releaseQuietly hw₁ hv₁ f b r
  | error e =>
    obtain ⟨u, w₂, -, hw₂, hv₂, hlost⟩ := exists_prepared_of_clerical
      (q := Process.meter .statusLost) ⟨trivial, fun _ => trivial⟩ hw₁ hv₁
    exact hlost _ (unnoticed_releaseQuietly hw₂ hv₂ f b r)

theorem unnoticed_conclude (hw : w.Alone) (hv : w.inventory.Exact) (f : CallFailure)
    (b : Booking) (r : RequestId) :
    ∃ who, (∀ c, who = some c → c = b) ∧ Unnoticed f who w (conclude (.direct p) r b).run := by
  obtain ⟨x, w₁, -, hw₁, hv₁, hsecure⟩ := exists_prepared
    (uses_secure (g := .direct p) (b := b) (r := r) ⟨nofun, trivial⟩ (uses_confirm p _ _))
      (brisk_secure b r) hw hv
  have htimed : ∀ x : Except BookingFailure BookingSummary,
      (Process.meter .bookingTimed >>= fun _ => .done x).Solely Clerical :=
    fun x => ⟨trivial, fun _ => trivial⟩
  cases x with
  | ok c =>
    have hconfirmed : Unnoticed f none w₁ (.act (.meter .bookingConfirmed) fun _ =>
        .done (Except.ok (ε := BookingFailure) c.summary)) :=
      Solely.unnoticed ⟨trivial, fun _ => trivial⟩ hw₁.undisturbed
    exact ⟨none, fun c hc => absurd hc.symm (Option.some_ne_none c),
      Unnoticed.bind (hsecure _ hconfirmed) htimed⟩
  | error e =>
    obtain ⟨u, w₂, -, hw₂, hv₂, hcount⟩ :=
      exists_prepared_of_clerical (q := Process.meter (.compensation e.kind))
        ⟨trivial, fun _ => trivial⟩ hw₁ hv₁
    refine ⟨some b, fun c hc => (Option.some.inj hc).symm,
      Unnoticed.bind (hsecure _ (hcount _ ?_)) htimed⟩
    exact Unnoticed.bind (unnoticed_compensate hw₂ hv₂ f b r) fun _ => trivial

theorem unnoticed_withdraw (hw : w.Alone) (hv : w.inventory.Exact) (f : CallFailure)
    (b : Booking) (r : RequestId) :
    ∃ who, (∀ c, who = some c → c = b) ∧ Unnoticed f who w (withdraw (.direct p) r b).run := by
  unfold withdraw
  split
  · have hdone : Unnoticed f none w (.done (Except.ok (ε := BookingFailure) b.summary)) :=
      Solely.unnoticed trivial hw.undisturbed
    exact ⟨none, fun c hc => absurd hc.symm (Option.some_ne_none c), hdone⟩
  · refine ⟨some b, fun c hc => (Option.some.inj hc).symm, ?_⟩
    have hmark : (markCancelled b >>= fun c => note .bookingCancelled >>= fun _ =>
        pure c.summary : Task BookingSummary).run.Solely Clerical :=
      (solely_markCancelled trivial trivial).task_bind fun c => ⟨trivial, fun _ => trivial⟩
    have hquiet : Unnoticed f (some b) w
        (ExceptT.lift (releaseQuietly (.direct p) b r) : Task Unit).run :=
      Unnoticed.bind (unnoticed_releaseQuietly hw hv f b r) fun _ => trivial
    refine Unnoticed.bind hquiet fun x => ?_
    cases x with
    | ok a => exact hmark
    | error e => trivial

/-- What an order does first: it finds its booking, or writes it down. -/
def Call.subject : Call → Task Booking
  | .create p user q r today uid => draft (.direct p) q r today >>= fun x =>
      ask (.insertPending ⟨uid, user, x.1, x.2⟩)
  | .cancel _ id user _ => owned id user

/-- What it then does for this booking. -/
def Call.remainder : Call → Booking → Task BookingSummary
  | .create p _ _ r _ _ => conclude (.direct p) r
  | .cancel p _ _ r => withdraw (.direct p) r

theorem Call.process_eq (c : Call) : c.process = (c.subject >>= c.remainder).run := by
  cases c with
  | create p user q r today uid =>
    change (Desk.create (.direct p) user q r today uid).run = _
    rw [create_eq_draft, ← bind_assoc]
    rfl
  | cancel p id user r => rfl

theorem Call.uses_subject (c : Call) : c.subject.run.Uses Preparing := by
  cases c with
  | create p user q r today uid =>
    have hdraft : (draft (.direct p) q r today).run.Uses Preparing :=
      uses_draft (fun _ => ⟨nofun, trivial⟩) ⟨nofun, trivial⟩ fun stay => uses_recommend p stay r
    exact hdraft.task_bind fun x => uses_ask ⟨nofun, trivial⟩
  | cancel p id user r => exact uses_owned ⟨nofun, trivial⟩ user

theorem Call.brisk_subject (c : Call) : c.subject.run.Brisk := by
  cases c with
  | create p user q r today uid =>
    exact (brisk_draft q r today).task_bind fun x => (solely_ask fun _ => nofun).brisk
  | cancel p id user r => exact (solely_owned (fun _ => nofun) user).brisk

theorem Call.unnoticed_remainder (hw : w.Alone) (hv : w.inventory.Exact) (f : CallFailure)
    (c : Call) (b : Booking) : ∃ who, (∀ d, who = some d → d = b) ∧
      Unnoticed f who w (c.remainder b).run := by
  cases c with
  | create p user q r today uid => exact unnoticed_conclude hw hv f b r
  | cancel p id user r => exact unnoticed_withdraw hw hv f b r

/-- The booking is the one that an order is for: one that is new to the ledger, or the one to be
cancelled. -/
def Call.For (l : Ledger) (b : Booking) : Call → Prop
  | .create _ _ _ _ _ uid => b.uid = uid ∧ l.booking? b.id = none
  | .cancel _ id _ _ => b.id = id

/-- An order for a new booking comes to what became of the attempt to confirm it, whatever may have
been done since to undo it. -/
def Call.Honest (w : World) (x : Except BookingFailure BookingSummary) : Call → Prop
  | c@(.create p _ _ r _ _) => ∀ b u, c.subject.run.advance w = (.inl (.ok b), u) →
      ∃ y u', (secure (.direct p) b r).run.advance u = (.inl y, u') ∧ x = y.map (·.summary)
  | .cancel .. => True

theorem eq_of_advance_conclude {g : Gateway} {x : Except BookingFailure BookingSummary}
    {y : Except BookingFailure Booking} {u u' v : World}
    (hy : (secure g b r).run.advance u = (.inl y, u'))
    (hx : (conclude g r b).run.advance u = (.inl x, v)) : x = y.map (·.summary) := by
  obtain ⟨z, w, hz, hx⟩ := Process.exists_advance_of_bind hx
  obtain rfl : z = x := Sum.inl.inj (Prod.mk.inj hx).1
  obtain ⟨y', w', hy', hz⟩ := Process.exists_advance_of_bind hz
  obtain rfl : y = y' := Sum.inl.inj (Prod.mk.inj (hy.symm.trans hy')).1
  cases y with
  | ok c => exact (Sum.inl.inj (Prod.mk.inj hz).1).symm
  | error e =>
    have hundo : ((Process.act (.meter (.compensation e.kind)) fun _ => compensate g b r) >>=
        fun _ => .done (Except.error e)).advance w' = (.inl z, w) := hz
    obtain ⟨a, w'', -, hdone⟩ := Process.exists_advance_of_bind hundo
    exact (Sum.inl.inj (Prod.mk.inj hdone).1).symm

theorem Call.honest (c : Call) {x : Except BookingFailure BookingSummary} {v : World}
    (hw : w.Alone) (hx : c.process.advance w = (.inl x, v)) : c.Honest w x := by
  cases c with
  | cancel p id user r => trivial
  | create p user q r today uid =>
    intro b u hb
    obtain ⟨y, w', hy, hu⟩ := Call.brisk_subject (.create p user q r today uid) w hw
    obtain ⟨-, rfl⟩ := Prod.mk.inj (hb.symm.trans hy)
    obtain ⟨z, u', hz, -⟩ := brisk_secure (p := p) b r u hu
    rw [Call.process_eq] at hx
    have hrest := (Process.advance_bind_of_done hb).symm.trans hx
    exact ⟨z, u', hz, eq_of_advance_conclude hz hrest⟩

theorem advance_owned {id : BookingId} {user : UserId} {u : World} (hw : w.Undisturbed)
    (h : (owned id user).run.advance w = (.inl (.ok b), u)) :
    w.ledger.booking? id = some b ∧ u.ledger = w.ledger := by
  have hget : (ask (.get id)).run.advance w = (.inl (.ok (w.ledger.booking? id)), w) := by
    change (Sum.inl (w.callLedger (.get id)).1, (w.callLedger (.get id)).2) = _
    rw [hw.callLedger]
    rfl
  unfold owned at h
  obtain ⟨x, v, hx, hv⟩ := Process.exists_advance_of_bind h
  obtain ⟨hsame, rfl⟩ := Prod.mk.inj (hget.symm.trans hx)
  obtain rfl := Sum.inl.inj hsame
  cases hfound : w.ledger.booking? id with
  | none =>
    rw [hfound] at hv
    cases (Prod.mk.inj hv).1
  | some d =>
    have hmine : (if d.user = user then return d else throw (.notFound id) :
        Task Booking).run.advance w = (.inl (.ok b), u) := by
      rw [hfound] at hv
      exact hv
    split at hmine
    · obtain ⟨hd, rfl⟩ := Prod.mk.inj hmine
      obtain rfl := Except.ok.inj (Sum.inl.inj hd)
      exact ⟨rfl, rfl⟩
    · cases (Prod.mk.inj hmine).1

theorem Call.of_subject (c : Call) {u : World} (hw : w.Alone) (hl : w.ledger.Numbered)
    (h : c.subject.run.advance w = (.inl (.ok b), u)) :
    u.ledger.Numbered ∧ u.ledger.booking? b.id = some b ∧ c.For w.ledger b := by
  cases c with
  | create p user q r today uid =>
    obtain ⟨x, w', hx, hb⟩ := Process.exists_advance_of_bind h
    cases x with
    | error e => cases (Prod.mk.inj hb).1
    | ok x =>
      obtain ⟨y, v, hy, hv⟩ := brisk_draft (p := p) q r today w hw
      obtain ⟨-, rfl⟩ := Prod.mk.inj (hx.symm.trans hy)
      obtain ⟨hnum, hmade⟩ := (bookless_draft (Gateway.offLedger_direct p)).asMade_advance hl hx
      change (Sum.inl (w'.callLedger (.insertPending ⟨uid, user, x.1, x.2⟩)).1,
        (w'.callLedger (.insertPending ⟨uid, user, x.1, x.2⟩)).2) = _ at hb
      rw [hv.undisturbed.callLedger] at hb
      obtain ⟨hnew, rfl⟩ := Prod.mk.inj hb
      obtain rfl := Except.ok.inj (Sum.inl.inj hnew)
      have hnum' := hnum.withBooking w'.now ⟨uid, user, x.1, x.2⟩
      refine ⟨hnum', hnum'.booking?_of_mem (Ledger.mem_withBooking.mpr (.inr rfl)), rfl, ?_⟩
      have hsame := Ledger.asMade_booking? hmade
        (w'.ledger.newBooking w'.now ⟨uid, user, x.1, x.2⟩).id
      rw [hnum.booking?_newBooking] at hsame
      exact Option.map_eq_none_iff.mp hsame.symm
  | cancel p id user r =>
    obtain ⟨hfound, hledger⟩ := advance_owned hw.undisturbed h
    rw [hledger]
    obtain ⟨-, hid⟩ := Ledger.booking?_eq_some hfound
    exact ⟨hl, by rw [hid, hfound], hid⟩

/-- An order goes unnoticed to its end, and only the lock of its own booking is at stake. -/
theorem Call.unnoticed (c : Call) (hw : w.Alone) (hv : w.inventory.Exact) (f : CallFailure) :
    ∃ who, (∀ b, who = some b → ∃ u, c.subject.run.advance w = (.inl (.ok b), u)) ∧
      Unnoticed f who w c.process := by
  obtain ⟨x, w', hx, hw', hv', hsubject⟩ := exists_prepared c.uses_subject c.brisk_subject hw hv
  rw [Call.process_eq]
  cases x with
  | ok b =>
    obtain ⟨who, hwho, hrest⟩ := c.unnoticed_remainder hw' hv' f b
    refine ⟨who, fun d hd => ?_, hsubject _ hrest⟩
    rw [hwho d hd]
    exact ⟨w', hx⟩
  | error e =>
    exact ⟨none, fun b hb => absurd hb.symm (Option.some_ne_none b),
      hsubject _ (Solely.unnoticed trivial hw'.undisturbed)⟩

theorem Call.bookless_remainder (c : Call) (b : Booking) :
    (c.remainder b).run.Uses Action.Bookless := by
  cases c with
  | create p user q r today uid => exact bookless_conclude (Gateway.offLedger_direct p)
  | cancel p id user r =>
    exact uses_withdraw (fun _ => trivial) trivial (fun _ => trivial)
      (((Gateway.offLedger_direct p).release _ _ r).mono fun _ => Action.OffLedger.bookless)

/-- Once there, a booking stays the one that the order is for. -/
theorem Call.exists_row (c : Call) {u v : World} {x : Except BookingFailure BookingSummary}
    (hw : w.Alone) (hl : w.ledger.Numbered) (hb : c.subject.run.advance w = (.inl (.ok b), u))
    (hx : c.process.advance w = (.inl x, v)) :
    ∃ d, b.Same d ∧ v.ledger.booking? d.id = some d ∧ c.For w.ledger d := by
  obtain ⟨hnum, hfound, hfor⟩ := c.of_subject hw hl hb
  rw [Call.process_eq] at hx
  have hrest : (c.remainder b).run.advance u = (.inl x, v) :=
    (Process.advance_bind_of_done hb).symm.trans hx
  have hsame := Ledger.asMade_booking? ((c.bookless_remainder b).asMade_advance hnum hrest).2 b.id
  rw [hfound] at hsame
  obtain ⟨d, hd, hmade⟩ := Option.map_eq_some_iff.mp hsame
  have hbd : b.Same d := .of_asMade hmade
  refine ⟨d, hbd, by rw [hbd.id_eq, hd], ?_⟩
  cases c with
  | create p user q r today uid => exact ⟨hbd.uid_eq.trans hfor.1, by rw [hbd.id_eq]; exact hfor.2⟩
  | cancel p id user r => exact hbd.id_eq.trans hfor

/-- In any house in which no call is under way, whatever is to come of attempts to confirm, an order
is given to the booking desk once with all releases to fail and once with none. Both times it comes
to the same, and leaves behind the same ledger and everything else but what counts and times
releases, the lock of its own booking with the count of this lock, and what there was at the door of
its room. An order for a new booking comes to what became of the attempt to confirm it. -/
theorem release_failure_unnoticed (now : Instant) (es : List (Event House.Call))
    (hquiet : (House.after now es).Quiet) (c : Call) (f : CallFailure) :
    ∃ x v v' who,
      c.process.advance ((House.after now es).world.withRelease (some f)) = (.inl x, v) ∧
      c.process.advance ((House.after now es).world.withRelease none) = (.inl x, v') ∧
      v'.aside = v.aside ∧ v.Parted v' who ∧
      (∀ b, who = some b →
        v.ledger.booking? b.id = some b ∧ c.For (House.after now es).world.ledger b) ∧
      c.Honest ((House.after now es).world.withRelease (some f)) x := by
  have htidy := House.tidy_after now es hquiet
  have hw : (House.after now es).world.Alone := ⟨htidy.undisturbed, htidy.sound, htidy.visitors⟩
  obtain ⟨who, hwho, x, v, v', hv, hv', -, haside, hparted⟩ :=
    c.unnoticed hw (House.exact_after now es) f
  have hhonest := c.honest (hw.withRelease (some f)) hv
  cases who with
  | none =>
    exact ⟨x, v, v', none, hv, hv', haside, hparted,
      fun b hb => absurd hb.symm (Option.some_ne_none b), hhonest⟩
  | some b =>
    -- whoever releases a room has read the booking, or has made it
    obtain ⟨u, hu⟩ := hwho b rfl
    have hsubject := (c.uses_subject.mono fun _ hx => hx.1).advance_withRelease hw.undisturbed hu
      (some f)
    obtain ⟨d, hbd, hd, hfor⟩ :=
      c.exists_row (hw.withRelease (some f)) htidy.numbered hsubject hv
    refine ⟨x, v, v', some d, hv, hv', haside, hparted.of_same hbd, fun b' hb' => ?_, hhonest⟩
    obtain rfl := Option.some.inj hb'
    exact ⟨hd, hfor⟩

/-- A room was booked, and then somebody who waited for it gave up just when it was free. -/
def bookedThenForsaken : List (Event House.Call) :=
  .start (.keeper (.addRoom Sample.room)) :: .start (.desk (Sample.booking 1)) ::
    .start (.keeper (.release ⟨1⟩ (Sample.uid 2))) ::
      .start (.keeper (.release ⟨1⟩ (Sample.uid 2))) ::
        (List.replicate 2 (.advance 0) ++ List.replicate 17 (.advance 1) ++
          .advance 2 :: .advance 3 :: List.replicate 5 (.advance 2) ++ [.drop 3])

theorem release_failure_unnoticed_of_cancellation :
    (House.after Sample.newYear bookedThenForsaken).Quiet ∧ ∃ x v v' who,
      (Sample.cancellation 1).process.advance
        ((House.after Sample.newYear bookedThenForsaken).world.withRelease
          (some (.transport "lost"))) = (.inl x, v) ∧
      (Sample.cancellation 1).process.advance
        ((House.after Sample.newYear bookedThenForsaken).world.withRelease none) = (.inl x, v') ∧
      v'.aside = v.aside ∧ v.Parted v' who :=
  have hquiet : (House.after Sample.newYear bookedThenForsaken).Quiet := by decide +kernel
  let ⟨x, v, v', who, hv, hv', haside, hparted, _⟩ := release_failure_unnoticed Sample.newYear
    bookedThenForsaken hquiet (Sample.cancellation 1) (.transport "lost")
  ⟨hquiet, x, v, v', who, hv, hv', haside, hparted⟩

/-- What a failed release does not count is the lock that the other one removes, and it leaves the
forsaken room as it was. -/
theorem release_failure_noticed :
    let w := (House.after Sample.newYear bookedThenForsaken).world
    let v := ((Sample.cancellation 1).process.advance
      (w.withRelease (some (.transport "lost")))).2
    let v' := ((Sample.cancellation 1).process.advance (w.withRelease none)).2
    v.events.count .lockReleased = 0 ∧ v'.events.count .lockReleased = 1 ∧
      (v.holds.gate? ⟨1⟩).isSome = true ∧ (v'.holds.gate? ⟨1⟩).isSome = false := by
  decide +kernel

end Desk

end Lodging
