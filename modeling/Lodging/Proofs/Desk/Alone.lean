import Lodging.Proofs.Keeper.Actions
import Lodging.Proofs.Keeper.Offers
import Lodging.World.Beats

/-!
The desk and its direct gateway when nobody else is about and no failure is in store for an attempt
to lock a room. What a part of an order comes to, and what it makes of the rooms, the ledger and the
count of attempts, is then a function of these.
-/

namespace Lodging

/-- What an order to the desk finds, and what it leaves. -/
structure Books where
  inventory : Inventory
  ledger : Ledger
  attempts : Attempts

/-- A world with such books at a time, with nobody about and no failure in store. -/
structure World.Shows (w : World) (now : Instant) (s : Books) : Prop extends w.Alone where
  agreed : w.confirmFailure = none
  time : w.now = now
  inventory : w.inventory = s.inventory
  ledger : w.ledger = s.ledger
  attempts : w.attempts = s.attempts

/-- An action that is no business of the desk: it leaves the ledger and what is in store alone. -/
def Action.Backstage : Action → Prop
  | rooms _ | leave _ | meter _ => True
  | _ => False

/-- All that the desk sees of a world is the same, but for the rooms. -/
structure World.Behind (w v : World) : Prop where
  ledger : v.ledger = w.ledger
  attempts : v.attempts = w.attempts
  confirmFailure : v.confirmFailure = w.confirmFailure

theorem Action.Backstage.behind {x : Action} (hx : x.Backstage) (w : World) :
    w.Behind (w.perform x).2 := by
  cases x with
  | rooms c =>
    change w.Behind (w.callRooms c).2
    unfold World.callRooms
    cases c.kind? with
    | none => exact ⟨rfl, rfl, rfl⟩
    | some kind =>
      simp only
      split <;> exact ⟨rfl, rfl, rfl⟩
  | leave t => exact ⟨rfl, rfl, rfl⟩
  | meter m => exact ⟨rfl, rfl, rfl⟩
  | _ => cases hx

namespace Process

variable {α β ε : Type} {now : Instant} {s s' s'' : Books} {p : Process α} {a : α} {b : β}
  {w w' : World}

theorem Uses.behind (hp : p.Uses Action.Backstage) (h : p.advance w = (.inl a, w')) :
    w.Behind w' := by
  induction p generalizing w with
  | done b =>
    obtain ⟨-, rfl⟩ := Prod.mk.inj h
    exact ⟨rfl, rfl, rfl⟩
  | act x next ih =>
    have hfirst := hp.1.behind w
    have hrest := ih _ (hp.2 _) h
    exact ⟨hrest.ledger.trans hfirst.ledger, hrest.attempts.trans hfirst.attempts,
      hrest.confirmFailure.trans hfirst.confirmFailure⟩
  | enter room next ih =>
    simp only [advance] at h
    split at h
    · have hrest := ih _ (hp _) h
      exact ⟨hrest.ledger, hrest.attempts, hrest.confirmFailure⟩
    · cases (Prod.mk.inj h).1

/-- What a process comes to when it begins with certain books, and what it makes of them. -/
def Comes (now : Instant) (s : Books) (p : Process α) (a : α) (s' : Books) : Prop :=
  ∀ w : World, w.Shows now s → ∃ w', p.advance w = (.inl a, w') ∧ w'.Shows now s'

theorem Comes.done : Comes now s (.done a) a s := fun w hw => ⟨w, rfl, hw⟩

theorem Comes.bind {f : α → Process β} (hp : Comes now s p a s') (hf : Comes now s' (f a) b s'') :
    Comes now s (p >>= f) b s'' := by
  intro w hw
  obtain ⟨w', hp, hw'⟩ := hp w hw
  obtain ⟨w'', hf, hw''⟩ := hf w' hw'
  exact ⟨w'', (advance_bind_of_done hp).trans hf, hw''⟩

theorem Comes.task_bind {t : ExceptT ε Process α} {f : α → ExceptT ε Process β} {y : Except ε β}
    (ht : Comes now s t.run (.ok a) s') (hf : Comes now s' (f a).run y s'') :
    Comes now s (t >>= f).run y s'' :=
  ht.bind (f := ExceptT.bindCont f) hf

theorem Comes.task_bind_error {t : ExceptT ε Process α} {f : α → ExceptT ε Process β} {e : ε}
    (ht : Comes now s t.run (.error e) s') : Comes now s (t >>= f).run (.error e) s' :=
  ht.bind (f := ExceptT.bindCont f) .done

theorem Comes.meter {m : Meter} {next : Unit → Process α} (h : Comes now s (next ()) a s') :
    Comes now s (.act (.meter m) next) a s' := fun w hw =>
  h { w with events := m :: w.events } ⟨⟨hw.undisturbed, hw.sound, hw.visitors⟩, hw.agreed, hw.time,
    hw.inventory, hw.ledger, hw.attempts⟩

theorem Comes.attempt {o : Operation} {next : Unit → Process α}
    (h : Comes now { s with attempts := s.attempts.add o } (next ()) a s') :
    Comes now s (.act (.attempt o) next) a s' := fun w hw =>
  h { w with attempts := w.attempts.add o } ⟨⟨hw.undisturbed, hw.sound, hw.visitors⟩, hw.agreed,
    hw.time, hw.inventory, hw.ledger, congrArg (·.add o) hw.attempts⟩

/-- No failure is planned for an attempt to lock a room. -/
theorem Comes.planned {next : Option CallFailure → Process α} (h : Comes now s (next none) a s') :
    Comes now s (.act (.planned .confirm) next) a s' := by
  intro w hw
  change ∃ w', (next w.confirmFailure).advance w = _ ∧ _
  rw [hw.agreed]
  exact h w hw

theorem Comes.ledger {c : LedgerCall} {next : c.Answer → Process α} {x : c.Answer} {l : Ledger}
    (hc : s.ledger.answer now c = (x, l)) (h : Comes now { s with ledger := l } (next x) a s') :
    Comes now s (.act (.ledger c) next) a s' := by
  intro w hw
  change ∃ w', (next (w.callLedger c).1).advance (w.callLedger c).2 = _ ∧ _
  rw [hw.undisturbed.callLedger, hw.ledger, hw.time, hc]
  exact h _ ⟨⟨hw.undisturbed, hw.sound, hw.visitors⟩, hw.agreed, rfl, hw.inventory, rfl,
    hw.attempts⟩

/-- What the keeper does for the desk changes nothing but the rooms. -/
theorem Comes.of_alone {v : Inventory} (hp : p.Uses Action.Backstage)
    (h : ∀ w : World, w.Alone → w.now = now → w.inventory = s.inventory →
      ∃ w', p.advance w = (.inl a, w') ∧ w'.Alone ∧ w'.inventory = v ∧ w'.now = w.now) :
    Comes now s p a { s with inventory := v } := by
  intro w hw
  obtain ⟨w', hadvance, halone, hv, hnow⟩ := h w hw.toAlone hw.time hw.inventory
  -- the premise is about the rooms; that the ledger stays follows from the kind of the actions
  have hbehind := hp.behind hadvance
  exact ⟨w', hadvance, halone, hbehind.confirmFailure.trans hw.agreed, hnow.trans hw.time, hv,
    hbehind.ledger.trans hw.ledger, hbehind.attempts.trans hw.attempts⟩

/-- A call that comes out well at the first attempt is not repeated. -/
theorem Comes.run {call : ℕ → Process (Except CallFailure α)} {x : Except CallFailure α}
    (policy : RetryPolicy) (o : Operation) (h : Comes now s (call 1) x s')
    (hx : RetryPolicy.settles x) : Comes now s (policy.run Gateway.effects o call) x s' := by
  unfold RetryPolicy.run
  rw [RetryPolicy.attemptFrom_eq]
  refine h.bind ?_
  cases x with
  | ok a => exact .done
  | error f =>
    have hf : f.retryable = false := by simpa [RetryPolicy.settles] using hx
    simp only [hf]
    exact .done

end Process

open Process (Comes)

namespace Keeper

variable {now : Instant} {s : Books} {x : Action}

theorem backstage_of_looking (h : x.Looking) : x.Backstage := by
  cases x with
  | rooms c => trivial
  | leave t => trivial
  | meter m => trivial
  | _ => cases h

theorem comes_recommend (stay : Stay) :
    Comes now s (recommend stay).run (.ok (ranked (s.inventory.offered stay))) s := by
  refine Comes.of_alone ((uses_recommend stay).mono fun x => backstage_of_looking) ?_
  intro w hw hnow hv
  obtain ⟨w', hp, hund, hv', hnow', hholds⟩ := yields_recommend stay w hw.undisturbed hv hnow
  have halone : w'.Alone := ⟨hund, hholds ▸ hw.sound, hholds ▸ hw.visitors⟩
  exact ⟨w', hp, halone, hv', hnow'.trans hnow.symm⟩

theorem comes_confirm (n : NewLock) (hraced : s.inventory.raced = false) :
    Comes now s (confirm n) (s.inventory.place now n).1
      { s with inventory := (s.inventory.place now n).2 } := by
  refine Comes.of_alone ((uses_confirm n).mono fun x hx => ?_) ?_
  · rcases hx with hx | rfl
    · exact backstage_of_looking hx
    · trivial
  · rintro w hw rfl hv
    rw [← hv] at hraced ⊢
    exact advance_confirm n hw hraced

end Keeper

namespace Gateway

variable {now : Instant} {s : Books} {stay : Stay}

/-- A recommendation is one attempt, which shows what is offered, the least booked first. -/
theorem comes_recommend (policy : RetryPolicy) (stay : Stay) (r : RequestId) :
    Comes now s ((direct policy).recommend stay r) (.ok (Keeper.ranked (s.inventory.offered stay)))
      { s with attempts := s.attempts.add .recommend } := by
  refine Comes.run policy .recommend (Comes.attempt ?_) rfl
  exact (Keeper.comes_recommend stay).bind .done

/-- What is offered is locked with one attempt, for a uid and a request that no lock has. -/
theorem comes_confirm (policy : RetryPolicy) {room : RoomId} {uid : Uid} {r : RequestId}
    (hraced : s.inventory.raced = false)
    (hnew : ∀ l ∈ s.inventory.locks, l.uid ≠ uid ∧ l.request ≠ r)
    (hroom : s.inventory.Offers room stay) :
    Comes now s ((direct policy).confirm room ⟨stay.arrival, stay.departure, uid, r⟩) (.ok ())
      { s with
        inventory := s.inventory.withLock now ⟨room, stay, uid, r⟩
        attempts := s.attempts.add .confirm } := by
  have hstay : Stay.ofDates stay.arrival stay.departure = .ok stay :=
    Stay.ofDates_eq_ok.mpr ⟨rfl, rfl⟩
  have hplace : s.inventory.place now ⟨room, stay, uid, r⟩ =
      (.ok (.locked (s.inventory.newLock now ⟨room, stay, uid, r⟩)),
        s.inventory.withLock now ⟨room, stay, uid, r⟩) :=
    Inventory.place_of_offers hnew hroom
  refine Comes.run policy .confirm (Comes.attempt (Comes.planned ?_)) rfl
  simp only [confirmDirectly, hstay]
  have hconfirm : Comes now { s with attempts := s.attempts.add .confirm }
      (Keeper.confirm ⟨room, stay, uid, r⟩) (s.inventory.place now ⟨room, stay, uid, r⟩).1 _ :=
    Keeper.comes_confirm ⟨room, stay, uid, r⟩ hraced
  rw [hplace] at hconfirm
  exact hconfirm.bind .done

end Gateway

end Lodging
