import Lodging.World.Scene
import Mathlib.Logic.Function.Basic

/-!
Scripts. A script tells what a call may do by points in its course and the moves between them, each
with the change that it makes to the stock of the world. A process follows a script from a point if
every action that it takes, whatever it is answered, is a move of the script or no move at all.
Whoever knows that calls follow a script need not look at their code again.
-/

namespace Lodging

/-- What calls share apart from the holds on rooms. -/
structure Stock where
  inventory : Inventory
  ledger : Ledger
  confirmFailure : Option CallFailure
  releaseFailure : Option CallFailure

namespace Stock

def turn (b : Stock) : Turn → Stock
  | .race => { b with inventory := { b.inventory with raced := true } }
  | .failConfirm f => { b with confirmFailure := f }
  | .failRelease f => { b with releaseFailure := f }
  | .clock _ => b

def planned (b : Stock) : Operation → Option CallFailure
  | .recommend => none
  | .confirm => b.confirmFailure
  | .release => b.releaseFailure

end Stock

namespace World

def stock (w : World) : Stock := ⟨w.inventory, w.ledger, w.confirmFailure, w.releaseFailure⟩

theorem stock_turn (w : World) (t : Turn) : (w.turn t).stock = w.stock.turn t := by
  cases t <;> rfl

theorem planned_eq (w : World) (o : Operation) : w.planned o = w.stock.planned o := by
  cases o <;> rfl

/-- No call of the inventory or the ledger is planned to go wrong. -/
def Undisturbed (w : World) : Prop := w.roomPlans = [] ∧ w.ledgerPlans = []

theorem Undisturbed.callRooms {w : World} (hw : w.Undisturbed) (c : RoomCall) :
    w.callRooms c = w.ask c := by
  obtain ⟨hr, -⟩ := hw
  cases w
  subst hr
  unfold World.callRooms
  cases c <;> rfl

theorem Undisturbed.callLedger {w : World} (hw : w.Undisturbed) (c : LedgerCall) :
    w.callLedger c = ((w.ledger.answer w.now c).1,
      { w with ledger := (w.ledger.answer w.now c).2 }) := by
  obtain ⟨-, hl⟩ := hw
  cases w
  subst hl
  rfl

theorem Undisturbed.perform {w : World} (hw : w.Undisturbed) (x : Action) :
    (w.perform x).2.Undisturbed := by
  cases x with
  | rooms c =>
    change (w.callRooms c).2.Undisturbed
    rw [hw.callRooms]
    exact hw
  | ledger c =>
    change (w.callLedger c).2.Undisturbed
    rw [hw.callLedger]
    exact hw
  | _ => exact hw

/-- Nothing but leaving a room changes the holds, whatever is planned to go wrong. -/
theorem perform_holds {w : World} {x : Action} (hx : ∀ t, x ≠ .leave t) :
    (w.perform x).2.holds = w.holds := by
  cases x with
  | rooms c =>
    change (w.callRooms c).2.holds = _
    unfold callRooms
    cases c.kind? with
    | none => rfl
    | some kind =>
      simp only
      split <;> rfl
  | ledger c =>
    change (w.callLedger c).2.holds = _
    unfold callLedger
    split <;> rfl
  | leave t => exact absurd rfl (hx t)
  | _ => rfl

theorem Undisturbed.turn {w : World} (hw : w.Undisturbed) (t : Turn) : (w.turn t).Undisturbed := by
  cases t <;> exact hw

end World

/-- Points in the course of a call, and the moves between them. -/
structure Script (σ : Type) where
  Move : σ → Stock → σ → Stock → Prop
  /-- The room that a call must be in to be at a point. -/
  inside : σ → Option RoomId
  /-- The point of a call that does nothing more. -/
  rest : σ
  inside_rest : inside rest = none

namespace Script

variable {σ τ α β : Type} (S : Script σ)

/-- A move, or none. -/
def Step (s : σ) (b : Stock) (s' : σ) (b' : Stock) : Prop := S.Move s b s' b' ∨ s' = s ∧ b' = b

theorem Step.stay (s : σ) (b : Stock) : S.Step s b s b := .inr ⟨rfl, rfl⟩

/-- Rooms with the tickets by which they are held. -/
abbrev Held := List (Ticket × RoomId)

/-- A call that holds these rooms may be at a point. -/
def Within (held : Held) (s : σ) : Prop := ∀ room, S.inside s = some room → ∃ t, (t, room) ∈ held

theorem within_of_outside {s : σ} (h : S.inside s = none) (held : Held) : S.Within held s := by
  intro room hr
  rw [h] at hr
  cases hr

/-- What is still held after an action. -/
def keep (held : Held) : Action → Held
  | .leave t => held.filter (·.1 ≠ t)
  | _ => held

/-- Nobody lets go of a room that they do not hold. -/
def Fair (held : Held) : Action → Prop
  | .leave t => t ∈ held.map Prod.fst
  | _ => True

/-- All that a process does, from a point and with rooms held, is in the script, and what it comes
to is as demanded. -/
def Follows (Q : Held → α → σ → Prop) : Held → σ → Process α → Prop
  | held, s, .done a => Q held a s
  | held, s, .act x next => Fair held x ∧ ∀ w : World, w.Undisturbed → ∃ s',
      S.Step s w.stock s' (w.perform x).2.stock ∧
        (S.Within held s → S.Within (keep held x) s') ∧
          Follows Q (keep held x) s' (next (w.perform x).1)
  | held, s, .enter room next => ∀ t, ∃ s',
      (∀ b, S.Step s b s' b) ∧ (S.Within held s → S.Within ((t, room) :: held) s') ∧
        Follows Q ((t, room) :: held) s' (next t)

variable {S} {Q : Held → α → σ → Prop} {R : Held → β → σ → Prop} {held : Held} {s : σ}

theorem Follows.bind {p : Process α} {f : α → Process β} (hp : S.Follows Q held s p)
    (hf : ∀ held a s, Q held a s → S.Follows R held s (f a)) : S.Follows R held s (p.bind f) := by
  induction p generalizing held s with
  | done a => exact hf _ _ _ hp
  | act x next ih =>
    refine ⟨hp.1, fun w hw => ?_⟩
    obtain ⟨s', hs, hin, hn⟩ := hp.2 w hw
    exact ⟨s', hs, hin, ih _ hn⟩
  | enter room next ih =>
    intro t
    obtain ⟨s', hs, hin, hn⟩ := hp t
    exact ⟨s', hs, hin, ih _ hn⟩

theorem Follows.mono {Q' : Held → α → σ → Prop} {p : Process α} (hp : S.Follows Q held s p)
    (hq : ∀ held a s, Q held a s → Q' held a s) : S.Follows Q' held s p := by
  have h := hp.bind (R := Q') (f := .done) hq
  rwa [Process.bind_done] at h

/-- A script may be played as a part of another one. -/
theorem Follows.embed {T : Script τ} (f : σ → τ)
    (hmove : ∀ s b s' b', S.Move s b s' b' → T.Move (f s) b (f s') b')
    (hin : ∀ s, T.inside (f s) = S.inside s) {p : Process α} (hp : S.Follows Q held s p) :
    T.Follows (fun held a t => ∃ s, t = f s ∧ Q held a s) held (f s) p := by
  have hstep : ∀ {s b s' b'}, S.Step s b s' b' → T.Step (f s) b (f s') b' := by
    rintro s b s' b' (h | ⟨rfl, rfl⟩)
    · exact .inl (hmove _ _ _ _ h)
    · exact .inr ⟨rfl, rfl⟩
  have hwithin : ∀ {held s}, T.Within held (f s) ↔ S.Within held s := by
    intro held s
    unfold Within
    rw [hin]
  induction p generalizing held s with
  | done a => exact ⟨s, rfl, hp⟩
  | act x next ih =>
    refine ⟨hp.1, fun w hw => ?_⟩
    obtain ⟨s', hs, hi, hn⟩ := hp.2 w hw
    exact ⟨f s', hstep hs, fun h => hwithin.mpr (hi (hwithin.mp h)), ih _ hn⟩
  | enter room next ih =>
    intro t
    obtain ⟨s', hs, hi, hn⟩ := hp t
    exact ⟨f s', fun b => hstep (hs b), fun h => hwithin.mpr (hi (hwithin.mp h)), ih _ hn⟩

variable (S) in
/-- A process follows the script and holds in the end the rooms that it held at first. -/
def Runs (held : Held) (Q : α → σ → Prop) (s : σ) (p : Process α) : Prop :=
  S.Follows (fun held' a s' => held' = held ∧ Q a s') held s p

variable (S) in
/-- From the one point to the other a call need not enter a room. -/
def Stays (s s' : σ) : Prop := ∀ room, S.inside s' = some room → S.inside s = some room

theorem Stays.refl (s : σ) : S.Stays s s := fun _ => id

theorem stays_out {s s' : σ} (h : S.inside s' = none) : S.Stays s s' := by
  intro room hr
  rw [h] at hr
  cases hr

theorem Stays.within {s s' : σ} (h : S.Stays s s') (hs : S.Within held s) : S.Within held s' :=
  fun room hr => hs room (h room hr)

section Rules

variable {Q : α → σ → Prop} {R : β → σ → Prop}

theorem Runs.done {a : α} (h : Q a s) : S.Runs held Q s (.done a) := ⟨rfl, h⟩

theorem Runs.bind {p : Process α} {f : α → Process β} (hp : S.Runs held Q s p)
    (hf : ∀ a s', Q a s' → S.Runs held R s' (f a)) : S.Runs held R s (p >>= f) := by
  apply Follows.bind hp
  rintro _ a s' ⟨rfl, hq⟩
  exact hf a s' hq

theorem Runs.mono {Q' : α → σ → Prop} {p : Process α} (hp : S.Runs held Q s p)
    (hq : ∀ a s, Q a s → Q' a s) : S.Runs held Q' s p :=
  Follows.mono hp fun _ a s' h => ⟨h.1, hq a s' h.2⟩

theorem Runs.rooms {c : RoomCall} {f : c.Answer → Process α}
    (h : ∀ w : World, ∃ s',
      S.Step s w.stock s' { w.stock with inventory := (w.inventory.answer w.now c).2 } ∧
        S.Stays s s' ∧ S.Runs held Q s' (f (w.inventory.answer w.now c).1)) :
    S.Runs held Q s (.act (.rooms c) f) := by
  refine ⟨trivial, fun w hw => ?_⟩
  obtain ⟨s', hs, hi, hn⟩ := h w
  change ∃ s', S.Step s w.stock s' (w.callRooms c).2.stock ∧ _ ∧
    S.Follows _ held s' (f (w.callRooms c).1)
  rw [hw.callRooms]
  exact ⟨s', hs, hi.within, hn⟩

theorem Runs.ledger {c : LedgerCall} {f : c.Answer → Process α}
    (h : ∀ w : World, ∃ s',
      S.Step s w.stock s' { w.stock with ledger := (w.ledger.answer w.now c).2 } ∧
        S.Stays s s' ∧ S.Runs held Q s' (f (w.ledger.answer w.now c).1)) :
    S.Runs held Q s (.act (.ledger c) f) := by
  refine ⟨trivial, fun w hw => ?_⟩
  obtain ⟨s', hs, hi, hn⟩ := h w
  change ∃ s', S.Step s w.stock s' (w.callLedger c).2.stock ∧ _ ∧
    S.Follows _ held s' (f (w.callLedger c).1)
  rw [hw.callLedger]
  exact ⟨s', hs, hi.within, hn⟩

/-- A call may move on while it counts something, or takes its time. -/
theorem Runs.meter {m : Meter} {s' : σ} {next : Unit → Process α} (hs : ∀ b, S.Step s b s' b)
    (hi : S.Stays s s') (h : S.Runs held Q s' (next ())) : S.Runs held Q s (.act (.meter m) next) :=
  ⟨trivial, fun w _ => ⟨s', hs w.stock, hi.within, h⟩⟩

theorem Runs.attempt {o : Operation} {next : Unit → Process α} (h : S.Runs held Q s (next ())) :
    S.Runs held Q s (.act (.attempt o) next) :=
  ⟨trivial, fun w _ => ⟨s, .stay S s w.stock, id, h⟩⟩

theorem Runs.sleep {n : Nat} {next : Unit → Process α} (h : S.Runs held Q s (next ())) :
    S.Runs held Q s (.act (.sleep n) next) :=
  ⟨trivial, fun w _ => ⟨s, .stay S s w.stock, id, h⟩⟩

theorem Runs.planned {o : Operation} {next : Option CallFailure → Process α}
    (h : ∀ b : Stock, ∃ s', S.Step s b s' b ∧ S.Stays s s' ∧
      S.Runs held Q s' (next (b.planned o))) :
    S.Runs held Q s (.act (.planned o) next) := by
  refine ⟨trivial, fun w _ => ?_⟩
  obtain ⟨s', hs, hi, hn⟩ := h w.stock
  rw [← World.planned_eq] at hn
  exact ⟨s', hs, hi.within, hn⟩

/-- Work inside a room, whose ticket is of no use afterwards. -/
theorem Runs.within {room : RoomId} {body : Process α} {s' : σ} (hs : ∀ b, S.Step s b s' b)
    (hin : S.inside s' = some room)
    (hbody : ∀ t, S.Runs [(t, room)] (fun a s => S.inside s = none ∧ Q a s) s' body) :
    S.Runs [] Q s (Process.within room body) := by
  intro t
  refine ⟨s', hs, ?_, ?_⟩
  · intro _ r hr
    rw [hin] at hr
    cases hr
    exact ⟨t, List.mem_singleton_self _⟩
  · -- the ticket goes when the call is out of the room already
    apply Follows.bind (hbody t)
    rintro _ a s'' ⟨rfl, hout, hq⟩
    refine ⟨List.mem_singleton_self _, fun w _ => ⟨s'', .stay S s'' w.stock, ?_, ?_, hq⟩⟩
    · intro _
      exact S.within_of_outside hout _
    · simp [keep]

end Rules

end Script

end Lodging
