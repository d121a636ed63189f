import Lodging.Proofs.Desk.Parts
import Lodging.Proofs.Keeper.Counts
import Lodging.World.House

/-!
An inventory that agrees with itself, whoever works on it. Like the keeper, the booking desk removes
only locks that it has just been shown. So in any scene every room goes on to count its locks.
-/

namespace Lodging

/-- An action that removes nothing. -/
def Action.Lasting (x : Action) : Prop := x.Founded fun _ => False

namespace Process

variable {α β ε : Type} {known : Lock → Prop}

theorem Uses.founded_of_lasting {p : Process α} (h : p.Uses Action.Lasting) : p.Founded known :=
  h.founded fun _ _ hx => hx.mono fun _ => False.elim

theorem Founded.task_bind {t : ExceptT ε Process α} {f : α → ExceptT ε Process β}
    (ht : t.run.Founded known) (hf : ∀ a, (f a).run.Founded known) :
    (t >>= f).run.Founded known := by
  refine Founded.bind ht fun r => ?_
  cases r with
  | ok a => exact hf a
  | error e => trivial

theorem founded_attemptFrom (p : RetryPolicy) (o : Operation)
    {call : ℕ → Process (Except CallFailure α)} (hcall : ∀ k, (call k).Founded known)
    (more attempt : ℕ) : (p.attemptFrom Gateway.effects o call more attempt).Founded known :=
  attemptFrom_ind p o (fun k _ hf => (hcall k).bind hf) (fun _ => trivial)
    (fun _ _ _ h => ⟨trivial, fun _ => h.mono fun _ => .inl⟩)
    (fun _ _ h => ⟨trivial, fun _ => h.mono fun _ => .inl⟩) more attempt

end Process

namespace Gateway

theorem lasting_of_idle {x : Action} (h : x.Idle) : x.Lasting := by
  cases x with
  | rooms c => cases h
  | _ => trivial

variable {known : Lock → Prop} (p : RetryPolicy)

theorem lasting_direct_recommend (stay : Stay) (r : RequestId) :
    ((direct p).recommend stay r).Uses Action.Lasting :=
  uses_direct_recommend p (fun _ => lasting_of_idle)
    (fun _ h => Keeper.founded_of_looking h _) stay r

theorem lasting_direct_confirm (room : RoomId) (o : LockOrder) :
    ((direct p).confirm room o).Uses Action.Lasting := by
  refine uses_direct_confirm p (fun _ => lasting_of_idle) fun n _ x hx => ?_
  rcases hx with hx | rfl
  · exact Keeper.founded_of_looking hx _
  · trivial

theorem founded_direct_release (room : RoomId) (uid : Uid) (r : RequestId) :
    ((direct p).release room uid r).Founded known := by
  refine Process.founded_attemptFrom p _ (fun k => ?_) _ _
  refine ⟨trivial, fun _ => ⟨trivial, fun f => ?_⟩⟩
  cases f with
  | some f => trivial
  | none =>
    change Process.Founded _ (releaseDirectly room uid)
    exact Process.Founded.bind (Keeper.founded_release room uid _) fun _ => trivial

end Gateway

namespace Desk

open Process (Founded)

variable {known : Lock → Prop} (p : RetryPolicy) (b : Booking) (r : RequestId)

theorem founded_releaseQuietly : (releaseQuietly (.direct p) b r).Founded known := by
  refine Founded.bind (Gateway.founded_direct_release p b.room b.uid r) fun x => ?_
  cases x with
  | ok a => trivial
  | error f => exact ⟨trivial, fun _ => trivial⟩

theorem founded_compensate : (compensate (.direct p) b r).Founded known := by
  have hmove : (move b .pending .cancelled).run.Founded known :=
    (uses_move trivial).founded_of_lasting
  refine Founded.bind hmove fun x => ?_
  cases x with
  | ok c => exact founded_releaseQuietly p b r
  | error f => exact ⟨trivial, fun _ => founded_releaseQuietly p b r⟩

theorem founded_conclude : (conclude (.direct p) r b).run.Founded known := by
  have hsecure : (secure (.direct p) b r).run.Founded known :=
    (uses_secure trivial (Gateway.lasting_direct_confirm p _ _)).founded_of_lasting
  refine Founded.bind (Founded.bind hsecure fun x => ?_) fun _ => ⟨trivial, fun _ => trivial⟩
  cases x with
  | ok c => exact ⟨trivial, fun _ => trivial⟩
  | error f =>
    refine ⟨trivial, fun _ => ?_⟩
    change Founded _ (compensate (.direct p) b r >>= _)
    exact Founded.bind (founded_compensate p b r) fun _ => trivial

theorem founded_withdraw : (withdraw (.direct p) r b).run.Founded known := by
  unfold withdraw
  split
  · trivial
  · have hrelease : (ExceptT.lift (releaseQuietly (.direct p) b r) :
        Task Unit).run.Founded known :=
      Founded.bind (founded_releaseQuietly p b r) fun _ => trivial
    have hmark : (markCancelled b).run.Founded known :=
      (uses_markCancelled trivial trivial).founded_of_lasting
    refine Founded.task_bind hrelease fun _ => Founded.task_bind hmark fun c => ?_
    exact ⟨trivial, fun _ => trivial⟩

theorem Call.founded (c : Call) (known : Lock → Prop) : c.process.Founded known := by
  cases c with
  | create p user q r today uid =>
    change (Desk.create (.direct p) user q r today uid).run.Founded known
    rw [create_eq_draft]
    have hdraft : (draft (.direct p) q r today).run.Founded known :=
      (uses_draft (fun _ => trivial) trivial fun stay =>
        Gateway.lasting_direct_recommend p stay r).founded_of_lasting
    exact Founded.task_bind hdraft fun x =>
      Founded.task_bind ⟨trivial, fun _ => trivial⟩ fun b => founded_conclude p b r
  | cancel p id user r =>
    have howned : (owned id user).run.Founded known := (uses_owned trivial user).founded_of_lasting
    exact Founded.task_bind howned fun b => founded_withdraw p b r

end Desk

theorem House.Call.founded (c : Call) (known : Lock → Prop) : c.process.Founded known := by
  cases c with
  | keeper c => exact Process.Founded.bind (c.founded known) fun _ => trivial
  | desk c => exact Process.Founded.bind (c.founded known) fun _ => trivial

namespace Scene

variable {κ α : Type} {code : κ → Process α} {s : Scene code}

/-- The inventory is exact, and all calls know what they remove. -/
structure Orderly (s : Scene code) : Prop where
  inventory : s.world.inventory.Exact
  founded : ∀ x ∈ s.jobs, x.2.Founded s.world.inventory.Knows

/-- What one call does leaves the others in the know. -/
theorem Orderly.update (h : s.Orderly) {f : World → Job α → Job α × World} {i : ℕ}
    (hf : ∀ j, j.Founded s.world.inventory.Knows → (f s.world j).2.inventory.Exact ∧
      s.world.inventory.Change (f s.world j).2.inventory ∧
        (f s.world j).1.Founded (f s.world j).2.inventory.Knows) :
    (s.update f i).Orderly ∧ s.world.inventory.Change (s.update f i).world.inventory := by
  unfold Scene.update
  split
  next c j hj =>
    obtain ⟨hexact, hchange, hfounded⟩ := hf j (h.founded _ (List.mem_of_getElem? hj))
    exact ⟨⟨hexact, Job.founded_set h.founded hchange hfounded⟩, hchange⟩
  next => exact ⟨h, .refl _⟩

theorem Orderly.step (hcode : ∀ c known, (code c).Founded known) (h : s.Orderly) (e : Event κ) :
    (s.step e).Orderly ∧ s.world.inventory.Change (s.step e).world.inventory := by
  cases e with
  | start c => exact ⟨⟨h.inventory, Job.founded_concat h.founded (hcode c _)⟩, .refl _⟩
  | advance i => exact h.update fun j hj => hj.advance h.inventory
  | drop i =>
    refine h.update (f := Job.drop) (i := i) fun j hj => ?_
    obtain ⟨hsame, hfounded⟩ := j.drop_inventory s.world
    rw [hsame]
    exact ⟨h.inventory, .refl _, hfounded⟩
  | turn t =>
    obtain ⟨hexact, hchange⟩ := World.exact_turn h.inventory t
    exact ⟨⟨hexact, fun x hx => (h.founded x hx).mono fun l hl => hchange.knows hl⟩, hchange⟩

theorem orderly_run (hcode : ∀ c known, (code c).Founded known) (h : s.Orderly)
    (es : List (Event κ)) : (s.run es).Orderly := by
  induction es generalizing s with
  | nil => exact h
  | cons e rest ih => exact ih (h.step hcode e).1

theorem orderly_opening {w : World} (hw : w.inventory.Exact) : (opening code w).Orderly where
  inventory := hw
  founded _ hx := absurd hx List.not_mem_nil

end Scene

/-- A call that comes to its end at once leaves the inventory exact. -/
theorem Process.Founded.exact_advance {α : Type} {p : Process α} {w w' : World} {a : α}
    (hp : p.Founded w.inventory.Knows) (hv : w.inventory.Exact)
    (h : p.advance w = (.inl a, w')) : w'.inventory.Exact := by
  induction p generalizing w with
  | done b =>
    obtain ⟨-, rfl⟩ := Prod.mk.inj h
    exact hv
  | act x next ih =>
    obtain ⟨hexact, hchange, hshown⟩ := World.perform_exact hv hp.1
    refine ih _ ((hp.2 _).mono fun l hl => hchange.knows ?_) hexact h
    exact hl.elim id (hshown l)
  | enter room next ih =>
    simp only [advance] at h
    split at h
    · exact ih (w := { w with holds := (w.holds.request room).2 }) _ (hp _) hv h
    · cases (Prod.mk.inj h).1

/-- Whatever goes on in a house, every room counts the locks that are held on it. -/
theorem House.exact_after (now : Instant) (es : List (Event Call)) :
    (after now es).world.inventory.Exact :=
  (Scene.orderly_run Call.founded (Scene.orderly_opening Inventory.exact_empty) es).inventory

/-- So it is at a desk that starts with new rooms. -/
theorem Inventory.exact_furnished (rooms : List NewRoom) : (furnished rooms).Exact := by
  have hrooms : ∀ v : Inventory, v.Exact →
      (rooms.foldl (fun v n => (v.insertRoom n).2) v).Exact := by
    induction rooms with
    | nil => exact fun v hv => hv
    | cons n rest ih => exact fun v hv => ih _ (hv.insertRoom n)
  exact hrooms _ exact_empty

end Lodging
