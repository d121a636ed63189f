import Lodging.Proofs.Journal
import Lodging.Proofs.Remote.InStep

/-!
The keeper of the rooms goes in step with itself, so that it does not matter who asks it. So does a
repetition, if its attempts do. While the rooms fit their JSON, so do those that are recommended.
-/

namespace Lodging

open Process (InStep)

namespace Keeper

variable {Kind : Stock → Prop} {α β : Type} {P : α → Prop} {Q : β → Prop}

/-- A task that goes in step with itself, and whose value is of a sort. -/
def Uniform (Kind : Stock → Prop) (P : α → Prop) (t : Task α) : Prop :=
  InStep Kind (fun r s => r = s ∧ ∀ a, r = .ok a → P a) t.run t.run

theorem Uniform.pure {a : α} (h : P a) : Uniform Kind P (return a) := by
  apply InStep.done
  refine ⟨rfl, fun b hb => ?_⟩
  cases hb
  exact h

theorem Uniform.throw (f : RoomFailure) : Uniform Kind P (throw f) := .done ⟨rfl, nofun⟩

theorem Uniform.bind {t : Task α} {f : α → Task β} (ht : Uniform Kind P t)
    (hf : ∀ a, P a → Uniform Kind Q (f a)) : Uniform Kind Q (t >>= f) := by
  apply InStep.bind ht
  rintro r _ ⟨rfl, hr⟩
  cases r with
  | ok a => exact hf a (hr a rfl)
  | error e => exact .done ⟨rfl, nofun⟩

theorem Uniform.ask {c : RoomCall} {P : c.Value → Prop}
    (hkind : ∀ w : World, Kind w.stock → Kind (w.callRooms c).2.stock)
    (h : ∀ w : World, Kind w.stock → ∀ a, (w.callRooms c).1 = .ok a → P a) :
    Uniform Kind P (ask c) :=
  .act nofun hkind fun w hw => .done ⟨rfl, h w hw⟩

section Locks

variable (hkind : ∀ c, ∀ w : World, Kind w.stock → Kind (w.callRooms c).2.stock)
include hkind

theorem uniform_ask (c : RoomCall) : Uniform Kind (fun _ => True) (ask c) :=
  .ask (hkind c) fun _ _ _ _ => trivial

theorem uniform_getRoom (id : RoomId) : Uniform Kind (fun _ => True) (getRoom id) := by
  apply Uniform.bind (uniform_ask hkind _)
  intro r _
  cases r with
  | some r => exact .pure trivial
  | none => exact .throw _

theorem uniform_placeNew (n : NewLock) : Uniform Kind (fun _ => True) (placeNew n) := by
  refine InStep.act nofun (hkind _) fun w _ => ?_
  generalize (w.perform (.rooms (.insertLock n))).1 = r
  match r with
  | .ok l => exact Uniform.pure trivial
  | .error (.duplicate c) =>
    -- someone else was faster: their lock is looked up
    apply Uniform.bind (uniform_ask hkind _)
    intro l _
    cases l with
    | some l => exact .pure trivial
    | none => exact .throw _
  | .error (.noNights _) | .error (.notFound _) | .error (.notOperational _)
  | .error (.unavailable ..) | .error .storage | .error .migration => exact Uniform.throw _

theorem uniform_place (n : NewLock) : Uniform Kind (fun _ => True) (place n) := by
  apply Uniform.bind (uniform_getRoom hkind _)
  intro r _
  apply Uniform.bind (uniform_ask hkind _)
  intro l _
  cases l with
  | some l => exact .pure trivial
  | none =>
    cases r.operational with
    | false => exact .throw _
    | true =>
      apply Uniform.bind (uniform_ask hkind _)
      intro locks _
      cases locks with
      | nil => exact uniform_placeNew hkind n
      | cons l rest => exact .throw _

theorem uniform_remove (room : RoomId) (uid : Uid) :
    Uniform Kind (fun _ => True) (remove room uid) := by
  apply Uniform.bind (uniform_getRoom hkind _)
  intro _ _
  apply Uniform.bind (uniform_ask hkind _)
  intro l _
  cases l with
  | none => exact .pure trivial
  | some l =>
    by_cases hl : l.room = room
    · simp only [hl, ne_eq, not_true_eq_false, if_false]
      apply Uniform.bind (uniform_ask hkind _)
      intro b _
      cases b with
      | true => exact InStep.act nofun (fun _ => id) fun _ _ => Uniform.pure trivial
      | false => exact .pure trivial
    · simp only [ne_eq, hl, not_false_eq_true, if_true]
      exact .pure trivial

end Locks

/-- Work inside a room goes in step if the work does. -/
theorem inStep_within (room : RoomId) {t : Task α} (ht : Uniform Kind P t) :
    InStep Kind Eq (Process.within room t.run) (Process.within room t.run) := by
  apply InStep.enter
  intro ticket
  apply InStep.bind ht
  rintro r _ ⟨rfl, -⟩
  exact .act nofun (fun _ => id) fun _ _ => .done rfl

theorem inStep_confirm (hkind : ∀ c, ∀ w : World, Kind w.stock → Kind (w.callRooms c).2.stock)
    (n : NewLock) : InStep Kind Eq (confirm n) (confirm n) := by
  apply InStep.bind (inStep_within n.room (uniform_place hkind n))
  rintro r _ rfl
  exact .act nofun (fun _ => id) fun _ _ => .done rfl

theorem inStep_release (hkind : ∀ c, ∀ w : World, Kind w.stock → Kind (w.callRooms c).2.stock)
    (room : RoomId) (uid : Uid) : InStep Kind Eq (release room uid) (release room uid) :=
  inStep_within room (uniform_remove hkind room uid)

/-- Looking at the inventory leaves it as it is. -/
theorem Uniform.look {Kind : Inventory → Prop} {c : RoomCall} {P : c.Value → Prop}
    (hlook : ∀ now v, (Inventory.answer now v c).2 = v)
    (h : ∀ now v a, Kind v → ((Inventory.answer now v c).1 = .ok a ∨ ∃ m, c.spoiled m = .ok a) →
      P a) :
    Uniform (fun b => Kind b.inventory) P (Keeper.ask c) := by
  apply Uniform.ask
  · intro w hw
    change Kind (w.callRooms c).2.inventory
    rcases w.callRooms_cases c with ⟨-, hv⟩ | ⟨-, hv⟩
    · rw [hv, hlook]
      exact hw
    · rw [hv]
      exact hw
  · intro w hw a ha
    apply h w.now w.inventory a hw
    rcases w.callRooms_cases c with ⟨hanswer, -⟩ | ⟨⟨m, hanswer⟩, -⟩
    · exact .inl (hanswer.symm.trans ha)
    · exact .inr ⟨m, hanswer.symm.trans ha⟩

theorem uniform_free (stay : Stay) {rs : List Room} (h : ∀ r ∈ rs, r.summary.Fits) :
    Uniform (fun b => b.inventory.Fits) (fun found => ∀ r ∈ found, r.summary.Fits)
      (free stay rs) := by
  induction rs with
  | nil => exact .pure h
  | cons r rest ih =>
    have hrest := ih fun q hq => h q (List.mem_cons_of_mem _ hq)
    have hlook : Uniform (fun b => b.inventory.Fits) (fun _ => True)
        (ask (.overlapping r.id stay)) :=
      .look (fun _ _ => rfl) fun _ _ _ _ _ => trivial
    apply Uniform.bind hlook
    intro locks _
    cases locks with
    | nil =>
      apply Uniform.bind hrest
      intro found hfound
      exact .pure (List.forall_mem_cons.mpr ⟨h r List.mem_cons_self, hfound⟩)
    | cons l locks => exact hrest

theorem uniform_available (stay : Stay) :
    Uniform (fun b => b.inventory.Fits) (fun found => ∀ r ∈ found, r.Fits) (available stay) := by
  have hrooms : Uniform (fun b => b.inventory.Fits) (fun rs => ∀ r ∈ rs, r.summary.Fits)
      (ask .operationalRooms) := by
    apply Uniform.look (fun _ _ => rfl)
    intro now v a hv ha
    rcases ha with ha | ⟨m, hm⟩
    · cases ha
      exact fun r hr => hv r (List.mem_filter.mp hr).1
    · cases hm
  apply Uniform.bind hrooms
  intro rs hrs
  apply Uniform.bind (uniform_free stay hrs)
  intro found hfound
  apply Uniform.pure
  intro r hr
  obtain ⟨q, hq, rfl⟩ := List.mem_map.mp (List.mem_mergeSort.mp hr)
  exact hfound q hq

theorem uniform_recommend (stay : Stay) :
    Uniform (fun b => b.inventory.Fits) (fun found => ∀ r ∈ found, r.Fits) (recommend stay) := by
  apply Uniform.bind (uniform_available stay)
  intro found hfound
  exact .pure fun r hr => hfound r (List.mem_mergeSort.mp hr)

end Keeper

variable {Kind : Stock → Prop} {α : Type}

theorem inStep_attemptFrom (p : RetryPolicy) (o : Operation)
    {far near : Nat → Process (Except CallFailure α)} (h : ∀ k, InStep Kind Eq (far k) (near k))
    (more attempt : Nat) :
    InStep Kind Eq (p.attemptFrom Gateway.effects o far more attempt)
      (p.attemptFrom Gateway.effects o near more attempt) := by
  have hcount : ∀ m, InStep Kind Eq (Process.meter m) (Process.meter m) :=
    fun _ => .act nofun (fun _ => id) fun _ _ => .done rfl
  have hsleep : ∀ n, InStep Kind Eq (Process.sleep n) (Process.sleep n) :=
    fun _ => .act nofun (fun _ => id) fun _ _ => .done rfl
  -- an attempt goes in step if whatever may follow it does
  have hround : ∀ more attempt,
      InStep Kind Eq (p.afterFailure Gateway.effects o far attempt more)
        (p.afterFailure Gateway.effects o near attempt more) →
      InStep Kind Eq (p.attemptFrom Gateway.effects o far more attempt)
        (p.attemptFrom Gateway.effects o near more attempt) := by
    intro more attempt hafter
    rw [RetryPolicy.attemptFrom_eq, RetryPolicy.attemptFrom_eq]
    apply InStep.bind (h attempt)
    rintro r _ rfl
    cases r with
    | ok a => exact .done rfl
    | error f =>
      cases hf : f.retryable with
      | false =>
        simp only [hf]
        exact .done rfl
      | true =>
        simp only [hf]
        exact hafter
  induction more generalizing attempt with
  | zero => exact hround 0 attempt (InStep.bind (hcount _) fun _ _ _ => .done rfl)
  | succ more ih =>
    apply hround
    apply InStep.bind (hcount _)
    intro _ _ _
    by_cases hd : p.delayAfter attempt = 0
    · simp only [hd]
      exact ih (attempt + 1)
    · simp only [ne_eq, hd, not_false_eq_true, if_true]
      exact InStep.bind (hsleep _) fun _ _ _ => ih (attempt + 1)

theorem inStep_run (p : RetryPolicy) (o : Operation)
    {far near : Nat → Process (Except CallFailure α)} (h : ∀ k, InStep Kind Eq (far k) (near k)) :
    InStep Kind Eq (p.run Gateway.effects o far) (p.run Gateway.effects o near) :=
  inStep_attemptFrom p o h _ _

end Lodging
