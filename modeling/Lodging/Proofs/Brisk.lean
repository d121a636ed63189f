import Lodging.Proofs.Desk.Parts
import Lodging.Proofs.Keeper.Alone

/-!
Calls that never wait when nobody else is about. Such a call takes its actions one after the other
and comes to its end, for whoever enters a room finds it empty and leaves it before going elsewhere.
-/

namespace Lodging

/-- An action that lets go of no room. -/
def Action.Indoors (x : Action) : Prop := ∀ t, x ≠ .leave t

/-- Where nobody was, nobody is left by one who comes and goes. -/
theorem Holds.visitors_leave_request {h : Holds} (hv : h.visitors = []) (room : RoomId) :
    ((h.request room).2.leave (h.request room).1).visitors = [] := by
  refine List.eq_nil_iff_forall_not_mem.mpr fun x hx => ?_
  obtain ⟨hx, hne⟩ := Holds.mem_leave.mp hx
  obtain ⟨g, hvis, -⟩ := Holds.request_visitors (h := h) room
  rw [hvis, hv, List.nil_append, List.mem_singleton] at hx
  rw [hx, Holds.request_ticket] at hne
  exact hne rfl

/-- All other rooms have the gates that they had. -/
theorem Holds.gate?_leave_request {h : Holds} (hv : h.visitors = []) {room r : RoomId}
    (hr : r ≠ room) : ((h.request room).2.leave (h.request room).1).gate? r = h.gate? r := by
  have hleave : ∀ (k : Holds) (t : Ticket), (∀ v ∈ k.visitors, v.room = room) →
      (k.leave t).gate? r = k.gate? r := by
    intro k t hk
    unfold Holds.leave
    cases hvis : k.visitor? t with
    | none => rfl
    | some v =>
      have hroom := hk v (Holds.visitor?_eq_some hvis).1
      simp only
      split
      · rw [hroom]
        exact Holds.lookup_filter_ne hr k.slots
      · rfl
  obtain ⟨g, hvis, -⟩ := Holds.request_visitors (h := h) room
  rw [hleave]
  · unfold Holds.request
    split
    · rfl
    · have hbeq : (r == room) = false := by simpa using hr
      simp only [Holds.gate?, List.lookup_cons, hbeq]
  · intro v hmem
    rw [hvis, hv, List.nil_append, List.mem_singleton] at hmem
    rw [hmem]

namespace Process

variable {α β ε : Type} {kind : Action → Prop} {p : Process α} {w : World}

theorem Solely.advance (hp : p.Solely kind) (hkind : ∀ x, kind x → x.Indoors)
    (hw : w.Undisturbed) : ∃ a w', p.advance w = (.inl a, w') ∧ w'.Undisturbed ∧
      w'.holds = w.holds := by
  induction p generalizing w with
  | done a => exact ⟨a, w, rfl, hw, rfl⟩
  | act x next ih =>
    obtain ⟨a, w', hrest, hund, hholds⟩ := ih _ (hp.2 _) (hw.perform x)
    exact ⟨a, w', hrest, hund, hholds.trans (World.perform_holds (hkind x hp.1))⟩
  | enter room next ih => exact hp.elim

/-- A process that comes to its end at once when nobody is about. -/
def Brisk (p : Process α) : Prop :=
  ∀ w : World, w.Alone → ∃ a w', p.advance w = (.inl a, w') ∧ w'.Alone

theorem brisk_done (a : α) : (done a).Brisk := fun w hw => ⟨a, w, rfl, hw⟩

theorem Brisk.bind {f : α → Process β} (hp : p.Brisk) (hf : ∀ a, (f a).Brisk) :
    (p >>= f).Brisk := by
  intro w hw
  obtain ⟨a, w', hp, hw'⟩ := hp w hw
  obtain ⟨b, w'', hf, hw''⟩ := hf a w' hw'
  exact ⟨b, w'', (advance_bind_of_done hp).trans hf, hw''⟩

theorem Brisk.task_bind {t : ExceptT ε Process α} {f : α → ExceptT ε Process β}
    (ht : t.run.Brisk) (hf : ∀ a, (f a).run.Brisk) : (t >>= f).run.Brisk := by
  refine Brisk.bind ht fun r => ?_
  cases r with
  | ok a => exact hf a
  | error e => exact brisk_done _

theorem Solely.brisk (hp : p.Solely Action.Indoors) : p.Brisk := by
  intro w hw
  obtain ⟨a, w', hadvance, hund, hholds⟩ := hp.advance (fun _ => id) hw.undisturbed
  exact ⟨a, w', hadvance, hund, hholds ▸ hw.sound, hholds ▸ hw.visitors⟩

theorem Brisk.act {x : Action} {next : x.Answer → Process α} (hx : x.Indoors)
    (h : ∀ a, (next a).Brisk) : (act x next).Brisk := by
  refine Brisk.bind (p := Process.act x done) ?_ h
  exact Solely.brisk ⟨hx, fun _ => trivial⟩

/-- Nobody is in the room, so it is entered at once. -/
theorem Solely.advance_within (hp : p.Solely Action.Indoors) (room : RoomId) (hw : w.Alone) :
    ∃ a w', (within room p).advance w = (.inl a, w') ∧ w'.Alone ∧
      w'.holds = (w.holds.request room).2.leave (w.holds.request room).1 := by
  obtain ⟨a, u, hu, hund, hholds⟩ := hp.advance
    (w := { w with holds := (w.holds.request room).2 }) (fun _ => id) hw.undisturbed
  refine ⟨a, { u with holds := u.holds.leave (w.holds.request room).1 }, ?_, ⟨hund, ?_, ?_⟩, ?_⟩
  · simp only [within, Process.advance, Holds.granted_request_of_visitors hw.visitors, if_true]
    exact advance_bind_of_done hu
  · change (u.holds.leave _).Sound
    rw [hholds]
    exact (hw.sound.request room).leave _
  · change (u.holds.leave _).visitors = []
    rw [hholds]
    exact Holds.visitors_leave_request hw.visitors room
  · exact congrArg (Holds.leave · _) hholds

theorem Solely.brisk_within (hp : p.Solely Action.Indoors) (room : RoomId) :
    (within room p).Brisk := by
  intro w hw
  obtain ⟨a, w', hadvance, hw', -⟩ := hp.advance_within room hw
  exact ⟨a, w', hadvance, hw'⟩

theorem brisk_attemptFrom (p : RetryPolicy) (o : Operation)
    {call : ℕ → Process (Except CallFailure α)} (hcall : ∀ k, (call k).Brisk)
    (more attempt : ℕ) : (p.attemptFrom Gateway.effects o call more attempt).Brisk :=
  attemptFrom_ind p o (fun k _ hf => (hcall k).bind hf) brisk_done
    (fun _ _ _ h => Brisk.act (fun _ => nofun) fun _ => h)
    (fun _ _ h => Brisk.act (fun _ => nofun) fun _ => h) more attempt

end Process

open Process (Solely Brisk brisk_done)

namespace Keeper

theorem brisk_confirm (n : NewLock) : (confirm n).Brisk :=
  Brisk.bind ((solely_place (fun _ _ _ => nofun) fun _ => nofun).brisk_within n.room) fun _ =>
    Brisk.act (fun _ => nofun) fun _ => brisk_done _

end Keeper

namespace Gateway

variable (p : RetryPolicy)

theorem brisk_directly {α : Type} (o : Operation) {q : Process (Except CallFailure α)}
    (hq : q.Brisk) : (p.run effects o fun _ => directly o q).Brisk := by
  refine Process.brisk_attemptFrom p o (fun k => ?_) _ _
  refine Brisk.act (fun _ => nofun) fun _ => Brisk.act (fun _ => nofun) fun f => ?_
  cases f with
  | some f => exact brisk_done _
  | none => exact hq

theorem brisk_direct_recommend (stay : Stay) (r : RequestId) :
    ((direct p).recommend stay r).Brisk := by
  refine Process.brisk_attemptFrom p _ (fun k => ?_) _ _
  refine Brisk.act (fun _ => nofun) fun _ => ?_
  change (recommendDirectly stay).Brisk
  exact Brisk.bind (Keeper.solely_recommend (fun _ _ _ => nofun) stay).brisk fun _ => brisk_done _

theorem brisk_direct_confirm (room : RoomId) (o : LockOrder) :
    ((direct p).confirm room o).Brisk := by
  refine brisk_directly p _ ?_
  unfold confirmDirectly
  cases Stay.ofDates o.arrival o.departure with
  | error e => exact brisk_done _
  | ok stay => exact Brisk.bind (Keeper.brisk_confirm _) fun _ => brisk_done _

end Gateway

namespace Desk

variable {kind : Action → Prop} {p : RetryPolicy} {b : Booking} {r : RequestId}

theorem brisk_chooseRoom (q : BookingRequest) (stay : Stay) :
    (chooseRoom (.direct p) q stay r).run.Brisk := by
  unfold chooseRoom
  cases q.anyRoom with
  | true =>
    refine Brisk.task_bind
      (Brisk.bind (Gateway.brisk_direct_recommend p stay r) fun _ => brisk_done _) fun rooms => ?_
    cases rooms <;> exact brisk_done _
  | false => cases q.room <;> exact brisk_done _

theorem brisk_draft (q : BookingRequest) (r : RequestId) (today : Date) :
    (draft (.direct p) q r today).run.Brisk := by
  refine Brisk.task_bind (Brisk.act (fun _ => nofun) fun _ => brisk_done _) fun _ => ?_
  cases Stay.requested q.arrival q.departure today with
  | error f => exact brisk_done _
  | ok stay =>
    refine Brisk.task_bind (solely_accept (fun _ => nofun) fun _ _ => nofun).brisk fun _ => ?_
    exact (brisk_chooseRoom q stay).task_bind fun _ => brisk_done _

theorem brisk_secure (b : Booking) (r : RequestId) : (secure (.direct p) b r).run.Brisk := by
  refine Brisk.task_bind
    (Brisk.bind (Gateway.brisk_direct_confirm p _ _) fun _ => brisk_done _) fun _ => ?_
  exact (solely_move fun _ => nofun).brisk

end Desk

end Lodging
