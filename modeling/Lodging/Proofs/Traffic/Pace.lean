import Lodging.Proofs.Desk.Parts
import Lodging.World.Traffic

/-!
The pace of a process: how many strides it makes at most, whatever it is answered, and that it is in
one room at a time, which it leaves before it sleeps or lines up again. Each part of the keeper, the
direct gateway and the booking desk has a pace of its own, and that of a call is made up of them.
-/

namespace Lodging

namespace Action

/-- What a process may do that holds a room, or none: it lets go only of the room that it holds,
sleeps only outside, and adds no rooms. -/
def Fits (held : Option Ticket) : Action → Prop
  | leave t => held = some t
  | sleep _ => held = none
  | rooms (.insertRoom _) => False
  | _ => True

/-- The room that is held after an action. -/
def keeps (held : Option Ticket) : Action → Option Ticket
  | leave _ => none
  | _ => held

/-- An answer that can come from an inventory of so many rooms. -/
def Allows (rooms : ℕ) : (x : Action) → x.Answer → Prop
  | .rooms .operationalRooms, .ok rs => rs.length ≤ rooms
  | _, _ => True

end Action

/-- From a room that is held, or none, to a last one, in so many strides at most. -/
def Process.Paced {α : Type} (rooms : ℕ) : Process α → ℕ → Option Ticket → Option Ticket → Prop
  | .done _, _, held, last => held = last
  | .act x next, n, held, last => x.Fits held ∧ ∃ m, n = m + 1 ∧
      ∀ a, x.Allows rooms a → (next a).Paced rooms m (x.keeps held) last
  | .enter _ next, n, held, last => held = none ∧ ∃ m, n = m + 2 ∧
      ∀ t, (next t).Paced rooms m (some t) last

namespace Process

variable {α β ε : Type} {rooms n m : ℕ} {held mid last : Option Ticket}

theorem Paced.mono {p : Process α} (hp : p.Paced rooms n held last) (hle : n ≤ m) :
    p.Paced rooms m held last := by
  induction p generalizing n m held with
  | done a => exact hp
  | act x next ih =>
    obtain ⟨hfits, k, rfl, hnext⟩ := hp
    refine ⟨hfits, m - 1, by omega, fun a ha => ?_⟩
    exact ih a (hnext a ha) (by omega)
  | enter room next ih =>
    obtain ⟨hnone, k, rfl, hnext⟩ := hp
    refine ⟨hnone, m - 2, by omega, fun t => ?_⟩
    exact ih t (hnext t) (by omega)

theorem Paced.bind {p : Process α} {f : α → Process β} (hp : p.Paced rooms n held mid)
    (hf : ∀ a, (f a).Paced rooms m mid last) : (p >>= f).Paced rooms (n + m) held last := by
  change (p.bind f).Paced rooms (n + m) held last
  induction p generalizing n held with
  | done a =>
    cases hp
    exact (hf a).mono (Nat.le_add_left m n)
  | act x next ih =>
    obtain ⟨hfits, k, rfl, hnext⟩ := hp
    refine ⟨hfits, k + m, by omega, fun a ha => ?_⟩
    exact ih a (hnext a ha)
  | enter room next ih =>
    obtain ⟨hnone, k, rfl, hnext⟩ := hp
    refine ⟨hnone, k + m, by omega, fun t => ?_⟩
    exact ih t (hnext t)

/-- What comes of a process makes no more strides. -/
theorem Paced.map {p : Process α} {f : α → β} (hp : p.Paced rooms n held last) :
    (p >>= fun a => .done (f a)).Paced rooms n held last :=
  Paced.bind (m := 0) hp fun _ => rfl

theorem Paced.act {x : Action} {next : x.Answer → Process α} (hfits : x.Fits held)
    (hnext : ∀ a, x.Allows rooms a → (next a).Paced rooms n (x.keeps held) last) :
    (Process.act x next).Paced rooms (n + 1) held last :=
  ⟨hfits, n, rfl, hnext⟩

theorem paced_meter (event : Meter) : (meter event).Paced rooms 1 held held :=
  Paced.act (n := 0) trivial fun _ _ => rfl

theorem Paced.task_bind {t : ExceptT ε Process α} {f : α → ExceptT ε Process β}
    (ht : t.run.Paced rooms n held held) (hf : ∀ a, (f a).run.Paced rooms m held held) :
    (t >>= f).run.Paced rooms (n + m) held held := by
  refine Paced.bind ht fun r => ?_
  cases r with
  | ok a => exact hf a
  | error f => exact rfl

/-- Who is in no room may enter one, do something there and leave it again. -/
theorem Paced.within {room : RoomId} {body : Process α}
    (hbody : ∀ t, body.Paced rooms n (some t) (some t)) :
    (Process.within room body).Paced rooms (n + 3) none none := by
  refine ⟨rfl, n + 1, rfl, fun t => ?_⟩
  exact Paced.bind (hbody t) fun _ => Paced.act (n := 0) rfl fun _ _ => rfl

theorem Paced.metered {p : Process α} (hp : p.Paced rooms n held held) (event : α → Meter) :
    (p.metered event).Paced rooms (n + 1) held held :=
  Paced.bind hp fun _ => paced_meter _

/-- Between its attempts a repetition is in no room, for it may sleep there. -/
theorem paced_attemptFrom (p : RetryPolicy) (o : Operation)
    {call : Nat → Process (Except CallFailure α)}
    (hcall : ∀ k, (call k).Paced rooms n none none) (more attempt : ℕ) :
    (p.attemptFrom Gateway.effects o call more attempt).Paced rooms ((more + 1) * (n + 2))
      none none := by
  -- an attempt, and then whatever may follow it
  have hround : ∀ more attempt m,
      (p.afterFailure Gateway.effects o call attempt more).Paced rooms m none none →
      (p.attemptFrom Gateway.effects o call more attempt).Paced rooms (n + m) none none := by
    intro more attempt m hafter
    rw [RetryPolicy.attemptFrom_eq]
    refine Paced.bind (hcall attempt) fun r => ?_
    cases r with
    | ok a => exact rfl
    | error f =>
      cases hf : f.retryable with
      | false =>
        simp only [hf]
        exact rfl
      | true =>
        simp only [hf]
        exact hafter
  induction more generalizing attempt with
  | zero =>
    have hspan : (0 + 1) * (n + 2) = n + 2 := Nat.one_mul _
    rw [hspan]
    exact hround 0 attempt 2 (Paced.act (n := 1) trivial fun _ _ => rfl)
  | succ more ih =>
    -- what may lie between two attempts, then the others
    have hspan : (more + 1 + 1) * (n + 2) = n + (1 + (1 + (more + 1) * (n + 2))) := by
      rw [Nat.succ_mul (more + 1)]
      omega
    rw [hspan]
    apply hround
    refine Paced.bind (paced_meter _) fun _ => ?_
    by_cases hd : p.delayAfter attempt = 0
    · simp only [hd]
      exact (ih (attempt + 1)).mono (Nat.le_add_left _ 1)
    · simp only [ne_eq, hd, not_false_eq_true, if_true]
      rw [Nat.add_comm 1]
      exact Paced.act rfl fun _ _ => ih (attempt + 1)

theorem paced_run (p : RetryPolicy) (o : Operation) {call : Nat → Process (Except CallFailure α)}
    (hcall : ∀ k, (call k).Paced rooms n none none) :
    (p.run Gateway.effects o call).Paced rooms (p.span n) none none := by
  have hattempts : p.maxAttempts - 1 + 1 = p.maxAttempts := Nat.sub_add_cancel p.attempts_pos
  have h := paced_attemptFrom p o hcall (p.maxAttempts - 1) 1
  rwa [hattempts] at h

end Process

open Process (Paced paced_meter)

namespace Keeper

variable {rooms : ℕ} {held : Option Ticket}

theorem paced_ask {c : RoomCall} (hc : ∀ n, c ≠ .insertRoom n) :
    (ask c).run.Paced rooms 1 held held := by
  refine Paced.act (n := 0) ?_ fun _ _ => ?_
  · cases c with
    | insertRoom n => exact absurd rfl (hc n)
    | _ => trivial
  · cases c <;> exact rfl

theorem paced_getRoom (id : RoomId) : (getRoom id).run.Paced rooms 1 held held := by
  refine Paced.task_bind (m := 0) (paced_ask nofun) fun r => ?_
  cases r <;> exact rfl

theorem paced_placeNew (n : NewLock) : (placeNew n).run.Paced rooms 2 held held := by
  refine Paced.act (n := 1) trivial fun r _ => ?_
  match r with
  | .ok l => exact rfl
  | .error (.duplicate c) =>
    refine Paced.task_bind (m := 0) (paced_ask nofun) fun l => ?_
    cases l <;> exact rfl
  | .error (.noNights _) | .error (.notFound _) | .error (.notOperational _)
  | .error (.unavailable ..) | .error .storage | .error .migration => exact rfl

theorem paced_place (n : NewLock) : (place n).run.Paced rooms 5 held held := by
  refine Paced.task_bind (n := 1) (m := 4) (paced_getRoom _) fun r => ?_
  refine Paced.task_bind (n := 1) (m := 3) (paced_ask nofun) fun l => ?_
  cases l with
  | some l => exact rfl
  | none =>
    cases r.operational with
    | false => exact rfl
    | true =>
      refine Paced.task_bind (n := 1) (m := 2) (paced_ask nofun) fun locks => ?_
      cases locks with
      | nil => exact paced_placeNew n
      | cons l rest => exact rfl

theorem paced_confirm (n : NewLock) : (confirm n).Paced rooms 9 none none :=
  Paced.metered (n := 8) (Paced.within fun _ => paced_place n) _

theorem paced_remove (room : RoomId) (uid : Uid) :
    (remove room uid).run.Paced rooms 4 held held := by
  refine Paced.task_bind (n := 1) (m := 3) (paced_getRoom _) fun _ => ?_
  refine Paced.task_bind (n := 1) (m := 2) (paced_ask nofun) fun l => ?_
  cases l with
  | none => exact rfl
  | some l =>
    by_cases hl : l.room = room
    · simp only [hl, ne_eq, not_true_eq_false, if_false]
      refine Paced.task_bind (n := 1) (m := 1) (paced_ask nofun) fun b => ?_
      cases b with
      | true => exact paced_meter _
      | false => exact rfl
    · simp only [ne_eq, hl, not_false_eq_true, if_true]
      exact rfl

theorem paced_release (room : RoomId) (uid : Uid) : (release room uid).Paced rooms 7 none none :=
  Paced.within fun _ => paced_remove room uid

/-- One stride for each room that is looked at. -/
theorem paced_free (stay : Stay) (rs : List Room) :
    (free stay rs).run.Paced rooms rs.length held held := by
  induction rs with
  | nil => exact rfl
  | cons r rest ih =>
    rw [List.length_cons, Nat.add_comm]
    refine Paced.task_bind (paced_ask nofun) fun locks => ?_
    cases locks with
    | nil => exact Paced.task_bind (m := 0) ih fun _ => rfl
    | cons l locks => exact ih

theorem paced_available (stay : Stay) : (available stay).run.Paced rooms (rooms + 1) held held := by
  refine Paced.act trivial fun r hr => ?_
  cases r with
  | error f => exact rfl
  | ok rs =>
    have hfree : (free stay rs).run.Paced rooms rooms held held := (paced_free stay rs).mono hr
    exact Paced.task_bind (m := 0) hfree fun _ => rfl

theorem paced_recommend (stay : Stay) : (recommend stay).run.Paced rooms (rooms + 1) held held :=
  Paced.task_bind (m := 0) (paced_available stay) fun _ => rfl

end Keeper

namespace Gateway

variable {rooms : ℕ} (p : RetryPolicy)

theorem paced_directly {α : Type} (o : Operation) {q : Process (Except CallFailure α)} {n : ℕ}
    (hq : q.Paced rooms n none none) : (directly o q).Paced rooms (n + 2) none none := by
  refine Paced.act (n := n + 1) trivial fun _ _ => ?_
  refine Paced.act trivial fun f _ => ?_
  cases f with
  | some f => exact rfl
  | none => exact hq

theorem paced_direct_recommend (stay : Stay) (r : RequestId) :
    ((direct p).recommend stay r).Paced rooms (p.span (rooms + 2)) none none := by
  refine Process.paced_run p _ fun _ => ?_
  refine Paced.act (n := rooms + 1) trivial fun _ _ => ?_
  exact Paced.map (Keeper.paced_recommend stay)

theorem paced_direct_confirm (room : RoomId) (o : LockOrder) :
    ((direct p).confirm room o).Paced rooms (p.span 11) none none := by
  refine Process.paced_run p _ fun _ => paced_directly (n := 9) _ ?_
  unfold confirmDirectly
  cases Stay.ofDates o.arrival o.departure with
  | error e => exact rfl
  | ok stay => exact Paced.map (Keeper.paced_confirm _)

theorem paced_direct_release (room : RoomId) (uid : Uid) (r : RequestId) :
    ((direct p).release room uid r).Paced rooms (p.span 9) none none :=
  Process.paced_run p _ fun _ =>
    paced_directly (n := 7) _ (Paced.map (Keeper.paced_release room uid))

end Gateway

namespace Desk

variable {rooms : ℕ} {held : Option Ticket} {g : Gateway} {r : RequestId}

theorem paced_ask (c : LedgerCall) : (ask c).run.Paced rooms 1 held held :=
  Paced.act (n := 0) trivial fun _ _ => rfl

theorem paced_note (event : Meter) : (note event).run.Paced rooms 1 held held :=
  Paced.act (n := 0) trivial fun _ _ => rfl

theorem paced_invoke {α : Type} {p : Process (Except CallFailure α)} {n : ℕ}
    (hp : p.Paced rooms n held held) : (invoke p).run.Paced rooms n held held :=
  Paced.map hp

theorem paced_accept (r : RequestId) : (accept r).run.Paced rooms 2 held held := by
  refine Paced.act (n := 1) trivial fun a _ => ?_
  match a with
  | .ok () => exact rfl
  | .error (.duplicate q) => exact Paced.act (n := 0) trivial fun _ _ => rfl
  | .error (.invalid _) | .error .noRoom | .error (.notFound _) | .error (.stale ..)
  | .error (.inventory _) | .error .storage | .error .migration => exact rfl

theorem paced_chooseRoom {stay : Stay} {n : ℕ}
    (hrecommend : (g.recommend stay r).Paced rooms n held held) (q : BookingRequest) :
    (chooseRoom g q stay r).run.Paced rooms n held held := by
  unfold chooseRoom
  cases q.anyRoom with
  | true =>
    refine Paced.task_bind (m := 0) (paced_invoke hrecommend) fun found => ?_
    cases found <;> exact rfl
  | false => cases q.room <;> exact rfl

theorem paced_move (b : Booking) (expected next : Status) :
    (move b expected next).run.Paced rooms 1 held held := by
  refine Paced.task_bind (m := 0) (paced_ask _) fun c => ?_
  cases c <;> exact rfl

theorem paced_releaseQuietly {b : Booking} {n : ℕ}
    (hrelease : (g.release b.room b.uid r).Paced rooms n held held) :
    (releaseQuietly g b r).Paced rooms (n + 1) held held := by
  refine Paced.bind hrelease fun x => ?_
  cases x with
  | ok a => exact rfl
  | error f => exact paced_meter _

theorem paced_compensate {b : Booking} {n : ℕ}
    (hrelease : (g.release b.room b.uid r).Paced rooms n held held) :
    (compensate g b r).Paced rooms (n + 3) held held := by
  have hquiet := paced_releaseQuietly hrelease
  have hparts : 1 + (1 + (n + 1)) = n + 3 := by omega
  rw [← hparts]
  refine Paced.bind (paced_move b .pending .cancelled) fun x => ?_
  cases x with
  | ok c => exact hquiet.mono (Nat.le_add_left _ 1)
  | error f => exact Paced.bind (paced_meter _) fun _ => hquiet

theorem paced_secure {b : Booking} {n : ℕ}
    (hconfirm : (g.confirm b.room ⟨b.stay.arrival, b.stay.departure, b.uid, r⟩).Paced rooms n
      held held) : (secure g b r).run.Paced rooms (n + 1) held held :=
  Paced.task_bind (paced_invoke hconfirm) fun _ => paced_move b .pending .confirmed

theorem paced_conclude {b : Booking} {n m : ℕ}
    (hconfirm : (g.confirm b.room ⟨b.stay.arrival, b.stay.departure, b.uid, r⟩).Paced rooms n
      held held)
    (hrelease : (g.release b.room b.uid r).Paced rooms m held held) :
    (conclude g r b).run.Paced rooms (n + m + 6) held held := by
  have hparts : n + 1 + (1 + (m + 3)) + 1 = n + m + 6 := by omega
  rw [← hparts]
  refine Paced.metered ?_ _
  refine Paced.bind (paced_secure hconfirm) fun x => ?_
  cases x with
  | ok c => exact (Paced.map (paced_meter _)).mono (Nat.le_add_right 1 _)
  | error f =>
    refine Paced.bind (paced_meter _) fun _ => ?_
    exact Paced.map (paced_compensate hrelease)

theorem paced_draft {n : ℕ} (hrecommend : ∀ stay, (g.recommend stay r).Paced rooms n held held)
    (q : BookingRequest) (today : Date) :
    (draft g q r today).run.Paced rooms (n + 3) held held := by
  have hparts : 1 + (2 + n) = n + 3 := by omega
  rw [← hparts]
  refine Paced.task_bind (paced_note _) fun _ => ?_
  cases Stay.requested q.arrival q.departure today with
  | error f => exact rfl
  | ok stay =>
    refine Paced.task_bind (paced_accept r) fun _ => ?_
    exact Paced.task_bind (m := 0) (paced_chooseRoom (hrecommend stay) q) fun _ => rfl

theorem paced_owned (id : BookingId) (user : UserId) :
    (owned id user).run.Paced rooms 1 held held := by
  refine Paced.task_bind (m := 0) (paced_ask _) fun b => ?_
  cases b with
  | none => exact rfl
  | some b =>
    simp only
    split <;> exact rfl

theorem paced_markCancelled (b : Booking) : (markCancelled b).run.Paced rooms 2 held held := by
  refine Paced.task_bind (m := 1) (paced_ask _) fun c => ?_
  cases c with
  | some c => exact rfl
  | none =>
    refine Paced.task_bind (m := 0) (paced_ask _) fun d => ?_
    cases d with
    | none => exact rfl
    | some d =>
      simp only
      split <;> exact rfl

theorem paced_create (p : RetryPolicy) (user : UserId) (q : BookingRequest) (r : RequestId)
    (today : Date) (uid : Uid) : (create (.direct p) user q r today uid).run.Paced rooms
      (p.span (rooms + 2) + p.span 11 + p.span 9 + 10) none none := by
  have hparts : p.span (rooms + 2) + 3 + (1 + (p.span 11 + p.span 9 + 6)) =
      p.span (rooms + 2) + p.span 11 + p.span 9 + 10 := by omega
  rw [create_eq_draft, ← hparts]
  have hrecommend : ∀ stay, ((Gateway.direct p).recommend stay r).Paced rooms (p.span (rooms + 2))
      none none := fun stay => Gateway.paced_direct_recommend p stay r
  have hdraft := paced_draft hrecommend q today
  refine Paced.task_bind hdraft fun x => ?_
  refine Paced.task_bind (paced_ask _) fun b => ?_
  exact paced_conclude (Gateway.paced_direct_confirm p _ _) (Gateway.paced_direct_release p _ _ r)

theorem paced_cancel (p : RetryPolicy) (id : BookingId) (user : UserId) (r : RequestId) :
    (cancel (.direct p) id user r).run.Paced rooms (p.span 9 + 5) none none := by
  have hparts : 1 + (p.span 9 + 1 + (2 + 1)) = p.span 9 + 5 := by omega
  rw [← hparts]
  refine Paced.task_bind (paced_owned id user) fun b => ?_
  split
  next => exact rfl
  next =>
    have hrelease : ((Gateway.direct p).release b.room b.uid r).Paced rooms (p.span 9) none none :=
      Gateway.paced_direct_release p b.room b.uid r
    have hquiet := paced_releaseQuietly hrelease
    refine Paced.task_bind (Paced.map hquiet) fun _ => ?_
    refine Paced.task_bind (paced_markCancelled b) fun _ => ?_
    exact Paced.task_bind (m := 0) (paced_note _) fun _ => rfl

end Desk

/-- Every call keeps its pace, with one more stride to its end. -/
theorem Desk.Call.paced (rooms : ℕ) (c : Desk.Call) :
    ∃ n, Traffic.Call.span rooms (.desk c) = n + 1 ∧ c.process.Paced rooms n none none := by
  cases c with
  | create p user q r today uid => exact ⟨_, rfl, Desk.paced_create p _ _ _ _ _⟩
  | cancel p id user r => exact ⟨_, rfl, Desk.paced_cancel p _ _ _⟩

theorem Traffic.Call.paced (rooms : ℕ) (c : Call) :
    ∃ n, c.span rooms = n + 1 ∧ c.process.Paced rooms n none none := by
  cases c with
  | confirm n => exact ⟨_, rfl, Paced.map (Keeper.paced_confirm n)⟩
  | release room uid => exact ⟨_, rfl, Paced.map (Keeper.paced_release room uid)⟩
  | recommend stay => exact ⟨_, rfl, Paced.map (Keeper.paced_recommend stay)⟩
  | gatewayRecommend p stay r => exact ⟨_, rfl, Paced.map (Gateway.paced_direct_recommend p stay r)⟩
  | gatewayConfirm p room o => exact ⟨_, rfl, Paced.map (Gateway.paced_direct_confirm p room o)⟩
  | gatewayRelease p room uid r =>
    exact ⟨_, rfl, Paced.map (Gateway.paced_direct_release p room uid r)⟩
  | desk c =>
    obtain ⟨n, hspan, hpaced⟩ := Desk.Call.paced rooms c
    exact ⟨n, hspan, Paced.map hpaced⟩

end Lodging
