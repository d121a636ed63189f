import Lodging.Proofs.Remote.Answers
import Lodging.Proofs.Remote.Uniform
import Lodging.World.Sample

/-!
The gateway over HTTP and the direct one. An attempt of either is the same task of the keeper of the
rooms; what the one sends is understood, and what it is answered says the same. So they repeat their
attempts in step, and either may be taken for the other.
-/

namespace Lodging

open Process (InStep Interchangeable SameOutcome)

namespace Remote

variable {p : Peer}

theorem sendable_of_visible {s : String} (h : s.toList.all Header.visible = true) :
    sendable s = true := by
  unfold sendable
  rw [List.all_eq_true] at h ⊢
  intro c hc
  have hvisible := h c hc
  unfold Header.visible at hvisible
  simp only [Bool.or_eq_true, decide_eq_true_eq, Bool.and_eq_true] at hvisible ⊢
  apply hvisible.imp_right
  intro hrange
  exact ⟨hrange.1, Nat.ne_of_lt hrange.2⟩

theorem sendable_append {s t : String} (hs : sendable s = true) (ht : sendable t = true) :
    sendable (s ++ t) = true := by
  unfold sendable at *
  rw [String.toList_append, List.all_append, hs, ht]
  rfl

/-- The headers of all requests can be sent. -/
theorem sendable_signed (hp : p.Credible) {r : RequestId} (hr : sendable r.text = true)
    {headers : List (String × String)} (hheaders : (headers.all fun h => sendable h.2) = true)
    (method target body : String) :
    ((signed p r method target body headers).headers.all fun h => sendable h.2) = true := by
  have htoken : sendable ("Bearer " ++ p.token) = true :=
    sendable_append (by decide) (sendable_of_visible hp.visible)
  unfold signed
  simp only [List.all_cons, htoken, hr, hheaders, Bool.and_self]

/-- An attempt from afar comes to what a direct one comes to, if that is not planned to fail. -/
theorem inStep_attempt {α : Type} {Kind : Stock → Prop} {operation : Operation}
    {attempt : Process (Except CallFailure (Option String))} {task : Process (Except RoomFailure α)}
    {event : Except RoomFailure α → Meter} {body : α → Option String}
    (hnone : ∀ b, Kind b → b.planned operation = none) (htask : InStep Kind Eq task task)
    (hattempt : attempt = do
      let r ← task
      Process.meter (event r)
      return (r.map body).mapError RoomFailure.seen) :
    InStep Kind Eq (do return (← attempt).map fun _ => ())
      (Gateway.directly operation do
        return ((← task).map fun _ => ()).mapError RoomFailure.seen) := by
  rw [hattempt]
  simp only [bind_assoc, pure_bind]
  apply InStep.attempted
  apply InStep.unplanned hnone
  apply InStep.bind htask
  rintro r _ rfl
  apply InStep.counted
  apply InStep.done
  cases r <;> rfl

/-- Calls of the inventory plan no failure. -/
theorem planned_callRooms (operation : Operation) (c : RoomCall) (w : World)
    (h : w.stock.planned operation = none) :
    (w.callRooms c).2.stock.planned operation = none := by
  have hsame : ∀ w : World, (w.callRooms c).2.planned operation = w.planned operation := by
    intro w
    unfold World.callRooms
    cases c.kind? with
    | none => cases operation <;> rfl
    | some kind =>
      simp only
      split <;> cases operation <;> rfl
  rw [← World.planned_eq] at h ⊢
  rw [hsame, h]

variable (hroot : p.AtRoot) (hp : p.Credible) (o : Occasion) (policy : RetryPolicy)
include hroot hp

theorem inStep_recommend (stay : Stay) {r : RequestId} (hr : sendable r.text = true) :
    InStep (fun b => b.inventory.Fits) Eq
      ((gateway (Link.inventory p.token o) p policy).recommend stay r)
      ((Gateway.direct policy).recommend stay r) := by
  have hquery := (path_recommendRequest hroot stay r).2
  have hfind := find?_recommendRequest hroot p.token stay r
  obtain ⟨event, hsend⟩ := send_inventory (o := o) hfind rfl (by decide : "GET" ≠ "HEAD")
    (sendable_signed hp hr rfl _ _ _)
    (Service.run_recommendedRooms (Exchange.stay_of_form hquery)) (fun _ => rfl) fun _ => rfl
  apply inStep_run
  intro _
  rw [hsend]
  simp only [bind_assoc, pure_bind]
  apply InStep.attempted
  apply InStep.bind (Keeper.uniform_recommend stay)
  rintro found _ ⟨rfl, hfits⟩
  apply InStep.counted
  apply InStep.done
  cases found with
  | error f => rfl
  | ok found =>
    -- rooms with numbers that fit are read as they were written
    have hfaithful : ∀ a ∈ found, Wire.Faithful a :=
      fun a ha => Wire.faithful_roomSummary (hfits found rfl a ha)
    have hread : Wire.read (Wire.write found) = .ok found :=
      Wire.read_write (Wire.faithful_list hfaithful)
    change rooms (some (Wire.write found)) = .ok found
    unfold rooms
    simp only [Option.map_some, hread]

variable {room : RoomId} (hroom : Decimal.fits64 room.number = true)
include hroom

theorem inStep_confirm (stay : Stay) (uid : Uid) {r : RequestId} (hr : sendable r.text = true)
    (hsize : (Wire.write (stay.order uid r)).utf8ByteSize ≤ Exchange.bodyLimit) :
    InStep (fun b => b.planned .confirm = none) Eq
      ((gateway (Link.inventory p.token o) p policy).confirm room (stay.order uid r))
      ((Gateway.direct policy).confirm room (stay.order uid r)) := by
  have hfind := find?_confirmRequest hroot p.token room (stay.order uid r)
  have hrun := Service.run_confirmLock (x := ⟨o, confirmRequest p room (stay.order uid r), _⟩)
    (authorize_signed hp o r _ _ _ _ _) (Exchange.number_of_intDigits hroom rfl)
    (body_confirmRequest o room hsize _)
  obtain ⟨event, hsend⟩ := send_inventory hfind rfl (by decide : "POST" ≠ "HEAD")
    (sendable_signed hp hr (by decide) _ _ _) hrun
    (fun _ => rfl) fun _ => rfl
  have hdirect : Gateway.confirmDirectly room (stay.order uid r) = do
      return ((← Keeper.confirm ⟨room, stay, uid, r⟩).map fun _ => ()).mapError
        RoomFailure.seen := by
    have hdates : Stay.ofDates stay.arrival stay.departure = .ok stay :=
      Stay.ofDates_eq_ok.mpr ⟨rfl, rfl⟩
    unfold Gateway.confirmDirectly Stay.order
    simp only [hdates]
  apply inStep_run
  intro _
  rw [hdirect]
  exact inStep_attempt (fun _ => id)
    (Keeper.inStep_confirm (planned_callRooms .confirm) _) hsend

theorem inStep_release (uid : Uid) {r : RequestId} (hr : sendable r.text = true) :
    InStep (fun b => b.planned .release = none) Eq
      ((gateway (Link.inventory p.token o) p policy).release room uid r)
      ((Gateway.direct policy).release room uid r) := by
  have hquery := (path_releaseRequest hroot room uid r).2
  have hfind := find?_releaseRequest hroot p.token room uid r
  have hrun := Service.run_releaseLock (x := ⟨o, releaseRequest p room uid r, _⟩)
    (authorize_signed hp o r _ _ _ _ _) (Exchange.number_of_intDigits hroom rfl)
    (Exchange.releasedUid_of_form hquery)
  obtain ⟨event, hsend⟩ := send_inventory hfind rfl (by decide : "POST" ≠ "HEAD")
    (sendable_signed hp hr rfl _ _ _) hrun
    (fun _ => rfl) fun _ => rfl
  apply inStep_run
  intro _
  exact inStep_attempt (fun _ => id)
    (Keeper.inStep_release (planned_callRooms .release) room uid) hsend

/-- The two gateways are interchangeable for recommendations while the rooms fit their JSON, and for
locks and releases while no failure of direct attempts is planned. Whatever is asked of the one over
HTTP arrives as it was meant. -/
theorem gateways_interchangeable (stay : Stay) (uid : Uid) {r : RequestId}
    (hr : sendable r.text = true)
    (hsize : (Wire.write (stay.order uid r)).utf8ByteSize ≤ Exchange.bodyLimit) :
    (Interchangeable (fun w => w.inventory.Fits)
        ((gateway (Link.inventory p.token o) p policy).recommend stay r)
        ((Gateway.direct policy).recommend stay r) ∧
      Interchangeable (fun w => w.planned .confirm = none)
        ((gateway (Link.inventory p.token o) p policy).confirm room (stay.order uid r))
        ((Gateway.direct policy).confirm room (stay.order uid r)) ∧
      Interchangeable (fun w => w.planned .release = none)
        ((gateway (Link.inventory p.token o) p policy).release room uid r)
        ((Gateway.direct policy).release room uid r)) ∧
    Understood p.token o (recommendRequest p stay r) Service.recommendation Exchange.stay stay ∧
    Understood p.token o (confirmRequest p room (stay.order uid r)) (Service.roomLocking p.token)
      Exchange.orderedLock (room, stay.order uid r) ∧
    Understood p.token o (releaseRequest p room uid r) (Service.roomRelease p.token)
      Exchange.orderedRelease (room, uid) := by
  have hconfirm := (inStep_confirm hroot hp o policy hroom stay uid hr hsize).interchangeable
  have hrelease := (inStep_release hroot hp o policy hroom uid hr).interchangeable
  simp only [← World.planned_eq] at hconfirm hrelease
  exact ⟨⟨(inStep_recommend hroot hp o policy stay hr).interchangeable, hconfirm, hrelease⟩,
    understood_recommend hroot p.token o stay r,
    understood_confirm hroot p.token o hroom hsize,
    understood_release hroot p.token o hroom uid r⟩

omit hroot hp hroom in
/-- In a house with one room both gateways recommend the same for nights in a far year, and turn
down a lock on a room of a negative number in the same words. -/
theorem gateways_interchangeable_far_away :
    let p : Peer := ⟨"http://127.0.0.1:3001/", "dev-service-token"⟩
    let stay : Stay := ⟨⟨12000, 1, 1, by decide⟩, ⟨12000, 1, 3, by decide⟩, by decide⟩
    let order := stay.order (Sample.uid 7) ⟨"over there"⟩
    let o : Occasion := ⟨Sample.newYear, Sample.uid 1, ⟨"here"⟩⟩
    let far := gateway (Link.inventory p.token o) p .standard
    let near := Gateway.direct .standard
    let w := World.furnished Sample.newYear [Sample.room]
    (p.AtRoot ∧ p.Credible ∧ sendable order.request.text = true ∧
      (Wire.write order).utf8ByteSize ≤ Exchange.bodyLimit ∧ Decimal.fits64 (-5) = true) ∧
    (w.inventory.Fits ∧ SameOutcome ((far.recommend stay order.request).advance w)
      ((near.recommend stay order.request).advance w)) ∧
    w.planned .confirm = none ∧
      SameOutcome ((far.confirm ⟨-5⟩ order).advance w) ((near.confirm ⟨-5⟩ order).advance w) := by
  intro p stay order o far near w
  have hscheme : ("http".toList.all fun c => decide (c ≠ ':' ∧ c ≠ '/' ∧ c ≠ '#')) = true := by
    decide
  have hauthority : ("127.0.0.1:3001".toList.all fun c =>
      decide (c ≠ '/' ∧ c ≠ '?' ∧ c ≠ '#')) = true := by decide
  have hroot : p.AtRoot := ⟨"http".toList, "127.0.0.1:3001".toList, by decide,
    fun c hc => of_decide_eq_true (List.all_eq_true.mp hscheme c hc),
    fun c hc => of_decide_eq_true (List.all_eq_true.mp hauthority c hc)⟩
  have hp : p.Credible := ⟨by decide, by decide, by decide⟩
  have hr : sendable order.request.text = true := by decide
  have hsize : (Wire.write order).utf8ByteSize ≤ Exchange.bodyLimit := by decide +kernel
  have hroom : Decimal.fits64 (RoomId.mk (-5)).number = true := by decide
  have hfits : w.inventory.Fits := by
    intro r hmem
    obtain rfl := List.mem_singleton.mp hmem
    exact ⟨by decide, by decide, by decide⟩
  have hplanned : w.planned .confirm = none := rfl
  obtain ⟨⟨⟨recommended, -⟩, ⟨confirmed, -⟩, -⟩, -⟩ := gateways_interchangeable hroot hp o
    .standard hroom stay (Sample.uid 7) hr hsize
  exact ⟨⟨hroot, hp, hr, hsize, hroom⟩, ⟨hfits, recommended w w rfl hfits⟩, hplanned,
    confirmed w w rfl hplanned⟩

end Remote

end Lodging
