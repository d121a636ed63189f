import Lodging.Proofs.Json.Complaints
import Lodging.Proofs.Remote.Reception
import Lodging.Proofs.Service.Frame

/-!
Answers of the inventory as they come back. A handler comes to a value or to a failure of the
inventory; the one who sent the request is told of either as if they had asked the keeper of the
rooms themselves.
-/

namespace Lodging

namespace Service

/-- An answer as it is delivered. -/
def delivered (r : Response) : Delivery := .answered r.status (some r.body)

end Service

open Service

/-- What is delivered of the answer to a request that finds a handler. -/
theorem Link.inventory_eq {token : String} {o : Occasion} {request : Request} {route : Route}
    {params : List (List Char)} {h : Handler}
    (hfind : (Service.inventory token).find? request.path = some (route, params))
    (hhandler : route.handler? request.method = some h) (hhead : request.method ≠ "HEAD") :
    Link.inventory token o request = do
      let e ← (h ⟨o, request, params⟩).run
      Process.meter (.answered (outcome ⟨o, request, params⟩ e).status)
      return delivered (sent ⟨o, request, params⟩ e) := by
  have hframed : (Service.inventory token).framed = true := rfl
  unfold Link.inventory
  rw [answer_eq hframed hfind hhandler]
  simp only [Response.outgoing, if_neg hhead, bind_assoc, pure_bind]
  rfl

theorem blank_append {s : String} (h : blank s = false) (t : String) : blank (s ++ t) = false := by
  unfold blank at h ⊢
  rw [String.toList_append, List.all_append, h, Bool.false_and]

namespace RoomFailure

theorem blank_message (f : RoomFailure) : blank f.message = false := by
  cases f with
  | noNights e => exact blank_append (by decide) _
  | notFound room => exact blank_append (blank_append (by decide) _) _
  | duplicate c => exact blank_append (by decide) _
  | notOperational room =>
    have htext : blank "Room is not operational" = false := by decide
    exact htext
  | unavailable room stay =>
    have htext : blank "Room is not available for this period" = false := by decide
    exact htext
  | storage => decide
  | migration => decide

/-- A failure looks the same from afar as over HTTP. -/
theorem seen_eq_ofStatus (f : RoomFailure) :
    f.seen = .ofStatus f.kind.status (some f.message) := by
  cases f <;> rfl

end RoomFailure

namespace Remote

variable {x : Exchange}

/-- A success brings its body. -/
theorem answer_sent_ok {r : Response} (hstatus : r.status = 200) (hproblem : r.problem = none) :
    answer (delivered (sent x (.ok r))) = .ok (some r.body) := by
  have hsent : delivered (sent x (.ok r)) = .answered 200 (some r.body) := by
    have hshared : (shared r).problem = none := hproblem
    unfold delivered sent outcome
    rw [complete_of_none hshared]
    change Delivery.answered r.status (some r.body) = _
    rw [hstatus]
  rw [hsent]
  rfl

/-- The envelope that a failure goes out in. -/
def envelope (x : Exchange) (f : RoomFailure) : Problem :=
  { Problem.ofRefusal x.occasion.now f.refusal with
    path := some (String.ofList x.request.path), correlation := some x.correlation.text }

theorem ofProblem_envelope (f : RoomFailure) : Complaint.ofProblem (envelope x f) = f.message := by
  have hmessage : (envelope x f).message = if f.message = "" then none else some f.message := rfl
  rw [Complaint.ofProblem_of_message hmessage, f.blank_message]
  rfl

/-- A failure of the inventory is told from its answer. -/
theorem answer_sent_error (f : RoomFailure) :
    answer (delivered (sent x (.error f.refusal))) = .error f.seen := by
  have hsent : delivered (sent x (.error f.refusal)) =
      .answered f.kind.status (some (Wire.write (envelope x f))) := rfl
  have hstatus : f.kind.status < 2 ^ 53 := by
    cases f.kind <;> decide
  have hcode : blank f.kind.code = false := by
    cases f.kind <;> decide
  have hfailed : ¬ (200 ≤ f.kind.status ∧ f.kind.status < 300) := by
    cases f.kind <;> decide
  have hbody : Complaint.ofBody? (Wire.write (envelope x f)) = some f.message := by
    rw [← ofProblem_envelope (x := x) f]
    exact Complaint.ofBody?_write hstatus hcode
  rw [hsent, f.seen_eq_ofStatus]
  unfold answer
  simp only [hfailed, if_false, Option.getD_some, hbody]

section Sending

variable {α : Type} {token : String} {o : Occasion} {request : Request} {route : Route}
  {params : List (List Char)} {h : Handler} {task : Process (Except RoomFailure α)}
  {response : α → Response}

/-- A request that is understood comes to what its task comes to, as it is seen from afar. -/
theorem send_inventory
    (hfind : (Service.inventory token).find? request.path = some (route, params))
    (hhandler : route.handler? request.method = some h) (hhead : request.method ≠ "HEAD")
    (hsendable : (request.headers.all fun h => sendable h.2) = true)
    (hrun : (h ⟨o, request, params⟩).run =
      do return ((← task).map response).mapError RoomFailure.refusal)
    (hstatus : ∀ a, (response a).status = 200) (hproblem : ∀ a, (response a).problem = none) :
    ∃ event : Except RoomFailure α → Meter, send (Link.inventory token o) request = do
      let r ← task
      Process.meter (event r)
      return (r.map fun a => some (response a).body).mapError RoomFailure.seen := by
  let x : Exchange := ⟨o, request, params⟩
  refine ⟨fun r => .answered (outcome x ((r.map response).mapError RoomFailure.refusal)).status, ?_⟩
  -- whatever the task comes to is told from the answer
  have hanswer : ∀ r : Except RoomFailure α,
      answer (delivered (sent x ((r.map response).mapError RoomFailure.refusal))) =
        (r.map fun a => some (response a).body).mapError RoomFailure.seen := by
    intro r
    cases r with
    | ok a => exact answer_sent_ok (hstatus a) (hproblem a)
    | error f => exact answer_sent_error f
  unfold send
  rw [if_pos hsendable, Link.inventory_eq hfind hhandler hhead, hrun]
  simp only [bind_assoc, pure_bind]
  apply congrArg (task >>= ·)
  funext r
  apply congrArg (Process.meter _ >>= ·)
  funext _
  exact congrArg pure (hanswer r)

end Sending

end Remote

namespace Service

variable {x : Exchange}

theorem run_recommendedRooms {stay : Stay} (hstay : x.stay = .ok stay) :
    (recommendedRooms x).run = do
      return ((← (Keeper.recommend stay).run).map Response.ofValue).mapError
        RoomFailure.refusal := by
  unfold recommendedRooms
  rw [hstay]
  exact run_adapt (Keeper.recommend stay) RoomFailure.refusal Response.ofValue

theorem run_confirmLock {token : String} {room : RoomId} {stay : Stay} {uid : Uid} {r : RequestId}
    (hauthorize : x.authorize token = .ok ()) (hnumber : x.number = .ok room.number)
    (hbody : x.body LockOrder = .ok (stay.order uid r)) :
    (confirmLock token x).run = do
      return ((← Keeper.confirm ⟨room, stay, uid, r⟩).map fun _ => Response.bare 200).mapError
        RoomFailure.refusal := by
  have hlock : (stay.order uid r).newLock room = .ok ⟨room, stay, uid, r⟩ := by
    have hdates : Stay.ofDates stay.arrival stay.departure = .ok stay :=
      Stay.ofDates_eq_ok.mpr ⟨rfl, rfl⟩
    unfold LockOrder.newLock Stay.order
    simp only [hdates]
  unfold confirmLock
  rw [hauthorize, hnumber, hbody]
  change (do
    let lock ← take ((stay.order uid r).newLock room)
    let _ ← rooms (ExceptT.mk (Keeper.confirm lock))
    return Response.bare 200 : ExceptT Refusal Process Response).run = _
  rw [hlock]
  exact run_adapt (ExceptT.mk (Keeper.confirm _)) RoomFailure.refusal fun _ => Response.bare 200

theorem run_releaseLock {token : String} {room : RoomId} {uid : Uid}
    (hauthorize : x.authorize token = .ok ()) (hnumber : x.number = .ok room.number)
    (huid : x.releasedUid = .ok uid) :
    (releaseLock token x).run = do
      return ((← Keeper.release room uid).map fun _ => Response.bare 200).mapError
        RoomFailure.refusal := by
  unfold releaseLock
  rw [hauthorize, hnumber, huid]
  exact run_adapt (ExceptT.mk (Keeper.release room uid)) RoomFailure.refusal
    fun _ => Response.bare 200

end Service

end Lodging
