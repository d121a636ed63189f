import Lodging.Proofs.Desk.Parts
import Lodging.Proofs.Service.Bearing
import Lodging.World.Sample

/-!
The identifier of a request goes with all that is done for it. Every answer bears it, the bookings
accept the request under it, and ask the inventory under no other.
-/

namespace Lodging

open Process (Leads Uses)

namespace Service

variable {s : Service} {x : Exchange} {o : Occasion} {r : Request} {g : Gateway}

/-- What a task of the desk comes to is counted and sent. -/
theorem exists_answer_eq {α : Type} {route : Route} {params : List (List Char)} {h : Handler}
    {t : Desk.Task α} {response : α → Response} (hframed : s.framed = true)
    (hfind : s.find? r.path = some (route, params)) (hhandler : route.handler? r.method = some h)
    (hrun : (h ⟨o, r, params⟩).run = do
      return ((← t.run).map response).mapError BookingFailure.refusal) :
    ∃ finish : Except BookingFailure α → Response, s.answer o r = do
      let e ← t.run
      Process.meter (.answered (finish e).status)
      return finish e := by
  refine ⟨fun e => (sent ⟨o, r, params⟩
    ((e.map response).mapError BookingFailure.refusal)).outgoing r.method, ?_⟩
  have hstatus : ∀ e : Except Refusal Response, ((sent ⟨o, r, params⟩ e).outgoing r.method).status =
      (outcome ⟨o, r, params⟩ e).status := by
    intro e
    obtain ⟨-, -, hsame, -⟩ := outgoing_eq (sent ⟨o, r, params⟩ e) r.method
    exact hsame.trans (status_complete _ _)
  rw [answer_eq hframed hfind hhandler, hrun]
  simp only [bind_assoc, pure_bind, hstatus]

theorem run_createBooking {user : UserId} {q : BookingRequest} (huser : x.caller = .ok user)
    (hbody : x.body BookingRequest = .ok q) :
    (createBooking g x).run = do
      return ((← (Desk.create g user q (x.request.id x.occasion.requestId) x.occasion.now.date
        x.occasion.uid).run).map Response.ofValue).mapError BookingFailure.refusal := by
  unfold createBooking
  rw [huser, hbody, x.correlation_eq]
  exact run_adapt _ BookingFailure.refusal Response.ofValue

theorem run_cancelBooking {user : UserId} {n : Int} (huser : x.caller = .ok user)
    (hnumber : x.number = .ok n) :
    (cancelBooking g x).run = do
      return ((← (Desk.cancel g ⟨n⟩ user (x.request.id x.occasion.requestId)).run).map
        fun _ => Response.bare 204).mapError BookingFailure.refusal := by
  unfold cancelBooking
  rw [huser, hnumber, x.correlation_eq]
  exact run_adapt _ BookingFailure.refusal fun _ => Response.bare 204

section Asking

variable {kind : Action → Prop} {id : RequestId}

theorem compositional_uses (hmeter : ∀ m, kind (.meter m)) :
    Process.Compositional fun _ p => p.Uses kind :=
  ⟨fun _ => trivial, Uses.bind, fun m => ⟨hmeter m, fun _ => trivial⟩⟩

variable (hrecommend : ∀ stay, (g.recommend stay id).Uses kind)
  (hconfirm : ∀ room order, order.request = id → (g.confirm room order).Uses kind)
  (hrelease : ∀ room uid, (g.release room uid id).Uses kind)

include hrecommend hconfirm hrelease in
theorem uses_create (user : UserId) (q : BookingRequest) (today : Date) (uid : Uid) :
    (Desk.create g user q id today uid).run.Uses fun x => kind x ∨ x.Own id := by
  have hmeter : ∀ m, kind (.meter m) ∨ (Action.meter m).Own id := fun _ => .inr trivial
  rw [Desk.create_eq_draft]
  refine Uses.task_bind (Desk.uses_draft hmeter (.inr rfl) fun stay =>
    (hrecommend stay).mono fun _ => .inl) fun place => ?_
  refine Uses.task_bind (Desk.uses_ask (.inr trivial)) fun b => ?_
  exact Desk.uses_conclude hmeter (fun _ _ => .inr trivial)
    ((hconfirm _ _ rfl).mono fun _ => .inl) ((hrelease _ _).mono fun _ => .inl)

include hrelease in
theorem uses_cancel (number : BookingId) (user : UserId) :
    (Desk.cancel g number user id).run.Uses fun x => kind x ∨ x.Own id :=
  Desk.uses_cancel (fun _ => .inr trivial) (fun _ => .inr trivial) (fun _ _ => .inr trivial)
    (fun room uid => (hrelease room uid).mono fun _ => .inl) number user

include hrecommend hconfirm hrelease in
theorem uses_handler {m : Method} {route : Route} {h : Handler} (hid : x.correlation = id)
    (hroute : route ∈ (booking g).routes) (hhandler : (m, h) ∈ route.handlers) :
    (h x).run.Uses fun y => kind y ∨ y.Own id := by
  have huses : Process.Compositional fun _ p => p.Uses fun y => kind y ∨ y.Own id :=
    compositional_uses fun _ => .inr trivial
  obtain rfl | rfl | rfl | rfl | rfl | rfl := booking_cases hroute hhandler
  · trivial
  · exact ⟨.inr trivial, fun _ => trivial⟩
  · refine huses.take_bind fun user _ => huses.take_bind fun q _ => ?_
    rw [hid]
    exact huses.adapt_bind (uses_create hrecommend hconfirm hrelease user q _ _) fun _ => trivial
  · refine huses.take_bind fun user _ => huses.take_bind fun page _ => huses.adapt_bind ?_
      fun _ => trivial
    exact Uses.task_bind (Desk.uses_ask (.inr trivial)) fun _ => trivial
  · refine huses.take_bind fun user _ => huses.take_bind fun number _ => huses.adapt_bind ?_
      fun _ => trivial
    exact Uses.task_bind (Desk.uses_owned (.inr trivial) user) fun _ => trivial
  · refine huses.take_bind fun user _ => huses.take_bind fun number _ => ?_
    rw [hid]
    exact huses.adapt_bind (uses_cancel hrelease ⟨number⟩ user) fun _ => trivial

include hrecommend hconfirm hrelease in
/-- Whatever the calls to the inventory under one identifier use, a request with this identifier
uses nothing else but what the bookings do by themselves. -/
theorem uses_answer (hid : r.id o.requestId = id) :
    ((booking g).answer o r).Uses fun x => kind x ∨ x.Own id := by
  have huses : Process.Compositional fun _ p => p.Uses fun y => kind y ∨ y.Own id :=
    compositional_uses fun _ => .inr trivial
  exact huses.answer fun params _ hroute _ _ hm =>
    uses_handler hrecommend hconfirm hrelease ((Exchange.correlation_eq _).trans hid) hroute hm

end Asking

/-- Every request has one identifier, on whatever way it is answered. The answer bears it; a failed
handler says so in an envelope, which tells path, status and identifier; a booking is made or
cancelled under it; and neither is another request accepted nor the inventory asked under another
one. -/
theorem requests_keep_their_id (g : Gateway) (token : String) (o : Occasion) (r : Request) :
    (∀ s, s = booking g ∨ s = inventory token → ∀ ds a, (s.answer o r).Leads ds (.done a) →
      a.Bears r (r.id o.requestId) ∧
        ∀ route, s.Reaches r route → 300 ≤ a.status → ∃ p, a.problem = some p) ∧
    (∀ params user q, (booking g).find? r.path = some (bookingCreation g, params) →
      r.method = "POST" → (⟨o, r, params⟩ : Exchange).caller = .ok user →
      (⟨o, r, params⟩ : Exchange).body BookingRequest = .ok q →
        ∃ finish : Except BookingFailure BookingSummary → Response, (booking g).answer o r = do
          let e ← (Desk.create g user q (r.id o.requestId) o.now.date o.uid).run
          Process.meter (.answered (finish e).status)
          return finish e) ∧
    (∀ params user n, (booking g).find? r.path = some (singleBooking g, params) →
      r.method = "DELETE" → (⟨o, r, params⟩ : Exchange).caller = .ok user →
      (⟨o, r, params⟩ : Exchange).number = .ok n →
        ∃ finish : Except BookingFailure BookingSummary → Response, (booking g).answer o r = do
          let e ← (Desk.cancel g ⟨n⟩ user (r.id o.requestId)).run
          Process.meter (.answered (finish e).status)
          return finish e) ∧
    ∀ kind : Action → Prop, (∀ stay, (g.recommend stay (r.id o.requestId)).Uses kind) →
      (∀ room order, order.request = r.id o.requestId → (g.confirm room order).Uses kind) →
      (∀ room uid, (g.release room uid (r.id o.requestId)).Uses kind) →
        ((booking g).answer o r).Uses fun x => kind x ∨ x.Own (r.id o.requestId) := by
  refine ⟨fun s hs ds a hleads => ⟨bears_of_leads hs hleads, fun route hreaches hfailed =>
    exists_envelope hs hreaches hleads hfailed⟩, ?_, ?_, ?_⟩
  · -- the handler is given the identifier that the answer will bear
    intro params user q hfind hmethod huser hbody
    have hhandler : (bookingCreation g).handler? r.method = some (createBooking g) := by
      rw [hmethod]
      rfl
    exact exists_answer_eq rfl hfind hhandler (run_createBooking huser hbody)
  · intro params user n hfind hmethod huser hnumber
    have hhandler : (singleBooking g).handler? r.method = some (cancelBooking g) := by
      rw [hmethod]
      rfl
    exact exists_answer_eq rfl hfind hhandler (run_cancelBooking huser hnumber)
  · exact fun kind hrecommend hconfirm hrelease => uses_answer hrecommend hconfirm hrelease rfl

/-- A request for a booking, with a user, a kind of body and an identifier. -/
def errand : Request where
  method := "POST"
  target := "/api/booking"
  headers := [(Header.userId, "1"), (Header.contentType, "application/json"),
    (Header.requestId, " r ")]
  body := "[\"2300-01-01\",\"2300-01-03\",true,null]"

theorem requests_keep_their_id_trimmed :
    let o : Occasion := ⟨Sample.newYear, Sample.uid 1, ⟨"new"⟩⟩
    let g : Gateway := .direct .once
    errand.id o.requestId = ⟨"r"⟩ ∧
      (∃ finish : Except BookingFailure BookingSummary → Response, (booking g).answer o errand = do
        let e ← (Desk.create g ⟨1⟩ (.ofAnyRoom Sample.twoNights.arrival Sample.twoNights.departure)
          ⟨"r"⟩ o.now.date o.uid).run
        Process.meter (.answered (finish e).status)
        return finish e) ∧
      (∀ ds a, ((booking g).answer o errand).Leads ds (.done a) → a.Bears errand ⟨"r"⟩) ∧
      ((booking g).answer o errand).Uses fun x => x.OffLedger ∨ x.Own ⟨"r"⟩ := by
  intro o g
  have huser : Header.sameName Header.userId Header.contentType = false := by decide +kernel
  have huser' : Header.sameName Header.userId Header.requestId = false := by decide +kernel
  have hid : errand.id o.requestId = ⟨"r"⟩ := by
    have hfind : errand.headers.find? (fun h => Header.sameName h.1 Header.requestId) =
        some (Header.requestId, " r ") := by
      unfold errand
      simp only [List.find?_cons, huser', requestId_ne_contentType, Header.sameName_self]
    unfold Request.id
    rw [hfind]
    decide +kernel
  have hpath : errand.path = "/api/booking".toList := by decide +kernel
  have hfind : (booking g).find? errand.path = some (bookingCreation g, []) := by
    rw [hpath]
    rfl
  have hcaller : (⟨o, errand, []⟩ : Exchange).caller = .ok ⟨1⟩ := by
    have hheader : errand.header? Header.userId = some "1" := by
      have hfirst : errand.headers.find? (fun h => Header.sameName h.1 Header.userId) =
          some (Header.userId, "1") := List.find?_cons_of_pos (Header.sameName_self _)
      unfold Request.header?
      rw [hfirst]
      decide +kernel
    unfold Exchange.caller
    rw [hheader]
    decide +kernel
  have hbody : (⟨o, errand, []⟩ : Exchange).body BookingRequest =
      .ok (.ofAnyRoom Sample.twoNights.arrival Sample.twoNights.departure) := by
    have hheader : errand.header? Header.contentType = some "application/json" := by
      have hsecond : errand.headers.find? (fun h => Header.sameName h.1 Header.contentType) =
          some (Header.contentType, "application/json") := by
        unfold errand
        simp only [List.find?_cons, huser, Header.sameName_self]
      unfold Request.header?
      rw [hsecond]
      decide +kernel
    unfold Exchange.body
    rw [hheader]
    decide +kernel
  obtain ⟨hbears, hcreate, -, huses⟩ := requests_keep_their_id g "token" o errand
  rw [hid] at hbears hcreate huses
  have hoff := Gateway.offLedger_direct .once
  exact ⟨hid, hcreate [] ⟨1⟩ _ hfind rfl hcaller hbody,
    fun ds a h => (hbears (booking g) (.inl rfl) ds a h).1,
    huses Action.OffLedger (fun stay => hoff.recommend stay _) (fun room order _ =>
      hoff.confirm room order) fun room uid => hoff.release room uid _⟩

/-- A request for the head of a list, without the dates that it must be for. -/
def peek : Request := ⟨"HEAD", "/api/rooms", [(Header.requestId, "r")], ""⟩

/-- A failure is not told in the answer to a request for a head. -/
theorem head_is_not_told :
    let o : Occasion := ⟨Sample.newYear, Sample.uid 1, ⟨"new"⟩⟩
    ¬ ∀ ds a, ((inventory "token").answer o peek).Leads ds (.done a) →
      a.Tells peek (peek.id o.requestId) := by
  intro o htells
  have hpath : peek.path = "/api/rooms".toList := by decide +kernel
  have hfind : (inventory "token").find? peek.path = some (roomList, []) := by
    rw [hpath]
    rfl
  have hrun : (availableRooms ⟨o, peek, []⟩).run =
      pure (.error (.badRequest "start and end are required")) := by
    have hstay : (⟨o, peek, []⟩ : Exchange).stay =
        .error (.badRequest "start and end are required") := by decide +kernel
    unfold availableRooms
    rw [hstay]
    rfl
  have hanswer := answer_eq (o := o) (r := peek) rfl hfind (by rfl)
  rw [hrun, pure_bind] at hanswer
  rw [hanswer] at htells
  obtain ⟨q, hread, -⟩ := htells _ _ (.did (a := ()) (.stay _)) _ rfl
  have hempty : Wire.read (α := Problem) "" = .error .malformed := by decide +kernel
  exact absurd (hempty.symm.trans hread) nofun

end Service

end Lodging
