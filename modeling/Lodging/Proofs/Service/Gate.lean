import Lodging.Proofs.Remote.Reception
import Lodging.Proofs.Service.Frame
import Lodging.Proofs.Service.Watching
import Lodging.World.Sample

/-!
Who is let in. Locks are placed and released only for those who present the token, and bookings are
made, seen and cancelled only for those who say which user they are; all others are turned away
before anything else is looked at, and spare the world.
-/

namespace Lodging

open Process (Watches watches_meter)

/-- What is found under a name depends on the headers alone. -/
theorem Request.header?_congr {r r' : Request} (h : r.headers = r'.headers) (name : String) :
    r.header? name = r'.header? name := by
  unfold header?
  rw [h]

theorem Request.ownId?_congr {r r' : Request} (h : r.headers = r'.headers) :
    r.ownId? = r'.ownId? := by
  unfold ownId?
  rw [header?_congr h]

namespace Exchange

variable {x : Exchange} {token : String}

/-- A token that is found is presented. -/
theorem presents_of_token? (h : x.token? = some token) : x.request.Presents token := by
  obtain ⟨v, hv, htoken⟩ := Option.bind_eq_some_iff.mp h
  unfold Request.header? at hv
  split at hv
  next name value hfind =>
    have hname : Header.sameName name Header.authorization = true :=
      List.find?_some (p := fun h : String × String => Header.sameName h.1 _) hfind
    obtain ⟨hvisible, hvalue⟩ := Option.ite_none_right_eq_some.mp hv
    obtain rfl := Option.some.inj hvalue
    obtain ⟨hbearer, htrim⟩ := Option.ite_none_right_eq_some.mp htoken
    obtain ⟨s, hs⟩ := List.isPrefixOf_iff_prefix.mp hbearer
    rw [← hs, List.drop_left] at htrim
    obtain rfl := Option.some.inj htrim
    exact ⟨_, List.mem_of_find?_eq_some hfind, hname, hvisible, s, hs.symm, rfl⟩
  next => cases hv

/-- The headers alone decide what a caller without the token is told. -/
theorem exists_authorize_eq (token : String) (headers : List (String × String)) :
    ∃ message, message ≠ "" ∧ ∀ x : Exchange, x.request.headers = headers →
      ¬ x.request.Presents token → x.authorize token = .error (.unauthorized message) := by
  -- a request that has nothing but these headers carries the same token
  let bare : Request := ⟨"", "", headers, ""⟩
  have htoken : ∀ x : Exchange, x.request.headers = headers → x.token? =
      (bare.header? Header.authorization).bind fun v =>
        if bearer.isPrefixOf v.toList then some (String.ofList (trim (v.toList.drop bearer.length)))
        else none := by
    intro x hx
    have hsame : x.request.header? Header.authorization = bare.header? Header.authorization :=
      Request.header?_congr hx _
    unfold token?
    rw [hsame]
  cases hbare : (bare.header? Header.authorization).bind fun v =>
      if bearer.isPrefixOf v.toList then some (String.ofList (trim (v.toList.drop bearer.length)))
      else none with
  | none =>
    refine ⟨"Missing service token", by decide, fun x hx _ => ?_⟩
    unfold authorize
    rw [htoken x hx, hbare]
  | some t =>
    refine ⟨"Invalid service token", by decide, fun x hx hno => ?_⟩
    have hfound : x.token? = some t := (htoken x hx).trans hbare
    have hne : t ≠ token := by
      rintro rfl
      exact hno (presents_of_token? hfound)
    unfold authorize
    rw [hfound]
    exact if_neg hne

theorem caller_eq (h : x.request.user? = none) : x.caller = .error callerMissing := by
  unfold caller
  unfold Request.user? at h
  rw [h]

end Exchange

namespace Service

variable {s : Service} {o : Occasion} {r : Request} {route : Route} {params : List (List Char)}
  {h : Handler} {x : Exchange} {token message : String} {g : Gateway}

theorem sent_unauthorized (hmessage : message ≠ "") :
    sent x (.error (.unauthorized message)) = .unauthorized x.occasion.now message
      (String.ofList x.request.path) (x.request.ownId?.getD x.occasion.requestId) := by
  have hshown : (Problem.ofRefusal x.occasion.now (.unauthorized message)).message =
      some message := if_neg hmessage
  unfold sent
  rw [complete_of_some rfl]
  simp only [Response.setHeader, Response.json, Header.set, hshown, List.filter_cons,
    requestId_ne_contentType, Bool.not_false, if_true, List.filter_nil, List.cons_append, List.nil_append]
  rfl

/-- A handler that finds the caller not authorized has the answer at once, whatever world this is
in, and counts it. -/
theorem advance_unauthorized (hframed : s.framed = true)
    (hfind : s.find? r.path = some (route, params)) (hhandler : route.handler? r.method = some h)
    (hmessage : message ≠ "")
    (hrun : (h ⟨o, r, params⟩).run = pure (.error (.unauthorized message))) (w : World) :
    (s.answer o r).advance w =
      (.inl ((Response.unauthorized o.now message (String.ofList r.path)
        (r.ownId?.getD o.requestId)).outgoing r.method),
        { w with events := .answered 401 :: w.events }) := by
  rw [answer_eq hframed hfind hhandler, hrun, pure_bind, sent_unauthorized hmessage]
  rfl

/-- A route with one handler has no other, and answers its method only. -/
theorem of_handler?_single {m : Method} {h' : Handler} {method : String}
    (hroute : route.handlers = [(m, h')]) (hhandler : route.handler? method = some h) :
    h = h' ∧ method ∈ m.names := by
  obtain ⟨m', hmem, hm⟩ := exists_of_handler? hhandler
  rw [hroute] at hmem
  obtain ⟨rfl, rfl⟩ := Prod.mk.inj (List.mem_singleton.mp hmem)
  exact ⟨rfl, hm⟩

theorem run_confirmLock_of_error {f : Refusal} (hx : x.authorize token = .error f) :
    (confirmLock token x).run = pure (.error f) := by
  unfold confirmLock
  rw [hx]
  rfl

theorem run_releaseLock_of_error {f : Refusal} (hx : x.authorize token = .error f) :
    (releaseLock token x).run = pure (.error f) := by
  unfold releaseLock
  rw [hx]
  rfl

/-- All that is done to locks begins with asking for the token, and is no reading. -/
theorem run_of_authorize_eq_error {f : Refusal} (hx : x.authorize token = .error f)
    (hroute : route = roomLocking token ∨ route = roomRelease token) {method : String}
    (hhandler : route.handler? method = some h) :
    (h x).run = pure (.error f) ∧ method ≠ "HEAD" := by
  have hpost : ∀ name, name ∈ Method.post.names → name ≠ "HEAD" := by
    rintro _ hname rfl
    exact absurd hname (by decide)
  rcases hroute with rfl | rfl
  · obtain ⟨rfl, hmethod⟩ := of_handler?_single rfl hhandler
    exact ⟨run_confirmLock_of_error hx, hpost method hmethod⟩
  · obtain ⟨rfl, hmethod⟩ := of_handler?_single rfl hhandler
    exact ⟨run_releaseLock_of_error hx, hpost method hmethod⟩

/-- All that is done for users begins with asking who they are. -/
theorem run_of_caller_eq_error {f : Refusal} (hx : x.caller = .error f)
    (hroute : route = bookingCreation g ∨ route = bookingList ∨ route = singleBooking g)
    {method : String} (hhandler : route.handler? method = some h) :
    (h x).run = pure (.error f) := by
  obtain ⟨m, hmem, -⟩ := exists_of_handler? hhandler
  rcases hroute with rfl | rfl | rfl
  · obtain ⟨-, rfl⟩ := Prod.mk.inj (List.mem_singleton.mp hmem)
    unfold createBooking
    rw [hx]
    rfl
  · obtain ⟨-, rfl⟩ := Prod.mk.inj (List.mem_singleton.mp hmem)
    unfold listBookings
    rw [hx]
    rfl
  · rcases List.mem_cons.mp hmem with hmem | hmem
    · obtain ⟨-, rfl⟩ := Prod.mk.inj hmem
      unfold getBooking
      rw [hx]
      rfl
    · obtain ⟨-, rfl⟩ := Prod.mk.inj (List.mem_singleton.mp hmem)
      unfold cancelBooking
      rw [hx]
      rfl

theorem compositional_watches : Process.Compositional fun _ p => p.Watches :=
  ⟨fun _ => trivial, Watches.bind, watches_meter⟩

/-- Whatever handler of the inventory a caller without the token reaches, it only watches. -/
theorem watches_handler (hroute : route ∈ (inventory token).routes) {m : Method}
    (hhandler : (m, h) ∈ route.handlers) (hx : ¬ x.request.Presents token) :
    (h x).run.Watches := by
  obtain ⟨message, -, hrefused⟩ := Exchange.exists_authorize_eq token x.request.headers
  have hauthorize : x.authorize token = .error (.unauthorized message) := hrefused x rfl hx
  obtain rfl | rfl | rfl | rfl | rfl | rfl | rfl := inventory_cases hroute hhandler
  · trivial
  · exact ⟨trivial, fun _ => trivial⟩
  · exact compositional_watches.take_bind fun stay _ =>
      compositional_watches.adapt_bind (Keeper.watches_available stay) fun _ => trivial
  · exact compositional_watches.take_bind fun stay _ =>
      compositional_watches.adapt_bind (Keeper.watches_recommend stay) fun _ => trivial
  · exact compositional_watches.take_bind fun id _ =>
      compositional_watches.adapt_bind (Keeper.watches_getRoom ⟨id⟩) fun _ => trivial
  · rw [run_confirmLock_of_error hauthorize]
    trivial
  · rw [run_releaseLock_of_error hauthorize]
    trivial

/-- A caller without the token only watches. -/
theorem watches_answer (o : Occasion) (hr : ¬ r.Presents token) :
    ((inventory token).answer o r).Watches :=
  compositional_watches.answer fun _ _ hroute _ _ hm => watches_handler hroute hm hr

/-- Requests to the inventory without its token, however many and in whatever order they take their
actions, spare the world. The token is asked for before anything else: a request for a lock or its
release is answered from its headers alone, and does nothing but count the answer. In the same way
the bookings ask for the user. -/
theorem strangers_are_turned_away (token : String) (g : Gateway) :
    (∀ (w : World) (es : List (Event (Occasion × Request))),
      (∀ c, .start c ∈ es → ¬ c.2.Presents token) →
        w.Spared (((inventory token).visits w).run es).world) ∧
    (∀ headers, ∃ message, ∃ own : Option RequestId, ∀ (o : Occasion) (r : Request) (route : Route),
      r.headers = headers → ¬ r.Presents token → (inventory token).Reaches r route →
      route = roomLocking token ∨ route = roomRelease token →
        ∀ w, ((inventory token).answer o r).advance w =
          (.inl (.unauthorized o.now message (String.ofList r.path) (own.getD o.requestId)),
            { w with events := .answered 401 :: w.events })) ∧
    ∀ headers, ∃ own : Option RequestId, ∀ (o : Occasion) (r : Request) (route : Route),
      r.headers = headers → r.user? = none → (booking g).Reaches r route →
      route = bookingCreation g ∨ route = bookingList ∨ route = singleBooking g →
        ∀ w, ((booking g).answer o r).advance w =
          (.inl ((Response.unauthorized o.now "Missing or invalid X-User-Id header"
            (String.ofList r.path) (own.getD o.requestId)).outgoing r.method),
            { w with events := .answered 401 :: w.events }) := by
  refine ⟨fun w es hes => ?_, fun headers => ?_, fun headers => ?_⟩
  · -- each event spares the world, and so does the run
    have haloof : ((inventory token).visits w).Aloof := fun x hx => absurd hx List.not_mem_nil
    exact (haloof.run fun c hc => watches_answer c.1 (hes c hc)).2
  · -- message and identifier are named before the request is, from its headers alone
    obtain ⟨message, hmessage, hrefused⟩ := Exchange.exists_authorize_eq token headers
    refine ⟨message, (⟨"", "", headers, ""⟩ : Request).ownId?, ?_⟩
    rintro o r route hr hno ⟨⟨params, hfind⟩, hsome⟩ hroute w
    obtain ⟨h, hhandler⟩ := Option.isSome_iff_exists.mp hsome
    have hauthorize := hrefused ⟨o, r, params⟩ hr hno
    obtain ⟨hrun, hhead⟩ := run_of_authorize_eq_error hauthorize hroute hhandler
    have hown : r.ownId? = (⟨"", "", headers, ""⟩ : Request).ownId? := Request.ownId?_congr hr
    rw [advance_unauthorized rfl hfind hhandler hmessage hrun, hown]
    unfold Response.outgoing
    rw [if_neg hhead]
  · refine ⟨(⟨"", "", headers, ""⟩ : Request).ownId?, ?_⟩
    rintro o r route hr hno ⟨⟨params, hfind⟩, hsome⟩ hroute w
    obtain ⟨h, hhandler⟩ := Option.isSome_iff_exists.mp hsome
    have hcaller := Exchange.caller_eq (x := ⟨o, r, params⟩) hno
    have hown : r.ownId? = (⟨"", "", headers, ""⟩ : Request).ownId? := Request.ownId?_congr hr
    rw [advance_unauthorized rfl hfind hhandler (by decide)
      (run_of_caller_eq_error hcaller hroute hhandler), hown]

/-- A request for a lock with a token that someone has guessed. -/
def guess : Request :=
  ⟨"POST", "/api/rooms/1/confirm-availability", [("Authorization", "Bearer  guess ")], "?"⟩

/-- A request to cancel a booking for nobody in particular. -/
def nameless : Request := ⟨"DELETE", "/api/booking/1", [(Header.userId, "nobody")], ""⟩

theorem strangers_are_turned_away_who_guess :
    let o : Occasion := ⟨Sample.newYear, Sample.uid 1, ⟨"new"⟩⟩
    let w := World.furnished Sample.newYear [Sample.room]
    (¬ guess.Presents "token" ∧ (inventory "token").Reaches guess (roomLocking "token")) ∧
      (nameless.user? = none ∧
        (booking (.direct .once)).Reaches nameless (singleBooking (.direct .once))) ∧
      w.Spared (((inventory "token").visits w).run
        [.start (o, guess), .advance 0, .start (o, guess), .advance 1, .drop 0]).world ∧
      (∃ a, (((inventory "token").answer o guess).advance w).1 = .inl a ∧ a.status = 401) ∧
      ∃ a, (((booking (.direct .once)).answer o nameless).advance w).1 = .inl a ∧
        a.status = 401 := by
  intro o w
  have hguess : ¬ guess.Presents "token" := by
    rintro ⟨h, hmem, -, -, s, hs, htrim⟩
    obtain rfl := List.mem_singleton.mp hmem
    have hsplit : "Bearer  guess ".toList = Exchange.bearer ++ " guess ".toList := by
      decide +kernel
    obtain rfl : " guess ".toList = s := List.append_cancel_left (hsplit.symm.trans hs)
    exact absurd htrim (by decide +kernel)
  have hreaches : (inventory "token").Reaches guess (roomLocking "token") := by
    have hpath : guess.path = "/api/rooms/1/confirm-availability".toList := by decide +kernel
    refine ⟨⟨[['1']], ?_⟩, by rfl⟩
    rw [hpath]
    exact find?_roomLocking "token" (s := ['1']) (by decide)
  have huser : nameless.user? = none := by
    have hfind : nameless.headers.find? (fun h => Header.sameName h.1 Header.userId) =
        some (Header.userId, "nobody") := List.find?_cons_of_pos (decide_eq_true rfl)
    unfold Request.user? Request.header?
    rw [hfind]
    decide +kernel
  have hnameless : (booking (.direct .once)).Reaches nameless (singleBooking (.direct .once)) := by
    have hpath : nameless.path = "/api/booking/1".toList := by decide +kernel
    refine ⟨⟨[['1']], ?_⟩, by rfl⟩
    rw [hpath]
    rfl
  obtain ⟨hspared, hinventory, hbooking⟩ := strangers_are_turned_away "token" (.direct .once)
  obtain ⟨message, own, hanswer⟩ := hinventory guess.headers
  obtain ⟨own', hanswer'⟩ := hbooking nameless.headers
  refine ⟨⟨hguess, hreaches⟩, ⟨huser, hnameless⟩, hspared w _ fun c hc => ?_, ?_, ?_⟩
  · simp only [List.mem_cons, Event.start.injEq, reduceCtorEq, List.not_mem_nil, or_false,
      false_or] at hc
    obtain rfl | rfl := hc
    · exact hguess
    · exact hguess
  · exact ⟨_, congrArg Prod.fst (hanswer o guess _ rfl hguess hreaches (.inl rfl) w), rfl⟩
  · refine ⟨_, congrArg Prod.fst (hanswer' o nameless _ rfl huser hnameless
      (.inr (.inr rfl)) w), ?_⟩
    unfold Response.outgoing
    rw [if_neg (by decide)]
    rfl

end Service

end Lodging
