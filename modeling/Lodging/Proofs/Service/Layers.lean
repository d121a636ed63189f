import Lodging.Proofs.Service.Bearing
import Lodging.World.Layers
import Lodging.World.Sample

/-!
What the layers around the handlers do to the headers of an answer. The outermost one keeps all that
the inner ones set unless the answer tells of a failure in an envelope; that one it makes anew, and
pages of other origins cannot read it.
-/

namespace Lodging

open Process (Leads)

namespace Header

/-- No other header that a service sets has the name of the one for pages of other origins. -/
theorem ne_allowOrigin :
    ∀ name ∈ [requestId, contentType, allow, vary, allowMethods, allowHeaders],
      sameName name allowOrigin = false := by
  decide +kernel

end Header

namespace Service

variable {s : Service} {x : Exchange} {o : Occasion} {r : Request} {a b c : Response} {p : Problem}
  {ds : List Deed} {g : Gateway} {token : String}

theorem under_setHeader (a : Response) (name value : String) :
    (a.setHeader name value).under name = [(name, value)] :=
  Header.filter_set

theorem under_setHeader_of_ne {name other : String} (a : Response) (value : String)
    (hne : Header.sameName name other = false) :
    (a.setHeader name value).under other = a.under other :=
  Header.filter_set_of_ne hne

theorem under_preflight : preflight.under Header.allowOrigin = [(Header.allowOrigin, "*")] := by
  unfold Response.under preflight
  simp [Header.sameName_self, Header.ne_allowOrigin]

theorem under_outgoing (a : Response) (method name : String) :
    (a.outgoing method).under name = a.under name := by
  obtain ⟨hheaders, -, -, -⟩ := outgoing_eq a method
  unfold Response.under
  rw [hheaders]

theorem completes_finished (x : Exchange) (b : Response) : (finished x b).Completes x b where
  status := status_complete x b
  identifier := under_setHeader _ _ _
  body := by
    change (complete x b).body = _
    cases h : b.problem with
    | none => rw [complete_of_none h]
    | some p => rw [complete_of_some h]; rfl

theorem keepsHeaders_of_none (h : b.problem = none) : (finished x b).KeepsHeaders b := by
  intro name hname
  unfold finished
  rw [under_setHeader_of_ne _ _ hname, complete_of_none h]

/-- An envelope is sent with its kind of text and the identifier, and with nothing else. -/
theorem headers_finished_of_some (h : b.problem = some p) : (finished x b).headers =
    [(Header.contentType, "application/json"), (Header.requestId, x.correlation.text)] := by
  unfold finished Response.setHeader
  rw [complete_of_some h]
  change Header.set [(Header.contentType, "application/json")] Header.requestId _ = _
  unfold Header.set
  rw [List.filter_cons_of_pos (by simp [requestId_ne_contentType]), List.filter_nil]
  rfl

theorem under_allowOrigin_of_some (h : b.problem = some p) :
    (finished x b).under Header.allowOrigin = [] := by
  unfold Response.under
  rw [headers_finished_of_some h]
  simp [Header.ne_allowOrigin]

theorem problem_finished (x : Exchange) (b : Response) :
    (finished x b).problem = none ↔ b.problem = none := by
  change (complete x b).problem = none ↔ b.problem = none
  cases hb : b.problem with
  | none => rw [complete_of_none hb, hb]
  | some p => simp [complete_of_some hb]

theorem frame_eq (x : Exchange) (inner : Process Response) : frame x inner = do
    let b ← opened x inner
    Process.meter (.answered b.status)
    return finished x b := by
  unfold frame opened
  split <;> rfl

/-- An answer goes through the inner layers, the outermost one and the router. -/
theorem answer_eq_inside (hframed : s.framed = true) : s.answer o r = do
    let b ← s.inside o r
    Process.meter (.answered b.status)
    return s.routed r (finished (s.exchange o r) b) := by
  unfold answer inside bareAnswer exchange routed
  -- the router adds to the answer of a handler, and to that of a route without one
  cases hfind : s.find? r.path with
  | none =>
    simp only
    rw [around_eq hframed, frame_eq]
  | some found =>
    obtain ⟨route, params⟩ := found
    cases hhandler : route.handler? r.method with
    | none =>
      simp only [hhandler]
      rw [around_eq hframed, frame_eq]
      simp only [bind_assoc, pure_bind]
    | some h =>
      simp only [hhandler]
      rw [around_eq hframed, frame_eq]
      simp only [bind_assoc, pure_bind]
      rfl

/-- Without any layer, an answer has no envelope, or is the one to a request turned down. -/
theorem bareAnswer_cases (hs : s = booking g ∨ s = inventory token)
    (hleads : (s.bareAnswer o r).Leads ds (.done c)) :
    c.problem = none ∨ ∃ f, c = .ofRefusal o.now f := by
  have hbare : ∀ {status : Nat}, (pure (.bare status) : Process Response).Leads ds (.done c) →
      c.problem = none := by
    intro status h
    obtain ⟨-, hdone⟩ := h.of_done
    obtain rfl := Process.done.inj hdone
    rfl
  unfold bareAnswer at hleads
  cases hfind : s.find? r.path with
  | none =>
    simp only [hfind] at hleads
    exact .inl (hbare hleads)
  | some found =>
    obtain ⟨route, params⟩ := found
    simp only [hfind] at hleads
    cases hhandler : route.handler? r.method with
    | none =>
      simp only [hhandler] at hleads
      exact .inl (hbare hleads)
    | some h =>
      -- only a handler that fails makes an envelope
      simp only [hhandler] at hleads
      rw [handle_eq] at hleads
      obtain ⟨e, he, rfl⟩ := hleads.of_map_done
      obtain ⟨m, hm, -⟩ := exists_of_handler? hhandler
      cases e with
      | error f => exact .inr ⟨f, rfl⟩
      | ok b => exact .inl (succeeds_handler hs (mem_of_find? hfind) hm _ b he).1

/-- Whatever the inner layers produce, pages of other origins may read it. -/
theorem inside_cases (hs : s = booking g ∨ s = inventory token)
    (hleads : (s.inside o r).Leads ds (.done b)) :
    b.under Header.allowOrigin = [(Header.allowOrigin, "*")] ∧
      (b.problem = none ∨ ∃ f, b = shared (.ofRefusal o.now f)) := by
  unfold inside opened at hleads
  split at hleads
  · obtain ⟨-, hdone⟩ := hleads.of_done
    obtain rfl := Process.done.inj hdone
    exact ⟨under_preflight, .inl rfl⟩
  · rw [map_eq_pure_bind] at hleads
    obtain ⟨c, hc, rfl⟩ := hleads.of_map_done
    refine ⟨under_setHeader _ _ _, ?_⟩
    rcases bareAnswer_cases hs hc with hnone | ⟨f, rfl⟩
    · exact .inl hnone
    · exact .inr ⟨f, rfl⟩

theorem headers_shared_ofRefusal (now : Instant) (f : Refusal) :
    (shared (.ofRefusal now f)).headers =
      [(Header.contentType, "application/json"), (Header.vary, crossOrigin),
        (Header.allowOrigin, "*")] := by
  change Header.set [(Header.contentType, "application/json"), (Header.vary, crossOrigin)]
    Header.allowOrigin "*" = _
  decide +kernel

theorem under_routed (a : Response) : (s.routed r a).under Header.allowOrigin =
    a.under Header.allowOrigin ∧ (s.routed r a).problem = a.problem := by
  unfold routed
  split
  · exact ⟨rfl, rfl⟩
  · split
    · exact ⟨under_outgoing a r.method _, (outgoing_eq a r.method).2.1⟩
    · exact ⟨under_setHeader_of_ne a _ (Header.ne_allowOrigin _ (by simp)), rfl⟩

/-- The outermost layer of a service keeps the status and the body of what the inner ones produce,
but for the path and the identifier in an envelope, and puts the identifier on the answer. It keeps
all other headers if and only if there is no envelope: an answer with one loses the header that lets
pages of other origins read it, which every other answer has. -/
theorem envelopes_lose_their_origin (g : Gateway) (token : String) (o : Occasion) (r : Request) :
    ∀ s, s = booking g ∨ s = inventory token →
      (s.answer o r = do
        let b ← s.inside o r
        Process.meter (.answered b.status)
        return s.routed r (finished (s.exchange o r) b)) ∧
      (∀ ds b, (s.inside o r).Leads ds (.done b) →
        (finished (s.exchange o r) b).Completes (s.exchange o r) b ∧
        b.under Header.allowOrigin = [(Header.allowOrigin, "*")] ∧
        ((finished (s.exchange o r) b).KeepsHeaders b ↔ b.problem = none) ∧
        ∀ p, b.problem = some p →
          b.headers = [(Header.contentType, "application/json"), (Header.vary, crossOrigin),
            (Header.allowOrigin, "*")] ∧
          (finished (s.exchange o r) b).headers = [(Header.contentType, "application/json"),
            (Header.requestId, (s.exchange o r).correlation.text)]) ∧
      ∀ ds a, (s.answer o r).Leads ds (.done a) → a.under Header.allowOrigin =
        match a.problem with
        | none => [(Header.allowOrigin, "*")]
        | some _ => [] := by
  intro s hs
  have heq := answer_eq_inside (o := o) (r := r) (framed_of_eq hs)
  refine ⟨heq, ?_, ?_⟩
  · intro ds b hleads
    obtain ⟨hshared, hkind⟩ := inside_cases hs hleads
    refine ⟨completes_finished _ b, hshared, ⟨?_, keepsHeaders_of_none⟩, ?_⟩
    · -- the header that an envelope loses was there before
      intro hkeeps
      cases hb : b.problem with
      | none => rfl
      | some p =>
        have hkept := hkeeps Header.allowOrigin (Header.ne_allowOrigin _ (by simp))
        rw [under_allowOrigin_of_some hb, hshared] at hkept
        cases hkept
    · intro p hp
      rcases hkind with hnone | ⟨f, rfl⟩
      · exact absurd (hnone.symm.trans hp) nofun
      · exact ⟨headers_shared_ofRefusal _ f, headers_finished_of_some hp⟩
  · intro ds a hleads
    rw [heq] at hleads
    obtain ⟨b, first, rest, -, hb, hrest⟩ := hleads.of_bind_done
    obtain ⟨-, -, rfl⟩ := hrest.of_map_done
    obtain ⟨hshared, -⟩ := inside_cases hs hb
    obtain ⟨hunder, hproblem⟩ := under_routed (s := s) (r := r) (finished (s.exchange o r) b)
    rw [hunder, hproblem]
    cases hfinished : (finished (s.exchange o r) b).problem with
    | none =>
      have hnone := (problem_finished _ b).mp hfinished
      rw [keepsHeaders_of_none hnone _ (Header.ne_allowOrigin _ (by simp)), hshared]
    | some p =>
      cases hb : b.problem with
      | none => exact absurd (hfinished.symm.trans ((problem_finished _ b).mpr hb)) nofun
      | some q => exact under_allowOrigin_of_some hb

theorem inside_eq {route : Route} {params : List (List Char)} {h : Handler}
    (hfind : s.find? r.path = some (route, params)) (hhandler : route.handler? r.method = some h) :
    s.inside o r = do return shared (outcome ⟨o, r, params⟩ (← (h ⟨o, r, params⟩).run)) := by
  have hexchange : s.exchange o r = ⟨o, r, params⟩ := by
    unfold exchange
    rw [hfind]
  unfold inside opened bareAnswer
  simp only [hfind, hhandler, hexchange, if_neg (ne_options_of_handler? hhandler), handle_eq,
    map_eq_pure_bind, bind_assoc, pure_bind]

theorem exists_leads_answer (hframed : s.framed = true) (hinside : s.inside o r = pure b) :
    ∃ ds, (s.answer o r).Leads ds (.done (s.routed r (finished (s.exchange o r) b))) := by
  rw [answer_eq_inside hframed, hinside, pure_bind]
  exact ⟨_, .did (a := ()) (.stay _)⟩

def newYearsDay : Occasion := ⟨Sample.newYear, Sample.uid 1, ⟨"new"⟩⟩

/-- A request for the rooms that are free, without the dates that they must be free on. -/
def dateless : Request := ⟨"GET", "/api/rooms", [(Header.requestId, "r")], ""⟩

/-- A request to know whether the service is there. -/
def checkup : Request := ⟨"GET", "/health", [(Header.requestId, "r")], ""⟩

theorem inside_dateless : (inventory "token").inside newYearsDay dateless =
    pure (shared (.ofRefusal Sample.newYear (.badRequest "start and end are required"))) := by
  have hpath : dateless.path = "/api/rooms".toList := by decide +kernel
  have hfind : (inventory "token").find? dateless.path = some (roomList, []) := by
    rw [hpath]
    rfl
  have hstay : (⟨newYearsDay, dateless, []⟩ : Exchange).stay =
      .error (.badRequest "start and end are required") := by decide +kernel
  have hrun : (availableRooms ⟨newYearsDay, dateless, []⟩).run =
      pure (.error (.badRequest "start and end are required")) := by
    unfold availableRooms
    rw [hstay]
    rfl
  rw [inside_eq hfind (by rfl), hrun, pure_bind]
  rfl

theorem inside_checkup : (inventory "token").inside newYearsDay checkup =
    pure (shared (.json (Json.object [("status", .text "ok")]).compact)) := by
  have hpath : checkup.path = "/health".toList := by decide +kernel
  have hfind : (inventory "token").find? checkup.path =
      some (⟨["health"], [(.get, health)]⟩, []) := by
    rw [hpath]
    rfl
  rw [inside_eq hfind (by rfl)]
  rfl

theorem envelopes_lose_their_origin_of_dateless :
    (∃ ds a, ((inventory "token").answer newYearsDay dateless).Leads ds (.done a) ∧
      a.under Header.allowOrigin = []) ∧
    ∃ ds a, ((inventory "token").answer newYearsDay checkup).Leads ds (.done a) ∧
      a.under Header.allowOrigin = [(Header.allowOrigin, "*")] := by
  constructor
  · obtain ⟨ds, hleads⟩ := exists_leads_answer rfl inside_dateless
    obtain ⟨-, -, hanswer⟩ := envelopes_lose_their_origin (.direct .once) "token" newYearsDay
      dateless (inventory "token") (.inr rfl)
    have hunder := hanswer ds _ hleads
    rw [(under_routed _).2] at hunder
    exact ⟨ds, _, hleads, hunder⟩
  · obtain ⟨ds, hleads⟩ := exists_leads_answer rfl inside_checkup
    obtain ⟨-, -, hanswer⟩ := envelopes_lose_their_origin (.direct .once) "token" newYearsDay
      checkup (inventory "token") (.inr rfl)
    have hunder := hanswer ds _ hleads
    rw [(under_routed _).2] at hunder
    exact ⟨ds, _, hleads, hunder⟩

/-- A page of another origin may read whether the service is there, but not that its request for
rooms came without dates. -/
theorem dateless_loses_origin :
    ¬ ∀ ds b, ((inventory "token").inside newYearsDay dateless).Leads ds (.done b) →
      (finished ((inventory "token").exchange newYearsDay dateless) b).Completes
        ((inventory "token").exchange newYearsDay dateless) b ∧
      (finished ((inventory "token").exchange newYearsDay dateless) b).KeepsHeaders b := by
  intro hkeeps
  rw [inside_dateless] at hkeeps
  obtain ⟨-, hkept⟩ := hkeeps [] _ (.stay _)
  let f := Refusal.badRequest "start and end are required"
  have hhad := under_setHeader ((Response.ofRefusal Sample.newYear f).addHeader Header.vary
    crossOrigin) Header.allowOrigin "*"
  have hlost := hkept Header.allowOrigin (Header.ne_allowOrigin _ (by simp))
  rw [under_allowOrigin_of_some rfl] at hlost
  exact absurd (hlost.trans hhad) nofun

end Service

end Lodging
