import Lodging.World.Visits

/-!
What is done around the handlers of a framed service. A request finds a handler, or is told that
there is none; the answer is counted, completed and given the identifier of the request.
-/

namespace Lodging

/-- A property that passes from processes to what is made of them, and that counting has. -/
structure Process.Compositional (P : (α : Type) → Process α → Prop) : Prop where
  pure : ∀ {α : Type} (a : α), P α (pure a)
  bind : ∀ {α β : Type} {p : Process α} {f : α → Process β},
    P α p → (∀ a, P β (f a)) → P β (p >>= f)
  meter : ∀ m, P Unit (Process.meter m)

namespace Service

variable {s : Service} {o : Occasion} {r : Request} {route : Route} {params : List (List Char)}
  {h : Handler} {x : Exchange}

/-- What a handler comes to, as an answer. -/
def outcome (x : Exchange) : Except Refusal Response → Response
  | .ok r => r
  | .error f => .ofRefusal x.occasion.now f

/-- The same on its way out. -/
def sent (x : Exchange) (e : Except Refusal Response) : Response :=
  (complete x (shared (outcome x e))).setHeader Header.requestId x.correlation.text

theorem requestId_ne_contentType : Header.sameName Header.contentType Header.requestId = false := by
  decide +kernel

/-- An answer without an envelope is complete. -/
theorem complete_of_none {b : Response} (h : b.problem = none) : complete x b = b := by
  unfold complete
  rw [h]

/-- An answer with an envelope is made anew, whatever headers it had. -/
theorem complete_of_some {b : Response} {p : Problem} (h : b.problem = some p) :
    complete x b =
      let p' := { p with
        path := some (String.ofList x.request.path), correlation := some x.correlation.text }
      { Response.json (Wire.write p') with status := b.status, problem := some p' } := by
  unfold complete
  rw [h]

theorem mem_of_find? {path : List Char} (hfind : s.find? path = some (route, params)) :
    route ∈ s.routes := by
  obtain ⟨a, ha, hmap⟩ := List.exists_of_findSome?_eq_some hfind
  obtain ⟨ps, -, hps⟩ := Option.map_eq_some_iff.mp hmap
  obtain ⟨rfl, rfl⟩ := Prod.mk.inj hps
  exact ha

theorem exists_of_handler? {method : String} (hhandler : route.handler? method = some h) :
    ∃ m, (m, h) ∈ route.handlers ∧ method ∈ m.names := by
  obtain ⟨⟨m, h'⟩, hfind, rfl⟩ := Option.map_eq_some_iff.mp hhandler
  have hnames := List.find?_some (p := fun h : Method × Handler => h.1.names.contains method) hfind
  exact ⟨m, List.mem_of_find?_eq_some hfind, List.contains_iff_mem.mp hnames⟩

/-- What asks whether a request may be sent finds no handler. -/
theorem ne_options_of_handler? {method : String} (hhandler : route.handler? method = some h) :
    method ≠ "OPTIONS" := by
  obtain ⟨m, -, hm⟩ := exists_of_handler? hhandler
  rintro rfl
  cases m <;> exact absurd hm (by decide)

/-- A handler that was found belongs to a route of the service. -/
theorem answer_cases (s : Service) (o : Occasion) (r : Request) :
    (∃ params h, (∃ route ∈ s.routes, ∃ m, (m, h) ∈ route.handlers) ∧
        s.answer o r = do
          let a ← s.around ⟨o, r, params⟩ (handle h ⟨o, r, params⟩)
          return a.outgoing r.method) ∨
      s.answer o r = s.around ⟨o, r, []⟩ (pure (.bare 404)) ∨
        ∃ params allowed, s.answer o r = do
          let a ← s.around ⟨o, r, params⟩ (pure (.bare 405))
          return a.setHeader Header.allow allowed := by
  unfold answer
  split
  next => exact .inr (.inl rfl)
  next route params hfind =>
    split
    next h hhandler =>
      obtain ⟨m, hm, -⟩ := exists_of_handler? hhandler
      exact .inl ⟨params, h, ⟨route, mem_of_find? hfind, m, hm⟩, rfl⟩
    next => exact .inr (.inr ⟨params, _, rfl⟩)

theorem around_eq {inner : Process Response} (hframed : s.framed = true) :
    s.around x inner = frame x inner := if_pos hframed

theorem handle_eq (h : Handler) (x : Exchange) :
    handle h x = do return outcome x (← (h x).run) := by
  apply congrArg ((h x).run.bind)
  funext e
  cases e <;> rfl

/-- A request that finds a handler is answered with what that comes to. -/
theorem answer_eq (hframed : s.framed = true) (hfind : s.find? r.path = some (route, params))
    (hhandler : route.handler? r.method = some h) :
    s.answer o r = do
      let e ← (h ⟨o, r, params⟩).run
      Process.meter (.answered (outcome ⟨o, r, params⟩ e).status)
      return (sent ⟨o, r, params⟩ e).outgoing r.method := by
  unfold answer
  rw [hfind]
  simp only [hhandler]
  unfold around frame
  simp only [hframed, handle_eq, if_true, if_neg (ne_options_of_handler? hhandler),
    map_eq_pure_bind, bind_assoc, pure_bind]
  rfl

/-- What is made of a task that fails in a way of its own. -/
theorem run_adapt {ε α : Type} (t : ExceptT ε Process α) (refusal : ε → Refusal)
    (response : α → Response) :
    (do return response (← t.adapt refusal) : ExceptT Refusal Process Response).run = do
      return ((← t.run).map response).mapError refusal := by
  change (Except.mapError refusal <$> t.run) >>= _ = _
  rw [map_eq_pure_bind, bind_assoc]
  apply congrArg (t.run >>= ·)
  funext e
  cases e <;> rfl

end Service

namespace Process.Compositional

open Service

variable {P : (α : Type) → Process α → Prop} {α β ε : Type} {s : Service} {x : Exchange}
  (hP : Compositional P)

include hP

theorem task_bind {t : ExceptT ε Process α} {f : α → ExceptT ε Process β} (ht : P _ t.run)
    (hf : ∀ a, P _ (f a).run) : P _ (t >>= f).run := by
  refine hP.bind ht fun e => ?_
  cases e with
  | ok a => exact hf a
  | error f => exact hP.pure _

theorem take_bind {e : Except Refusal α} {f : α → ExceptT Refusal Process β}
    (hf : ∀ a, e = .ok a → P _ (f a).run) : P _ (take e >>= f).run := by
  cases e with
  | ok a => exact hf a rfl
  | error f => exact hP.pure _

theorem adapt_bind {t : ExceptT ε Process α} {refusal : ε → Refusal}
    {f : α → ExceptT Refusal Process β} (ht : P _ t.run) (hf : ∀ a, P _ (f a).run) :
    P _ (t.adapt refusal >>= f).run := by
  have hadapted : P _ (t.adapt refusal).run := by
    change P _ (Except.mapError refusal <$> t.run)
    rw [map_eq_pure_bind]
    exact hP.bind ht fun e => hP.pure _
  exact hP.task_bind hadapted hf

theorem around {inner : Process Response} (hinner : P _ inner) : P _ (s.around x inner) := by
  have hcounted : ∀ a : Response, P _ (do
      Process.meter (.answered a.status)
      return (complete x a).setHeader Header.requestId x.correlation.text) :=
    fun a => hP.bind (hP.meter _) fun _ => hP.pure _
  have hframe : P _ (frame x inner) := by
    unfold frame
    split
    · exact hcounted preflight
    · rw [map_eq_pure_bind]
      exact hP.bind (hP.bind hinner fun _ => hP.pure _) hcounted
  unfold Service.around
  split
  · exact hframe
  · exact hinner

theorem answer {o : Occasion} {r : Request}
    (hhandler : ∀ params, ∀ route ∈ s.routes, ∀ m h, (m, h) ∈ route.handlers →
      P _ (h ⟨o, r, params⟩).run) : P _ (s.answer o r) := by
  rcases answer_cases s o r with
    ⟨params, h, ⟨route, hroute, m, hm⟩, heq⟩ | heq | ⟨params, allowed, heq⟩
  · rw [heq, handle_eq]
    exact hP.bind (hP.around (hP.bind (hhandler params route hroute m h hm) fun _ => hP.pure _))
      fun _ => hP.pure _
  · rw [heq]
    exact hP.around (hP.pure _)
  · rw [heq]
    exact hP.bind (hP.around (hP.pure _)) fun _ => hP.pure _

end Process.Compositional

namespace Service

variable {route : Route} {h : Handler}

theorem inventory_cases {token : String} {m : Method}
    (hroute : route ∈ (inventory token).routes) (hhandler : (m, h) ∈ route.handlers) :
    h = health ∨ h = metrics ∨ h = availableRooms ∨ h = recommendedRooms ∨ h = getRoom ∨
      h = confirmLock token ∨ h = releaseLock token := by
  have hroutes : (inventory token).routes.flatMap (·.handlers) = [(.get, health), (.get, metrics),
      (.get, availableRooms), (.get, recommendedRooms), (.get, getRoom),
      (.post, confirmLock token), (.post, releaseLock token)] := rfl
  have hmem := List.mem_map_of_mem (f := Prod.snd) (List.mem_flatMap.mpr ⟨route, hroute, hhandler⟩)
  rw [hroutes] at hmem
  simpa only [List.map_cons, List.map_nil, List.mem_cons, List.not_mem_nil, or_false] using hmem

theorem booking_cases {g : Gateway} {m : Method} (hroute : route ∈ (booking g).routes)
    (hhandler : (m, h) ∈ route.handlers) :
    h = health ∨ h = metrics ∨ h = createBooking g ∨ h = listBookings ∨ h = getBooking ∨
      h = cancelBooking g := by
  have hroutes : (booking g).routes.flatMap (·.handlers) = [(.get, health), (.get, metrics),
      (.post, createBooking g), (.get, listBookings), (.get, getBooking),
      (.delete, cancelBooking g)] := rfl
  have hmem := List.mem_map_of_mem (f := Prod.snd) (List.mem_flatMap.mpr ⟨route, hroute, hhandler⟩)
  rw [hroutes] at hmem
  simpa only [List.map_cons, List.map_nil, List.mem_cons, List.not_mem_nil, or_false] using hmem

end Service

end Lodging
