import Lodging.Proofs.Keeper.Actions
import Lodging.Proofs.Service.Frame
import Lodging.World.Correlation
import Mathlib.Data.List.Basic

/-!
Every answer bears the identifier of its request. An answer that a handler gives is a success and
has no envelope, or tells of a failure in one; on its way out each is completed and marked.
-/

namespace Lodging

open Process (Leads)

namespace Header

variable {headers : List (String × String)} {name other value : String}

theorem sameName_self (name : String) : sameName name name = true := decide_eq_true rfl

/-- A header that is set is there once. -/
theorem filter_set : (set headers name value).filter (fun h => sameName h.1 name) =
    [(name, value)] := by
  have hothers : (headers.filter fun h => ! sameName h.1 name).filter (fun h => sameName h.1 name) =
      [] := by
    rw [List.filter_filter]
    refine List.filter_eq_nil_iff.mpr fun h _ => ?_
    simp
  unfold set
  rw [List.filter_append, hothers, List.nil_append, List.filter_singleton, sameName_self]
  rfl

/-- A header stays as it is when another one is set. -/
theorem filter_set_of_ne (hne : sameName name other = false) :
    (set headers name value).filter (fun h => sameName h.1 other) =
      headers.filter fun h => sameName h.1 other := by
  have hname : ∀ h : String × String, sameName h.1 other = true → sameName h.1 name = false := by
    intro h hother
    refine decide_eq_false fun heq => ?_
    exact of_decide_eq_false hne (heq.symm.trans (of_decide_eq_true hother))
  have hlast : [(name, value)].filter (fun h => sameName h.1 other) = [] := by
    rw [List.filter_singleton, hne]
    rfl
  unfold set
  rw [List.filter_append, hlast, List.append_nil, List.filter_filter]
  refine List.filter_congr fun h _ => ?_
  cases hother : sameName h.1 other with
  | false => rfl
  | true => rw [hname h hother]; rfl

theorem mem_set_of_ne {h : String × String} (hmem : h ∈ headers) (hne : sameName h.1 name = false) :
    h ∈ set headers name value := by
  refine List.mem_append_left _ (List.mem_filter.mpr ⟨hmem, ?_⟩)
  rw [hne]
  rfl

end Header

theorem Exchange.correlation_eq (x : Exchange) :
    x.correlation = x.request.id x.occasion.requestId := by
  unfold correlation Request.id Request.header? RequestId.ofHeader?
  cases x.request.headers.find? fun h => Header.sameName h.1 Header.requestId with
  | none => rfl
  | some h =>
    cases hvisible : h.2.toList.all Header.visible with
    | false => simp [hvisible]
    | true => cases hblank : blank h.2 <;> simp [hvisible, hblank]

namespace Service

variable {s : Service} {x : Exchange} {o : Occasion} {r : Request} {a b : Response}
  {ds : List Deed} {g : Gateway} {token : String}

theorem requestId_ne_allow : Header.sameName Header.allow Header.requestId = false := by
  decide +kernel

theorem outgoing_eq (a : Response) (method : String) :
    (a.outgoing method).headers = a.headers ∧ (a.outgoing method).problem = a.problem ∧
      (a.outgoing method).status = a.status ∧
        (a.outgoing method).body = if method = "HEAD" then "" else a.body := by
  unfold Response.outgoing
  split <;> exact ⟨rfl, rfl, rfl, rfl⟩

theorem status_complete (x : Exchange) (b : Response) : (complete x b).status = b.status := by
  unfold complete
  split <;> rfl

/-- An answer without an envelope only has to bear the identifier on its head. -/
theorem bears_of_none {id : RequestId} (hproblem : a.problem = none)
    (hheader : a.headers.filter (fun h => Header.sameName h.1 Header.requestId) =
      [(Header.requestId, id.text)]) : a.Bears r id :=
  ⟨hheader, fun _ hp => absurd (hproblem.symm.trans hp) nofun⟩

/-- An answer that is completed and marked bears the identifier. -/
theorem bears_marked (hstatus : ∀ p, b.problem = some p → p.status = b.status) :
    (((complete x b).setHeader Header.requestId x.correlation.text).outgoing
      x.request.method).Bears x.request x.correlation := by
  obtain ⟨hheaders, hproblem, hsame, hbody⟩ :=
    outgoing_eq ((complete x b).setHeader Header.requestId x.correlation.text) x.request.method
  cases hb : b.problem with
  | none =>
    refine bears_of_none ?_ ?_
    · rw [hproblem, complete_of_none hb]
      exact hb
    · rw [hheaders]
      exact Header.filter_set
  | some p =>
    refine ⟨?_, fun q hq => ?_⟩
    · rw [hheaders]
      exact Header.filter_set
    · rw [hproblem, complete_of_some hb] at hq
      obtain rfl := Option.some.inj hq
      rw [hheaders, hsame, hbody, complete_of_some hb]
      exact ⟨hstatus p hb, rfl, rfl,
        Header.mem_set_of_ne List.mem_cons_self requestId_ne_contentType, rfl⟩

/-- What comes out of a frame was made in it, or was put into it. -/
theorem leads_frame {inner : Process Response} (h : (frame x inner).Leads ds (.done a)) :
    ∃ b, (b = preflight ∨ ∃ c first, inner.Leads first (.done c) ∧ b = shared c) ∧
      a = (complete x b).setHeader Header.requestId x.correlation.text := by
  have hmarked : ∀ (b : Response) (rest : List Deed), Leads (do
      Process.meter (.answered b.status)
      return (complete x b).setHeader Header.requestId x.correlation.text) rest (.done a) →
        a = (complete x b).setHeader Header.requestId x.correlation.text := by
    intro b rest h
    cases h with
    | did h =>
      obtain ⟨-, hdone⟩ := h.of_done
      exact Process.done.inj hdone
  unfold frame at h
  split at h
  · exact ⟨preflight, .inl rfl, hmarked preflight ds h⟩
  · obtain ⟨b, first, rest, rfl, hfirst, hrest⟩ := h.of_bind_done
    rw [map_eq_pure_bind] at hfirst
    obtain ⟨c, hc, hb⟩ := hfirst.of_map_done
    exact ⟨b, .inr ⟨c, first, hc, hb⟩, hmarked b rest hrest⟩

/-- If the task does not fail, its answer has no envelope and is a success. -/
def Succeeds (t : ExceptT Refusal Process Response) : Prop :=
  ∀ ds a, t.run.Leads ds (.done (.ok a)) → a.problem = none ∧ a.status < 300

theorem Succeeds.pure (hproblem : a.problem = none) (hstatus : a.status < 300) :
    Succeeds (return a) := by
  intro _ b h
  obtain ⟨-, hdone⟩ := h.of_done
  obtain rfl := Except.ok.inj (Process.done.inj hdone)
  exact ⟨hproblem, hstatus⟩

theorem Succeeds.bind {β : Type} {t : ExceptT Refusal Process β}
    {f : β → ExceptT Refusal Process Response} (hf : ∀ b, Succeeds (f b)) :
    Succeeds (t >>= f) := by
  intro ds a h
  rcases h.of_task_bind_done with ⟨e, he, -⟩ | ⟨b, first, rest, -, -, hrest⟩
  · cases he
  · exact hf b rest a hrest

theorem succeeds_handler {m : Method} {route : Route} {h : Handler}
    (hs : s = booking g ∨ s = inventory token) (hroute : route ∈ s.routes)
    (hhandler : (m, h) ∈ route.handlers) : Succeeds (h x) := by
  have h200 : 200 < 300 := by decide
  have h204 : 204 < 300 := by decide
  rcases hs with rfl | rfl
  · obtain rfl | rfl | rfl | rfl | rfl | rfl := booking_cases hroute hhandler
    · exact .pure rfl h200
    · exact .bind fun _ => .pure rfl h200
    · exact .bind fun _ => .bind fun _ => .bind fun _ => .pure rfl h200
    · exact .bind fun _ => .bind fun _ => .bind fun _ => .pure rfl h200
    · exact .bind fun _ => .bind fun _ => .bind fun _ => .pure rfl h200
    · exact .bind fun _ => .bind fun _ => .bind fun _ => .pure rfl h204
  · obtain rfl | rfl | rfl | rfl | rfl | rfl | rfl := inventory_cases hroute hhandler
    · exact .pure rfl h200
    · exact .bind fun _ => .pure rfl h200
    · exact .bind fun _ => .bind fun _ => .pure rfl h200
    · exact .bind fun _ => .bind fun _ => .pure rfl h200
    · exact .bind fun _ => .bind fun _ => .pure rfl h200
    · exact .bind fun _ => .bind fun _ => .bind fun _ => .bind fun _ => .bind fun _ =>
        .pure rfl h200
    · exact .bind fun _ => .bind fun _ => .bind fun _ => .bind fun _ => .pure rfl h200

theorem framed_of_eq (hs : s = booking g ∨ s = inventory token) : s.framed = true := by
  rcases hs with rfl | rfl <;> rfl

/-- Whatever handler a request finds, and whatever that does: its answer bears the identifier. -/
theorem bears_of_leads (hs : s = booking g ∨ s = inventory token)
    (hleads : (s.answer o r).Leads ds (.done a)) : a.Bears r (r.id o.requestId) := by
  have hframed := framed_of_eq hs
  have hid : ∀ params, (⟨o, r, params⟩ : Exchange).correlation = r.id o.requestId :=
    fun _ => Exchange.correlation_eq _
  -- an answer that no handler gave has no envelope, whether it answers a question or not
  have hnone : ∀ {status : Nat} {b : Response}, (b = preflight ∨ ∃ c first,
      (pure (.bare status) : Process Response).Leads first (.done c) ∧ b = shared c) →
        b.problem = none := by
    rintro status b (rfl | ⟨c, first, hc, rfl⟩)
    · rfl
    · obtain ⟨-, hdone⟩ := hc.of_done
      obtain rfl := Process.done.inj hdone
      rfl
  rcases answer_cases s o r with ⟨params, h, ⟨route, hroute, m, hm⟩, heq⟩ | heq |
    ⟨params, allowed, heq⟩
  · rw [heq, handle_eq, around_eq hframed] at hleads
    obtain ⟨a', hfirst, rfl⟩ := hleads.of_map_done
    obtain ⟨b, hb, rfl⟩ := leads_frame hfirst
    rw [← hid params]
    refine bears_marked fun p hp => ?_
    rcases hb with rfl | ⟨c, _, hc, rfl⟩
    · cases hp
    · obtain ⟨e, he, rfl⟩ := hc.of_map_done
      cases e with
      | error f =>
        obtain rfl := Option.some.inj hp
        rfl
      | ok c =>
        obtain ⟨hproblem, -⟩ := succeeds_handler hs hroute hm _ c he
        exact absurd (hproblem.symm.trans hp) nofun
  · rw [heq, around_eq hframed] at hleads
    obtain ⟨b, hb, rfl⟩ := leads_frame hleads
    have hproblem := hnone hb
    rw [← hid []]
    refine bears_of_none ?_ Header.filter_set
    rw [complete_of_none hproblem]
    exact hproblem
  · rw [heq, around_eq hframed] at hleads
    obtain ⟨a', hfirst, rfl⟩ := hleads.of_map_done
    obtain ⟨b, hb, rfl⟩ := leads_frame hfirst
    have hproblem := hnone hb
    rw [← hid params]
    refine bears_of_none ?_ ((Header.filter_set_of_ne requestId_ne_allow).trans Header.filter_set)
    rw [complete_of_none hproblem]
    exact hproblem

/-- A handler that fails is answered with an envelope. -/
theorem exists_envelope {route : Route} (hs : s = booking g ∨ s = inventory token)
    (hreaches : s.Reaches r route) (hleads : (s.answer o r).Leads ds (.done a))
    (hfailed : 300 ≤ a.status) : ∃ p, a.problem = some p := by
  have hframed := framed_of_eq hs
  obtain ⟨⟨params, hfind⟩, hsome⟩ := hreaches
  obtain ⟨h, hhandler⟩ := Option.isSome_iff_exists.mp hsome
  obtain ⟨m, hm, -⟩ := exists_of_handler? hhandler
  rw [answer_eq hframed hfind hhandler] at hleads
  obtain ⟨e, first, rest, -, he, hrest⟩ := hleads.of_bind_done
  obtain ⟨-, -, rfl⟩ := hrest.of_map_done
  obtain ⟨-, hproblem, hstatus, -⟩ := outgoing_eq (sent ⟨o, r, params⟩ e) r.method
  cases e with
  | error f =>
    rw [hproblem]
    exact ⟨_, rfl⟩
  | ok b =>
    obtain ⟨-, hlow⟩ := succeeds_handler hs (mem_of_find? hfind) hm _ b he
    rw [hstatus] at hfailed
    have hsame : (sent ⟨o, r, params⟩ (.ok b)).status = b.status := status_complete _ _
    omega

end Service

end Lodging
