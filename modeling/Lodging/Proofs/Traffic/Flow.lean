import Lodging.Proofs.Slots
import Lodging.Proofs.Traffic.Strides
import Lodging.World.Sample

/-!
The flow of traffic. As long as nobody gives up, those at the gates are the calls that hold a room or
wait for one, each with one ticket at most. So the first in any line is a call that can go on, and a
slot is kept only while someone is there. As every call keeps its pace, all calls come to their end,
in whatever order they go on.
-/

namespace Lodging

namespace Holds

variable {h h' : Holds} {ts ts' before after : List Ticket} {t : Ticket}

/-- Everyone at a gate has one of these tickets, and no slot is without anyone at its gate. -/
structure Manned (h : Holds) (ts : List Ticket) : Prop where
  sound : h.Sound
  laid : h.Laid
  slots : ∀ room, h.gate? room ≠ none → h.party room ≠ []
  tickets : ts.Perm (h.visitors.map (·.ticket))

theorem manned_of_slots (hslots : h.slots = []) (hvis : h.visitors = []) : h.Manned [] := by
  refine ⟨⟨?_, ?_, ?_⟩, laid_of_slots hslots, ?_, ?_⟩
  · simp [hvis]
  · simp [hvis]
  · simp [hvis]
  · intro room hroom
    simp [gate?, hslots] at hroom
  · simp [hvis]

/-- A call may change the holds and its own tickets, but no others. -/
theorem Manned.grip (hm : h.Manned (before ++ ts ++ after)) (hg : Job.Grip h ts h' ts') :
    h'.Manned (before ++ ts' ++ after) := by
  cases hg with
  | stay => exact hm
  | lineUp room =>
    obtain ⟨g, hvis, -⟩ := request_visitors (h := h) room
    refine ⟨hm.sound.request room, hm.laid.request room, ?_, ?_⟩
    · -- the only new slot is that of the room, where the newcomer stands
      intro r hr
      rw [party_request]
      by_cases hroom : r = room
      · simp [hroom]
      · have hbefore := (gate?_request_ne_none.mp hr).resolve_left hroom
        simpa [hroom] using hm.slots r hbefore
    · have htickets : (before ++ after).Perm (h.visitors.map (·.ticket)) := by
        simpa using hm.tickets
      rw [hvis, List.map_append, request_ticket]
      let t : Ticket := ⟨h.nextTicket⟩
      have hlast : (before ++ [t] ++ after).Perm (before ++ after ++ [t]) := by
        rw [List.append_assoc, List.append_assoc]
        exact List.perm_append_comm.append_left before
      exact hlast.trans (htickets.append_right _)
  | leave t =>
    refine ⟨hm.sound.leave t, hm.laid.leave t, ?_, ?_⟩
    · intro r hr
      rw [hm.sound.gate?_leave hm.laid] at hr
      rw [party_leave]
      by_cases hone : h.party r = [t]
      · rw [if_pos hone] at hr
        exact absurd rfl hr
      · rw [if_neg hone] at hr
        have hsplit := filter_ne_nil_or (hm.sound.nodup_party r) t
        exact (hsplit.mpr (hm.slots r hr)).resolve_right hone
    · -- the ticket is there once, so the others are what is left without it
      have hcons : (t :: (before ++ after)).Perm (h.visitors.map (·.ticket)) := by
        have hmiddle : (before ++ t :: after).Perm (t :: (before ++ after)) := List.perm_middle
        exact hmiddle.symm.trans (by simpa using hm.tickets)
      have hothers := (List.cons_perm_iff_perm_erase.mp hcons).2
      rw [hm.sound.distinct.erase_eq_filter] at hothers
      rw [leave_visitors, List.append_nil]
      unfold withdraw
      have hmap : (h.visitors.filter (·.ticket ≠ t)).map (·.ticket) =
          (h.visitors.map (·.ticket)).filter (· != t) := by
        rw [List.filter_map]
        congr 1
        apply List.filter_congr
        intro v _
        exact Bool.eq_iff_iff.mpr (by simp)
      rw [hmap]
      exact hothers

/-- The first in the line where someone stands has the room. -/
theorem Manned.exists_granted (hm : h.Manned ts) (ht : t ∈ ts) : ∃ u ∈ ts, h.granted u = true := by
  have hmem : t ∈ h.visitors.map (·.ticket) := hm.tickets.mem_iff.mp ht
  obtain ⟨v, hv, -⟩ := List.mem_map.mp hmem
  obtain ⟨a, ha, hg⟩ := hm.sound.exists_granted hv
  exact ⟨a.ticket, hm.tickets.mem_iff.mpr (List.mem_map_of_mem ha), hg⟩

theorem Manned.tracked_eq_zero (hm : h.Manned []) : h.tracked = 0 := by
  have hvis : h.visitors = [] := by simpa using hm.tickets
  have hnobody : ∀ room, h.party room = [] := by
    intro room
    apply party_eq_nil.mpr
    simp [hvis]
  unfold tracked
  rw [List.length_eq_zero_iff]
  apply List.eq_nil_iff_forall_not_mem.mpr
  intro x hx
  exact hm.slots x.1 (gate?_ne_none hx) (hnobody x.1)

end Holds

namespace Scene

variable {κ α : Type} {code : κ → Process α} {span : κ → ℕ} {rooms : ℕ} {spent : List ℕ}
  {s : Scene code}

/-- The holds are those of the calls, and none of these has made more strides than it may. -/
structure Flowing (rooms : ℕ) (span : κ → ℕ) (spent : List ℕ) (s : Scene code) : Prop where
  manned : s.world.holds.Manned (s.jobs.flatMap (·.2.tickets))
  furnished : s.world.inventory.rooms.length ≤ rooms
  begun : ∀ i ∈ spent, i < s.jobs.length
  paced : ∀ (i : ℕ) (c : κ) (j : Job α), s.jobs[i]? = some (c, j) →
    ∃ n, j.Paced rooms n ∧ n + spent.count i ≤ span c

theorem Flowing.striding (hs : s.Flowing rooms span spent) : s.Striding rooms span spent :=
  ⟨hs.furnished, hs.begun, hs.paced⟩

theorem Striding.flowing (hs : s.Striding rooms span spent)
    (hm : s.world.holds.Manned (s.jobs.flatMap (·.2.tickets))) : s.Flowing rooms span spent :=
  ⟨hm, hs.furnished, hs.begun, hs.paced⟩

theorem Flowing.start (hs : s.Flowing rooms span spent) {c : κ} {n : ℕ} (hspan : span c = n + 1)
    (hcode : (code c).Paced rooms n none none) : (s.step (.start c)).Flowing rooms span spent := by
  refine (hs.striding.start hspan hcode).flowing ?_
  have htickets : (s.step (.start c)).jobs.flatMap (·.2.tickets) =
      s.jobs.flatMap (·.2.tickets) := by
    simp [step, Job.tickets]
  rw [htickets]
  exact hs.manned

theorem Flowing.turn (hs : s.Flowing rooms span spent) (t : Turn) :
    (s.step (.turn t)).Flowing rooms span spent := by
  have hholds : (s.world.turn t).holds = s.world.holds := by cases t <;> rfl
  refine (hs.striding.turn t).flowing ?_
  change (s.world.turn t).holds.Manned _
  rw [hholds]
  exact hs.manned

/-- A stride counts for the call that makes it. -/
theorem Flowing.stride (hs : s.Flowing rooms span spent) {i : ℕ} {c : κ} {j : Job α}
    (hj : s.jobs[i]? = some (c, j)) (hready : j.ready s.world = true) :
    (s.step (.advance i)).Flowing rooms span (spent ++ [i]) := by
  refine (hs.striding.stride hj hready).flowing ?_
  obtain ⟨n, hpaced, -⟩ := hs.paced i c j hj
  obtain ⟨-, -, -, -, hgrip⟩ := hpaced.advance hs.furnished hready
  obtain ⟨hlt, hget⟩ := List.getElem?_eq_some_iff.mp hj
  have hstep : s.step (.advance i) =
      ⟨(j.advance s.world).2, s.jobs.set i (c, (j.advance s.world).1)⟩ := by
    simp only [step, update, hj]
  rw [hstep]
  -- the tickets of the other calls stand before and after those of this one
  obtain ⟨before, after, hjobs, hset⟩ : ∃ before after, s.jobs = before ++ (c, j) :: after ∧
      s.jobs.set i (c, (j.advance s.world).1) =
        before ++ (c, (j.advance s.world).1) :: after := by
    obtain ⟨before, after, hjobs, -, hset⟩ :=
      @List.exists_of_set _ _ (c, (j.advance s.world).1) _ hlt
    exact ⟨before, after, by rw [hjobs, hget], hset⟩
  have hmanned := hs.manned
  rw [hjobs] at hmanned
  simp only [hset, List.flatMap_append, List.flatMap_cons, ← List.append_assoc] at hmanned ⊢
  exact hmanned.grip hgrip

theorem Flowing.step (hs : s.Flowing rooms span spent) {e : Event κ} (hkept : e.kept = true)
    (hcode : ∀ c, ∃ n, span c = n + 1 ∧ (code c).Paced rooms n none none) :
    (s.step e).Flowing rooms span (spent ++ (s.strider? e).toList) := by
  cases e with
  | start c =>
    obtain ⟨n, hspan, hpaced⟩ := hcode c
    simpa [strider?] using hs.start hspan hpaced
  | turn t => simpa [strider?] using hs.turn t
  | drop i => cases hkept
  | advance i =>
    rcases s.advance_cases i with ⟨c, j, hj, hready, hstrider⟩ | ⟨hstrider, hstay⟩
    · rw [hstrider]
      exact hs.stride hj hready
    · rw [hstrider, hstay]
      simpa using hs

theorem flowing_run {w : World} (hslots : w.holds.slots = []) (hvis : w.holds.visitors = [])
    (hcode : ∀ c, ∃ n, span c = n + 1 ∧ (code c).Paced w.inventory.rooms.length n none none)
    {es : List (Event κ)} (hkept : ∀ e ∈ es, e.kept = true) :
    ((opening code w).run es).Flowing w.inventory.rooms.length span
      ((opening code w).strides es) := by
  induction es using List.reverseRecOn with
  | nil =>
    refine ⟨Holds.manned_of_slots hslots hvis, Nat.le_refl _, nofun, ?_⟩
    intro i c j hj
    simp [run, opening] at hj
  | append_singleton es e ih =>
    have hbefore := ih fun e he => hkept e (List.mem_append_left _ he)
    rw [run_concat]
    unfold strides at hbefore ⊢
    rw [trail_concat]
    exact hbefore.step (hkept e (by simp)) hcode

/-- Someone can go on, unless all have come to their end. -/
theorem Flowing.exists_strider (hs : s.Flowing rooms span spent) (hquiet : ¬ s.Quiet) :
    ∃ i, s.strider? (.advance i) = some i := by
  refine Scene.exists_strider hs.striding.unburdened (fun x hx t ht => ?_) hquiet
  -- whoever waits stands in a line whose first has the room, and that one is a call too
  obtain ⟨u, hu, hg⟩ := hs.manned.exists_granted (List.mem_flatMap.mpr ⟨x, hx, ht⟩)
  obtain ⟨y, hy, huy⟩ := List.mem_flatMap.mp hu
  exact ⟨y, hy, u, huy, hg⟩

theorem Flowing.tracked_eq_zero (hs : s.Flowing rooms span spent) (hquiet : s.Quiet) :
    s.world.holds.tracked = 0 := by
  have hnone : s.jobs.flatMap (·.2.tickets) = [] := by
    apply List.flatMap_eq_nil_iff.mpr
    intro x hx
    have hover := hquiet x hx
    obtain ⟨c, j⟩ := x
    cases j with
    | running p held => cases hover
    | waiting t next held => cases hover
    | finished a => rfl
    | dropped => rfl
  have hmanned := hs.manned
  rw [hnone] at hmanned
  exact hmanned.tracked_eq_zero

end Scene

namespace Traffic

variable {w : World} {es : List (Event Call)}

theorem flowing (hslots : w.holds.slots = []) (hnobody : w.holds.visitors = [])
    (hkept : ∀ e ∈ es, e.kept = true) :
    ((Scene.opening Call.process w).run es).Flowing w.inventory.rooms.length
      (Call.span w.inventory.rooms.length) ((Scene.opening Call.process w).strides es) :=
  Scene.flowing_run hslots hnobody (Call.paced _) hkept

/-- No call makes more strides than its span, and all together no more than all their spans. -/
theorem count_strides_le (hslots : w.holds.slots = []) (hnobody : w.holds.visitors = [])
    (hkept : ∀ e ∈ es, e.kept = true) :
    let calls := es.filterMap Event.begun?
    let strides := (Scene.opening Call.process w).strides es
    (∀ i (hi : i < calls.length), strides.count i ≤ calls[i].span w.inventory.rooms.length) ∧
      strides.length ≤ (calls.map (Call.span w.inventory.rooms.length)).sum := by
  intro calls strides
  have hs := (flowing hslots hnobody hkept).striding
  have hcalls : ((Scene.opening Call.process w).run es).jobs.map Prod.fst = calls :=
    Scene.calls_run _ es
  refine ⟨fun i hi => ?_, ?_⟩
  · have hi' : i < ((Scene.opening Call.process w).run es).jobs.length := by
      rwa [← hcalls, List.length_map] at hi
    have hc : (((Scene.opening Call.process w).run es).jobs[i]).1 = calls[i] := by
      simp only [← hcalls, List.getElem_map]
    rw [← hc]
    exact hs.count_le hi'
  · rw [← hcalls, List.map_map]
    exact hs.length_le

/-- All calls that are under way can be brought to their end. -/
theorem exists_quiet (hslots : w.holds.slots = []) (hnobody : w.holds.visitors = [])
    (hkept : ∀ e ∈ es, e.kept = true) :
    ∃ is : List ℕ, ((Scene.opening Call.process w).run (es ++ is.map .advance)).Quiet := by
  let start := Scene.opening Call.process w
  let bound := ((es.filterMap Event.begun?).map (Call.span w.inventory.rooms.length)).sum
  have hkept' : ∀ (is : List ℕ), ∀ e ∈ es ++ is.map .advance, e.kept = true := by
    intro is e he
    rcases List.mem_append.mp he with he | he
    · exact hkept e he
    · obtain ⟨i, -, rfl⟩ := List.mem_map.mp he
      rfl
  have hbound : ∀ is : List ℕ, (start.strides (es ++ is.map .advance)).length ≤ bound := by
    intro is
    have hnone : (is.map (Event.advance (κ := Call))).filterMap Event.begun? = [] := by
      apply List.filterMap_eq_nil_iff.mpr
      intro e he
      obtain ⟨i, -, rfl⟩ := List.mem_map.mp he
      rfl
    have hle := (count_strides_le hslots hnobody (hkept' is)).2
    rwa [List.filterMap_append, hnone, List.append_nil] at hle
  -- by induction on the strides that are left
  have hleft : ∀ (k : ℕ) (is : List ℕ),
      bound < (start.strides (es ++ is.map .advance)).length + k →
      ∃ is : List ℕ, (start.run (es ++ is.map .advance)).Quiet := by
    intro k
    induction k with
    | zero => exact fun is hlt => absurd (hbound is) (Nat.not_le.mpr hlt)
    | succ k ih =>
      intro is hlt
      by_cases hquiet : (start.run (es ++ is.map .advance)).Quiet
      · exact ⟨is, hquiet⟩
      · obtain ⟨i, hi⟩ := (flowing hslots hnobody (hkept' is)).exists_strider hquiet
        have hone : (start.strides (es ++ (is ++ [i]).map .advance)).length =
            (start.strides (es ++ is.map .advance)).length + 1 := by
          unfold Scene.strides
          rw [List.map_append, ← List.append_assoc]
          change (start.trail _ (_ ++ [.advance i])).length = _
          rw [Scene.trail_concat, hi, List.length_append]
          rfl
        exact ih (is ++ [i]) (by omega)
  exact hleft (bound + 1) [] (by omega)

/-- Calls that nobody gives up, over one table of holds and whatever goes wrong: while any is under
way one of them can go on, for none holds a room while it lines up, waits or sleeps; no run has more
than so many strides, and all calls can be brought to their end; and then the table is empty. -/
theorem traffic_flows (w : World) (es : List (Event Call)) (hslots : w.holds.slots = [])
    (hnobody : w.holds.visitors = []) (hkept : ∀ e ∈ es, e.kept = true) :
    let rooms := w.inventory.rooms.length
    let calls := es.filterMap Event.begun?
    let start := Scene.opening Call.process w
    let s := start.run es
    (¬ s.Quiet → ∃ i, s.strider? (.advance i) = some i) ∧
      (∀ x ∈ s.jobs, x.2.Unburdened) ∧
      (∀ i (hi : i < calls.length), (start.strides es).count i ≤ calls[i].span rooms) ∧
      (start.strides es).length ≤ (calls.map (Call.span rooms)).sum ∧
      (∃ is : List ℕ, (start.run (es ++ is.map .advance)).Quiet) ∧
      (s.Quiet → s.world.holds.tracked = 0) := by
  have hs := flowing hslots hnobody hkept
  obtain ⟨heach, hall⟩ := count_strides_le hslots hnobody hkept
  refine ⟨hs.exists_strider, ?_, heach, hall, exists_quiet hslots hnobody hkept, ?_⟩
  · intro x hx
    obtain ⟨i, hi⟩ := List.getElem?_of_mem hx
    obtain ⟨n, hpaced, -⟩ := hs.paced i x.1 x.2 hi
    exact hpaced.unburdened
  · exact hs.tracked_eq_zero

/-- Two orders for the same room and a look at what is free go on by turns, while the inventory
fails once: nobody gives up, and in the end the table is empty. -/
theorem traffic_flows_of_orders :
    let w : World := { World.furnished Sample.newYear [Sample.room] with
      roomPlans := [⟨.overlapping, .storage, none, 0, 1⟩] }
    let es : List (Event Call) := [.start (.desk (Sample.booking 1)), .start (.confirm (Sample.order 2)),
      .start (.recommend Sample.twoNights)] ++ (List.range 90).map fun k => .advance (k % 3)
    w.holds.slots = [] ∧ w.holds.visitors = [] ∧ (∀ e ∈ es, e.kept = true) ∧
      ((Scene.opening Call.process w).run es).Quiet ∧
      ((Scene.opening Call.process w).run es).world.holds.tracked = 0 := by
  intro w es
  have hkept : ∀ e ∈ es, e.kept = true := by decide
  have hquiet : ((Scene.opening Call.process w).run es).Quiet := by decide +kernel
  exact ⟨rfl, rfl, hkept, hquiet, (traffic_flows w es rfl rfl hkept).2.2.2.2.2 hquiet⟩

end Traffic

end Lodging
