import Lodging.Proofs.Keeper.Overlap
import Lodging.World.Sample
import Lodging.World.Trail
import Mathlib.Data.List.Perm.Subperm

/-!
How often a request takes effect. The inventory knows a request by its lock alone, so an order that
comes again is known as a repetition only as long as the lock is held. Once the lock is released,
the same request takes effect once more.
-/

namespace Lodging

namespace Inventory

variable {u v : Inventory} {n : NewLock} {l : Lock} {now : Instant}

theorem mem_beyond : l ∈ v.beyond u ↔ l ∈ v.locks ∧ l ∉ u.locks := by
  unfold beyond
  rw [List.mem_filter]
  simp

theorem beyond_of_locks_eq (h : v.locks = u.locks) : v.beyond u = [] := by
  refine List.eq_nil_iff_forall_not_mem.mpr fun l hl => ?_
  obtain ⟨hv, hu⟩ := mem_beyond.mp hl
  rw [h] at hv
  exact hu hv

theorem Sound.nodup (hv : v.Sound) : v.locks.Nodup := List.Nodup.of_map _ hv.ids

/-- What was there and what came are what went and what is there. -/
theorem append_beyond_perm (hu : u.Sound) (hv : v.Sound) :
    (u.locks ++ v.beyond u).Perm (u.beyond v ++ v.locks) := by
  have hleft : (u.locks ++ v.beyond u).Nodup := by
    refine hu.nodup.append (hv.nodup.filter _) fun l hl hl' => ?_
    exact (mem_beyond.mp hl').2 hl
  have hright : (u.beyond v ++ v.locks).Nodup := by
    refine (hu.nodup.filter _).append hv.nodup fun l hl hl' => ?_
    exact (mem_beyond.mp hl).2 hl'
  refine (List.perm_ext_iff_of_nodup hleft hright).mpr fun l => ?_
  rw [List.mem_append, List.mem_append, mem_beyond, mem_beyond]
  by_cases hlu : l ∈ u.locks
  · by_cases hlv : l ∈ v.locks <;> simp [hlu, hlv]
  · by_cases hlv : l ∈ v.locks <;> simp [hlu, hlv]

theorem Sound.newLock_not_mem (hv : v.Sound) (now : Instant) (n : NewLock) :
    v.newLock now n ∉ v.locks := by
  intro hl
  have hle : v.lastLock + 1 ≤ v.lastLock := hv.counted _ hl
  omega

/-- One lock at most is held for a request. -/
theorem Sound.length_request_le (hv : v.Sound) (r : RequestId) :
    (v.locks.filter (·.request = r)).length ≤ 1 := by
  by_cases h : ∃ l ∈ v.locks, l.request = r
  · obtain ⟨l, hl, rfl⟩ := h
    have hone : v.locks.filter (fun m => m.request = l.request) = [l] :=
      Rows.filter_key hv.requests hl
    rw [hone]
    exact Nat.le_refl _
  · have hnone : v.locks.filter (fun m => m.request = r) = [] := by
      refine List.filter_eq_nil_iff.mpr fun l hl hr => ?_
      exact h ⟨l, hl, of_decide_eq_true hr⟩
    rw [hnone]
    exact Nat.zero_le _

end Inventory

/-- The locks that an event brings can be told by the stages before and after it. -/
theorem Script.gained_eq {σ κ α : Type} {S : Script σ} {code : κ → Process α} {Q : κ → α → σ → Prop}
    {s : Scene code} {e : Event κ} {st st' : Stage κ σ} (ht : S.Tells Q s st)
    (ht' : S.Tells Q (s.step e) st') :
    s.gained e = st'.stock.inventory.beyond st.stock.inventory := by
  rw [ht.stock, ht'.stock]
  rfl

namespace Keeper

variable {st st' : Stage Call Point} {i k : ℕ} {p p' : Point} {v v' : Inventory} {e : Event Call}
  {l : Lock} {placed : List Lock}

/-- A lock is answered as a new one by the call that has just placed it. -/
theorem Move.of_locked {n : NewLock} (h : Move p v (.placed n (.ok (.locked l))) v') :
    ∃ now, p = .free n ∧ l = v.newLock now n ∧ v' = v.withLock now n := by
  cases h with
  | insert now => exact ⟨now, rfl, rfl, rfl⟩

theorem Move.call?_of_eq {c : Call} (h : Move p v p' v') (hc : p'.call? = some c) :
    p.call? = some c := by
  cases h <;> exact hc

theorem Move.lastLock_le (h : Move p v p' v') : v.lastLock ≤ v'.lastLock := by
  rcases h.inventory_cases with rfl | ⟨n, -, -, rfl⟩ | ⟨n, now, -, -, -, rfl, -⟩ |
    ⟨room, uid, m, -, -, rfl⟩
  · exact Int.le_refl _
  · exact Int.le_refl _
  · rw [Inventory.withLock_lastLock]
    omega
  · exact Int.le_refl _

/-- What the locks that were placed so far have to do with the calls. -/
structure Recorded (placed : List Lock) (st : Stage Call Point) : Prop where
  clear : Clear st.point st.stock.inventory
  call : ∀ i c, (st.point i).call? = some c → st.calls[i]? = some c
  counted : ∀ l ∈ placed, l.id ≤ st.stock.inventory.lastLock
  mine : ∀ i n l, st.point i = .placed n (.ok (.locked l)) → l ∈ placed ∧ l.request = n.request
  own : ∀ i k n m l, st.point i = .placed n (.ok (.locked l)) →
    st.point k = .placed m (.ok (.locked l)) → i = k

theorem Recorded.move (h : Recorded placed st) (hex : script.Exclusive st.point)
    (hm : Move (st.point i) st.stock.inventory p v') :
    Recorded (placed ++ v'.beyond st.stock.inventory)
      ⟨{ st.stock with inventory := v' }, st.calls, Function.update st.point i p⟩ := by
  have hclear := h.clear.move hex hm
  -- a lock that is new has an id above all ids before
  have hfresh : ∀ n l, p = .placed n (.ok (.locked l)) →
      l ∈ v'.beyond st.stock.inventory ∧ l.request = n.request ∧ l ∉ placed := by
    rintro n l rfl
    obtain ⟨now, -, rfl, rfl⟩ := hm.of_locked
    refine ⟨Inventory.mem_beyond.mpr ⟨?_, h.clear.sound.newLock_not_mem now n⟩, rfl, ?_⟩
    · rw [Inventory.withLock_locks]
      exact List.mem_append_right _ (List.mem_singleton_self _)
    · intro hl
      have hle : st.stock.inventory.lastLock + 1 ≤ st.stock.inventory.lastLock :=
        h.counted _ hl
      omega
  refine ⟨hclear, ?_, ?_, ?_, ?_⟩
  · intro k c hk
    change (Function.update st.point i p k).call? = some c at hk
    rcases update_cases (fun q : Point => q.call? = some c) hk with ⟨rfl, hp⟩ | ⟨-, hk⟩
    · exact h.call k c (hm.call?_of_eq hp)
    · exact h.call k c hk
  · intro l hl
    rcases List.mem_append.mp hl with hl | hl
    · exact Int.le_trans (h.counted l hl) hm.lastLock_le
    · exact hclear.sound.counted l (Inventory.mem_beyond.mp hl).1
  · intro k n l hk
    rcases update_eq_cases hk with ⟨-, hp⟩ | ⟨-, hk⟩
    · obtain ⟨hl, hr, -⟩ := hfresh n l hp
      exact ⟨List.mem_append_right _ hl, hr⟩
    · obtain ⟨hl, hr⟩ := h.mine k n l hk
      exact ⟨List.mem_append_left _ hl, hr⟩
  · intro k j n m l hk hj
    rcases update_eq_cases hk with ⟨hki, hp⟩ | ⟨-, hk⟩
    · rcases update_eq_cases hj with ⟨hji, -⟩ | ⟨-, hj⟩
      · exact hki.trans hji.symm
      · exact absurd (h.mine j m l hj).1 (hfresh n l hp).2.2
    · rcases update_eq_cases hj with ⟨-, hp⟩ | ⟨-, hj⟩
      · exact absurd (h.mine k n l hk).1 (hfresh m l hp).2.2
      · exact h.own k j n m l hk hj

/-- Events that change no lock, after which calls are where they were, or have not answered. -/
theorem Recorded.keep (h : Recorded placed st) (hc : Clear st'.point st'.stock.inventory)
    (hlocks : st'.stock.inventory.locks = st.stock.inventory.locks)
    (hlast : st'.stock.inventory.lastLock = st.stock.inventory.lastLock)
    (hcall : ∀ i c, (st'.point i).call? = some c → st'.calls[i]? = some c)
    (hpoint : ∀ i n l, st'.point i = .placed n (.ok (.locked l)) →
      st.point i = .placed n (.ok (.locked l))) :
    Recorded (placed ++ st'.stock.inventory.beyond st.stock.inventory) st' := by
  rw [Inventory.beyond_of_locks_eq hlocks, List.append_nil]
  refine ⟨hc, hcall, ?_, ?_, ?_⟩
  · rw [hlast]
    exact h.counted
  · exact fun i n l hi => h.mine i n l (hpoint i n l hi)
  · exact fun i k n m l hi hk => h.own i k n m l (hpoint i n l hi) (hpoint k m l hk)

theorem Call.call?_first {c d : Call} (h : c.first.call? = some d) : c = d := by
  cases c <;> first | exact Option.some.inj h | cases h

theorem Recorded.next (h : Recorded placed st) (hex : script.Exclusive st.point)
    (hn : script.Next Call.first e st st') :
    Recorded (placed ++ st'.stock.inventory.beyond st.stock.inventory) st' := by
  have hclear := h.clear.next hex hn
  cases hn with
  | start c =>
    refine h.keep hclear rfl rfl ?_ ?_
    · intro i d hd
      change (Function.update st.point st.calls.length c.first i).call? = some d at hd
      change (st.calls ++ [c])[i]? = some d
      rcases update_cases (fun q : Point => q.call? = some d) hd with ⟨rfl, hp⟩ | ⟨-, hd⟩
      · rw [List.getElem?_concat_length, Call.call?_first hp]
      · have hi := h.call i d hd
        rwa [List.getElem?_append_left (List.getElem?_eq_some_iff.mp hi).1]
    · intro i n l hi
      rcases update_eq_cases hi with ⟨-, hp⟩ | ⟨-, hi⟩
      · cases c <;> cases hp
      · exact hi
  | move hi hm =>
    obtain ⟨v, hm, rfl⟩ := hm
    exact h.move hex hm
  | @drop _ i hi =>
    refine h.keep hclear rfl rfl ?_ ?_
    · intro k c hk
      change (Function.update st.point i .rest k).call? = some c at hk
      rcases update_cases (fun q : Point => q.call? = some c) hk with ⟨-, hk⟩ | ⟨-, hk⟩
      · cases hk
      · exact h.call k c hk
    · intro k n l hk
      rcases update_eq_cases hk with ⟨-, hp⟩ | ⟨-, hk⟩
      · cases hp
      · exact hk
  | turn t =>
    have hlocks : (st.stock.turn t).inventory.locks = st.stock.inventory.locks := by
      cases t <;> rfl
    have hlast : (st.stock.turn t).inventory.lastLock = st.stock.inventory.lastLock := by
      cases t <;> rfl
    exact h.keep hclear hlocks hlast h.call fun _ _ _ hi => hi
  | idle => exact h.keep hclear rfl rfl h.call fun _ _ _ hi => hi

theorem recorded_opening (now : Instant) :
    Recorded [] ⟨(World.atTime now).stock, [], fun _ => .rest⟩ where
  clear := clear_rest Inventory.sound_empty Inventory.apart_empty
  call _ _ h := nomatch h
  counted _ hl := absurd hl List.not_mem_nil
  mine _ _ _ h := nomatch h
  own _ _ _ _ _ h := nomatch h

/-- The run of calls to the keeper from an empty house. -/
abbrev history (now : Instant) : Scene Call.process := .opening Call.process (.atTime now)

theorem exists_recorded (now : Instant) (es : List (Event Call)) :
    ∃ st, script.Tells Call.Ends ((history now).run es) st ∧
      Recorded ((history now).trail Scene.gained es) st := by
  have hopen : script.Tells Call.Ends (history now)
      ⟨(World.atTime now).stock, [], fun _ => .rest⟩ :=
    Script.tells_opening ⟨rfl, rfl⟩ Holds.sound_empty rfl
  refine Script.exists_stage_of_run Call.runs Call.inside_first
    (fun es st => Recorded ((history now).trail Scene.gained es) st) hopen
    (recorded_opening now) ?_ es
  intro es e st st' ht h hn ht'
  rw [Scene.run_concat] at ht'
  rw [Scene.trail_concat, Script.gained_eq ht ht']
  exact h.next ht.exclusive hn

theorem sound_run (now : Instant) (es : List (Event Call)) :
    ((history now).run es).world.inventory.Sound := by
  obtain ⟨st, ht, h⟩ := exists_recorded now es
  have hsound := h.clear.sound
  rwa [ht.stock] at hsound

/-- Every lock that was placed has been removed or is held. -/
theorem gained_perm (now : Instant) (es : List (Event Call)) :
    ((history now).trail Scene.gained es).Perm
      ((history now).trail Scene.lost es ++ ((history now).run es).world.inventory.locks) := by
  induction es using List.reverseRecOn with
  | nil => exact .refl _
  | append_singleton es e ih =>
    have hsound := sound_run now (es ++ [e])
    rw [Scene.trail_concat, Scene.trail_concat, Scene.run_concat, List.append_assoc]
    rw [Scene.run_concat] at hsound
    have hevent := Inventory.append_beyond_perm (sound_run now es) hsound
    refine (ih.append_right _).trans ?_
    rw [List.append_assoc]
    exact hevent.append_left _

/-- The lock that a call for a request has answered as a new one. -/
def newLock? (r : RequestId) : Call × Job Reply → Option Lock
  | (.confirm n, .finished (.placement (.ok (.locked l)))) =>
    if n.request = r then some l else none
  | _ => none

/-- The locks that calls for a request have answered as new ones. -/
def answered (s : Scene Call.process) (r : RequestId) : List Lock := s.jobs.filterMap (newLock? r)

theorem newLock?_eq_some {r : RequestId} {x : Call × Job Reply} (h : newLock? r x = some l) :
    ∃ n, x = (.confirm n, .finished (.placement (.ok (.locked l)))) ∧ n.request = r := by
  unfold newLock? at h
  split at h
  next n m =>
    split at h
    next hr =>
      obtain rfl := Option.some.inj h
      exact ⟨n, rfl, hr⟩
    next => cases h
  next => cases h

theorem Recorded.point_of_answered {s : Scene Call.process} {r : RequestId}
    (ht : script.Tells Call.Ends s st) {x : Call × Job Reply} (hi : s.jobs[i]? = some x)
    (hx : newLock? r x = some l) :
    ∃ n, st.point i = .placed n (.ok (.locked l)) ∧ n.request = r := by
  obtain ⟨n, rfl, hr⟩ := newLock?_eq_some hx
  obtain ⟨a, ha, hp⟩ := (ht.keeps i _ _ hi).1
  obtain rfl := Reply.placement.inj ha
  exact ⟨n, hp, hr⟩

/-- No lock is answered as a new one by two calls, nor by any unless it was placed. -/
theorem Recorded.answered_subperm {s : Scene Call.process} (h : Recorded placed st)
    (ht : script.Tells Call.Ends s st) (r : RequestId) :
    (answered s r).Subperm (placed.filter (·.request = r)) := by
  apply List.subperm_of_subset
  · refine List.pairwise_filterMap.mpr (List.pairwise_iff_getElem.mpr ?_)
    intro i k hi hk hlt l hl m hm hlm
    subst hlm
    obtain ⟨n, hpi, -⟩ := point_of_answered ht (List.getElem?_eq_getElem hi) hl
    obtain ⟨o, hpk, -⟩ := point_of_answered ht (List.getElem?_eq_getElem hk) hm
    have hik := h.own i k n o l hpi hpk
    omega
  · intro l hl
    obtain ⟨x, hx, hxl⟩ := List.mem_filterMap.mp hl
    obtain ⟨i, hi⟩ := List.mem_iff_getElem?.mp hx
    obtain ⟨n, hp, rfl⟩ := point_of_answered ht hi hxl
    obtain ⟨hmem, hr⟩ := h.mine i n l hp
    exact List.mem_filter.mpr ⟨hmem, decide_eq_true hr⟩

/-- A call of a scene. -/
theorem Recorded.job_of_point {s : Scene Call.process} {c : Call} (h : Recorded placed st)
    (ht : script.Tells Call.Ends s st) (hi : (st.point i).call? = some c) :
    (s.jobs[i]?).map Prod.fst = some c := by
  rw [← List.getElem?_map, ← ht.calls]
  exact h.call i c hi

/-- The event by which locks change, whoever it is that changes them. -/
theorem change_cases (now : Instant) (es : List (Event Call)) (e : Event Call) :
    ((history now).run es).gained e = [] ∧ ((history now).run es).lost e = [] ∨
      (∃ i n t, e = .advance i ∧
        (((history now).run es).jobs[i]?).map Prod.fst = some (.confirm n) ∧
        (((history now).run es).step e).world.inventory =
          ((history now).run es).world.inventory.withLock t n) ∨
      ∃ i l, e = .advance i ∧ l ∈ ((history now).run es).world.inventory.locks ∧
        (((history now).run es).jobs[i]?).map Prod.fst = some (.release l.room l.uid) ∧
        (((history now).run es).step e).world.inventory =
          ((history now).run es).world.inventory.withoutLock l := by
  obtain ⟨st, ht, h⟩ := exists_recorded now es
  obtain ⟨st', hn, ht'⟩ := ht.step Call.runs Call.inside_first e
  generalize (history now).run es = s at *
  have hinv : s.world.inventory = st.stock.inventory := by
    rw [ht.stock]
    rfl
  have hinv' : (s.step e).world.inventory = st'.stock.inventory := by
    rw [ht'.stock]
    rfl
  have hsame : st'.stock.inventory.locks = st.stock.inventory.locks →
      s.gained e = [] ∧ s.lost e = [] := by
    intro hl
    rw [← hinv', ← hinv] at hl
    exact ⟨Inventory.beyond_of_locks_eq hl, Inventory.beyond_of_locks_eq hl.symm⟩
  rw [hinv', hinv]
  cases hn with
  | @move _ i p b hi hm =>
    obtain ⟨v, hm, rfl⟩ := hm
    -- only two moves change the locks, and the point they start from tells whose they are
    rcases hm.inventory_cases with hv | ⟨n, -, -, hv⟩ | ⟨n, t, hp, -, -, hv, -⟩ |
      ⟨room, uid, l, hp, -, hv⟩
    · subst hv
      exact .inl (hsame rfl)
    · subst hv
      exact .inl (hsame rfl)
    · have hcall : (st.point i).call? = some (.confirm n) := by
        rw [hp]
        rfl
      exact .inr (.inl ⟨i, n, t, rfl, h.job_of_point ht hcall, hv⟩)
    · -- the lock that was found is there still, as nobody else is at the room
      obtain ⟨hl, rfl, rfl⟩ := h.clear.found i room uid l hp
      have hcall : (st.point i).call? = some (.release l.room l.uid) := by
        rw [hp]
        rfl
      exact .inr (.inr ⟨i, l, rfl, hl, h.job_of_point ht hcall, hv⟩)
  | turn t => exact .inl (hsame (by cases t <;> rfl))
  | _ => exact .inl (hsame rfl)

/-- Locks come by orders for them, and go by orders to release them. -/
theorem change_by_call (now : Instant) (es : List (Event Call)) (e : Event Call) :
    (∀ l ∈ ((history now).run es).gained e, ∃ i n t, e = .advance i ∧
      (((history now).run es).jobs[i]?).map Prod.fst = some (.confirm n) ∧
      l.request = n.request ∧ (((history now).run es).step e).world.inventory =
        ((history now).run es).world.inventory.withLock t n) ∧
      ∀ l ∈ ((history now).run es).lost e, ∃ i, e = .advance i ∧
        (((history now).run es).jobs[i]?).map Prod.fst = some (.release l.room l.uid) := by
  have hsound := sound_run now es
  rcases change_cases now es e with ⟨hg, hl⟩ | ⟨i, n, t, rfl, hjob, hinv⟩ |
    ⟨i, m, rfl, hm, hjob, hinv⟩
  · rw [hg, hl]
    exact ⟨fun l hl => absurd hl List.not_mem_nil, fun l hl => absurd hl List.not_mem_nil⟩
  · refine ⟨fun l hl => ⟨i, n, t, rfl, hjob, ?_, hinv⟩, fun l hl => ?_⟩
    · -- the only lock that was not there before
      obtain ⟨hl, hold⟩ := Inventory.mem_beyond.mp hl
      rw [hinv, Inventory.withLock_locks] at hl
      rcases List.mem_append.mp hl with hl | hl
      · exact absurd hl hold
      · rw [List.mem_singleton.mp hl]
        rfl
    · obtain ⟨hl, hnew⟩ := Inventory.mem_beyond.mp hl
      rw [hinv, Inventory.withLock_locks] at hnew
      exact absurd (List.mem_append_left _ hl) hnew
  · refine ⟨fun l hl => ?_, fun l hl => ⟨i, rfl, ?_⟩⟩
    · obtain ⟨hl, hold⟩ := Inventory.mem_beyond.mp hl
      rw [hinv] at hl
      exact absurd (Inventory.mem_withoutLock.mp hl).1 hold
    · obtain ⟨hl, hgone⟩ := Inventory.mem_beyond.mp hl
      have hid : l.id = m.id := by
        by_contra hne
        rw [hinv] at hgone
        exact hgone (Inventory.mem_withoutLock.mpr ⟨hl, hne⟩)
      rw [hsound.eq_of_id hl hm hid]
      exact hjob

/-- The locks for a request that are answered as new ones are among those that were placed for it,
each of them once, and between any two of these a lock of the request was removed. Whatever comes
next, a lock is placed by an order for it, with one more counted for its room, and removed by an
order to release it. So a request takes effect again only after a release has taken its lock
away. -/
theorem locked_again_only_after_release (now : Instant) (es : List (Event Call)) (r : RequestId) :
    (answered ((history now).run es) r).Subperm
        (((history now).trail Scene.gained es).filter (·.request = r)) ∧
      (((history now).trail Scene.gained es).filter (·.request = r)).length ≤
        (((history now).trail Scene.lost es).filter (·.request = r)).length + 1 ∧
      ∀ e : Event Call,
        (∀ l ∈ ((history now).run es).gained e, ∃ i n t, e = .advance i ∧
          (((history now).run es).jobs[i]?).map Prod.fst = some (.confirm n) ∧
          l.request = n.request ∧ (((history now).run es).step e).world.inventory =
            ((history now).run es).world.inventory.withLock t n) ∧
        ∀ l ∈ ((history now).run es).lost e, ∃ i, e = .advance i ∧
          (((history now).run es).jobs[i]?).map Prod.fst = some (.release l.room l.uid) := by
  obtain ⟨st, ht, h⟩ := exists_recorded now es
  refine ⟨h.answered_subperm ht r, ?_, change_by_call now es⟩
  have hperm := ((gained_perm now es).filter (·.request = r)).length_eq
  have hone := (sound_run now es).length_request_le r
  rw [List.filter_append, List.length_append] at hperm
  omega

/-- An order comes again after its lock was released. -/
def late : List (Event Call) :=
  [.start (.addRoom Sample.room), .advance 0, .advance 0] ++
    .start (.confirm (Sample.order 1)) :: List.replicate 10 (.advance 1) ++
    .start (.release ⟨1⟩ (Sample.uid 1)) :: List.replicate 10 (.advance 2) ++
    .start (.confirm (Sample.order 1)) :: List.replicate 10 (.advance 3)

/-- Both times the order places a new lock and counts for the room, though it is one request. -/
theorem locked_twice :
    (answered ((history Sample.newYear).run late) (Sample.order 1).request).length = 2 ∧
      (((history Sample.newYear).trail Scene.gained late).filter
        (·.request = (Sample.order 1).request)).length = 2 := by
  decide +kernel

end Keeper

end Lodging
