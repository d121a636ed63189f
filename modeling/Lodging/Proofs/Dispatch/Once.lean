import Lodging.Proofs.Dispatch.Sole
import Lodging.Proofs.Journal

/-!
An order that is sent again and again is carried out once. Whichever attempts are lost, and
whatever others do meanwhile, one lock at most is placed for it, and whoever sent it learns in the
end whether it is in place, or can make sure that it is not.
-/

namespace Lodging.Dispatch

variable {n : NewLock} {v v' : Inventory} {st st' : Stage Call Point} {e : Event Call}
  {own : List (Inventory × Inventory)} {placed : List Lock}

theorem Older.beyond (h : Older n v v') : (v'.beyond v).filter (·.Concerns n) = [] := by
  refine List.filter_eq_nil_iff.mpr fun l hl hc => ?_
  obtain ⟨hmem, hnew⟩ := Inventory.mem_beyond.mp hl
  exact hnew (h l hmem (of_decide_eq_true hc))

theorem length_beyond_withLock_le (now : Instant) (v : Inventory) (n : NewLock) :
    (((v.withLock now n).beyond v).filter (·.Concerns n)).length ≤ 1 := by
  have hsub : List.Sublist ((v.withLock now n).beyond v) [v.newLock now n] := by
    unfold Inventory.beyond
    rw [Inventory.withLock_locks, List.filter_append]
    have hold : v.locks.filter (fun l => decide (l ∉ v.locks)) = [] := by
      simp
    rw [hold, List.nil_append]
    exact List.filter_sublist
  exact (List.filter_sublist.trans hsub).length_le

/-- What has been changed by the order itself, and which locks have been placed with its booking or
its request, up to a stage. If there is any of these, the lock is held, or no more attempts
follow. -/
structure Single (n : NewLock) (own : List (Inventory × Inventory)) (placed : List Lock)
    (st : Stage Call Point) : Prop where
  once : own = [] ∨ ∃ v t, own = [(v, v.withLock t n)]
  length_le : placed.length ≤ 1
  held : own ≠ [] ∨ placed ≠ [] → st.stock.inventory.HasLock n.uid ∨ (st.point 0).Done

theorem single_nil (n : NewLock) (st : Stage Call Point) : Single n [] [] st where
  once := .inl rfl
  length_le := Nat.zero_le _
  held h := absurd h (by simp)

/-- An event that places no such lock. -/
theorem Single.keep (h : Single n own placed st)
    (hold : Older n st.stock.inventory st'.stock.inventory)
    (hheld : st.stock.inventory.HasLock n.uid ∨ (st.point 0).Done →
      st'.stock.inventory.HasLock n.uid ∨ (st'.point 0).Done) :
    Single n (own ++ [])
      (placed ++ (st'.stock.inventory.beyond st.stock.inventory).filter (·.Concerns n)) st' := by
  rw [hold.beyond, List.append_nil, List.append_nil]
  exact ⟨h.once, h.length_le, fun hne => hheld (h.held hne)⟩

/-- The event that places the lock. There was none of these before. -/
theorem Single.insert (h : Single n own placed st) (st' : Stage Call Point) {now : Instant}
    (hno : ¬ st.stock.inventory.HasLock n.uid) (hdone : ¬ (st.point 0).Done)
    (hv : st'.stock.inventory = st.stock.inventory.withLock now n) :
    Single n (own ++ [(st.stock.inventory, st'.stock.inventory)])
      (placed ++ (st'.stock.inventory.beyond st.stock.inventory).filter (·.Concerns n)) st' := by
  have hnone : own = [] ∧ placed = [] := by
    by_contra hne
    rw [not_and_or] at hne
    exact (h.held hne).elim hno hdone
  obtain ⟨rfl, rfl⟩ := hnone
  rw [hv]
  refine ⟨.inr ⟨st.stock.inventory, now, rfl⟩, ?_, fun _ => .inl (hv ▸ hasLock_withLock now)⟩
  exact length_beyond_withLock_le now _ n

theorem changed_of_eq (e : Event Call) (h : v' = v) : e.changed 0 v v' = [] := by
  cases e with
  | advance k => exact if_neg fun hk => hk.2 h
  | _ => rfl

theorem changed_of_ne {i : ℕ} (hi : i ≠ 0) :
    (Event.advance i : Event Call).changed 0 v v' = [] :=
  if_neg fun hk => hi hk.1

theorem Single.next (h : Single n own placed st) (hs : Sole n st)
    (hn : script.Next Call.first e st st') :
    Single n (own ++ e.changed 0 st.stock.inventory st'.stock.inventory)
      (placed ++ (st'.stock.inventory.beyond st.stock.inventory).filter (·.Concerns n)) st' := by
  cases hn with
  | idle =>
    rw [changed_of_eq e rfl]
    exact h.keep (.refl n _) id
  | start d =>
    refine h.keep (.refl n _) fun hheld => ?_
    change _ ∨ (Function.update st.point st.calls.length d.first 0).Done
    rwa [Function.update_of_ne (Nat.ne_of_lt hs.begun)]
  | @drop _ i hi =>
    refine h.keep (.refl n _) fun hheld => ?_
    change _ ∨ (Function.update st.point i .rest 0).Done
    by_cases hi0 : i = 0
    · subst hi0
      rw [Function.update_self]
      exact .inr trivial
    · rwa [Function.update_of_ne (Ne.symm hi0)]
  | turn t =>
    have hlocks : (st.stock.turn t).inventory.locks = st.stock.inventory.locks := by
      cases t <;> rfl
    refine h.keep (fun l hl _ => hlocks ▸ hl) fun hheld => ?_
    change (st.stock.turn t).inventory.HasLock n.uid ∨ _
    unfold Inventory.HasLock
    rwa [hlocks]
  | @move _ i p b hi hm =>
    by_cases hi0 : i = 0
    · subst hi0
      -- an attempt leaves the inventory as it is, or places the lock where there was none
      obtain ⟨-, -, hv | ⟨⟨now, hv⟩, hno⟩⟩ := hs.attempt hm
      · rw [changed_of_eq _ hv]
        refine h.keep (hv ▸ .refl n _) fun hheld => ?_
        rw [hv]
        exact .inl (hheld.resolve_right hm.not_done)
      · have hchanged : (Event.advance 0 : Event Call).changed 0 st.stock.inventory b.inventory =
            [(st.stock.inventory, b.inventory)] := by
          refine if_pos ⟨rfl, fun hsame => hno ?_⟩
          rw [← hsame, hv]
          exact hasLock_withLock now
        rw [hchanged]
        exact h.insert ⟨b, st.calls, Function.update st.point 0 p⟩ hno hm.not_done hv
    · -- others change nothing that is counted, and take the lock only once the order is done
      rw [changed_of_ne hi0]
      obtain ⟨-, hold, hkeep, -⟩ := hs.older hi0 hm
      refine h.keep hold fun hheld => ?_
      change _ ∨ (Function.update st.point i p 0).Done
      rw [Function.update_of_ne (Ne.symm hi0)]
      rcases hkeep with hdone | hkeep
      · exact .inr hdone
      · exact hheld.imp_left hkeep

/-- Calls that are about other bookings and requests may go on in any way. -/
theorem exists_sole_of_run {s : Scene Call.process} (ht : script.Tells Call.Ends s st)
    (h : Sole n st) (es : List (Event Call)) (hes : ∀ c, .start c ∈ es → c.Other n) :
    ∃ st', script.Tells Call.Ends (s.run es) st' ∧ Sole n st' ∧
      Single n (s.trail (Scene.changes 0) es)
        ((s.trail Scene.gained es).filter (·.Concerns n)) st' := by
  obtain ⟨st', ht', hp⟩ := Script.exists_stage_of_run Call.runs Call.inside_first
    (fun es st => (∀ c, .start c ∈ es → c.Other n) → Sole n st ∧
      Single n (s.trail (Scene.changes 0) es)
        ((s.trail Scene.gained es).filter (·.Concerns n)) st)
    ht (fun _ => ⟨h, single_nil n st⟩) (fun es e st st' ht hp hn ht' hes => by
      obtain ⟨hsole, hsingle⟩ := hp fun c hc => hes c (List.mem_append_left _ hc)
      have hbeside : Event.Beside n (st.point 0).Done e := by
        cases e with
        | start c => exact .inl (hes c (List.mem_append_right _ (List.mem_singleton_self _)))
        | _ => trivial
      refine ⟨hsole.next ht.exclusive hbeside hn, ?_⟩
      rw [Scene.run_concat] at ht'
      have hchanges : (s.run es).changes 0 e =
          e.changed 0 st.stock.inventory st'.stock.inventory := by
        rw [ht.stock, ht'.stock]
        rfl
      rw [Scene.trail_concat, Scene.trail_concat, List.filter_append, hchanges,
        Script.gained_eq ht ht']
      exact hsingle.next hsole hn) es
  exact ⟨st', ht', hp hes⟩

/-- The order begins, in a world that is as calls to the keeper have left it. -/
def sent (now : Instant) (before : List (Event Keeper.Call)) (policy : RetryPolicy) (n : NewLock)
    (fate : ℕ → Fate) : Scene Call.process :=
  (Scene.opening Call.process ((Keeper.history now).run before).world).step
    (.start (.deliver policy n fate))

/-- What the sender of the order has been told, once it is at its end. -/
def told? (s : Scene Call.process) : Option (Except CallFailure Unit) :=
  match s.jobs[0]? with
  | some (_, Job.finished (Reply.delivery r)) => some r
  | _ => none

theorem exists_job_of_told? {s : Scene Call.process} {r : Except CallFailure Unit}
    (h : told? s = some r) : ∃ c, s.jobs[0]? = some (c, .finished (.delivery r)) := by
  unfold told? at h
  split at h
  next c x hc =>
    obtain rfl := Option.some.inj h
    exact ⟨c, hc⟩
  next => cases h

theorem exists_sole_sent (now : Instant) (before : List (Event Keeper.Call)) (policy : RetryPolicy)
    (n : NewLock) (fate : ℕ → Fate) (hquiet : ((Keeper.history now).run before).Quiet)
    (hfresh : ∀ l ∈ ((Keeper.history now).run before).world.inventory.locks, ¬ l.Concerns n) :
    ∃ st, script.Tells Call.Ends (sent now before policy n fate) st ∧ Sole n st := by
  obtain ⟨st₀, ht₀, hclear⟩ := Keeper.exists_clear now before
  rw [ht₀.stock] at hclear
  unfold sent
  generalize (Keeper.history now).run before = past at *
  have hopen : script.Tells Call.Ends (Scene.opening Call.process past.world)
      ⟨past.world.stock, [], fun _ => .rest⟩ :=
    Script.tells_opening ht₀.undisturbed ht₀.sound (ht₀.visitors_of_quiet hquiet)
  refine ⟨_, hopen.start (Call.runs _) (Call.inside_first _), ?_⟩
  -- nothing concerns the order yet, and it is the only one under way
  have hno : ¬ past.world.inventory.HasLock n.uid := by
    rintro ⟨l, hl, hu⟩
    exact hfresh l hl (.inl hu)
  have hpoint : ∀ i, (Function.update (fun _ => Point.rest) 0 (.ready n) i).keeper = .rest := by
    intro i
    by_cases hi : i = 0
    · rw [hi, Function.update_self]
      rfl
    · rw [Function.update_of_ne hi]
      rfl
  refine ⟨?_, Nat.zero_lt_one, ⟨fun l hl hc => absurd hc (hfresh l hl), fun hl => absurd hl hno⟩,
    ?_, ?_, ?_, ?_⟩
  · change Keeper.Clear
      (fun i => (Function.update (fun _ => Point.rest) 0 (.ready n) i).keeper) past.world.inventory
    rw [funext hpoint]
    exact Keeper.clear_rest hclear.sound hclear.apart
  · exact rfl
  · trivial
  · intro i hi c hc
    change (Function.update (fun _ => Point.rest) 0 (.ready n) i).call? = some c at hc
    rw [Function.update_of_ne hi] at hc
    cases hc
  · intro i x hx
    change (Function.update (fun _ => Point.rest) 0 (.ready n) i).keeper = _ at hx
    rw [hpoint i] at hx
    cases hx

/-- What the sender knows once the order is at its end. -/
theorem Sole.outcome {s : Scene Call.process} {r : Except CallFailure Unit} (h : Sole n st)
    (ht : script.Tells Call.Ends s st) (hr : told? s = some r) :
    match r with
    | .ok _ => s.world.inventory.HasLock n.uid
    | .error f => f.Unavailable ∧ (st.point 0).Done ∨
      ¬ f.Unavailable ∧ ¬ s.world.inventory.HasLock n.uid := by
  obtain ⟨c, hc⟩ := exists_job_of_told? hr
  have hends : c.Ends (.delivery r) (st.point 0) := (ht.keeps 0 c _ hc).1
  have hmine := h.mine
  have hknows := h.knows
  have hinv : st.stock.inventory = s.world.inventory := by
    rw [ht.stock]
    rfl
  rw [hinv] at hknows
  cases c with
  | keeper c =>
    obtain ⟨x, k, hx, -⟩ := hends
    cases hx
  | deliver policy m fate =>
    obtain ⟨x, hx, hdelivered⟩ := hends
    obtain rfl := Reply.delivery.inj hx
    cases r with
    | ok u =>
      obtain ⟨a, hp⟩ := hdelivered
      rw [hp] at hknows
      exact hknows
    | error f =>
      rcases hdelivered with ⟨hf, hp⟩ | ⟨hf, e, -, hp⟩
      · refine .inl ⟨hf, ?_⟩
        rw [hp]
        trivial
      · rw [hp] at hknows
        exact .inr ⟨hf, hknows⟩

/-- The release of the room for the booking begins. -/
def releasing (n : NewLock) (s : Scene Call.process) : Scene Call.process :=
  s.step (.start (.keeper (.release n.room n.uid)))

/-- Once no more attempts follow, the release of the room for the booking takes the lock away. -/
theorem Sole.released_of_run {s : Scene Call.process} (h : Sole n st)
    (ht : script.Tells Call.Ends s st) (hdone : (st.point 0).Done) (es : List (Event Call))
    (hes : ∀ c, .start c ∈ es → c.Other n)
    (hfin : ((releasing n s).run es).Finished s.jobs.length) :
    ¬ ((releasing n s).run es).world.inventory.HasLock n.uid := by
  have hstart := ht.start (Call.runs (.keeper (.release n.room n.uid))) (Call.inside_first _)
  have hsole := h.start (d := .keeper (.release n.room n.uid)) (.inr ⟨rfl, hdone⟩)
  obtain ⟨st', ht', hsole', -⟩ := exists_sole_of_run hstart hsole es hes
  -- the call that is at its end is the one that began
  have hjob : (releasing n s).jobs[s.jobs.length]? =
      some (.keeper (.release n.room n.uid),
        .running (Call.process (.keeper (.release n.room n.uid))) []) :=
    List.getElem?_concat_length
  obtain ⟨j, hj⟩ := Scene.exists_job_run hjob es
  obtain ⟨c, a, hca⟩ := hfin
  obtain ⟨rfl, rfl⟩ := Prod.mk.inj (Option.some.inj (hj.symm.trans hca))
  obtain ⟨r, k, -, hp, x, -, rfl⟩ := (ht'.keeps _ _ _ hca).1
  have hgone := hsole'.released s.jobs.length x (by rw [hp]; rfl)
  rwa [ht'.stock] at hgone

/-- An order is sent under any policy, over a link that may lose any attempt or its answer, while
orders and releases for other bookings and requests go on beside it. All its attempts together
change the inventory once at most, by the lock and one more counted for its room, and no other lock
with its booking or its request is ever placed. If the sender is told that it is done, the lock is
held for that room and that stay; if the sender is turned down, there is no lock; and if the sender
is left without an answer, there is none once the room has been released for the booking. -/
theorem delivered_once (now : Instant) (before : List (Event Keeper.Call)) (policy : RetryPolicy)
    (n : NewLock) (fate : ℕ → Fate) (es : List (Event Call))
    (hquiet : ((Keeper.history now).run before).Quiet)
    (hfresh : ∀ l ∈ ((Keeper.history now).run before).world.inventory.locks, ¬ l.Concerns n)
    (hothers : ∀ c, .start c ∈ es → c.Other n) :
    (((sent now before policy n fate).trail Scene.gained es).filter (·.Concerns n)).length ≤ 1 ∧
      ((sent now before policy n fate).trail (Scene.changes 0) es = [] ∨
        ∃ v t, (sent now before policy n fate).trail (Scene.changes 0) es =
          [(v, v.withLock t n)]) ∧
      ∀ r, told? ((sent now before policy n fate).run es) = some r →
        match r with
        | .ok _ => ∃ l : Lock, l.Of n ∧
          ((sent now before policy n fate).run es).world.inventory.locks.filter
            (·.uid = n.uid) = [l]
        | .error f =>
          (¬ f.Unavailable →
            ¬ ((sent now before policy n fate).run es).world.inventory.HasLock n.uid) ∧
          (f.Unavailable → ∀ later : List (Event Call), (∀ c, .start c ∈ later → c.Other n) →
            ((releasing n ((sent now before policy n fate).run es)).run later).Finished
              ((sent now before policy n fate).run es).jobs.length →
            ¬ ((releasing n ((sent now before policy n fate).run es)).run
              later).world.inventory.HasLock n.uid) := by
  obtain ⟨st₀, ht₀, hsole₀⟩ := exists_sole_sent now before policy n fate hquiet hfresh
  obtain ⟨st, ht, hsole, hsingle⟩ := exists_sole_of_run ht₀ hsole₀ es hothers
  refine ⟨hsingle.length_le, hsingle.once, fun r hr => ?_⟩
  generalize (sent now before policy n fate).run es = s at *
  have hinv : st.stock.inventory = s.world.inventory := by
    rw [ht.stock]
    rfl
  have hout := hsole.outcome ht hr
  cases r with
  | ok u =>
    -- no two locks have the same uid, so this one is the only one
    obtain ⟨l, hl, hu⟩ := hout
    rw [← hinv] at hl ⊢
    refine ⟨l, hsole.kept.locks l hl (.inl hu), ?_⟩
    rw [← hu]
    exact hsole.clear.sound.filter_uid hl
  | error f =>
    refine ⟨fun hf => ?_, fun hf later hlater hfin => ?_⟩
    · rcases hout with ⟨hyes, -⟩ | ⟨-, hno⟩
      · exact absurd hyes hf
      · exact hno
    · -- the last attempt has been made, so no other one comes after the release
      rcases hout with ⟨-, hdone⟩ | ⟨hno, -⟩
      · exact hsole.released_of_run ht hdone later hlater hfin
      · exact absurd hf hno

/-- The first answer is lost, and someone else wants the room meanwhile. -/
theorem delivered_once_of_lost_answer :
    ∃ l : Lock, l.Of (Sample.order 1) ∧
      ((sent Sample.newYear [.start (.addRoom Sample.room), .advance 0, .advance 0] .standard
        (Sample.order 1) (fun k => if k = 1 then .unanswered "lost" else .answered)).run
        (.start (.keeper (.confirm (Sample.order 2))) ::
          (Sample.byTurns 30 ++ List.replicate 20 (.advance 0)))).world.inventory.locks.filter
        (·.uid = (Sample.order 1).uid) = [l] := by
  refine (delivered_once Sample.newYear _ .standard _ _ _ (by decide +kernel) (by decide +kernel)
    ?_).2.2 (.ok ()) (by decide +kernel)
  intro c hc
  simp [Sample.byTurns] at hc
  subst hc
  exact ⟨by decide, by decide⟩

end Lodging.Dispatch
