import Lodging.Proofs.Desk.Locks
import Lodging.World.Sample

/-!
What is left of an order that fails. Whatever an order for a new booking has come to before it
fails, it releases the room of its booking as the last thing, and nobody else ever locks the room
for this booking again.
-/

namespace Lodging.Desk

variable {st st' : Stage Call Point} {s' : Stock} {i k : ℕ} {p : Point} {b : Booking}
  {r : RequestId} {e : Errand} {ev : Event Call} {uid : Uid}

/-- The point at which an order fails. -/
def Call.Fails : Call → Except BookingFailure BookingSummary → Point → Prop
  | .create _ _ _ _ _ uid, .error _, p => p.fresh? = some uid ∨
      ∃ b r e ok, p = .undoing b r e ∧ b.uid = uid ∧ e.Ended ok
  | _, _, _ => True

theorem Call.runs_fails (c : Call) : script.Runs [] c.Fails c.first c.process := by
  cases c with
  | create policy user q r today uid =>
    refine runs_create_of policy user q r today uid (fun _ => .inl rfl) (fun _ => .inl rfl) ?_
    intro b x p hb hp
    refine ⟨p, fun s => .stay script p s, .refl p, ?_⟩
    cases x with
    | ok a => trivial
    | error f =>
      obtain ⟨e, ok, rfl, he⟩ := hp.2 rfl
      exact .inr ⟨b, r, e, ok, rfl, hb, he⟩
  | cancel policy id user r => exact (runs_cancel policy id user r).mono fun _ _ _ => trivial

/-- Whoever has undone a booking has released its room for good. -/
structure Released (st : Stage Call Point) : Prop where
  planned : st.stock.planned .release = none
  housed : st.stock.inventory.Housed
  gone : ∀ i b r e ok, st.point i = .undoing b r e → e.Ended ok →
    ¬ st.stock.inventory.HasLock b.uid

theorem Released.gone_move (h : Released st) (ha : Accounts st) (hd : Distinct st.calls)
    (hm : Move (st.point i) st.stock p s')
    (ha' : Accounts ⟨s', st.calls, Function.update st.point i p⟩) {ok : Bool}
    (hk : Function.update st.point i p k = .undoing b r e) (he : e.Ended ok) :
    ¬ s'.inventory.HasLock b.uid := by
  rcases update_eq_cases hk with ⟨rfl, rfl⟩ | ⟨hki, hk⟩
  · have hnot := hm.ne_denied_of_undoing h.planned
    obtain ⟨x, hx⟩ := (hm.fits (ha.fits k)).removed (.inl ⟨r, rfl⟩) he hnot
    exact ha.gone_of_removed h.housed hm ha' rfl hx
  · rintro ⟨l, hl, hu⟩
    rcases hm.locks (ha.fits i) hl with hl | ⟨-, c, q, hi, hc, -⟩
    · exact h.gone k b r e ok hk he ⟨l, hl, hu⟩
    · -- the lock would be placed by another order that makes the same booking
      have hmk : (st.point k).making? = some b := by rw [hk]; rfl
      have hmi : (st.point i).making? = some c := by rw [hi]; rfl
      exact hki (ha.making_unique hd hmk hmi (hu.symm.trans hc))

theorem Released.next (h : Released st) (ha : Accounts st) (ha' : Accounts st')
    (hd : Distinct st.calls) (hev : ∀ f, ev ≠ .turn (.failRelease (some f)))
    (hn : script.Next Call.first ev st st') : Released st' := by
  cases hn with
  | start c =>
    refine ⟨h.planned, h.housed, fun k b r e ok hk => h.gone k b r e ok ?_⟩
    exact (ha.point_start rfl).mp hk
  | move hi hm =>
    exact ⟨(hm.planned _).trans h.planned, ha.housed_move hm h.housed,
      fun k b r e ok hk he => h.gone_move ha hd hm ha' hk he⟩
  | drop hi =>
    refine ⟨h.planned, h.housed, fun k b r e ok hk => ?_⟩
    rcases update_eq_cases hk with ⟨-, hq⟩ | ⟨-, hk⟩
    · cases hq
    · exact h.gone k b r e ok hk
  | turn t =>
    cases t with
    | failRelease f =>
      cases f with
      | none => exact ⟨rfl, h.housed, h.gone⟩
      | some f => exact absurd rfl (hev f)
    | _ => exact ⟨h.planned, h.housed, h.gone⟩
  | idle => exact h

theorem released_opening {v : Inventory} (hl : v.locks = []) (f : Option CallFailure) :
    Released ⟨⟨v, .empty, f, none⟩, [], fun _ => .rest⟩ where
  planned := rfl
  housed l hmem := by
    rw [hl] at hmem
    cases hmem
  gone _ _ _ _ _ h := by cases h

theorem exists_released (now : Instant) (rooms : List NewRoom) (es : List (Event Call))
    (hdistinct : Distinct (((Scene.opening Call.process (.furnished now rooms)).run es).jobs.map
      Prod.fst))
    (hspared : ∀ f, .turn (.failRelease (some f)) ∉ es) :
    ∃ st, script.Tells Call.Fails ((Scene.opening Call.process (.furnished now rooms)).run es) st ∧
      Accounts st ∧ Released st := by
  obtain ⟨-, hlocks, -⟩ := furnished_locks rooms
  have hopen : script.Tells Call.Fails (Scene.opening Call.process (.furnished now rooms))
      ⟨(World.furnished now rooms).stock, [], fun _ => .rest⟩ :=
    Script.tells_opening ⟨rfl, rfl⟩ Holds.sound_empty rfl
  obtain ⟨st, ht, hst⟩ := Script.exists_stage_of_run Call.runs_fails Call.inside_first
    (fun es st => (∀ f, .turn (.failRelease (some f)) ∉ es) → Distinct st.calls →
      Accounts st ∧ Released st) hopen
    (fun _ _ => ⟨accounts_furnished now rooms, released_opening hlocks none⟩)
    (fun es e st st' ht hp hn _ hspared hd => by
      have hd' : Distinct st.calls := hd.of_next hn
      obtain ⟨ha, hr⟩ := hp (fun f hf => hspared f (List.mem_append_left _ hf)) hd'
      have ha' := ha.next hd ht.exclusive hn
      refine ⟨ha', hr.next ha ha' hd' (fun f he => hspared f ?_) hn⟩
      exact List.mem_append_right _ (he ▸ List.mem_singleton_self _)) es
  exact ⟨st, ht, hst hspared (ht.calls ▸ hdistinct)⟩

/-- Once an order for a new booking has failed, there is no lock for its booking, and there never
will be, if nobody makes releases fail. It is all the same when and why the order has failed, how
often it repeats what has failed, and what other orders do meanwhile. -/
theorem failed_leaves_no_lock (now : Instant) (rooms : List NewRoom) (es fs : List (Event Call))
    (hdistinct : Distinct (((Scene.opening Call.process (.furnished now rooms)).run
      (es ++ fs)).jobs.map Prod.fst))
    (hspared : ∀ f, .turn (.failRelease (some f)) ∉ es ++ fs) {i : ℕ} {c : Call}
    {f : BookingFailure} {uid : Uid}
    (hj : ((Scene.opening Call.process (.furnished now rooms)).run es).jobs[i]? =
      some (c, .finished (.error f))) (hc : c.uid? = some uid) :
    ¬ ((Scene.opening Call.process (.furnished now rooms)).run
      (es ++ fs)).world.inventory.HasLock uid := by
  obtain ⟨st, ht, ha, hr⟩ := exists_released now rooms (es ++ fs) hdistinct hspared
  have hj := Scene.finished_run hj fs
  rw [← Scene.run_append] at hj
  have hlocks : st.stock.inventory = ((Scene.opening Call.process (.furnished now rooms)).run
      (es ++ fs)).world.inventory := congrArg Stock.inventory ht.stock
  rw [← hlocks]
  obtain ⟨hends, -⟩ := ht.keeps i c _ hj
  cases c with
  | cancel policy id user r => cases hc
  | create policy user q r today uid' =>
    obtain rfl := Option.some.inj hc
    rcases hends with hf | ⟨b, r, e, ok, hp, rfl, he⟩
    · exact ha.fresh_unlocked hf
    · exact hr.gone i b r e ok hp he

/-- A booking is cancelled before its room is locked, so that it cannot be confirmed. -/
def forestalled : List (Event Call) :=
  [.start (Sample.booking 1), .start (Sample.cancellation 1)] ++ List.replicate 4 (.advance 0) ++
    List.replicate 14 (.advance 1) ++ List.replicate 30 (.advance 0)

/-- The room is booked again. -/
def afterwards : List (Event Call) := .start (Sample.booking 2) :: List.replicate 30 (.advance 2)

theorem failed_leaves_no_lock_of_forestalled :
    ((Scene.opening Call.process (.furnished Sample.newYear [Sample.room])).run
        (forestalled ++ afterwards)).world.inventory.HasLock (Sample.uid 2) ∧
      ¬ ((Scene.opening Call.process (.furnished Sample.newYear [Sample.room])).run
        (forestalled ++ afterwards)).world.inventory.HasLock (Sample.uid 1) := by
  have hjob : ((Scene.opening Call.process (.furnished Sample.newYear [Sample.room])).run
      forestalled).jobs[0]?.map (fun x => (x.1.uid?, x.2.failed)) =
        some (some (Sample.uid 1), true) := by
    decide +kernel
  have hspared : ∀ f, .turn (.failRelease (some f)) ∉ forestalled ++ afterwards := by
    intro f hf
    simp [forestalled, afterwards] at hf
  obtain ⟨⟨c, j⟩, hj, hfailed⟩ := Option.map_eq_some_iff.mp hjob
  obtain ⟨hc, hfailed⟩ := Prod.mk.inj hfailed
  obtain ⟨f, rfl⟩ := Job.exists_of_failed hfailed
  exact ⟨by decide +kernel, failed_leaves_no_lock Sample.newYear [Sample.room] forestalled
    afterwards (by decide +kernel) hspared hj hc⟩

end Lodging.Desk
