import Lodging.World.Journal
import Mathlib.Data.List.Induction

/-!
What the journal of a run tells. The deeds of one call lead its process from its beginning to where
it stands, whatever other calls do in between. What deeds of a kind do to the ledger can be read
off the journal too.
-/

namespace Lodging

namespace Process

variable {α β : Type} {p q : Process α} {ds : List Deed}

/-- A process that does certain things, and is answered so, gets to another one. -/
inductive Leads : Process α → List Deed → Process α → Prop
  | stay (p : Process α) : Leads p [] p
  | did {x : Action} {next : x.Answer → Process α} {a : x.Answer} {ds : List Deed}
    {q : Process α} (h : Leads (next a) ds q) : Leads (.act x next) (.did x a :: ds) q
  | linedUp {room : RoomId} {next : Ticket → Process α} {t : Ticket} {ds : List Deed}
    {q : Process α} (h : Leads (next t) ds q) : Leads (.enter room next) (.linedUp room t :: ds) q

theorem Leads.append {es : List Deed} {r : Process α} (h : Leads p ds q) (h' : Leads q es r) :
    Leads p (ds ++ es) r := by
  induction h with
  | stay p => exact h'
  | did _ ih => exact .did (ih h')
  | linedUp _ ih => exact .linedUp (ih h')

/-- The last deed of a process that goes on. -/
theorem Leads.concat_did {x : Action} {next : x.Answer → Process α} (h : Leads p ds (.act x next))
    (a : x.Answer) : Leads p (ds ++ [.did x a]) (next a) :=
  h.append (.did (.stay _))

theorem Leads.concat_linedUp {room : RoomId} {next : Ticket → Process α}
    (h : Leads p ds (.enter room next)) (t : Ticket) :
    Leads p (ds ++ [.linedUp room t]) (next t) :=
  h.append (.linedUp (.stay _))

theorem Leads.of_done {a : α} (h : Leads (.done a) ds q) : ds = [] ∧ q = .done a := by
  cases h with
  | stay => exact ⟨rfl, rfl⟩

/-- Of two processes one after the other, the second one begins when the first is done. -/
theorem Leads.of_bind {f : α → Process β} {r : Process β} (h : Leads (p >>= f) ds r) :
    (∃ q, Leads p ds q ∧ r = q.bind f) ∨
      ∃ a first rest, ds = first ++ rest ∧ Leads p first (.done a) ∧ Leads (f a) rest r := by
  change Leads (p.bind f) ds r at h
  induction p generalizing ds with
  | done a => exact .inr ⟨a, [], ds, rfl, .stay _, h⟩
  | act x next ih =>
    cases h with
    | stay => exact .inl ⟨_, .stay _, rfl⟩
    | did h =>
      rcases ih _ h with ⟨q, hq, rfl⟩ | ⟨a, first, rest, rfl, hp, hf⟩
      · exact .inl ⟨q, .did hq, rfl⟩
      · exact .inr ⟨a, _ :: first, rest, rfl, .did hp, hf⟩
  | enter room next ih =>
    cases h with
    | stay => exact .inl ⟨_, .stay _, rfl⟩
    | linedUp h =>
      rcases ih _ h with ⟨q, hq, rfl⟩ | ⟨a, first, rest, rfl, hp, hf⟩
      · exact .inl ⟨q, .linedUp hq, rfl⟩
      · exact .inr ⟨a, _ :: first, rest, rfl, .linedUp hp, hf⟩

theorem Leads.of_bind_done {f : α → Process β} {b : β} (h : Leads (p >>= f) ds (.done b)) :
    ∃ a first rest, ds = first ++ rest ∧ Leads p first (.done a) ∧ Leads (f a) rest (.done b) := by
  rcases h.of_bind with ⟨q, hq, hr⟩ | h
  · cases q with
    | done a => exact ⟨a, ds, [], (List.append_nil ds).symm, hq, hr ▸ .stay _⟩
    | act x next => cases hr
    | enter room next => cases hr
  · exact h

/-- What a process comes to in the end is made of what its part came to. -/
theorem Leads.of_map_done {f : α → β} {b : β} (h : Leads (do return f (← p)) ds (.done b)) :
    ∃ a, Leads p ds (.done a) ∧ b = f a := by
  obtain ⟨a, first, rest, rfl, hfirst, hrest⟩ := h.of_bind_done
  obtain ⟨rfl, hdone⟩ := hrest.of_done
  rw [List.append_nil]
  exact ⟨a, hfirst, Process.done.inj hdone⟩

/-- All actions of a process are of a kind, whatever it is answered. -/
def Uses (kind : Action → Prop) : Process α → Prop
  | .done _ => True
  | .act x next => kind x ∧ ∀ a, (next a).Uses kind
  | .enter _ next => ∀ t, (next t).Uses kind

variable {kind : Action → Prop}

theorem Uses.bind {f : α → Process β} (hp : p.Uses kind) (hf : ∀ a, (f a).Uses kind) :
    (p >>= f).Uses kind := by
  change (p.bind f).Uses kind
  induction p with
  | done a => exact hf a
  | act x next ih => exact ⟨hp.1, fun a => ih a (hp.2 a)⟩
  | enter room next ih => exact fun t => ih t (hp t)

theorem Uses.mono {kind' : Action → Prop} (hp : p.Uses kind) (h : ∀ x, kind x → kind' x) :
    p.Uses kind' := by
  induction p with
  | done a => trivial
  | act x next ih => exact ⟨h x hp.1, fun a => ih a (hp.2 a)⟩
  | enter room next ih => exact fun t => ih t (hp t)

theorem Uses.within {room : RoomId} (hleave : ∀ t, kind (.leave t)) (hp : p.Uses kind) :
    (within room p).Uses kind :=
  fun t => Uses.bind hp fun _ => ⟨hleave t, fun _ => trivial⟩

/-- A process that enters no room and takes no other actions than those of a kind. -/
def Solely (kind : Action → Prop) : Process α → Prop
  | done _ => True
  | act x next => kind x ∧ ∀ a, (next a).Solely kind
  | enter _ _ => False

theorem Solely.bind {f : α → Process β} (hp : p.Solely kind) (hf : ∀ a, (f a).Solely kind) :
    (p >>= f).Solely kind := by
  change (p.bind f).Solely kind
  induction p with
  | done a => exact hf a
  | act x next ih => exact ⟨hp.1, fun a => ih a (hp.2 a)⟩
  | enter room next ih => exact hp.elim

theorem Solely.mono {kind' : Action → Prop} (hp : p.Solely kind) (h : ∀ x, kind x → kind' x) :
    p.Solely kind' := by
  induction p with
  | done a => trivial
  | act x next ih => exact ⟨h x hp.1, fun a => ih a (hp.2 a)⟩
  | enter room next ih => exact hp.elim

theorem Solely.uses (hp : p.Solely kind) : p.Uses kind := by
  induction p with
  | done a => trivial
  | act x next ih => exact ⟨hp.1, fun a => ih a (hp.2 a)⟩
  | enter room next ih => exact hp.elim

/-- So are all its deeds. -/
theorem Leads.of_uses {x : Action} {a : x.Answer} (h : Leads p ds q) (hp : p.Uses kind)
    (hd : .did x a ∈ ds) : kind x := by
  induction h with
  | stay p => cases hd
  | did h ih =>
    rcases List.mem_cons.mp hd with heq | hd
    · injection heq with hx _
      rw [hx]
      exact hp.1
    · exact ih (hp.2 _) hd
  | linedUp h ih =>
    rcases List.mem_cons.mp hd with heq | hd
    · cases heq
    · exact ih (hp _) hd

end Process

namespace Job

variable {α : Type}

/-- The deeds of a call have led to where it stands. -/
def Told (p : Process α) (ds : List Deed) : Job α → Prop
  | running q _ => p.Leads ds q
  | waiting t next _ =>
    ∃ room before, ds = before ++ [.linedUp room t] ∧ p.Leads before (.enter room next)
  | finished a => p.Leads ds (.done a)
  | dropped => ∃ q, p.Leads ds q

variable {p : Process α} {ds : List Deed} {j : Job α}

theorem Told.leads (h : j.Told p ds) : ∃ q, p.Leads ds q := by
  cases j with
  | running q held => exact ⟨q, h⟩
  | waiting t next held =>
    obtain ⟨room, before, rfl, h⟩ := h
    exact ⟨next t, h.concat_linedUp t⟩
  | finished a => exact ⟨.done a, h⟩
  | dropped => exact h

theorem Told.advance (h : j.Told p ds) (w : World) :
    (j.advance w).1.Told p (ds ++ (j.deed? w).toList) := by
  cases j with
  | running q held =>
    cases q with
    | done a =>
      rw [show (running (Process.done a) held).deed? w = none from rfl, Option.toList_none,
        List.append_nil]
      exact h
    | act x next => exact Process.Leads.concat_did h _
    | enter room next => exact ⟨room, ds, rfl, h⟩
  | waiting t next held =>
    simp only [deed?, Option.toList_none, List.append_nil, Job.advance]
    split
    · obtain ⟨room, before, rfl, h⟩ := h
      exact h.concat_linedUp t
    · exact h
  | finished a =>
    simp only [deed?, Option.toList_none, List.append_nil]
    exact h
  | dropped =>
    simp only [deed?, Option.toList_none, List.append_nil]
    exact h

theorem Told.drop (h : j.Told p ds) (w : World) : (j.drop w).1.Told p ds := by
  cases j with
  | running q held => exact ⟨q, h⟩
  | waiting t next held => exact h.leads
  | finished a => exact h
  | dropped => exact h

end Job

namespace Deed

variable {i : ℕ} {ds es : List (ℕ × Deed)}

theorem doneBy_append : doneBy i (ds ++ es) = doneBy i ds ++ doneBy i es := by
  unfold doneBy
  rw [List.filter_append, List.map_append]

theorem mem_doneBy {d : Deed} : d ∈ doneBy i ds ↔ (i, d) ∈ ds := by
  unfold doneBy
  simp

theorem doneBy_of_ne (h : ∀ x ∈ ds, x.1 ≠ i) : doneBy i ds = [] := by
  unfold doneBy
  rw [List.filter_eq_nil_iff.mpr fun x hx => by simpa using h x hx]
  rfl

/-- What is read off a single deed. -/
theorem filterMap_singleton {β : Type} (f : Deed → Option β) (i : ℕ) (d : Deed) :
    [(i, d)].filterMap (fun x => f x.2) = (f d).toList := by
  cases h : f d <;> simp [h]

/-- Nothing is, if all that was done is to line up. -/
theorem filterMap_of_linedUp {β : Type} (f : Deed → Option β)
    (hf : ∀ room t, f (.linedUp room t) = none)
    (h : ∀ x ∈ ds, ∃ room t, x.2 = .linedUp room t) : ds.filterMap (fun x => f x.2) = [] := by
  refine List.filterMap_eq_nil_iff.mpr fun x hx => ?_
  obtain ⟨room, t, hx⟩ := h x hx
  rw [hx, hf]

end Deed

namespace Scene

variable {κ α : Type} {code : κ → Process α} {s : Scene code} {e : Event κ}

theorem journal_append (s : Scene code) (es fs : List (Event κ)) :
    s.journal (es ++ fs) = s.journal es ++ (s.run es).journal fs :=
  trail_append deeds s es fs

theorem journal_concat (s : Scene code) (es : List (Event κ)) (e : Event κ) :
    s.journal (es ++ [e]) = s.journal es ++ (s.run es).deeds e :=
  trail_concat deeds s es e

/-- Whoever does something goes on. -/
theorem of_mem_deeds {x : ℕ × Deed} (h : x ∈ s.deeds e) : e = .advance x.1 ∧
    ∃ c j, s.jobs[x.1]? = some (c, j) ∧ j.deed? s.world = some x.2 := by
  cases e with
  | advance i =>
    simp only [deeds] at h
    split at h
    next c j hj =>
      obtain ⟨d, hd, rfl⟩ := List.mem_map.mp h
      exact ⟨rfl, c, j, hj, Option.mem_toList.mp hd⟩
    next => cases h
  | start c => cases h
  | drop i => cases h
  | turn t => cases h

theorem deeds_advance {i : ℕ} {c : κ} {j : Job α} (hj : s.jobs[i]? = some (c, j)) :
    s.deeds (.advance i) = (j.deed? s.world).toList.map fun d => (i, d) := by
  simp only [deeds, hj]

theorem doneBy_deeds_advance {i : ℕ} {c : κ} {j : Job α} (hj : s.jobs[i]? = some (c, j)) :
    Deed.doneBy i (s.deeds (.advance i)) = (j.deed? s.world).toList := by
  rw [deeds_advance hj]
  cases j.deed? s.world <;> simp [Deed.doneBy]

/-- Of a change of one call, all others know nothing. -/
theorem update_jobs {f : World → Job α → Job α × World} {i k : ℕ} {c : κ} {j' : Job α}
    (h : (s.update f k).jobs[i]? = some (c, j')) :
    (k = i ∧ ∃ j, s.jobs[i]? = some (c, j) ∧ j' = (f s.world j).1) ∨
      k ≠ i ∧ s.jobs[i]? = some (c, j') := by
  simp only [update] at h
  by_cases hik : k = i
  · subst hik
    refine .inl ⟨rfl, ?_⟩
    cases hj : s.jobs[k]? with
    | none =>
      simp only [hj] at h
      cases h
    | some x =>
      obtain ⟨d, j⟩ := x
      simp only [hj] at h
      rw [List.getElem?_set_self (List.getElem?_eq_some_iff.mp hj).1] at h
      obtain ⟨rfl, rfl⟩ := Prod.mk.inj (Option.some.inj h)
      exact ⟨j, rfl, rfl⟩
  · refine .inr ⟨hik, ?_⟩
    split at h
    · rwa [List.getElem?_set_ne hik] at h
    · exact h

/-- What a call was at the time at which another event takes place. -/
theorem step_jobs {i : ℕ} {c : κ} {j' : Job α} (h : (s.step e).jobs[i]? = some (c, j')) :
    (s.jobs[i]? = some (c, j') ∧ Deed.doneBy i (s.deeds e) = []) ∨
      (∃ j, s.jobs[i]? = some (c, j) ∧ j' = (j.advance s.world).1 ∧
        (s.step e).world = (j.advance s.world).2 ∧
          Deed.doneBy i (s.deeds e) = (j.deed? s.world).toList) ∨
      (∃ j, s.jobs[i]? = some (c, j) ∧ j' = (j.drop s.world).1 ∧
        Deed.doneBy i (s.deeds e) = []) ∨
      i = s.jobs.length ∧ j' = .running (code c) [] ∧ Deed.doneBy i (s.deeds e) = [] := by
  cases e with
  | turn t => exact .inl ⟨h, rfl⟩
  | start d =>
    change (s.jobs ++ [(d, Job.running (code d) [])])[i]? = some (c, j') at h
    rcases Nat.lt_trichotomy i s.jobs.length with hlt | rfl | hgt
    · rw [List.getElem?_append_left hlt] at h
      exact .inl ⟨h, rfl⟩
    · rw [List.getElem?_concat_length] at h
      obtain ⟨rfl, rfl⟩ := Prod.mk.inj (Option.some.inj h)
      exact .inr (.inr (.inr ⟨rfl, rfl, rfl⟩))
    · have hle : (s.jobs ++ [(d, Job.running (code d) [])]).length ≤ i := by
        rw [List.length_append, List.length_singleton]
        omega
      rw [List.getElem?_eq_none hle] at h
      cases h
  | advance k =>
    -- it is this call that goes on, or it has no part in the event
    rcases update_jobs h with ⟨rfl, j, hj, rfl⟩ | ⟨hik, hj⟩
    · have hworld : (s.step (.advance k)).world = (j.advance s.world).2 := by
        simp only [step, update, hj]
      exact .inr (.inl ⟨j, hj, rfl, hworld, doneBy_deeds_advance hj⟩)
    · refine .inl ⟨hj, Deed.doneBy_of_ne fun x hx => ?_⟩
      have he := (of_mem_deeds hx).1
      injection he with hk
      exact hk ▸ hik
  | drop k =>
    rcases update_jobs h with ⟨-, j, hj, rfl⟩ | ⟨-, hj⟩
    · exact .inr (.inr (.inl ⟨j, hj, rfl, rfl⟩))
    · exact .inl ⟨hj, rfl⟩

theorem lt_of_mem_journal {es : List (Event κ)} {x : ℕ × Deed} (h : x ∈ s.journal es) :
    x.1 < (s.run es).jobs.length := by
  induction es using List.reverseRecOn with
  | nil => cases h
  | append_singleton es e ih =>
    rw [journal_concat] at h
    rw [run_concat]
    have hle := length_le_step (s.run es) e
    rcases List.mem_append.mp h with h | h
    · exact Nat.lt_of_lt_of_le (ih h) hle
    · obtain ⟨-, c, j, hj, -⟩ := of_mem_deeds h
      exact Nat.lt_of_lt_of_le (List.getElem?_eq_some_iff.mp hj).1 hle

/-- The journal leads every call from its beginning to where it stands. -/
theorem told (w : World) (es : List (Event κ)) {i : ℕ} {c : κ} {j : Job α}
    (h : ((opening code w).run es).jobs[i]? = some (c, j)) :
    j.Told (code c) (Deed.doneBy i ((opening code w).journal es)) := by
  induction es using List.reverseRecOn generalizing j with
  | nil => cases h
  | append_singleton es e ih =>
    rw [run_concat] at h
    rw [journal_concat, Deed.doneBy_append]
    rcases step_jobs h with ⟨hj, hd⟩ | ⟨k, hk, rfl, -, hd⟩ | ⟨k, hk, rfl, hd⟩ |
      ⟨rfl, rfl, hd⟩
    · rw [hd, List.append_nil]
      exact ih hj
    · rw [hd]
      exact (ih hk).advance _
    · rw [hd, List.append_nil]
      exact (ih hk).drop _
    · -- a call that begins has done nothing yet
      have hno : ∀ x ∈ (opening code w).journal es, x.1 ≠ ((opening code w).run es).jobs.length :=
        fun x hx => Nat.ne_of_lt (lt_of_mem_journal hx)
      rw [hd, List.append_nil, Deed.doneBy_of_ne hno]
      exact .stay _

/-- Whoever has done something has been led by it to where it stands. -/
theorem leads_of_mem_journal {w : World} {es : List (Event κ)} {i : ℕ} {d : Deed}
    (h : (i, d) ∈ (opening code w).journal es) :
    ∃ c j q, ((opening code w).run es).jobs[i]? = some (c, j) ∧
      (code c).Leads (Deed.doneBy i ((opening code w).journal es)) q := by
  have hi := List.getElem?_eq_getElem (lt_of_mem_journal h)
  obtain ⟨q, hq⟩ := (told w es hi).leads
  exact ⟨_, _, q, hi, hq⟩

/-- A call that has begun is always there. -/
theorem exists_job_step {i : ℕ} {c : κ} {j : Job α} (h : s.jobs[i]? = some (c, j)) (e : Event κ) :
    ∃ j', (s.step e).jobs[i]? = some (c, j') := by
  have hlt : i < s.jobs.length := (List.getElem?_eq_some_iff.mp h).1
  have hupdate : ∀ (f : World → Job α → Job α × World) (k : ℕ),
      ∃ j', (s.update f k).jobs[i]? = some (c, j') := by
    intro f k
    simp only [update]
    split
    next d l hk =>
      by_cases hik : k = i
      · subst hik
        obtain ⟨rfl, rfl⟩ := Prod.mk.inj (Option.some.inj (hk.symm.trans h))
        exact ⟨_, List.getElem?_set_self hlt⟩
      · exact ⟨j, (List.getElem?_set_ne hik).trans h⟩
    next => exact ⟨j, h⟩
  cases e with
  | start d => exact ⟨j, (List.getElem?_append_left hlt).trans h⟩
  | turn t => exact ⟨j, h⟩
  | advance k => exact hupdate _ k
  | drop k => exact hupdate _ k

theorem exists_job_run {i : ℕ} {c : κ} {j : Job α} (h : s.jobs[i]? = some (c, j))
    (es : List (Event κ)) : ∃ j', (s.run es).jobs[i]? = some (c, j') := by
  induction es generalizing s j with
  | nil => exact ⟨j, h⟩
  | cons e rest ih =>
    obtain ⟨j', h'⟩ := exists_job_step h e
    exact ih h'

/-- A call that does not wait does something whenever it goes on, or is at its end. -/
theorem advance_progress {w : World} {es : List (Event κ)} {i : ℕ} {c : κ} {j : Job α}
    (h : ((opening code w).run es).jobs[i]? = some (c, j)) (hj : j.underWay = true)
    (hline : ∀ room t, .linedUp room t ∉ Deed.doneBy i ((opening code w).journal es)) :
    ∃ j', ((opening code w).run (es ++ [.advance i])).jobs[i]? = some (c, j') ∧
      ((∃ a, j' = .finished a) ∨ j'.underWay = true ∧
        (Deed.doneBy i ((opening code w).journal (es ++ [.advance i]))).length =
          (Deed.doneBy i ((opening code w).journal es)).length + 1) := by
  have htold := told w es h
  have hlt := (List.getElem?_eq_some_iff.mp h).1
  rw [run_concat, journal_concat, Deed.doneBy_append, doneBy_deeds_advance h]
  refine ⟨(j.advance ((opening code w).run es).world).1, ?_, ?_⟩
  · simp only [step, update, h]
    exact List.getElem?_set_self hlt
  · rw [List.length_append]
    cases j with
    | running p held =>
      cases p with
      | done a => exact .inl ⟨a, rfl⟩
      | act x next => exact .inr ⟨rfl, rfl⟩
      | enter room next => exact .inr ⟨rfl, rfl⟩
    | waiting t next held =>
      obtain ⟨room, before, hds, -⟩ := htold
      refine absurd ?_ (hline room t)
      rw [hds]
      exact List.mem_append_right _ (List.mem_singleton_self _)
    | finished a => cases hj
    | dropped => cases hj

/-- A call that never waits and does so many things at most comes to its end, unless it is given
up. -/
theorem finishes_of_bound {w : World} {es : List (Event κ)} {i : ℕ} {c : κ} {j : Job α} (n : ℕ)
    (h : ((opening code w).run es).jobs[i]? = some (c, j)) (hj : j.givenUp = false)
    (hline : ∀ m room t, .linedUp room t ∉
      Deed.doneBy i ((opening code w).journal (es ++ List.replicate m (.advance i))))
    (hbound : ∀ m,
      (Deed.doneBy i ((opening code w).journal (es ++ List.replicate m (.advance i)))).length ≤ n) :
    ∃ a, ((opening code w).run (es ++ List.replicate (n + 1) (.advance i))).jobs[i]? =
      some (c, .finished a) := by
  -- while it is under way, it does at least one thing whenever it goes on
  have hstep : ∀ m, ∃ j',
      ((opening code w).run (es ++ List.replicate m (.advance i))).jobs[i]? = some (c, j') ∧
        ((∃ a, j' = .finished a) ∨ j'.underWay = true ∧ m ≤ (Deed.doneBy i
          ((opening code w).journal (es ++ List.replicate m (.advance i)))).length) := by
    intro m
    induction m with
    | zero =>
      rw [List.replicate_zero, List.append_nil]
      refine ⟨j, h, ?_⟩
      cases j with
      | running p held => exact .inr ⟨rfl, Nat.zero_le _⟩
      | waiting t next held => exact .inr ⟨rfl, Nat.zero_le _⟩
      | finished a => exact .inl ⟨a, rfl⟩
      | dropped => cases hj
    | succ m ih =>
      obtain ⟨j', hj', hm⟩ := ih
      rw [List.replicate_succ', ← List.append_assoc]
      rcases hm with ⟨a, rfl⟩ | ⟨hunder, hm⟩
      · refine ⟨_, ?_, .inl ⟨a, rfl⟩⟩
        rw [run_concat]
        exact over_step hj' rfl _
      · obtain ⟨j'', hj'', hend | ⟨hunder', hlen⟩⟩ := advance_progress hj' hunder (hline m)
        · exact ⟨j'', hj'', .inl hend⟩
        · refine ⟨j'', hj'', .inr ⟨hunder', ?_⟩⟩
          rw [hlen]
          omega
  obtain ⟨j', hj', ⟨a, rfl⟩ | ⟨-, hlen⟩⟩ := hstep (n + 1)
  · exact ⟨a, hj'⟩
  · have hle := hbound (n + 1)
    omega

end Scene

namespace Action

/-- An action that does not touch the ledger. -/
def OffLedger : Action → Prop
  | ledger _ => False
  | _ => True

end Action

namespace World

variable {w : World} {x : Action}

theorem perform_ledger (hw : w.ledgerPlans = []) (c : LedgerCall) :
    w.perform (.ledger c) = ((w.ledger.answer w.now c).1,
      { w with ledger := (w.ledger.answer w.now c).2 }) := by
  cases w
  subst hw
  rfl

theorem perform_offLedger (hx : x.OffLedger) :
    (w.perform x).2.ledger = w.ledger ∧ (w.perform x).2.ledgerPlans = w.ledgerPlans := by
  cases x with
  | ledger c => cases hx
  | rooms c =>
    change (w.callRooms c).2.ledger = _ ∧ (w.callRooms c).2.ledgerPlans = _
    unfold callRooms
    cases c.kind? with
    | none => exact ⟨rfl, rfl⟩
    | some kind =>
      simp only
      split <;> exact ⟨rfl, rfl⟩
  | _ => exact ⟨rfl, rfl⟩

/-- The inventory is asked as things really stand, or the call goes wrong and changes nothing. -/
theorem callRooms_cases (w : World) (c : RoomCall) :
    ((w.callRooms c).1 = (w.inventory.answer w.now c).1 ∧
        (w.callRooms c).2.inventory = (w.inventory.answer w.now c).2) ∨
      (∃ m, (w.callRooms c).1 = c.spoiled m) ∧ (w.callRooms c).2.inventory = w.inventory := by
  unfold callRooms
  cases c.kind? with
  | none => exact .inl ⟨rfl, rfl⟩
  | some kind =>
    simp only
    split
    · exact .inl ⟨rfl, rfl⟩
    · exact .inr ⟨⟨_, rfl⟩, rfl⟩

theorem perform_inventory (hx : ∀ c, x ≠ .rooms c) :
    (w.perform x).2.inventory = w.inventory := by
  cases x with
  | rooms c => exact absurd rfl (hx c)
  | ledger c =>
    change (w.callLedger c).2.inventory = _
    unfold callLedger
    split <;> rfl
  | _ => rfl

theorem perform_ledgerPlans (hw : w.ledgerPlans = []) (x : Action) :
    (w.perform x).2.ledgerPlans = [] := by
  cases x with
  | ledger c =>
    rw [perform_ledger hw]
    exact hw
  | rooms c => exact (perform_offLedger (x := .rooms c) trivial).2.trans hw
  | _ => exact hw

/-- The ledger and the locks of a world are those of another one. -/
structure Unmoved (w w' : World) : Prop where
  ledger : w'.ledger = w.ledger
  ledgerPlans : w'.ledgerPlans = w.ledgerPlans
  locks : w'.inventory.locks = w.inventory.locks

theorem unmoved_refl (w : World) : w.Unmoved w := ⟨rfl, rfl, rfl⟩

theorem unmoved_turn (w : World) (t : Turn) : w.Unmoved (w.turn t) := by
  cases t <;> exact ⟨rfl, rfl, rfl⟩

end World

namespace Deed

variable {d : Deed}

theorem claim?_of_offLedger (h : d.ledger? = none) (r : RequestId) : d.claim? r = none := by
  cases d with
  | linedUp room t => rfl
  | did x a =>
    cases x with
    | ledger c => cases h
    | _ => rfl

theorem insert?_of_offLedger (h : d.ledger? = none) : d.insert? = none := by
  cases d with
  | linedUp room t => rfl
  | did x a =>
    cases x with
    | ledger c => cases h
    | _ => rfl

end Deed

namespace Job

variable {α : Type}

theorem unmoved_drop (w : World) (j : Job α) : w.Unmoved (j.drop w).2 := by
  cases j <;> exact ⟨rfl, rfl, rfl⟩

/-- A call that goes on takes an action, or moves nothing. -/
theorem advance_cases (w : World) (j : Job α) :
    (∃ x, j.deed? w = some (.did x (w.perform x).1) ∧ (j.advance w).2 = (w.perform x).2) ∨
      (∀ d, j.deed? w = some d → ∃ room t, d = .linedUp room t) ∧ w.Unmoved (j.advance w).2 := by
  have hnone : ∀ d : Deed, none = some d → ∃ room t, d = .linedUp room t := by
    intro d hd
    cases hd
  cases j with
  | running p held =>
    cases p with
    | done a => exact .inr ⟨hnone, w.unmoved_refl⟩
    | act x next => exact .inl ⟨x, rfl, rfl⟩
    | enter room next =>
      refine .inr ⟨fun d hd => ?_, rfl, rfl, rfl⟩
      obtain rfl := Option.some.inj hd
      exact ⟨_, _, rfl⟩
  | waiting t next held =>
    simp only [Job.advance]
    split <;> exact .inr ⟨hnone, w.unmoved_refl⟩
  | finished a => exact .inr ⟨hnone, w.unmoved_refl⟩
  | dropped => exact .inr ⟨hnone, w.unmoved_refl⟩

end Job

namespace Scene

variable {κ α : Type} {code : κ → Process α} {s : Scene code}

/-- With an event a call takes an action, as the journal tells, or nothing is moved. -/
theorem step_cases (s : Scene code) (e : Event κ) :
    (∃ i x, s.deeds e = [(i, .did x (s.world.perform x).1)] ∧
        (s.step e).world = (s.world.perform x).2) ∨
      (∀ d ∈ s.deeds e, ∃ room t, d.2 = .linedUp room t) ∧ s.world.Unmoved (s.step e).world := by
  have hnone : ∀ d ∈ ([] : List (ℕ × Deed)), ∃ room t, d.2 = .linedUp room t :=
    fun _ hd => absurd hd List.not_mem_nil
  cases e with
  | start c => exact .inr ⟨hnone, s.world.unmoved_refl⟩
  | turn t => exact .inr ⟨hnone, s.world.unmoved_turn t⟩
  | drop i =>
    refine .inr ⟨hnone, ?_⟩
    simp only [step, update]
    split
    next c j hj => exact j.unmoved_drop s.world
    next => exact s.world.unmoved_refl
  | advance i =>
    cases hj : s.jobs[i]? with
    | none =>
      simp only [step, update, deeds, hj]
      exact .inr ⟨hnone, s.world.unmoved_refl⟩
    | some y =>
      obtain ⟨c, j⟩ := y
      simp only [step, update, hj]
      rw [deeds_advance hj]
      rcases j.advance_cases s.world with ⟨x, hd, hw⟩ | ⟨hd, hw⟩
      · refine .inl ⟨i, x, ?_, hw⟩
        rw [hd]
        rfl
      · refine .inr ⟨fun y hy => ?_, hw⟩
        obtain ⟨d, hmem, rfl⟩ := List.mem_map.mp hy
        exact hd d (Option.mem_toList.mp hmem)

/-- Whatever was done was done at some time, when its call went on. -/
theorem exists_of_mem_journal {i : ℕ} {d : Deed} {es : List (Event κ)}
    (h : (i, d) ∈ s.journal es) : ∃ before after, es = before ++ .advance i :: after ∧
      (i, d) ∈ (s.run before).deeds (.advance i) := by
  induction es using List.reverseRecOn with
  | nil => cases h
  | append_singleton es e ih =>
    rw [journal_concat] at h
    rcases List.mem_append.mp h with h | h
    · obtain ⟨before, after, rfl, hd⟩ := ih h
      exact ⟨before, after ++ [e], List.append_assoc .., hd⟩
    · obtain ⟨rfl, -⟩ := of_mem_deeds h
      exact ⟨es, [], rfl, h⟩

/-- It was answered by the world as it was then. -/
theorem exists_perform {i : ℕ} {x : Action} {a : x.Answer} {es : List (Event κ)}
    (h : (i, .did x a) ∈ s.journal es) : ∃ before e after, es = before ++ e :: after ∧
      (s.run before).deeds e = [(i, .did x a)] ∧ a = ((s.run before).world.perform x).1 ∧
        (s.run (before ++ [e])).world = ((s.run before).world.perform x).2 := by
  obtain ⟨before, after, rfl, hdeed⟩ := exists_of_mem_journal h
  refine ⟨before, .advance i, after, rfl, ?_⟩
  rw [run_concat]
  rcases (s.run before).step_cases (.advance i) with ⟨k, y, hd, hw⟩ | ⟨hd, -⟩
  · rw [hd] at hdeed ⊢
    rw [hw]
    injection List.mem_singleton.mp hdeed with hi hdid
    injection hdid with hx ha
    subst hi hx
    obtain rfl := eq_of_heq ha
    exact ⟨rfl, rfl, rfl⟩
  · obtain ⟨room, t, hlined⟩ := hd _ hdeed
    cases hlined

/-- The ledger changes by what the journal tells, and by nothing else. -/
theorem step_ledger (hw : s.world.ledgerPlans = []) (e : Event κ) :
    (s.step e).world.ledgerPlans = [] ∧
      ((∃ i c, s.deeds e = [(i, .did (.ledger c) (s.world.ledger.answer s.world.now c).1)] ∧
          (s.step e).world.ledger = (s.world.ledger.answer s.world.now c).2) ∨
        (∀ x ∈ s.deeds e, x.2.ledger? = none) ∧
          (s.step e).world.ledger = s.world.ledger) := by
  rcases s.step_cases e with ⟨i, x, hd, hs⟩ | ⟨hd, hs⟩
  · rw [hd, hs]
    refine ⟨World.perform_ledgerPlans hw x, ?_⟩
    cases x with
    | ledger c =>
      rw [World.perform_ledger hw]
      exact .inl ⟨i, c, rfl, rfl⟩
    | _ =>
      refine .inr ⟨fun y hy => ?_, (World.perform_offLedger (by trivial)).1⟩
      rw [List.mem_singleton.mp hy]
      rfl
  · refine ⟨hs.ledgerPlans.trans hw, .inr ⟨fun y hy => ?_, hs.ledger⟩⟩
    obtain ⟨room, t, hy⟩ := hd y hy
    rw [hy]
    rfl

theorem run_ledgerPlans (hw : s.world.ledgerPlans = []) (es : List (Event κ)) :
    (s.run es).world.ledgerPlans = [] := by
  induction es generalizing s with
  | nil => exact hw
  | cons e rest ih => exact ih (step_ledger hw e).1

/-- Bookings are in the ledger from before, or because they were written down. -/
theorem length_bookings (hw : s.world.ledgerPlans = []) (es : List (Event κ)) :
    (s.run es).world.ledger.bookings.length = s.world.ledger.bookings.length +
      ((s.journal es).filterMap (·.2.insert?)).length := by
  induction es using List.reverseRecOn with
  | nil => rfl
  | append_singleton es e ih =>
    rw [run_concat, journal_concat, List.filterMap_append, List.length_append]
    -- of the calls of the ledger only one adds a row
    obtain ⟨-, ⟨i, c, hd, hl⟩ | ⟨hno, hl⟩⟩ := step_ledger (run_ledgerPlans hw es) e
    · rw [hd, hl]
      cases c with
      | accept r =>
        simp only [Ledger.answer, Ledger.accept]
        split <;> exact ih
      | insertPending n =>
        change ((s.run es).world.ledger.bookings ++ [_]).length = _
        rw [List.length_append, ih]
        rfl
      | updateStatus id expected next =>
        change ((s.run es).world.ledger.updateStatus id expected next).2.bookings.length = _
        unfold Ledger.updateStatus
        split
        · split
          · exact (List.length_map ..).trans ih
          · exact ih
        · exact ih
      | get id => exact ih
      | pageOf user page => exact ih
    · have hnone : ((s.run es).deeds e).filterMap (·.2.insert?) = [] :=
        List.filterMap_eq_nil_iff.mpr fun x hx => Deed.insert?_of_offLedger (hno x hx)
      rw [hl, ih, hnone]
      rfl

end Scene

end Lodging
