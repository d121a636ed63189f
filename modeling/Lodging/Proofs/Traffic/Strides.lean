import Lodging.Proofs.Staging
import Lodging.Proofs.Traffic.Pace
import Mathlib.Algebra.BigOperators.Fin
import Mathlib.Algebra.Order.BigOperators.Group.Finset

/-!
The strides of calls. As every call keeps its pace, none makes more strides than its span, whatever
becomes of the others. Whoever waits stands in a line, and the first in the line is a call that can
go on, also where calls have been given up.
-/

namespace Lodging

namespace World

variable {w : World} {rooms : ℕ} {held : Option Ticket} {x : Action}

theorem length_rooms_perform (hx : x.Fits held) :
    (w.perform x).2.inventory.rooms.length = w.inventory.rooms.length := by
  cases x with
  | rooms c =>
    change (w.callRooms c).2.inventory.rooms.length = _
    rcases w.callRooms_cases c with ⟨-, h⟩ | ⟨-, h⟩
    · rw [h]
      cases c with
      | insertRoom n => cases hx
      | insertLock n =>
        change (w.inventory.insertLock w.now n).2.rooms.length = _
        unfold Inventory.insertLock
        split
        · rfl
        · split
          · rfl
          · simp only
            split <;> exact List.length_map ..
      | deleteLock id room =>
        change (w.inventory.deleteLock id room).2.rooms.length = _
        unfold Inventory.deleteLock
        split
        · exact List.length_map ..
        · rfl
      | _ => rfl
    · rw [h]
  | ledger c =>
    have hnot : ∀ d, Action.ledger c ≠ .rooms d := fun _ h => Action.noConfusion h
    rw [perform_inventory hnot]
  | _ => rfl

/-- What a world answers is what an inventory of its rooms can answer. -/
theorem allows_perform (hw : w.inventory.rooms.length ≤ rooms) (x : Action) :
    x.Allows rooms (w.perform x).1 := by
  match x with
  | .rooms .operationalRooms =>
    change Action.Allows rooms (.rooms .operationalRooms) (w.callRooms .operationalRooms).1
    rcases w.callRooms_cases .operationalRooms with ⟨h, -⟩ | ⟨⟨m, h⟩, -⟩
    · rw [h]
      exact (List.length_filter_le ..).trans hw
    · rw [h]
      trivial
  | .rooms (.insertRoom _) | .rooms (.getRoom _) | .rooms .roomCount | .rooms (.lockByRequest _)
  | .rooms (.lockByUid _) | .rooms (.overlapping ..) | .rooms (.locksOf _) | .rooms (.insertLock _)
  | .rooms (.deleteLock ..) | .ledger _ | .leave _ | .meter _ | .readings | .attempt _
  | .planned _ | .sleep _ => trivial

end World

namespace Job

variable {α : Type} {rooms n : ℕ} {w : World} {j : Job α}

/-- What is left of a call makes so many strides at most, and keeps to one room at a time. -/
def Paced (rooms : ℕ) : Job α → ℕ → Prop
  | running p held, n => ∃ room m, held = room.toList ∧ n = m + 1 ∧ p.Paced rooms m room none
  | waiting _ next held, n => held = [] ∧
      ∃ m, n = m + 2 ∧ ∀ t, (next t).Paced rooms m (some t) none
  | finished _, _ | dropped, _ => True

theorem Paced.unburdened (h : j.Paced rooms n) : j.Unburdened := by
  match j with
  | running (.act (.sleep _) _) _ =>
    obtain ⟨room, m, rfl, -, hfits, -⟩ := h
    cases hfits
    exact rfl
  | running (.enter ..) _ =>
    obtain ⟨room, m, rfl, -, rfl, -⟩ := h
    exact rfl
  | waiting .. => exact h.1
  | running (.act (.rooms _) _) _ | running (.act (.ledger _) _) _ | running (.act (.leave _) _) _
  | running (.act (.meter _) _) _ | running (.act .readings _) _ | running (.act (.attempt _) _) _
  | running (.act (.planned _) _) _ | running (.done _) _ | finished _ | dropped => trivial

theorem advance_of_not_ready (h : j.ready w = false) : j.advance w = (j, w) := by
  match j with
  | running .. => cases h
  | waiting t next held =>
    have hnot : w.holds.granted t = false := h
    simp only [advance, hnot, Bool.false_eq_true, if_false]
  | finished _ | dropped => rfl

/-- What a stride of a call makes of the holds and of its tickets. -/
inductive Grip (h : Holds) : List Ticket → Holds → List Ticket → Prop
  | stay (ts : List Ticket) : Grip h ts h ts
  | lineUp (room : RoomId) : Grip h [] (h.request room).2 [(h.request room).1]
  | leave (t : Ticket) : Grip h [t] (h.leave t) []

theorem Paced.advance (h : j.Paced rooms n) (hw : w.inventory.rooms.length ≤ rooms)
    (hready : j.ready w = true) : ∃ m, n = m + 1 ∧ (j.advance w).1.Paced rooms m ∧
      (j.advance w).2.inventory.rooms.length = w.inventory.rooms.length ∧
        Grip w.holds j.tickets (j.advance w).2.holds (j.advance w).1.tickets := by
  match j with
  | running (.done a) held =>
    obtain ⟨room, m, rfl, rfl, hlast⟩ := h
    obtain rfl : room = none := hlast
    exact ⟨m, rfl, trivial, rfl, .stay []⟩
  | running (.act x next) held =>
    obtain ⟨room, k, rfl, rfl, hfits, m, rfl, hnext⟩ := h
    have hpaced := hnext _ (w.allows_perform hw x)
    have hrooms := w.length_rooms_perform hfits
    -- of all actions only leaving a room changes the tickets and the holds
    by_cases hx : ∃ t, x = .leave t
    · obtain ⟨t, rfl⟩ := hx
      obtain rfl : room = some t := hfits
      have hkeep : keep (some t).toList (.leave t) = [] := by simp [keep]
      refine ⟨m + 1, rfl, ⟨none, m, hkeep, rfl, hpaced⟩, hrooms, ?_⟩
      change Grip w.holds [t] (w.holds.leave t) (keep (some t).toList (.leave t))
      rw [hkeep]
      exact .leave t
    · have hne : ∀ t, x ≠ .leave t := fun t ht => hx ⟨t, ht⟩
      have hkeep : keep room.toList x = room.toList := by
        cases x with
        | leave t => exact absurd rfl (hne t)
        | _ => rfl
      have hkeeps : x.keeps room = room := by
        cases x with
        | leave t => exact absurd rfl (hne t)
        | _ => rfl
      rw [hkeeps] at hpaced
      refine ⟨m + 1, rfl, ⟨room, m, hkeep, rfl, hpaced⟩, hrooms, ?_⟩
      change Grip w.holds room.toList (w.perform x).2.holds (keep room.toList x)
      rw [hkeep, World.perform_holds hne]
      exact .stay _
  | running (.enter room next) held =>
    obtain ⟨_, k, rfl, rfl, rfl, m, rfl, hnext⟩ := h
    exact ⟨m + 2, rfl, ⟨rfl, m, rfl, hnext⟩, rfl, .lineUp room⟩
  | waiting t next held =>
    obtain ⟨rfl, m, rfl, hnext⟩ := h
    have hgranted : w.holds.granted t = true := hready
    have hadvance : (waiting t next []).advance w = (running (next t) [t], w) := by
      simp only [Job.advance, hgranted, if_true]
    rw [hadvance]
    exact ⟨m + 1, rfl, ⟨some t, m, rfl, rfl, hnext t⟩, rfl, .stay [t]⟩
  | finished a | dropped => cases hready

end Job

/-- The first in the line where someone stands has the room. -/
theorem Holds.Sound.exists_granted {h : Holds} (hs : h.Sound) {v : Visitor}
    (hv : v ∈ h.visitors) : ∃ a ∈ h.visitors, h.granted a.ticket = true := by
  have hvq : v ∈ h.queue v.gate := List.mem_filter.mpr ⟨hv, by simp⟩
  obtain ⟨a, hhead⟩ : ∃ a, (h.queue v.gate).head? = some a := by
    cases hq : h.queue v.gate with
    | nil => simp [hq] at hvq
    | cons a rest => exact ⟨a, rfl⟩
  obtain ⟨ha, hgate⟩ := List.mem_filter.mp (List.mem_of_head? hhead)
  have hgate' : a.gate = v.gate := by simpa using hgate
  refine ⟨a, ha, Holds.granted_iff.mpr ⟨a, hs.visitor?_of_mem ha, ?_⟩⟩
  rw [hgate']
  exact hhead

/-- Numbers below a length, each of which comes no more often than is allowed for it, are no more
than are allowed in all. -/
theorem length_le_sum {l xs : List ℕ} (hl : ∀ i ∈ l, i < xs.length)
    (hcount : ∀ i (hi : i < xs.length), l.count i ≤ xs[i]) : l.length ≤ xs.sum := by
  have hmem : ∀ i ∈ (l : Multiset ℕ), i ∈ Finset.range xs.length := by
    intro i hi
    exact Finset.mem_range.mpr (hl i hi)
  calc l.length
      _ = ∑ i ∈ Finset.range xs.length, l.count i := by
        simpa using (Multiset.sum_count_eq_card hmem).symm
      _ = ∑ i : Fin xs.length, l.count i.val := Finset.sum_range _
      _ ≤ ∑ i : Fin xs.length, xs[i.val] := Finset.sum_le_sum fun i _ => hcount i.val i.isLt
      _ = xs.sum := Fin.sum_univ_getElem xs

namespace Scene

variable {κ α : Type} {code : κ → Process α} {span : κ → ℕ} {rooms : ℕ} {spent : List ℕ}
  {s : Scene code}

/-- All calls keep their pace, and none of them has made more strides than it may. -/
structure Striding (rooms : ℕ) (span : κ → ℕ) (spent : List ℕ) (s : Scene code) : Prop where
  furnished : s.world.inventory.rooms.length ≤ rooms
  begun : ∀ i ∈ spent, i < s.jobs.length
  paced : ∀ (i : ℕ) (c : κ) (j : Job α), s.jobs[i]? = some (c, j) →
    ∃ n, j.Paced rooms n ∧ n + spent.count i ≤ span c

theorem striding_opening {w : World} (hw : w.inventory.rooms.length ≤ rooms) :
    (opening code w).Striding rooms span [] where
  furnished := hw
  begun := nofun
  paced := nofun

theorem Striding.start (hs : s.Striding rooms span spent) {c : κ} {n : ℕ} (hspan : span c = n + 1)
    (hcode : (code c).Paced rooms n none none) :
    (s.step (.start c)).Striding rooms span spent := by
  refine ⟨hs.furnished, ?_, ?_⟩
  · intro i hi
    have hlt := hs.begun i hi
    simp only [step, List.length_append]
    omega
  · intro i d j hj
    rcases Script.getElem?_concat_cases hj with hold | ⟨hi, hnew⟩
    · exact hs.paced i d j hold
    · obtain ⟨rfl, rfl⟩ := Prod.mk.inj hnew
      have hnone : spent.count i = 0 := by
        apply List.count_eq_zero_of_not_mem
        intro hmem
        have hlt := hs.begun i hmem
        omega
      exact ⟨n + 1, ⟨none, n, rfl, rfl, hcode⟩, by omega⟩

theorem Striding.turn (hs : s.Striding rooms span spent) (t : Turn) :
    (s.step (.turn t)).Striding rooms span spent := by
  have hrooms : (s.world.turn t).inventory.rooms = s.world.inventory.rooms := by cases t <;> rfl
  refine ⟨?_, hs.begun, hs.paced⟩
  change (s.world.turn t).inventory.rooms.length ≤ rooms
  rw [hrooms]
  exact hs.furnished

/-- A call that is given up makes no more strides. -/
theorem Striding.drop (hs : s.Striding rooms span spent) (i : ℕ) :
    (s.step (.drop i)).Striding rooms span spent := by
  refine ⟨?_, fun k hk => (hs.begun k hk).trans_le (length_le_step s _), ?_⟩
  · have hinventory : (s.step (.drop i)).world.inventory = s.world.inventory := by
      simp only [Scene.step, update]
      split
      next c j hj => cases j <;> rfl
      next => rfl
    rw [hinventory]
    exact hs.furnished
  · intro k d l hl
    rcases update_jobs hl with ⟨-, j, hj, rfl⟩ | ⟨-, hj⟩
    · obtain ⟨n, hn, hcount⟩ := hs.paced k d j hj
      refine ⟨n, ?_, hcount⟩
      cases j with
      | finished a => exact hn
      | _ => trivial
    · exact hs.paced k d l hj

/-- A stride counts for the call that makes it. -/
theorem Striding.stride (hs : s.Striding rooms span spent) {i : ℕ} {c : κ} {j : Job α}
    (hj : s.jobs[i]? = some (c, j)) (hready : j.ready s.world = true) :
    (s.step (.advance i)).Striding rooms span (spent ++ [i]) := by
  obtain ⟨n, hpaced, hcount⟩ := hs.paced i c j hj
  obtain ⟨m, rfl, hnext, hrooms, -⟩ := hpaced.advance hs.furnished hready
  have hlt := (List.getElem?_eq_some_iff.mp hj).1
  have hstep : s.step (.advance i) =
      ⟨(j.advance s.world).2, s.jobs.set i (c, (j.advance s.world).1)⟩ := by
    simp only [step, update, hj]
  rw [hstep]
  refine ⟨hrooms.le.trans hs.furnished, ?_, ?_⟩
  · intro k hk
    rw [List.length_set]
    rcases List.mem_append.mp hk with hk | hk
    · exact hs.begun k hk
    · rw [List.mem_singleton.mp hk]
      exact hlt
  · intro k d l hl
    rw [List.count_append, List.count_singleton]
    rcases Script.getElem?_set_cases hl with ⟨rfl, hnew⟩ | ⟨hk, hold⟩
    · -- one stride more is made, and one less is left
      obtain ⟨rfl, rfl⟩ := Prod.mk.inj hnew
      refine ⟨m, hnext, ?_⟩
      simp only [beq_self_eq_true, if_true]
      omega
    · obtain ⟨n', hpaced', hcount'⟩ := hs.paced k d l hold
      refine ⟨n', hpaced', ?_⟩
      have hne : (i == k) = false := by simpa using fun he : i = k => hk he.symm
      simpa [hne] using hcount'

/-- A call that is to go on makes a stride, or nothing happens. -/
theorem advance_cases (s : Scene code) (i : ℕ) :
    (∃ c j, s.jobs[i]? = some (c, j) ∧ j.ready s.world = true ∧
      s.strider? (.advance i) = some i) ∨
    s.strider? (.advance i) = none ∧ s.step (.advance i) = s := by
  cases hj : s.jobs[i]? with
  | none =>
    refine .inr ⟨by simp [strider?, hj], ?_⟩
    simp only [Scene.step, update, hj]
  | some x =>
    obtain ⟨c, j⟩ := x
    cases hready : j.ready s.world with
    | true => exact .inl ⟨c, j, rfl, hready, by simp [strider?, hj, hready]⟩
    | false =>
      refine .inr ⟨by simp [strider?, hj, hready], ?_⟩
      obtain ⟨hlt, hget⟩ := List.getElem?_eq_some_iff.mp hj
      simp only [Scene.step, update, hj, Job.advance_of_not_ready hready]
      rw [← hget, List.set_getElem_self]

theorem Striding.step (hs : s.Striding rooms span spent) (e : Event κ)
    (hcode : ∀ c, ∃ n, span c = n + 1 ∧ (code c).Paced rooms n none none) :
    (s.step e).Striding rooms span (spent ++ (s.strider? e).toList) := by
  cases e with
  | start c =>
    obtain ⟨n, hspan, hpaced⟩ := hcode c
    simpa [strider?] using hs.start hspan hpaced
  | turn t => simpa [strider?] using hs.turn t
  | drop i => simpa [strider?] using hs.drop i
  | advance i =>
    rcases s.advance_cases i with ⟨c, j, hj, hready, hstrider⟩ | ⟨hstrider, hstay⟩
    · rw [hstrider]
      exact hs.stride hj hready
    · rw [hstrider, hstay]
      simpa using hs

/-- Whoever gives up or goes wrong, all calls keep their pace. -/
theorem striding_run (hs : s.Striding rooms span spent)
    (hcode : ∀ c, ∃ n, span c = n + 1 ∧ (code c).Paced rooms n none none) (es : List (Event κ)) :
    (s.run es).Striding rooms span (spent ++ s.strides es) := by
  induction es using List.reverseRecOn with
  | nil => simpa [strides, trail, run] using hs
  | append_singleton es e ih =>
    rw [run_concat]
    unfold strides at ih ⊢
    rw [trail_concat, ← List.append_assoc]
    exact ih.step e hcode

theorem Striding.count_le (hs : s.Striding rooms span spent) {i : ℕ} (hi : i < s.jobs.length) :
    spent.count i ≤ span s.jobs[i].1 := by
  obtain ⟨n, -, hcount⟩ := hs.paced i _ _ (List.getElem?_eq_getElem hi)
  exact (Nat.le_add_left _ n).trans hcount

/-- All strides together are no more than all spans. -/
theorem Striding.length_le (hs : s.Striding rooms span spent) :
    spent.length ≤ (s.jobs.map fun x => span x.1).sum := by
  refine length_le_sum (fun i hi => ?_) fun i hi => ?_
  · rw [List.length_map]
    exact hs.begun i hi
  · rw [List.getElem_map]
    exact hs.count_le ((List.length_map (fun x : κ × Job α => span x.1)) ▸ hi)

theorem Striding.unburdened (hs : s.Striding rooms span spent) :
    ∀ x ∈ s.jobs, x.2.Unburdened := by
  intro x hx
  obtain ⟨i, hi⟩ := List.getElem?_of_mem hx
  obtain ⟨n, hpaced, -⟩ := hs.paced i x.1 x.2 hi
  exact hpaced.unburdened

/-- Someone can go on, unless all have come to their end, if whoever waits does so for a call. -/
theorem exists_strider (hunburdened : ∀ x ∈ s.jobs, x.2.Unburdened)
    (hline : ∀ x ∈ s.jobs, ∀ t ∈ x.2.tickets, ∃ y ∈ s.jobs, ∃ u ∈ y.2.tickets,
      s.world.holds.granted u = true) (hquiet : ¬ s.Quiet) :
    ∃ i, s.strider? (.advance i) = some i := by
  have hof : ∀ x ∈ s.jobs, x.2.ready s.world = true → ∃ i, s.strider? (.advance i) = some i := by
    intro x hx hready
    obtain ⟨i, hi⟩ := List.getElem?_of_mem hx
    refine ⟨i, ?_⟩
    simp [strider?, hi, hready]
  -- a call that has a ticket which has the room is not one that waits
  have hgranted : ∀ x ∈ s.jobs, ∀ t ∈ x.2.tickets, s.world.holds.granted t = true →
      x.2.ready s.world = true := by
    intro x hx t ht hg
    obtain ⟨c, j⟩ := x
    cases j with
    | running p held => rfl
    | waiting u next held =>
      obtain rfl : held = [] := hunburdened _ hx
      rw [List.mem_singleton.mp ht] at hg
      exact hg
    | finished a => cases ht
    | dropped => cases ht
  simp only [Quiet, not_forall] at hquiet
  obtain ⟨x, hx, hunder⟩ := hquiet
  obtain ⟨c, j⟩ := x
  cases j with
  | running p held => exact hof _ hx rfl
  | waiting t next held =>
    obtain ⟨y, hy, u, hu, hg⟩ := hline _ hx t List.mem_cons_self
    exact hof y hy (hgranted y hy u hu hg)
  | finished a => exact absurd rfl hunder
  | dropped => exact absurd rfl hunder

end Scene

/-- Calls that follow a script wait for one another only, also when some of them were given up. -/
theorem Script.Tells.exists_strider {σ κ α : Type} {S : Script σ} {Q : κ → α → σ → Prop}
    {code : κ → Process α} {s : Scene code} {st : Stage κ σ} (ht : S.Tells Q s st)
    (hunburdened : ∀ x ∈ s.jobs, x.2.Unburdened) (hquiet : ¬ s.Quiet) :
    ∃ i, s.strider? (.advance i) = some i := by
  refine Scene.exists_strider hunburdened (fun x hx t htx => ?_) hquiet
  obtain ⟨i, hi⟩ := List.getElem?_of_mem hx
  obtain ⟨room, v, hv, -⟩ := (ht.keeps i x.1 x.2 hi).known htx
  obtain ⟨a, ha, hg⟩ := ht.sound.exists_granted (Holds.visitor?_eq_some hv).1
  obtain ⟨k, d, l, hl, hal⟩ := ht.attended a ha
  exact ⟨_, List.mem_of_getElem? hl, a.ticket, hal, hg⟩

end Lodging
