import Lodging.Proofs.Holds
import Lodging.Proofs.Script
import Mathlib.Data.List.Induction

/-!
Scenes by their scripts. While the calls of a scene follow a script, its state is told by a stage:
the stock of the world, the calls that have begun, and the point at which each of them is. Every
event of a run changes the stage by one move at most, and no two calls are ever in the same room.
-/

namespace Lodging

/-- A scene as its script sees it. Calls that have not begun are at rest. -/
structure Stage (κ σ : Type) where
  stock : Stock
  calls : List κ
  point : ℕ → σ

theorem update_cases {α : Type} {f : ℕ → α} {i k : ℕ} {x : α} (P : α → Prop)
    (h : P (Function.update f i x k)) : k = i ∧ P x ∨ k ≠ i ∧ P (f k) := by
  by_cases hk : k = i
  · subst hk
    rw [Function.update_self] at h
    exact .inl ⟨rfl, h⟩
  · rw [Function.update_of_ne hk] at h
    exact .inr ⟨hk, h⟩

theorem update_eq_cases {α : Type} {f : ℕ → α} {i k : ℕ} {x y : α}
    (h : Function.update f i x k = y) : k = i ∧ x = y ∨ k ≠ i ∧ f k = y :=
  update_cases (· = y) h

namespace Job

variable {α : Type}

/-- The tickets that have been let in. -/
def held : Job α → List Ticket
  | running _ held | waiting _ _ held => held
  | finished _ | dropped => []

/-- All tickets that a call has. -/
def tickets : Job α → List Ticket
  | running _ held => held
  | waiting t _ held => t :: held
  | finished _ | dropped => []

theorem held_subset_tickets {j : Job α} {t : Ticket} (ht : t ∈ j.held) : t ∈ j.tickets := by
  cases j with
  | waiting u next held => exact List.mem_cons_of_mem _ ht
  | _ => exact ht

end Job

namespace Script

variable {σ κ α : Type} (S : Script σ) (first : κ → σ)

/-- What an event does to a stage. -/
inductive Next : Event κ → Stage κ σ → Stage κ σ → Prop
  | start {st : Stage κ σ} (c : κ) :
    Next (.start c) st
      ⟨st.stock, st.calls ++ [c], Function.update st.point st.calls.length (first c)⟩
  | move {st : Stage κ σ} {i : ℕ} {s : σ} {b : Stock} (hi : i < st.calls.length)
    (h : S.Move (st.point i) st.stock s b) :
    Next (.advance i) st ⟨b, st.calls, Function.update st.point i s⟩
  | drop {st : Stage κ σ} {i : ℕ} (hi : i < st.calls.length) :
    Next (.drop i) st ⟨st.stock, st.calls, Function.update st.point i S.rest⟩
  | turn {st : Stage κ σ} (t : Turn) : Next (.turn t) st ⟨st.stock.turn t, st.calls, st.point⟩
  | idle {st : Stage κ σ} (e : Event κ) : Next e st st

/-- What is left of a call follows the script from a point on. -/
def Keeps (Q : κ → α → σ → Prop) (c : κ) (h : Holds) (s : σ) : Job α → Prop
  | .running p held => ∃ rooms : Held, rooms.map Prod.fst = held ∧ (∀ x ∈ rooms, h.For x.1 x.2) ∧
      S.Within rooms s ∧ S.Follows (fun rooms a s => rooms = [] ∧ Q c a s) rooms s p
  | .waiting t next held => ∃ (room : RoomId) (rooms : Held), h.For t room ∧
      rooms.map Prod.fst = held ∧ (∀ x ∈ rooms, h.For x.1 x.2) ∧ S.Within rooms s ∧
        S.Follows (fun rooms a s => rooms = [] ∧ Q c a s) rooms s (.enter room next)
  | .finished a => Q c a s ∧ S.inside s = none
  | .dropped => s = S.rest

/-- No two calls are in the same room. -/
def Exclusive (point : ℕ → σ) : Prop :=
  ∀ i k room, i ≠ k → S.inside (point i) = some room → S.inside (point k) ≠ some room

/-- A stage that tells the state of a scene. -/
structure Tells {code : κ → Process α} (Q : κ → α → σ → Prop) (s : Scene code)
    (st : Stage κ σ) : Prop where
  stock : st.stock = s.world.stock
  calls : st.calls = s.jobs.map Prod.fst
  undisturbed : s.world.Undisturbed
  sound : s.world.holds.Sound
  granted : ∀ (i : ℕ) (c : κ) (j : Job α), s.jobs[i]? = some (c, j) →
    ∀ t ∈ j.held, s.world.holds.granted t = true
  apart : ∀ (i k : ℕ) (c d : κ) (j l : Job α), i ≠ k → s.jobs[i]? = some (c, j) →
    s.jobs[k]? = some (d, l) → ∀ t ∈ j.tickets, t ∉ l.tickets
  attended : ∀ v ∈ s.world.holds.visitors, ∃ (i : ℕ) (c : κ) (j : Job α),
    s.jobs[i]? = some (c, j) ∧ v.ticket ∈ j.tickets
  keeps : ∀ (i : ℕ) (c : κ) (j : Job α), s.jobs[i]? = some (c, j) →
    S.Keeps Q c s.world.holds (st.point i) j
  off : ∀ i, s.jobs.length ≤ i → st.point i = S.rest

variable {S first} {code : κ → Process α} {Q : κ → α → σ → Prop} {s : Scene code}
  {st : Stage κ σ} {c : κ} {h h' : Holds} {p : σ} {j : Job α}

/-- Calls that have begun are never forgotten. -/
theorem Next.calls {e : Event κ} {st' : Stage κ σ} (h : S.Next first e st st') :
    ∃ rest, st'.calls = st.calls ++ rest := by
  cases h with
  | start c => exact ⟨[c], rfl⟩
  | _ => exact ⟨[], (List.append_nil _).symm⟩

theorem Keeps.known (hk : S.Keeps Q c h p j) {t : Ticket} (ht : t ∈ j.tickets) :
    ∃ room, h.For t room := by
  cases j with
  | running q held =>
    obtain ⟨rooms, rfl, hfor, -, -⟩ := hk
    obtain ⟨x, hx, rfl⟩ := List.mem_map.mp ht
    exact ⟨x.2, hfor x hx⟩
  | waiting u next held =>
    obtain ⟨room, rooms, hu, rfl, hfor, -, -⟩ := hk
    rcases List.mem_cons.mp ht with rfl | ht
    · exact ⟨room, hu⟩
    · obtain ⟨x, hx, rfl⟩ := List.mem_map.mp ht
      exact ⟨x.2, hfor x hx⟩
  | finished a => cases ht
  | dropped => cases ht

/-- A change of the holds that leaves the tickets of a call as they are. -/
theorem Keeps.of_holds (hk : S.Keeps Q c h p j)
    (hfor : ∀ t ∈ j.tickets, ∀ room, h.For t room → h'.For t room) : S.Keeps Q c h' p j := by
  cases j with
  | running q held =>
    obtain ⟨rooms, rfl, hr, hw, hf⟩ := hk
    exact ⟨rooms, rfl, fun x hx => hfor _ (List.mem_map_of_mem hx) _ (hr x hx), hw, hf⟩
  | waiting u next held =>
    obtain ⟨room, rooms, hu, rfl, hr, hw, hf⟩ := hk
    refine ⟨room, rooms, hfor _ List.mem_cons_self _ hu, rfl, fun x hx => ?_, hw, hf⟩
    exact hfor _ (List.mem_cons_of_mem _ (List.mem_map_of_mem hx)) _ (hr x hx)
  | finished a => exact hk
  | dropped => exact hk

theorem Keeps.held_of_inside (hk : S.Keeps Q c h p j) {room : RoomId}
    (hp : S.inside p = some room) :
    ∃ t ∈ j.held, h.For t room := by
  cases j with
  | running q held =>
    obtain ⟨rooms, rfl, hr, hw, -⟩ := hk
    obtain ⟨t, ht⟩ := hw room hp
    exact ⟨t, List.mem_map_of_mem ht, hr _ ht⟩
  | waiting u next held =>
    obtain ⟨r, rooms, -, rfl, hr, hw, -⟩ := hk
    obtain ⟨t, ht⟩ := hw room hp
    exact ⟨t, List.mem_map_of_mem ht, hr _ ht⟩
  | finished a =>
    rw [hk.2] at hp
    cases hp
  | dropped =>
    rw [show p = S.rest from hk, S.inside_rest] at hp
    cases hp

theorem Tells.of_lt (ht : S.Tells Q s st) {i : ℕ} (hi : i < s.jobs.length) :
    ∃ c j, s.jobs[i]? = some (c, j) ∧ S.Keeps Q c s.world.holds (st.point i) j :=
  ⟨_, _, List.getElem?_eq_getElem hi, ht.keeps i _ _ (List.getElem?_eq_getElem hi)⟩

theorem Tells.lt_of_inside (ht : S.Tells Q s st) {i : ℕ} {room : RoomId}
    (hi : S.inside (st.point i) = some room) : i < s.jobs.length := by
  refine Nat.lt_of_not_le fun hle => ?_
  rw [ht.off i hle, S.inside_rest] at hi
  cases hi

theorem Tells.exclusive (ht : S.Tells Q s st) : S.Exclusive st.point := by
  intro i k room hne hi hk
  obtain ⟨c, j, hj, hkeep⟩ := ht.of_lt (ht.lt_of_inside hi)
  obtain ⟨d, l, hl, hkeep'⟩ := ht.of_lt (ht.lt_of_inside hk)
  obtain ⟨t, htj, htfor⟩ := hkeep.held_of_inside hi
  obtain ⟨u, hul, hufor⟩ := hkeep'.held_of_inside hk
  -- both tickets have been let in to the room, so they are one, but no two calls share a ticket
  have htu : t = u := ht.sound.granted_unique (ht.granted i c j hj t htj)
    (ht.granted k d l hl u hul) htfor hufor
  have hnot := ht.apart i k c d j l hne hj hl t (Job.held_subset_tickets htj)
  exact hnot (htu ▸ Job.held_subset_tickets hul)

theorem getElem?_set_cases {jobs : List (κ × Job α)} {i k : ℕ} {x y : κ × Job α}
    (h : (jobs.set i x)[k]? = some y) : k = i ∧ y = x ∨ k ≠ i ∧ jobs[k]? = some y := by
  rw [List.getElem?_set] at h
  split at h
  next hik =>
    split at h
    next => exact .inl ⟨hik.symm, (Option.some.inj h).symm⟩
    next => cases h
  next hik => exact .inr ⟨fun hk => hik hk.symm, h⟩

theorem map_fst_set {jobs : List (κ × Job α)} {i : ℕ} (hj : jobs[i]? = some (c, j)) (j' : Job α) :
    (jobs.set i (c, j')).map Prod.fst = jobs.map Prod.fst := by
  refine List.ext_getElem? fun k => ?_
  rw [List.getElem?_map, List.getElem?_map, List.getElem?_set]
  split
  next hik =>
    subst hik
    rw [hj, if_pos (List.getElem?_eq_some_iff.mp hj).1]
    rfl
  next => rfl

theorem getElem?_concat_cases {jobs : List (κ × Job α)} {k : ℕ} {x y : κ × Job α}
    (h : (jobs ++ [x])[k]? = some y) : jobs[k]? = some y ∨ k = jobs.length ∧ y = x := by
  rw [List.getElem?_append] at h
  split at h
  next => exact .inl h
  next hle =>
    have hk : k - jobs.length = 0 := by
      by_contra hne
      rw [List.getElem?_eq_none (by simpa using Nat.one_le_iff_ne_zero.mpr hne)] at h
      cases h
    rw [hk] at h
    exact .inr ⟨by omega, (Option.some.inj h).symm⟩

/-- One call goes on, and the world with it. The holds may change for its own tickets only, and new
tickets are ones that nobody had. -/
theorem Tells.replace (ht : S.Tells Q s st) {i : ℕ} {j' : Job α} {w' : World} {p' : σ}
    (hj : s.jobs[i]? = some (c, j)) (hw : w'.Undisturbed) (hs : w'.holds.Sound)
    (hfor : ∀ t, t ∉ j.tickets → ∀ room, s.world.holds.For t room → w'.holds.For t room)
    (hgranted : ∀ t, t ∉ j.tickets → s.world.holds.granted t = true → w'.holds.granted t = true)
    (hnew : ∀ t ∈ j'.tickets, t ∈ j.tickets ∨ ∀ room, ¬ s.world.holds.For t room)
    (hvis : ∀ v ∈ w'.holds.visitors, v.ticket ∈ j'.tickets ∨
      v ∈ s.world.holds.visitors ∧ v.ticket ∉ j.tickets)
    (hheld : ∀ t ∈ j'.held, w'.holds.granted t = true) (hk : S.Keeps Q c w'.holds p' j') :
    S.Tells Q (⟨w', s.jobs.set i (c, j')⟩ : Scene code)
      ⟨w'.stock, st.calls, Function.update st.point i p'⟩ where
  stock := rfl
  calls := by
    rw [map_fst_set hj]
    exact ht.calls
  undisturbed := hw
  sound := hs
  granted := by
    intro k d l hl t htl
    rcases getElem?_set_cases hl with ⟨-, hx⟩ | ⟨hki, hl'⟩
    · obtain ⟨-, rfl⟩ := Prod.mk.inj hx
      exact hheld t htl
    · have hnot := ht.apart k i d c l j hki hl' hj t (Job.held_subset_tickets htl)
      exact hgranted t hnot (ht.granted k d l hl' t htl)
  apart := by
    -- a ticket of the call that goes on is an old one of its own, or one that the other cannot have
    have hothers : ∀ (k : ℕ) (d : κ) (l : Job α), k ≠ i → s.jobs[k]? = some (d, l) →
        ∀ t ∈ l.tickets, t ∉ j'.tickets := by
      intro k d l hki hl t htl htj
      rcases hnew t htj with htj | hno
      · exact ht.apart k i d c l j hki hl hj t htl htj
      · obtain ⟨room, hroom⟩ := (ht.keeps k d l hl).known htl
        exact hno room hroom
    intro k m d e l n hkm hl hn t htl htn
    rcases getElem?_set_cases hl with ⟨hki, hx⟩ | ⟨hki, hl'⟩
    · obtain ⟨-, rfl⟩ := Prod.mk.inj hx
      rcases getElem?_set_cases hn with ⟨hmi, -⟩ | ⟨hmi, hn'⟩
      · exact hkm (hki.trans hmi.symm)
      · exact hothers m e n hmi hn' t htn htl
    · rcases getElem?_set_cases hn with ⟨hmi, hx⟩ | ⟨hmi, hn'⟩
      · obtain ⟨-, rfl⟩ := Prod.mk.inj hx
        exact hothers k d l hki hl' t htl htn
      · exact ht.apart k m d e l n hkm hl' hn' t htl htn
  attended := by
    intro v hv
    have hlt : i < s.jobs.length := (List.getElem?_eq_some_iff.mp hj).1
    rcases hvis v hv with hv | ⟨hv, hnot⟩
    · exact ⟨i, c, j', List.getElem?_set_self hlt, hv⟩
    · obtain ⟨k, d, l, hl, hvl⟩ := ht.attended v hv
      have hki : i ≠ k := by
        rintro rfl
        obtain ⟨-, rfl⟩ := Prod.mk.inj (Option.some.inj (hj.symm.trans hl))
        exact hnot hvl
      refine ⟨k, d, l, ?_, hvl⟩
      rwa [List.getElem?_set_ne hki]
  keeps := by
    intro k d l hl
    change S.Keeps Q d w'.holds (Function.update st.point i p' k) l
    rcases getElem?_set_cases hl with ⟨rfl, hx⟩ | ⟨hki, hl'⟩
    · obtain ⟨rfl, rfl⟩ := Prod.mk.inj hx
      rwa [Function.update_self]
    · have hkeep := ht.keeps k d l hl'
      rw [Function.update_of_ne hki]
      refine hkeep.of_holds fun t htl room hroom => ?_
      exact hfor t (ht.apart k i d c l j hki hl' hj t htl) room hroom
  off := by
    intro k hle
    have hlt : i < s.jobs.length := (List.getElem?_eq_some_iff.mp hj).1
    rw [List.length_set] at hle
    change Function.update st.point i p' k = S.rest
    rw [Function.update_of_ne (by omega)]
    exact ht.off k hle

/-- A call goes on while the holds stay as they are. -/
theorem Tells.replace_of_holds (ht : S.Tells Q s st) {i : ℕ} {j' : Job α} {w' : World} {p' : σ}
    (hj : s.jobs[i]? = some (c, j)) (hw : w'.Undisturbed) (hh : w'.holds = s.world.holds)
    (hsame : ∀ t, t ∈ j'.tickets ↔ t ∈ j.tickets)
    (hheld : ∀ t ∈ j'.held, s.world.holds.granted t = true)
    (hk : S.Keeps Q c s.world.holds p' j') :
    S.Tells Q (⟨w', s.jobs.set i (c, j')⟩ : Scene code)
      ⟨w'.stock, st.calls, Function.update st.point i p'⟩ := by
  refine ht.replace hj hw (hh ▸ ht.sound) ?_ ?_ ?_ ?_ ?_ (hh ▸ hk)
  · intro t _ room hroom
    rwa [hh]
  · intro t _ hgr
    rwa [hh]
  · intro t htj
    exact .inl ((hsame t).mp htj)
  · intro v hv
    rw [hh] at hv
    by_cases hvj : v.ticket ∈ j.tickets
    · exact .inl ((hsame _).mpr hvj)
    · exact .inr ⟨hv, hvj⟩
  · intro t htj
    rw [hh]
    exact hheld t htj

theorem Tells.same (ht : S.Tells Q s st) (i : ℕ) :
    (⟨s.world.stock, st.calls, Function.update st.point i (st.point i)⟩ : Stage κ σ) = st := by
  rw [Function.update_eq_self, ← ht.stock]

theorem Tells.next_of_step (ht : S.Tells Q s st) {i : ℕ} {b : Stock} {p' : σ}
    (hj : s.jobs[i]? = some (c, j)) (hs : S.Step (st.point i) s.world.stock p' b) :
    S.Next first (.advance i) st ⟨b, st.calls, Function.update st.point i p'⟩ := by
  rcases hs with hm | ⟨rfl, rfl⟩
  · have hlt : i < st.calls.length := by
      rw [ht.calls, List.length_map]
      exact (List.getElem?_eq_some_iff.mp hj).1
    exact .move hlt (ht.stock ▸ hm)
  · rw [ht.same i]
    exact .idle _

/-- An event that leaves the call, the world and the point as they are. -/
theorem Tells.idle (ht : S.Tells Q s st) {i : ℕ} (e : Event κ) (hj : s.jobs[i]? = some (c, j)) :
    ∃ st', S.Next first e st st' ∧
      S.Tells Q (⟨s.world, s.jobs.set i (c, j)⟩ : Scene code) st' := by
  have h := ht.replace_of_holds hj ht.undisturbed rfl (fun _ => Iff.rfl) (ht.granted i c j hj)
    (ht.keeps i c j hj)
  rw [ht.same i] at h
  exact ⟨st, .idle e, h⟩

/-- A call that waits is let in once it is granted the room. -/
theorem Tells.letIn (ht : S.Tells Q s st) {i : ℕ} {t : Ticket} {next : Ticket → Process α}
    {held : List Ticket} (hj : s.jobs[i]? = some (c, .waiting t next held))
    (hg : s.world.holds.granted t = true) :
    ∃ st', S.Next first (.advance i) st st' ∧
      S.Tells Q (⟨s.world, s.jobs.set i (c, .running (next t) (t :: held))⟩ : Scene code) st' := by
  obtain ⟨room, rooms, hroom, rfl, hr, hw, hf⟩ := ht.keeps i c _ hj
  obtain ⟨p', hs, hin, hn⟩ := hf t
  refine ⟨_, ht.next_of_step hj (hs _), ?_⟩
  refine ht.replace_of_holds hj ht.undisturbed rfl (fun _ => Iff.rfl) ?_ ?_
  · intro u hu
    rcases List.mem_cons.mp hu with rfl | hu
    · exact hg
    · exact ht.granted i c _ hj u hu
  · refine ⟨(t, room) :: rooms, rfl, ?_, hin hw, hn⟩
    intro x hx
    rcases List.mem_cons.mp hx with rfl | hx
    · exact hroom
    · exact hr x hx

/-- A call that has nothing left to do holds no room, and has come to its end. -/
theorem Tells.finish (ht : S.Tells Q s st) {i : ℕ} {a : α} {held : List Ticket}
    (hj : s.jobs[i]? = some (c, .running (.done a) held)) :
    ∃ st', S.Next first (.advance i) st st' ∧
      S.Tells Q (⟨s.world, s.jobs.set i (c, .finished a)⟩ : Scene code) st' := by
  obtain ⟨rooms, rfl, -, hw, rfl, hq⟩ := ht.keeps i c _ hj
  -- nothing is held any more, so the call is at no point inside a room
  have hout : S.inside (st.point i) = none := by
    cases hin : S.inside (st.point i) with
    | none => rfl
    | some room =>
      obtain ⟨t, htm⟩ := hw room hin
      cases htm
  have h : S.Tells Q (⟨s.world, s.jobs.set i (c, .finished a)⟩ : Scene code)
      ⟨s.world.stock, st.calls, Function.update st.point i (st.point i)⟩ :=
    ht.replace_of_holds hj ht.undisturbed rfl (fun _ => Iff.rfl)
      (fun _ hu => absurd hu List.not_mem_nil) ⟨hq, hout⟩
  rw [ht.same i] at h
  exact ⟨st, .idle _, h⟩

/-- A call lines up for a room, with a ticket that nobody has had. -/
theorem Tells.lineUp (ht : S.Tells Q s st) {i : ℕ} {room : RoomId} {next : Ticket → Process α}
    {held : List Ticket} (hj : s.jobs[i]? = some (c, .running (.enter room next) held)) :
    ∃ st', S.Next first (.advance i) st st' ∧ S.Tells Q
      (⟨{ s.world with holds := (s.world.holds.request room).2 },
        s.jobs.set i (c, .waiting (s.world.holds.request room).1 next held)⟩ : Scene code) st' := by
  obtain ⟨rooms, rfl, hr, hw, hf⟩ := ht.keeps i c _ hj
  have hw' : { s.world with holds := (s.world.holds.request room).2 }.Undisturbed :=
    ht.undisturbed
  refine ⟨_, ht.next_of_step hj (.stay S (st.point i) _), ?_⟩
  refine ht.replace hj hw' (ht.sound.request room) ?_ ?_ ?_ ?_ ?_ ?_
  · intro t _ r hfor
    exact hfor.request
  · intro t _ hg
    exact Holds.granted_request hg room
  · intro t htm
    rcases List.mem_cons.mp htm with rfl | htm
    · exact .inr (ht.sound.not_for_request_ticket room)
    · exact .inl htm
  · intro v hv
    obtain ⟨g, hvis, -⟩ := Holds.request_visitors (h := s.world.holds) room
    change v ∈ (s.world.holds.request room).2.visitors at hv
    rw [hvis] at hv
    rcases List.mem_append.mp hv with hv | hv
    · by_cases hvj : v.ticket ∈ rooms.map Prod.fst
      · exact .inl (List.mem_cons_of_mem _ hvj)
      · exact .inr ⟨hv, hvj⟩
    · -- the newcomer is the call itself
      rw [List.mem_singleton.mp hv]
      refine .inl (List.mem_cons.mpr (.inl ?_))
      exact (Holds.request_ticket room).symm
  · intro t htm
    exact Holds.granted_request (ht.granted i c _ hj t htm) room
  · exact ⟨room, rooms, ht.sound.for_request_ticket room, rfl, fun x hx => (hr x hx).request,
      hw, hf⟩

/-- A call lets go of a room, with a ticket of its own. -/
theorem Tells.letGo (ht : S.Tells Q s st) {i : ℕ} {t : Ticket} {next : Unit → Process α}
    {held : List Ticket} (hj : s.jobs[i]? = some (c, .running (.act (.leave t) next) held)) :
    ∃ st', S.Next first (.advance i) st st' ∧ S.Tells Q
      (⟨(s.world.perform (.leave t)).2,
        s.jobs.set i (c, .running (next ()) (Job.keep held (.leave t)))⟩ : Scene code) st' := by
  have hgranted := ht.granted i c _ hj
  obtain ⟨rooms, rfl, hr, hw, hfair, hall⟩ := ht.keeps i c _ hj
  obtain ⟨p', hs, hin, hn⟩ := hall s.world ht.undisturbed
  refine ⟨_, ht.next_of_step hj hs, ?_⟩
  -- the ticket is held by the call, so it is none of the others'
  refine ht.replace hj (ht.undisturbed.perform (.leave t)) (ht.sound.leave t) ?_ ?_ ?_ ?_ ?_ ?_
  · intro u hu r hfor
    exact hfor.leave fun h => hu (h ▸ hfair)
  · intro u hu hg
    exact Holds.granted_leave hg fun h => hu (h ▸ hfair)
  · intro u hu
    exact .inl (List.mem_of_mem_filter hu)
  · intro v hv
    obtain ⟨hv, hvt⟩ := Holds.mem_leave.mp hv
    by_cases hvj : v.ticket ∈ rooms.map Prod.fst
    · exact .inl (List.mem_filter.mpr ⟨hvj, by simpa using hvt⟩)
    · exact .inr ⟨hv, hvj⟩
  · intro u hu
    obtain ⟨hum, hut⟩ := List.mem_filter.mp hu
    exact Holds.granted_leave (hgranted u hum) (by simpa using hut)
  · refine ⟨keep rooms (.leave t), ?_, ?_, hin hw, hn⟩
    · change (rooms.filter (·.1 ≠ t)).map Prod.fst = (rooms.map Prod.fst).filter (· ≠ t)
      rw [List.filter_map]
      rfl
    · intro y hy
      obtain ⟨hym, hyt⟩ := List.mem_filter.mp hy
      exact (hr y hym).leave (by simpa using hyt)

/-- Any other action leaves the holds as they are. -/
theorem Tells.perform (ht : S.Tells Q s st) {i : ℕ} {x : Action} {next : x.Answer → Process α}
    {held : List Ticket} (hj : s.jobs[i]? = some (c, .running (.act x next) held))
    (hx : ∀ t, x ≠ .leave t) :
    ∃ st', S.Next first (.advance i) st st' ∧ S.Tells Q
      (⟨(s.world.perform x).2,
        s.jobs.set i (c, .running (next (s.world.perform x).1) (Job.keep held x))⟩ :
          Scene code) st' := by
  have hheld : Job.keep held x = held := by
    cases x with
    | leave t => exact absurd rfl (hx t)
    | _ => rfl
  rw [hheld]
  have hgranted := ht.granted i c _ hj
  obtain ⟨rooms, rfl, hr, hw, -, hall⟩ := ht.keeps i c _ hj
  obtain ⟨p', hs, hin, hn⟩ := hall s.world ht.undisturbed
  have hkeep : keep rooms x = rooms := by
    cases x with
    | leave t => exact absurd rfl (hx t)
    | _ => rfl
  rw [hkeep] at hin hn
  refine ⟨_, ht.next_of_step hj hs, ?_⟩
  exact ht.replace_of_holds hj (ht.undisturbed.perform x) (World.perform_holds hx)
    (fun _ => Iff.rfl) hgranted ⟨rooms, rfl, hr, hin hw, hn⟩

/-- One atomic action of one call. -/
theorem Tells.advance (ht : S.Tells Q s st) {i : ℕ} (hj : s.jobs[i]? = some (c, j)) :
    ∃ st', S.Next first (.advance i) st st' ∧ S.Tells Q
      (⟨(j.advance s.world).2, s.jobs.set i (c, (j.advance s.world).1)⟩ : Scene code) st' := by
  cases j with
  | finished a => exact ht.idle _ hj
  | dropped => exact ht.idle _ hj
  | waiting t next held =>
    simp only [Job.advance]
    split
    next hg => exact ht.letIn hj hg
    next => exact ht.idle _ hj
  | running p held =>
    cases p with
    | done a => exact ht.finish hj
    | enter room next => exact ht.lineUp hj
    | act x next =>
      by_cases hx : ∃ t, x = .leave t
      · obtain ⟨t, rfl⟩ := hx
        exact ht.letGo hj
      · exact ht.perform hj fun t h => hx ⟨t, h⟩

/-- A call that is given up is at rest. -/
theorem Tells.drop (ht : S.Tells Q s st) {i : ℕ} (hj : s.jobs[i]? = some (c, j)) :
    ∃ st', S.Next first (.drop i) st st' ∧ S.Tells Q
      (⟨(j.drop s.world).2, s.jobs.set i (c, (j.drop s.world).1)⟩ : Scene code) st' := by
  have hlt : i < st.calls.length := by
    rw [ht.calls, List.length_map]
    exact (List.getElem?_eq_some_iff.mp hj).1
  have hdrop : S.Next first (.drop i) st
      ⟨s.world.stock, st.calls, Function.update st.point i S.rest⟩ := by
    rw [← ht.stock]
    exact .drop hlt
  cases j with
  | finished a => exact ht.idle _ hj
  | dropped => exact ht.idle _ hj
  | running p held =>
    -- it lets go of what it holds
    have hw' : (Job.letGo held s.world).Undisturbed := ht.undisturbed
    refine ⟨_, hdrop, ht.replace hj hw' (ht.sound.leaveAll held) ?_ ?_ nofun ?_ nofun rfl⟩
    · intro t hnot room hfor
      exact hfor.leaveAll hnot
    · intro t hnot hg
      exact Holds.granted_leaveAll hg hnot
    · intro v hv
      exact .inr (Holds.mem_leaveAll.mp hv)
  | waiting u next held =>
    -- it leaves the line in which it stands as well
    have hw' : (Job.letGo held { s.world with holds := s.world.holds.withdraw u }).Undisturbed :=
      ht.undisturbed
    refine ⟨_, hdrop, ht.replace hj hw' ((ht.sound.withdraw u).leaveAll held) ?_ ?_ nofun ?_ nofun
      rfl⟩
    · intro t hnot room hfor
      obtain ⟨hne, hnot⟩ := not_or.mp (List.mem_cons.not.mp hnot)
      exact (hfor.withdraw hne).leaveAll hnot
    · intro t hnot hg
      obtain ⟨hne, hnot⟩ := not_or.mp (List.mem_cons.not.mp hnot)
      exact Holds.granted_leaveAll (Holds.granted_withdraw hg hne) hnot
    · intro v hv
      obtain ⟨hv, hnot⟩ := Holds.mem_leaveAll.mp hv
      obtain ⟨hv, hne⟩ := Holds.mem_withdraw.mp hv
      exact .inr ⟨hv, List.mem_cons.not.mpr (not_or.mpr ⟨hne, hnot⟩)⟩

/-- A call begins at the first point of its script. -/
theorem Tells.start (ht : S.Tells Q s st) (hrun : S.Runs [] (Q c) (first c) (code c))
    (hout : S.inside (first c) = none) :
    S.Tells Q (s.step (.start c))
      ⟨st.stock, st.calls ++ [c], Function.update st.point st.calls.length (first c)⟩ := by
  have hlen : st.calls.length = s.jobs.length := by
    rw [ht.calls, List.length_map]
  refine ⟨ht.stock, ?_, ht.undisturbed, ht.sound, ?_, ?_, ?_, ?_, ?_⟩
  · change st.calls ++ [c] = List.map Prod.fst (s.jobs ++ [(c, Job.running (code c) [])])
    rw [ht.calls, List.map_append]
    rfl
  · intro k d l hl t htl
    rcases getElem?_concat_cases hl with hl | ⟨-, hx⟩
    · exact ht.granted k d l hl t htl
    · cases hx
      cases htl
  · -- a call that begins has no tickets yet
    intro k m d e l n hkm hl hn t htl htn
    rcases getElem?_concat_cases hl with hl | ⟨-, hx⟩
    · rcases getElem?_concat_cases hn with hn | ⟨-, hx⟩
      · exact ht.apart k m d e l n hkm hl hn t htl htn
      · cases hx
        cases htn
    · cases hx
      cases htl
  · intro v hv
    obtain ⟨k, d, l, hl, hvl⟩ := ht.attended v hv
    refine ⟨k, d, l, ?_, hvl⟩
    change (s.jobs ++ [(c, Job.running (code c) [])])[k]? = some (d, l)
    rwa [List.getElem?_append_left (List.getElem?_eq_some_iff.mp hl).1]
  · intro k d l hl
    change S.Keeps Q d s.world.holds (Function.update st.point st.calls.length (first c) k) l
    rw [hlen]
    rcases getElem?_concat_cases hl with hl | ⟨rfl, hx⟩
    · have hlt : k < s.jobs.length := (List.getElem?_eq_some_iff.mp hl).1
      rw [Function.update_of_ne (by omega)]
      exact ht.keeps k d l hl
    · obtain ⟨rfl, rfl⟩ := Prod.mk.inj hx
      rw [Function.update_self]
      exact ⟨[], rfl, nofun, S.within_of_outside hout [], hrun⟩
  · intro k hle
    change (s.jobs ++ [(c, Job.running (code c) [])]).length ≤ k at hle
    rw [List.length_append, List.length_singleton] at hle
    change Function.update st.point st.calls.length (first c) k = S.rest
    rw [hlen, Function.update_of_ne (by omega)]
    exact ht.off k (by omega)

/-- Every event takes a stage to a stage, by one move of the script at most. -/
theorem Tells.step (hrun : ∀ c, S.Runs [] (Q c) (first c) (code c))
    (hout : ∀ c, S.inside (first c) = none) (ht : S.Tells Q s st) (e : Event κ) :
    ∃ st', S.Next first e st st' ∧ S.Tells Q (s.step e) st' := by
  cases e with
  | start c => exact ⟨_, .start c, ht.start (hrun c) (hout c)⟩
  | turn t =>
    refine ⟨⟨st.stock.turn t, st.calls, st.point⟩, .turn t, ?_⟩
    -- whatever turns outside, nobody comes to a room or leaves it
    have hholds : (s.world.turn t).holds = s.world.holds := by cases t <;> rfl
    refine ⟨?_, ht.calls, ht.undisturbed.turn t, ?_, ?_, ht.apart, ?_, ?_, ht.off⟩
    · exact (congrArg (Stock.turn · t) ht.stock).trans (s.world.stock_turn t).symm
    · exact hholds ▸ ht.sound
    · intro i c j hj u hu
      exact hholds ▸ ht.granted i c j hj u hu
    · intro v hv
      exact ht.attended v (hholds ▸ hv)
    · intro i c j hj
      exact hholds ▸ ht.keeps i c j hj
  | advance i =>
    simp only [Scene.step, Scene.update]
    cases hj : s.jobs[i]? with
    | none => exact ⟨st, .idle _, ht⟩
    | some x => exact ht.advance hj
  | drop i =>
    simp only [Scene.step, Scene.update]
    cases hj : s.jobs[i]? with
    | none => exact ⟨st, .idle _, ht⟩
    | some x => exact ht.drop hj

/-- Nobody is in a room, or waits for one, when no call is under way. -/
theorem Tells.visitors_of_quiet (ht : S.Tells Q s st) (hq : s.Quiet) :
    s.world.holds.visitors = [] := by
  refine List.eq_nil_iff_forall_not_mem.mpr fun v hv => ?_
  obtain ⟨i, c, j, hj, hvj⟩ := ht.attended v hv
  have hdown : j.underWay = false := hq _ (List.mem_of_getElem? hj)
  cases j with
  | running p held => cases hdown
  | waiting t next held => cases hdown
  | finished a => cases hvj
  | dropped => cases hvj

theorem tells_opening {w : World} (hw : w.Undisturbed) (hs : w.holds.Sound)
    (hv : w.holds.visitors = []) :
    S.Tells Q (Scene.opening code w) ⟨w.stock, [], fun _ => S.rest⟩ := by
  refine ⟨rfl, rfl, hw, hs, nofun, nofun, fun v hmem => ?_, nofun, fun _ _ => rfl⟩
  rw [show (Scene.opening code w).world.holds.visitors = [] from hv] at hmem
  cases hmem

/-- What every event preserves, of the events so far and the stage that they led to, holds after
every run. -/
theorem exists_stage_of_run (hrun : ∀ c, S.Runs [] (Q c) (first c) (code c))
    (hout : ∀ c, S.inside (first c) = none) (P : List (Event κ) → Stage κ σ → Prop)
    (ht : S.Tells Q s st) (h0 : P [] st)
    (hstep : ∀ es e st st', S.Tells Q (s.run es) st → P es st → S.Next first e st st' →
      S.Tells Q (s.run (es ++ [e])) st' → P (es ++ [e]) st') (es : List (Event κ)) :
    ∃ st, S.Tells Q (s.run es) st ∧ P es st := by
  -- an event is judged by those before it, so the induction takes off the last one
  induction es using List.reverseRecOn with
  | nil => exact ⟨st, ht, h0⟩
  | append_singleton es e ih =>
    obtain ⟨st₁, ht₁, hp₁⟩ := ih
    obtain ⟨st₂, hnext, ht₂⟩ := ht₁.step hrun hout e
    rw [← Scene.run_concat] at ht₂
    exact ⟨st₂, ht₂, hstep es e st₁ st₂ ht₁ hp₁ hnext ht₂⟩

end Script

end Lodging
