import Lodging.Proofs.Keeper.Ranking
import Lodging.Proofs.Service.Watching
import Lodging.Proofs.Traffic.Pace

/-!
What the keeper does in a search for free rooms: one look at the rooms in service and then one at
the locks of each of them. The rooms that are found are those of which no locks were seen.
-/

namespace Lodging

namespace Process

variable {α : Type} {p q : Process α} {ds : List Deed} {rooms n : ℕ} {held last : Option Ticket}

/-- Whoever only watches does nothing else, and never lines up for a room. -/
theorem Watches.of_mem (hp : p.Watches) (h : p.Leads ds q) {d : Deed} (hd : d ∈ ds) :
    ∃ x a, d = .did x a ∧ x.Watching := by
  induction h with
  | stay p => cases hd
  | did h ih =>
    rcases List.mem_cons.mp hd with rfl | hd
    · exact ⟨_, _, rfl, hp.1⟩
    · exact ih (hp.2 _) hd
  | linedUp h ih => cases hp

/-- As many things are done as there are strides at most. -/
theorem Paced.length_le (hp : p.Paced rooms n held last) (h : p.Leads ds q)
    (hds : ∀ x a, .did x a ∈ ds → x.Allows rooms a) : ds.length ≤ n := by
  induction h generalizing n held with
  | stay p => exact Nat.zero_le n
  | did h ih =>
    obtain ⟨-, m, rfl, hnext⟩ := hp
    have hle := ih (hnext _ (hds _ _ List.mem_cons_self))
      fun x a hmem => hds x a (List.mem_cons_of_mem _ hmem)
    exact Nat.succ_le_succ hle
  | linedUp h ih =>
    obtain ⟨-, m, rfl, hnext⟩ := hp
    have hle := ih (hnext _) fun x a hmem => hds x a (List.mem_cons_of_mem _ hmem)
    rw [List.length_cons]
    omega

end Process

namespace Keeper

open Process (Leads)

variable {stay : Stay} {rooms found : List Room} {ds : List Deed} {r : Room}

/-- The look at the locks of a room. -/
def look (stay : Stay) (r : Room) (locks : List Lock) : Deed :=
  .did (.rooms (.overlapping r.id stay)) (.ok locks)

/-- The looks at some rooms, one after the other, and the rooms that are found free by them. -/
inductive Scanned (stay : Stay) : List Room → List Deed → List Room → Prop
  | nil : Scanned stay [] [] []
  | free {r : Room} {rest found : List Room} {ds : List Deed} (h : Scanned stay rest ds found) :
    Scanned stay (r :: rest) (look stay r [] :: ds) (r :: found)
  | taken {r : Room} {rest found : List Room} {ds : List Deed} (l : Lock) (locks : List Lock)
    (h : Scanned stay rest ds found) :
    Scanned stay (r :: rest) (look stay r (l :: locks) :: ds) found

theorem Scanned.sublist (h : Scanned stay rooms ds found) : found.Sublist rooms := by
  induction h with
  | nil => exact .slnil
  | free h ih => exact ih.cons_cons _
  | taken l locks h ih => exact ih.cons _

theorem Scanned.of_found (h : Scanned stay rooms ds found) (hr : r ∈ found) :
    look stay r [] ∈ ds := by
  induction h with
  | nil => cases hr
  | free h ih =>
    rcases List.mem_cons.mp hr with rfl | hr
    · exact List.mem_cons_self
    · exact List.mem_cons_of_mem _ (ih hr)
  | taken l locks h ih => exact List.mem_cons_of_mem _ (ih hr)

theorem Scanned.of_not_found (h : Scanned stay rooms ds found) (hr : r ∈ rooms) (hno : r ∉ found) :
    ∃ locks, locks ≠ [] ∧ look stay r locks ∈ ds := by
  induction h with
  | nil => cases hr
  | free h ih =>
    rw [List.mem_cons, not_or] at hno
    obtain ⟨locks, hne, hmem⟩ := ih ((List.mem_cons.mp hr).resolve_left hno.1) hno.2
    exact ⟨locks, hne, List.mem_cons_of_mem _ hmem⟩
  | taken l locks h ih =>
    rcases List.mem_cons.mp hr with rfl | hr
    · exact ⟨l :: locks, nofun, List.mem_cons_self⟩
    · obtain ⟨locks', hne, hmem⟩ := ih hr hno
      exact ⟨locks', hne, List.mem_cons_of_mem _ hmem⟩

/-- All that the inventory was asked went well. -/
def Answered (ds : List Deed) : Prop :=
  ∀ (c : RoomCall) (a : c.Answer), .did (.rooms c) a ∈ ds → ∃ x, a = .ok x

theorem Answered.tail {d : Deed} (h : Answered (d :: ds)) : Answered ds :=
  fun c a hmem => h c a (List.mem_cons_of_mem _ hmem)

theorem Answered.left {es : List Deed} (h : Answered (ds ++ es)) : Answered ds :=
  fun c a hmem => h c a (List.mem_append_left es hmem)

/-- A question is asked, and its answer is what comes of it. -/
theorem leads_ask {c : RoomCall} {x : c.Answer} (h : Leads (ask c).run ds (.done x)) :
    ds = [.did (.rooms c) x] := by
  cases h with
  | did h =>
    obtain ⟨rfl, hx⟩ := h.of_done
    injection hx with hx
    rw [hx]

theorem leads_pure {α : Type} {a : α} {x : Except RoomFailure α}
    (h : Leads (pure a : Task α).run ds (.done x)) : ds = [] ∧ x = .ok a := by
  obtain ⟨hds, hx⟩ := h.of_done
  injection hx with hx
  exact ⟨hds, hx⟩

/-- Where a question is asked first, its answer is the first thing done. -/
theorem leads_ask_bind {α : Type} {c : RoomCall} {f : c.Value → Task α} {x : Except RoomFailure α}
    (h : Leads (ask c >>= f).run ds (.done x)) (hok : Answered ds) :
    ∃ a rest, ds = .did (.rooms c) (.ok a) :: rest ∧ Leads (f a).run rest (.done x) := by
  rcases Leads.of_task_bind_done h with ⟨e, -, hask⟩ | ⟨a, first, rest, rfl, hask, hrest⟩
  · rw [leads_ask hask] at hok
    obtain ⟨y, hy⟩ := hok _ _ List.mem_cons_self
    cases hy
  · rw [leads_ask hask]
    exact ⟨a, rest, rfl, hrest⟩

theorem scanned_of_free {x : Except RoomFailure (List Room)}
    (h : Leads (free stay rooms).run ds (.done x)) (hok : Answered ds) :
    ∃ found, x = .ok found ∧ Scanned stay rooms ds found := by
  induction rooms generalizing ds x with
  | nil =>
    obtain ⟨rfl, hx⟩ := leads_pure h
    exact ⟨[], hx, .nil⟩
  | cons r rest ih =>
    obtain ⟨locks, after, rfl, hrest⟩ := leads_ask_bind h hok
    have hok' : Answered after := hok.tail
    cases locks with
    | cons l locks =>
      obtain ⟨found, hx, hscan⟩ := ih hrest hok'
      exact ⟨found, hx, .taken l locks hscan⟩
    | nil =>
      rcases Leads.of_task_bind_done hrest with ⟨e, -, hfree⟩ | ⟨fs, ds', es, rfl, hfree, hend⟩
      · -- no part of the search fails
        obtain ⟨found, hx, -⟩ := ih hfree hok'
        cases hx
      · obtain ⟨found, hx, hscan⟩ := ih hfree hok'.left
        obtain ⟨rfl, rfl⟩ := leads_pure hend
        injection hx with hx
        rw [List.append_nil, hx]
        exact ⟨r :: found, rfl, .free hscan⟩

theorem scanned_of_available {x : Except RoomFailure (List RoomSummary)}
    (h : Leads (available stay).run ds (.done x)) (hok : Answered ds) :
    ∃ rooms found rest, ds = .did (.rooms .operationalRooms) (.ok rooms) :: rest ∧
      Scanned stay rooms rest found ∧ x = .ok (byId found) := by
  obtain ⟨rooms, rest, rfl, hrest⟩ := leads_ask_bind h hok
  have hok' : Answered rest := hok.tail
  rcases Leads.of_task_bind_done hrest with ⟨e, -, hfree⟩ | ⟨fs, ds', es, rfl, hfree, hend⟩
  · obtain ⟨found, hx, -⟩ := scanned_of_free hfree hok'
    cases hx
  · obtain ⟨found, hx, hscan⟩ := scanned_of_free hfree hok'.left
    obtain ⟨rfl, rfl⟩ := leads_pure hend
    injection hx with hx
    rw [List.append_nil, hx]
    exact ⟨rooms, found, ds', rfl, hscan, rfl⟩

theorem scanned_of_recommend {x : Except RoomFailure (List RoomSummary)}
    (h : Leads (recommend stay).run ds (.done x)) (hok : Answered ds) :
    ∃ rooms found rest, ds = .did (.rooms .operationalRooms) (.ok rooms) :: rest ∧
      Scanned stay rooms rest found ∧ x = .ok (ranked found) := by
  rcases Leads.of_task_bind_done h with ⟨e, -, havail⟩ | ⟨xs, ds', es, rfl, havail, hend⟩
  · obtain ⟨rooms, found, rest, -, -, hx⟩ := scanned_of_available havail hok
    cases hx
  · obtain ⟨rooms, found, rest, rfl, hscan, hx⟩ := scanned_of_available havail hok.left
    obtain ⟨rfl, rfl⟩ := leads_pure hend
    injection hx with hx
    rw [List.append_nil, hx]
    exact ⟨rooms, found, rest, rfl, hscan, rfl⟩

/-- The two calls that search, with the order in which each of them shows what it finds. -/
inductive Call.Searches (stay : Stay) : Call → (List Room → List RoomSummary) → Prop
  | available : Searches stay (.available stay) byId
  | recommend : Searches stay (.recommend stay) ranked

variable {c : Call} {arrange : List Room → List RoomSummary}

theorem scanned_of_call (hc : c.Searches stay arrange) {x : Reply}
    (h : Leads c.process ds (.done x)) (hok : Answered ds) :
    ∃ rooms found rest, ds = .did (.rooms .operationalRooms) (.ok rooms) :: rest ∧
      Scanned stay rooms rest found ∧ x = .rooms (.ok (arrange found)) := by
  cases hc with
  | available =>
    obtain ⟨y, hy, rfl⟩ := h.of_map_done
    obtain ⟨rooms, found, rest, hds, hscan, rfl⟩ := scanned_of_available hy hok
    exact ⟨rooms, found, rest, hds, hscan, rfl⟩
  | recommend =>
    obtain ⟨y, hy, rfl⟩ := h.of_map_done
    obtain ⟨rooms, found, rest, hds, hscan, rfl⟩ := scanned_of_recommend hy hok
    exact ⟨rooms, found, rest, hds, hscan, rfl⟩

theorem Call.Searches.watches (hc : c.Searches stay arrange) : c.process.Watches := by
  cases hc with
  | available => exact (watches_available stay).bind fun _ => trivial
  | recommend => exact (watches_recommend stay).bind fun _ => trivial

theorem Call.Searches.paced (hc : c.Searches stay arrange) (n : ℕ) :
    c.process.Paced n (n + 1) none none := by
  cases hc with
  | available => exact (paced_available stay).map
  | recommend => exact (paced_recommend stay).map

end Keeper

end Lodging
