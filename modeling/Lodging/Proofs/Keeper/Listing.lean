import Lodging.Proofs.Keeper.Overlap
import Lodging.Proofs.Keeper.Rooms
import Lodging.Proofs.Keeper.Scan
import Lodging.World.Sample

/-!
The search for free rooms while other calls go on. The looks of a search are at different times, so
what is found was true of each room at a time of its own. Rooms never go, so each of these looks is
at a room that is in service then.
-/

namespace Lodging

namespace Scene

variable {κ α : Type} {code : κ → Process α} {s : Scene code} {es : List (Event κ)} {i : ℕ}

/-- An inventory as it stood at some time while a call was under way. -/
def Meets (s : Scene code) (es : List (Event κ)) (i : ℕ) (v : Inventory) : Prop :=
  ∃ past, past <+: es ∧ (s.run past).world.inventory = v ∧
    ∃ c j, (s.run past).jobs[i]? = some (c, j) ∧ j.underWay = true

/-- What a call was answered is true of the inventory at a time when it was under way; till then it
had done what is told before. -/
theorem exists_answer (hw : ∀ past, (s.run past).world.Undisturbed) {c : RoomCall} {a : c.Answer}
    (h : .did (.rooms c) a ∈ Deed.doneBy i (s.journal es)) : ∃ past later, past <+: es ∧
      s.Meets es i (s.run past).world.inventory ∧
        a = ((s.run past).world.inventory.answer (s.run past).world.now c).1 ∧
          Deed.doneBy i (s.journal es) =
            Deed.doneBy i (s.journal past) ++ .did (.rooms c) a :: later := by
  obtain ⟨past, e, rest, rfl, hd, ha, -⟩ := exists_perform (Deed.mem_doneBy.mp h)
  have hpast : past <+: past ++ e :: rest := List.prefix_append ..
  refine ⟨past, Deed.doneBy i (((s.run past).step e).journal rest), hpast, ?_, ?_, ?_⟩
  · obtain ⟨-, d, j, hj, hdeed⟩ := of_mem_deeds (s := s.run past) (e := e) (hd ▸ List.mem_cons_self)
    refine ⟨past, hpast, rfl, d, j, hj, ?_⟩
    cases j with
    | running p held => rfl
    | waiting t next held => rfl
    | finished a => cases hdeed
    | dropped => cases hdeed
  · rw [ha]
    change ((s.run past).world.callRooms c).1 = _
    rw [(hw past).callRooms]
    rfl
  · have hcons : (s.run past).journal (e :: rest) =
        (s.run past).deeds e ++ ((s.run past).step e).journal rest := rfl
    rw [journal_append, hcons, hd, Deed.doneBy_append, Deed.doneBy_append]
    simp [Deed.doneBy]

/-- What a call has done since a time before it began has led it to where it stands. -/
theorem told_since {w : World} {before : List (Event κ)} {c : κ} {j : Job α}
    (hi : ((opening code w).run before).jobs.length ≤ i)
    (h : (((opening code w).run before).run es).jobs[i]? = some (c, j)) :
    j.Told (code c) (Deed.doneBy i (((opening code w).run before).journal es)) := by
  rw [← run_append] at h
  have htold := told w (before ++ es) h
  have hno : ∀ x ∈ (opening code w).journal before, x.1 ≠ i := fun x hx => by
    have hlt := lt_of_mem_journal hx
    omega
  rwa [journal_append, Deed.doneBy_append, Deed.doneBy_of_ne hno, List.nil_append] at htold

end Scene

/-- A call that only watches is aloof at any time. -/
theorem Scene.aloof_of_watches {κ α : Type} {code : κ → Process α} {w : World}
    {es : List (Event κ)} {i : ℕ} {c : κ} {j : Job α} (hc : (code c).Watches)
    (h : ((opening code w).run es).jobs[i]? = some (c, j)) : j.Aloof := by
  induction es using List.reverseRecOn generalizing j with
  | nil => cases h
  | append_singleton es e ih =>
    rw [run_concat] at h
    rcases step_jobs h with ⟨hj, -⟩ | ⟨k, hk, rfl, -⟩ | ⟨k, hk, rfl, -⟩ | ⟨-, rfl, -⟩
    · exact ih hj
    · exact ((ih hk).advance _).1
    · exact ((ih hk).drop _).1
    · exact ⟨hc, rfl⟩

/-- While only one call goes on, and it only watches, the world is spared. -/
theorem Scene.spared_of_advances {κ α : Type} {code : κ → Process α} {s : Scene code}
    {es : List (Event κ)} {i : ℕ} {c : κ} {j : Job α} (hj : s.jobs[i]? = some (c, j))
    (haloof : j.Aloof) (hes : ∀ e ∈ es, e = .advance i) : s.world.Spared (s.run es).world := by
  induction es generalizing s j with
  | nil => exact s.world.spared_refl
  | cons e rest ih =>
    obtain rfl := hes e List.mem_cons_self
    have hlt := (List.getElem?_eq_some_iff.mp hj).1
    obtain ⟨haloof', hspared⟩ := haloof.advance s.world
    have hstep : s.step (.advance i) =
        ⟨(j.advance s.world).2, s.jobs.set i (c, (j.advance s.world).1)⟩ := by
      simp only [step, update, hj]
    have hworld : s.world.Spared (s.step (.advance i)).world := hstep ▸ hspared
    have hj' : (s.step (.advance i)).jobs[i]? = some (c, (j.advance s.world).1) := by
      rw [hstep]
      exact List.getElem?_set_self hlt
    exact hworld.trans (ih hj' haloof' fun e he => hes e (List.mem_cons_of_mem _ he))

/-- A call that looks is answered. -/
theorem RoomCall.Looks.answer_ok {c : RoomCall} (hc : c.Looks) (now : Instant) (v : Inventory) :
    ∃ x, (v.answer now c).1 = .ok x := by
  cases c with
  | insertLock n => cases hc
  | _ => exact ⟨_, rfl⟩

namespace Keeper

/-- What a search shows, begun with one inventory, while these were met in the course of it: rooms
that were free at some time, none of them twice, and among them all that were free all the time.
They are shown as they were at one time. -/
structure Listing (stay : Stay) (start : Inventory) (met : Inventory → Prop)
    (xs : List RoomSummary) : Prop where
  nodup : (xs.map (·.id)).Nodup
  offered : ∀ x ∈ xs, ∃ v, met v ∧ v.Offers x.id stay
  complete : ∀ room, start.serves? room = some true →
    (∀ v, met v → v.overlapping room stay = []) → room ∈ xs.map (·.id)
  reported : ∃ v, met v ∧ ∀ x ∈ xs, ∃ r ∈ v.operational, r.summary = x

/-- What a search has found when it ends: it saw the rooms in service when so much of the events was
past, and of each of them the locks at some other time. -/
structure Gathers (stay : Stay) (s : Scene Call.process) (es : List (Event Call)) (i : ℕ)
    (past : List (Event Call)) (found : List Room) : Prop where
  prior : past <+: es
  meets : s.Meets es i (s.run past).world.inventory
  listed : found.Sublist (s.run past).world.inventory.operational
  free : ∀ r ∈ found, ∃ v, s.Meets es i v ∧ v.Offers r.id stay
  taken : ∀ r ∈ (s.run past).world.inventory.operational, r ∉ found →
    ∃ v, s.Meets es i v ∧ v.overlapping r.id stay ≠ []

variable {now : Instant} {before after : List (Event Call)} {c : Call} {stay : Stay}
  {arrange : List Room → List RoomSummary} {found : List Room} {x : RoomSummary}

theorem Call.Searches.perm (hc : c.Searches stay arrange) (found : List Room) :
    (arrange found).Perm (byId found) := by
  cases hc with
  | available => exact .refl _
  | recommend => exact ranked_perm found

theorem Call.Searches.mem (hc : c.Searches stay arrange) :
    x ∈ arrange found ↔ ∃ r ∈ found, r.summary = x :=
  (hc.perm found).mem_iff.trans mem_byId

/-- What a house has come to by calls to the keeper. -/
abbrev course (now : Instant) (es : List (Event Call)) : Scene Call.process :=
  (Scene.opening Call.process (.atTime now)).run es

theorem course_append (now : Instant) (es fs : List (Event Call)) :
    course now (es ++ fs) = (course now es).run fs :=
  Scene.run_append ..

theorem undisturbed_course (now : Instant) (es : List (Event Call)) :
    (course now es).world.Undisturbed := by
  obtain ⟨st, ht, -⟩ := exists_clear now es
  exact ht.undisturbed

theorem ascending_course (now : Instant) (es : List (Event Call)) :
    (course now es).world.inventory.Ascending :=
  ((Scene.opening Call.process (.atTime now)).extends_run es).ascending Inventory.ascending_empty

/-- All that a search asks is answered. -/
theorem Call.Searches.answered (hc : c.Searches stay arrange) {i : ℕ} {s : Scene Call.process}
    {es : List (Event Call)} {q : Process Reply} (hw : ∀ past, (s.run past).world.Undisturbed)
    (h : c.process.Leads (Deed.doneBy i (s.journal es)) q) :
    Answered (Deed.doneBy i (s.journal es)) := by
  intro d a hmem
  obtain ⟨x, b, heq, hx⟩ := hc.watches.of_mem h hmem
  injection heq with heq
  subst heq
  obtain ⟨past, -, -, -, ha, -⟩ := Scene.exists_answer hw hmem
  rw [ha]
  exact RoomCall.Looks.answer_ok hx _ _

/-- The search has looked at the rooms in service first, and then at the locks of each of them. -/
theorem exists_scan (hc : c.Searches stay arrange) {s : Scene Call.process} {i : ℕ}
    {es : List (Event Call)} {x : Reply} (hw : ∀ past, (s.run past).world.Undisturbed)
    (hasc : ∀ past, (s.run past).world.inventory.Ascending)
    (h : c.process.Leads (Deed.doneBy i (s.journal es)) (.done x)) :
    ∃ found past, x = .rooms (.ok (arrange found)) ∧ Gathers stay s es i past found := by
  obtain ⟨rooms, found, looks, hds, hscan, hx⟩ := scanned_of_call hc h (hc.answered hw h)
  have hlook : ∀ {r locks}, look stay r locks ∈ looks → ∃ past past', s.Meets es i
      (s.run past).world.inventory ∧ (s.run past).world.inventory.overlapping r.id stay = locks ∧
        past' <+: past ∧ rooms = (s.run past').world.inventory.operational := by
    intro r locks hmem
    obtain ⟨past, later, -, hmeets, ha, hpast⟩ :=
      Scene.exists_answer hw (hds ▸ List.mem_cons_of_mem _ hmem)
    injection ha with ha
    -- the look at the rooms in service comes first, so it is among what was done before this one
    have hfirst : .did (.rooms .operationalRooms) (.ok rooms) ∈
        Deed.doneBy i (s.journal past) := by
      rw [hds] at hpast
      cases hdone : Deed.doneBy i (s.journal past) with
      | nil =>
        rw [hdone] at hpast
        injection hpast with hfirst
        cases hfirst
      | cons d ds =>
        rw [hdone] at hpast
        injection hpast with hd
        rw [hd]
        exact List.mem_cons_self
    obtain ⟨past', -, hpast', -, ha', -⟩ := Scene.exists_answer hw hfirst
    injection ha' with ha'
    exact ⟨past, past', hmeets, ha.symm, hpast', ha'⟩
  obtain ⟨past, -, hpast, hmeets, ha, -⟩ := Scene.exists_answer hw (hds ▸ List.mem_cons_self)
  injection ha with ha
  change rooms = (s.run past).world.inventory.operational at ha
  subst ha
  refine ⟨found, past, hx, hpast, hmeets, hscan.sublist, fun r hr => ?_, fun r hr hno => ?_⟩
  · obtain ⟨seen, first, hmeets, hover, ⟨later, rfl⟩, hrooms⟩ := hlook (hscan.of_found hr)
    refine ⟨_, hmeets, ?_, hover⟩
    have hmem : r ∈ (s.run first).world.inventory.operational := hrooms ▸ hscan.sublist.subset hr
    rw [Scene.run_append]
    exact ((s.run first).extends_run later).serves? ((hasc first).serves?_of_mem hmem)
  · obtain ⟨locks, hne, hmem⟩ := hscan.of_not_found hr hno
    obtain ⟨seen, -, hmeets, hover, -, -⟩ := hlook hmem
    exact ⟨_, hmeets, hover ▸ hne⟩

/-- What a search shows, whichever rooms it has found and in whichever order it shows them. -/
theorem Gathers.listing {s : Scene Call.process} {i : ℕ} {es past : List (Event Call)}
    (h : Gathers stay s es i past found) (hc : c.Searches stay arrange)
    (hasc : (s.run past).world.inventory.Ascending) :
    Listing stay s.world.inventory (s.Meets es i) (arrange found) where
  nodup := by
    have hids : (byId found).Pairwise fun a b => a.id ≠ b.id :=
      (byId_ascending (hasc.operational.sublist h.listed)).imp fun hlt heq => by
        rw [heq] at hlt
        omega
    exact ((hc.perm found).map _).nodup_iff.mpr (List.pairwise_map.mpr hids)
  offered x hx := by
    obtain ⟨r, hr, rfl⟩ := hc.mem.mp hx
    exact h.free r hr
  complete room hroom hover := by
    -- it was in service at the look at the rooms too, and was found as no lock was ever seen
    obtain ⟨r, hr, rfl⟩ := Inventory.exists_operational ((s.extends_run past).serves? hroom)
    by_cases hmem : r ∈ found
    · exact List.mem_map.mpr ⟨r.summary, hc.mem.mpr ⟨r, hmem, rfl⟩, rfl⟩
    · obtain ⟨v, hv, hne⟩ := h.taken r hr hmem
      exact absurd (hover v hv) hne
  reported := by
    refine ⟨_, h.meets, fun x hx => ?_⟩
    obtain ⟨r, hr, rfl⟩ := hc.mem.mp hx
    exact ⟨r, h.listed.subset hr, rfl⟩

/-- While a search goes on alone, it meets the inventory that it began with. -/
theorem still_of_alone (hc : c.Searches stay arrange) {s : Scene Call.process}
    {past : List (Event Call)} (hpast : past <+: .start c :: after)
    (hafter : ∀ e ∈ after, e = .advance s.jobs.length) :
    s.world.Spared (s.run past).world := by
  rcases List.prefix_cons_iff.mp hpast with rfl | ⟨rest, rfl, hrest⟩
  · exact s.world.spared_refl
  · have hj : (s.step (.start c)).jobs[s.jobs.length]? = some (c, .running c.process []) :=
      List.getElem?_concat_length
    have haloof : (Job.running c.process []).Aloof := ⟨hc.watches, rfl⟩
    change (s.step (.start c)).world.Spared ((s.step (.start c)).run rest).world
    exact Scene.spared_of_advances hj haloof fun e he => hafter e (hrest.subset he)

theorem operational_of_spared {w v : World} (h : w.Spared v) :
    v.inventory.operational = w.inventory.operational := by
  unfold Inventory.operational
  rw [h.rooms]

theorem overlapping_of_spared {w v : World} (h : w.Spared v) (room : RoomId) (stay : Stay) :
    v.inventory.overlapping room stay = w.inventory.overlapping room stay := by
  unfold Inventory.overlapping
  rw [h.locks]

/-- Whenever a search that goes on alone looks, it sees the rooms and locks that there were. -/
theorem Gathers.mem_of_alone (hc : c.Searches stay arrange) {s : Scene Call.process}
    {past : List (Event Call)} (h : Gathers stay s (.start c :: after) s.jobs.length past found)
    (hafter : ∀ e ∈ after, e = .advance s.jobs.length) :
    x ∈ arrange found ↔ ∃ r ∈ s.world.inventory.operational,
      s.world.inventory.overlapping r.id stay = [] ∧ r.summary = x := by
  have hstill : ∀ v, s.Meets (.start c :: after) s.jobs.length v → ∀ room,
      v.overlapping room stay = s.world.inventory.overlapping room stay := by
    rintro v ⟨p, hp, rfl, -⟩ room
    exact overlapping_of_spared (still_of_alone hc hp hafter) room stay
  have hrooms : (s.run past).world.inventory.operational = s.world.inventory.operational :=
    operational_of_spared (still_of_alone hc h.prior hafter)
  rw [hc.mem]
  constructor
  · rintro ⟨r, hr, rfl⟩
    obtain ⟨v, hv, -, hover⟩ := h.free r hr
    exact ⟨r, hrooms ▸ h.listed.subset hr, hstill v hv r.id ▸ hover, rfl⟩
  · rintro ⟨r, hr, hover, rfl⟩
    by_cases hmem : r ∈ found
    · exact ⟨r, hmem, rfl⟩
    · obtain ⟨v, hv, hne⟩ := h.taken r (hrooms ▸ hr) hmem
      exact absurd ((hstill v hv r.id).trans hover) hne

/-- A search sees as many rooms at most as there are, and looks at each of them once. -/
theorem length_search_le (hc : c.Searches stay arrange) {es : List (Event Call)} {i : ℕ}
    {j : Job Reply} (hj : (course now es).jobs[i]? = some (c, j)) :
    (Deed.doneBy i ((Scene.opening Call.process (.atTime now)).journal es)).length ≤
      (course now es).world.inventory.rooms.length + 1 := by
  obtain ⟨q, hq⟩ := (Scene.told _ _ hj).leads
  refine (hc.paced _).length_le hq fun x a hmem => ?_
  unfold Action.Allows
  split
  next rs =>
    obtain ⟨past, -, ⟨later, rfl⟩, -, ha, -⟩ :=
      Scene.exists_answer (fun past => undisturbed_course now past) hmem
    injection ha with ha
    have hgrown := (course now past).extends_run later
    rw [← Scene.run_append] at hgrown
    calc rs.length ≤ (course now past).world.inventory.rooms.length :=
          ha ▸ List.length_filter_le ..
      _ ≤ _ := hgrown.length_rooms
  next => trivial

/-- A search that is not given up is done when it has gone on once for each room, and twice
more. -/
theorem exists_finished (hc : c.Searches stay arrange) {es : List (Event Call)} {i : ℕ}
    {j : Job Reply} (hj : (course now es).jobs[i]? = some (c, j)) (hkept : j.givenUp = false) :
    ∃ x, (course now (es ++ List.replicate ((course now es).world.inventory.rooms.length + 2)
      (.advance i))).jobs[i]? = some (c, .finished x) := by
  refine Scene.finishes_of_bound _ hj hkept (fun m room t hmem => ?_) fun m => ?_
  all_goals
    obtain ⟨j', hj'⟩ := Scene.exists_job_run hj (List.replicate m (.advance i))
    rw [← Scene.run_append] at hj'
  · obtain ⟨q, hq⟩ := (Scene.told _ _ hj').leads
    obtain ⟨x, a, heq, -⟩ := hc.watches.of_mem hq hmem
    cases heq
  · have hspared := Scene.spared_of_advances hj (Scene.aloof_of_watches hc.watches hj)
      fun e he => List.eq_of_mem_replicate (n := m) he
    have hle := length_search_le hc hj'
    rwa [course_append, hspared.rooms] at hle

/-- However a search for rooms is interleaved with other calls, it comes to its end if it is not
given up, and shows rooms in service that were free at some time, each once, among them all that
were free all the time. By id or by how often they are booked, they come in a strict order. A search
that nobody interferes with shows the rooms that are free. -/
theorem search_shows_the_free (now : Instant) (before after : List (Event Call)) (stay : Stay)
    (c : Call) (hc : c = .available stay ∨ c = .recommend stay) :
    let s := course now before
    let i := s.jobs.length
    let es := .start c :: after
    ((s.run es).jobs[i]? ≠ some (c, .dropped) → ∃ x,
      (s.run (es ++ List.replicate ((s.run es).world.inventory.rooms.length + 2)
        (.advance i))).jobs[i]? = some (c, .finished x)) ∧
    ∀ x, (s.run es).jobs[i]? = some (c, .finished x) → ∃ xs, x = .rooms (.ok xs) ∧
      Listing stay s.world.inventory (s.Meets es i) xs ∧
      (c = .available stay → xs.Pairwise (·.id.number < ·.id.number)) ∧
      (c = .recommend stay → xs.Pairwise RoomSummary.Before ∧
        ∃ ys : List RoomSummary, ys.Pairwise (·.id.number < ·.id.number) ∧ xs.Perm ys) ∧
      ((∀ e ∈ after, e = .advance i) → ∀ y, y ∈ xs ↔ ∃ r ∈ s.world.inventory.operational,
        s.world.inventory.overlapping r.id stay = [] ∧ r.summary = y) := by
  intro s i es
  have hsearch : ∃ arrange, c.Searches stay arrange := by
    rcases hc with rfl | rfl
    · exact ⟨_, .available⟩
    · exact ⟨_, .recommend⟩
  obtain ⟨arrange, hsearch⟩ := hsearch
  have hstart : (s.step (.start c)).jobs[i]? = some (c, .running c.process []) :=
    List.getElem?_concat_length
  -- what holds of every course holds of this one, whatever came before the search
  have hw : ∀ past, (s.run past).world.Undisturbed := fun past => by
    rw [← course_append]
    exact undisturbed_course now (before ++ past)
  have hasc : ∀ past, (s.run past).world.inventory.Ascending := fun past => by
    rw [← course_append]
    exact ascending_course now (before ++ past)
  refine ⟨fun hkept => ?_, fun x hx => ?_⟩
  · -- it has at most as many steps to go as there are rooms, and two more
    obtain ⟨j, hj⟩ := Scene.exists_job_run hstart after
    rw [← Scene.run_cons] at hj
    rw [hj] at hkept
    have hnot : j.givenUp = false := by
      cases j with
      | dropped => exact absurd rfl hkept
      | _ => rfl
    have hwhole (fs : List (Event Call)) : s.run (es ++ fs) = course now (before ++ es ++ fs) := by
      rw [List.append_assoc, course_append]
    rw [hwhole, ← course_append]
    rw [← course_append] at hj
    exact exists_finished hsearch hj hnot
  · -- what it shows was found room by room and put into order at the end
    have htold := Scene.told_since (Nat.le_refl _) hx
    obtain ⟨found, past, rfl, hfound⟩ := exists_scan hsearch hw hasc htold
    have hsorted := (hasc past).operational.sublist hfound.listed
    refine ⟨arrange found, rfl, hfound.listing hsearch (hasc past), ?_, ?_, fun hafter y => ?_⟩
    · rintro rfl
      cases hsearch
      exact byId_ascending hsorted
    · rintro rfl
      cases hsearch
      exact ⟨ranked_before hsorted, byId found, byId_ascending hsorted, ranked_perm found⟩
    · exact hfound.mem_of_alone hsearch hafter

/-- Two rooms are added. -/
def twoRooms : List (Event Call) :=
  [.start (.addRoom Sample.room), .start (.addRoom Sample.room)] ++ Sample.byTurns 4

/-- Between the look at the rooms and those at their locks, one of the rooms is taken. -/
def interrupted : List (Event Call) :=
  .advance 2 :: .start (.confirm (Sample.order 1)) :: List.replicate 9 (.advance 3) ++
    List.replicate 3 (.advance 2)

theorem search_shows_the_free_interrupted :
    ∃ xs, ((course Sample.newYear twoRooms).run
        (.start (.recommend Sample.twoNights) :: interrupted)).jobs[2]? =
          some (.recommend Sample.twoNights, .finished (.rooms (.ok xs))) ∧
      Listing Sample.twoNights (course Sample.newYear twoRooms).world.inventory
        ((course Sample.newYear twoRooms).Meets
          (.start (.recommend Sample.twoNights) :: interrupted) 2) xs ∧
      xs.Pairwise RoomSummary.Before := by
  obtain ⟨-, h⟩ := search_shows_the_free Sample.newYear twoRooms interrupted Sample.twoNights
    (.recommend Sample.twoNights) (.inr rfl)
  have hend : ∃ x, ((course Sample.newYear twoRooms).run
      (.start (.recommend Sample.twoNights) :: interrupted)).jobs[2]? =
        some (.recommend Sample.twoNights, .finished x) := ⟨_, rfl⟩
  obtain ⟨x, hx⟩ := hend
  obtain ⟨xs, rfl, hlisting, -, hbefore, -⟩ := h x hx
  exact ⟨xs, hx, hlisting, (hbefore rfl).1⟩

end Keeper

end Lodging
