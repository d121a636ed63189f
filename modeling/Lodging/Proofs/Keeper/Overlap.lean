import Lodging.Proofs.Keeper.Course

/-!
No two locks of a room ever overlap. A call that found its stay free is in the room until it has
placed its lock, and nobody else places a lock on the room meanwhile. So what it found still
stands when the lock is placed, though the inventory itself does not look for overlaps.
-/

namespace Lodging.Keeper

variable {point point' : ℕ → Point} {v v' : Inventory} {i k : ℕ} {p : Point}

/-- Locks do not overlap, and neither do those that calls are about to place. A lock that a call is
about to remove is there. -/
structure Clear (point : ℕ → Point) (v : Inventory) : Prop where
  sound : v.Sound
  apart : v.Apart
  free : ∀ i n, point i = .free n → v.overlapping n.room n.stay = []
  found : ∀ i room uid l, point i = .removing room uid l →
    l ∈ v.locks ∧ l.uid = uid ∧ l.room = room

theorem clear_rest (hs : v.Sound) (ha : v.Apart) : Clear (fun _ => .rest) v where
  sound := hs
  apart := ha
  free _ _ h := nomatch h
  found _ _ _ _ h := nomatch h

theorem Clear.of_points (hc : Clear point v) (hl : v'.locks = v.locks)
    (hlast : v'.lastLock = v.lastLock) (hp : ∀ i n, point' i = .free n → point i = .free n)
    (hr : ∀ i room uid l, point' i = .removing room uid l → point i = .removing room uid l) :
    Clear point' v' := by
  refine ⟨⟨?_, ?_, ?_, ?_⟩, ?_, ?_, ?_⟩
  · rw [hl, hlast]
    exact hc.sound.counted
  · rw [hl]
    exact hc.sound.ids
  · rw [hl]
    exact hc.sound.uids
  · rw [hl]
    exact hc.sound.requests
  · unfold Inventory.Apart
    rw [hl]
    exact hc.apart
  · intro i n hi
    unfold Inventory.overlapping
    rw [hl]
    exact hc.free i n (hp i n hi)
  · intro i room uid l hi
    rw [hl]
    exact hc.found i room uid l (hr i room uid l hi)

theorem Move.of_free {n : NewLock} (h : Move p v (.free n) v') :
    v' = v ∧ v.overlapping n.room n.stay = [] := by
  cases h with
  | free hn => exact ⟨rfl, hn⟩

theorem Move.of_removing {room : RoomId} {uid : Uid} {l : Lock}
    (h : Move p v (.removing room uid l) v') :
    v' = v ∧ l ∈ v.locks ∧ l.uid = uid ∧ l.room = room := by
  cases h with
  | here hl hroom =>
    obtain ⟨hm, hu⟩ := Inventory.lockByUid?_eq_some hl
    exact ⟨rfl, hm, hu, hroom⟩

theorem Clear.apart_move (hc : Clear point v) (h : Move (point i) v p v') : v'.Apart := by
  rcases h.inventory_cases with rfl | ⟨n, -, rfl, rfl⟩ | ⟨n, now, hi, -, -, rfl, -⟩ |
    ⟨room, uid, l, -, rfl, rfl⟩
  · exact hc.apart
  · exact hc.apart
  · exact hc.apart.withLock (hc.free i n hi)
  · exact hc.apart.withoutLock l

/-- While a call is about to place a lock, no other call places one that overlaps. -/
theorem Clear.free_of_ne (hex : script.Exclusive point) (hc : Clear point v)
    (h : Move (point i) v p v') {n : NewLock} (hki : k ≠ i) (hk : point k = .free n) :
    v'.overlapping n.room n.stay = [] := by
  have hfree := Inventory.overlapping_eq_nil.mp (hc.free k n hk)
  refine Inventory.overlapping_eq_nil.mpr fun l hl hroom => ?_
  rcases h.inventory_cases with rfl | ⟨m, -, -, rfl⟩ | ⟨m, now, hi, -, -, rfl, -⟩ |
    ⟨room, uid, m, -, -, rfl⟩
  · exact hfree l hl hroom
  · exact hfree l hl hroom
  · rw [Inventory.withLock_locks] at hl
    rcases List.mem_append.mp hl with hl | hl
    · exact hfree l hl hroom
    · -- two calls would be in the room of the new lock
      rw [List.mem_singleton.mp hl] at hroom
      refine absurd ?_ (hex i k n.room hki.symm ?_)
      · rw [hk]
        rfl
      · rw [hi]
        exact congrArg some hroom
  · exact hfree l (Inventory.mem_withoutLock.mp hl).1 hroom

/-- While a call is about to remove a lock, no other call removes it. -/
theorem Clear.found_of_ne (hex : script.Exclusive point) (hc : Clear point v)
    (h : Move (point i) v p v') {room : RoomId} {uid : Uid} {l : Lock} (hki : k ≠ i)
    (hk : point k = .removing room uid l) : l ∈ v'.locks ∧ l.uid = uid ∧ l.room = room := by
  obtain ⟨hl, hu, hroom⟩ := hc.found k room uid l hk
  refine ⟨?_, hu, hroom⟩
  rcases h.inventory_cases with rfl | ⟨m, -, -, rfl⟩ | ⟨m, now, -, -, -, rfl, -⟩ |
    ⟨room', uid', m, hi, -, rfl⟩
  · exact hl
  · exact hl
  · rw [Inventory.withLock_locks]
    exact List.mem_append_left _ hl
  · refine Inventory.mem_withoutLock.mpr ⟨hl, fun hid => ?_⟩
    -- two calls would be in the room of the lock that goes
    obtain ⟨hm, -, hroom'⟩ := hc.found i room' uid' m hi
    obtain rfl := hc.sound.eq_of_id hl hm hid
    refine absurd ?_ (hex i k room hki.symm ?_)
    · rw [hk]
      rfl
    · rw [hi, ← hroom, hroom']
      rfl

/-- While a call is in a room, no other call changes what it has found out there. -/
theorem Clear.move (hex : script.Exclusive point) (hc : Clear point v)
    (h : Move (point i) v p v') : Clear (Function.update point i p) v' where
  sound := h.sound hc.sound
  apart := hc.apart_move h
  free k n hk := by
    rcases update_eq_cases hk with ⟨-, rfl⟩ | ⟨hki, hk⟩
    · obtain ⟨rfl, hn⟩ := h.of_free
      exact hn
    · exact hc.free_of_ne hex h hki hk
  found k room uid l hk := by
    rcases update_eq_cases hk with ⟨-, rfl⟩ | ⟨hki, hk⟩
    · obtain ⟨rfl, hl⟩ := h.of_removing
      exact hl
    · exact hc.found_of_ne hex h hki hk

/-- A call that is neither about to place a lock nor to remove one knows nothing that could become
untrue. -/
theorem Clear.update (hc : Clear point v) (hfree : ∀ n, p ≠ .free n)
    (hremoving : ∀ room uid l, p ≠ .removing room uid l) : Clear (Function.update point i p) v := by
  refine hc.of_points rfl rfl (fun k n hk => ?_) fun k room uid l hk => ?_
  · rcases update_eq_cases hk with ⟨-, hp⟩ | ⟨-, hk⟩
    · exact absurd hp (hfree n)
    · exact hk
  · rcases update_eq_cases hk with ⟨-, hp⟩ | ⟨-, hk⟩
    · exact absurd hp (hremoving room uid l)
    · exact hk

theorem Call.first_ne_free (c : Call) (n : NewLock) : c.first ≠ .free n := by
  intro h
  cases c <;> cases h

theorem Call.first_ne_removing (c : Call) (room : RoomId) (uid : Uid) (l : Lock) :
    c.first ≠ .removing room uid l := by
  intro h
  cases c <;> cases h

theorem Clear.next {e : Event Call} {st st' : Stage Call Point}
    (hex : script.Exclusive st.point) (hc : Clear st.point st.stock.inventory)
    (h : script.Next Call.first e st st') : Clear st'.point st'.stock.inventory := by
  cases h with
  | start c => exact hc.update c.first_ne_free c.first_ne_removing
  | move hi hm =>
    obtain ⟨v, hm, rfl⟩ := hm
    exact hc.move hex hm
  | drop hi => exact hc.update (fun _ h => by cases h) fun _ _ _ h => by cases h
  | turn t =>
    cases t <;> exact hc.of_points rfl rfl (fun _ _ hk => hk) fun _ _ _ _ hk => hk
  | idle => exact hc

theorem exists_clear (now : Instant) (es : List (Event Call)) :
    ∃ st, script.Tells Call.Ends ((Scene.opening Call.process (.atTime now)).run es) st ∧
      Clear st.point st.stock.inventory := by
  have hopen : script.Tells Call.Ends (Scene.opening Call.process (.atTime now))
      ⟨(World.atTime now).stock, [], fun _ => .rest⟩ :=
    Script.tells_opening ⟨rfl, rfl⟩ Holds.sound_empty rfl
  exact Script.exists_stage_of_run Call.runs Call.inside_first
    (fun _ st => Clear st.point st.stock.inventory) hopen
    (clear_rest Inventory.sound_empty Inventory.apart_empty)
    (fun es e st st' ht hc hn _ => hc.next ht.exclusive hn) es

/-- However the actions of calls to the keeper are interleaved, whichever calls are given up on
the way and whatever else comes over the world, no two locks of one room overlap. -/
theorem locks_never_overlap (now : Instant) (es : List (Event Call)) :
    ((Scene.opening Call.process (.atTime now)).run es).world.inventory.Apart := by
  obtain ⟨st, ht, hc⟩ := exists_clear now es
  rw [ht.stock] at hc
  exact hc.apart

end Lodging.Keeper
