import Lodging.Proofs.Dispatch.Course
import Lodging.Proofs.Keeper.History

/-!
What an order that is sent again and again relies on, while others go on about other bookings and
requests. As long as attempts may follow, whatever has to do with the order is the one lock for it.
-/

namespace Lodging

/-- A lock placed for an order. -/
structure Lock.Of (l : Lock) (n : NewLock) : Prop where
  uid : l.uid = n.uid
  request : l.request = n.request
  room : l.room = n.room
  stay : l.stay = n.stay

/-- A lock that has the booking or the request of an order. -/
abbrev Lock.Concerns (n : NewLock) (l : Lock) : Prop := l.uid = n.uid ∨ l.request = n.request

/-- A call that is about another booking and another request. -/
def Keeper.Call.Other (n : NewLock) : Keeper.Call → Prop
  | .confirm m => m.uid ≠ n.uid ∧ m.request ≠ n.request
  | .release _ uid => uid ≠ n.uid
  | _ => True

namespace Dispatch

open Keeper (Placement)

variable {n : NewLock} {v v' : Inventory} {k k' : Keeper.Point} {l : Lock}

/-- Whatever has to do with an order is a lock for it, and its room is there. -/
structure Kept (n : NewLock) (v : Inventory) : Prop where
  locks : ∀ l ∈ v.locks, l.Concerns n → l.Of n
  housed : v.HasLock n.uid → v.serves? n.room ≠ none

theorem Kept.not_hasLock (h : Kept n v) (hr : v.lockByRequest? n.request = none) :
    ¬ v.HasLock n.uid := by
  rintro ⟨l, hl, hu⟩
  have hof := h.locks l hl (.inl hu)
  exact Inventory.lockByRequest?_eq_none.mp hr l hl hof.request

theorem Kept.hasLock (h : Kept n v) (hr : v.lockByRequest? n.request = some l) :
    v.HasLock n.uid := by
  obtain ⟨hl, hreq⟩ := Inventory.lockByRequest?_eq_some hr
  exact ⟨l, hl, (h.locks l hl (.inr hreq)).uid⟩

theorem Kept.not_hasLock_of_room? (h : Kept n v) (hr : v.room? n.room = none) :
    ¬ v.HasLock n.uid :=
  fun hl => h.housed hl (Inventory.serves?_eq_none.mpr hr)

theorem hasLock_withLock (now : Instant) : (v.withLock now n).HasLock n.uid := by
  refine ⟨v.newLock now n, ?_, rfl⟩
  rw [Inventory.withLock_locks]
  exact List.mem_append_right _ (List.mem_singleton_self _)

/-- What an attempt has come to know of its lock. -/
def Knows (n : NewLock) (v : Inventory) : Keeper.Point → Prop
  | .unclaimed _ | .free _ | .placed _ (.error _) => ¬ v.HasLock n.uid
  | .refused .. | .placed _ (.ok _) => v.HasLock n.uid
  | _ => True

/-- An attempt changes nothing but that it places the lock, and only if it is missing. -/
theorem Kept.attempt (h : Kept n v) (hc : k.call? = some (.confirm n)) (hk : Knows n v k)
    (hm : Keeper.Move k v k' v') : Knows n v' k' ∧
      (v' = v ∨ (∃ now, v' = v.withLock now n) ∧ ¬ v.HasLock n.uid ∧ v.room? n.room ≠ none) := by
  have hsame : ∀ m, some (Keeper.Call.confirm m) = some (.confirm n) → m = n := by
    intro m hm
    exact Keeper.Call.confirm.inj (Option.some.inj hm)
  cases hm with
  | enter m => exact ⟨trivial, .inl rfl⟩
  | room hr => exact ⟨trivial, .inl rfl⟩
  | free => exact ⟨hk, .inl rfl⟩
  -- the request has a lock already, which is the one that was ordered
  | repeated hl =>
    obtain rfl := hsame _ hc
    exact ⟨h.hasLock hl, .inl rfl⟩
  | found hl =>
    obtain rfl := hsame _ hc
    exact ⟨h.hasLock hl, .inl rfl⟩
  -- the order is turned down, and there is no lock
  | noRoom hr =>
    obtain rfl := hsame _ hc
    exact ⟨h.not_hasLock_of_room? hr, .inl rfl⟩
  | outOfService hl =>
    obtain rfl := hsame _ hc
    exact ⟨h.not_hasLock hl, .inl rfl⟩
  | first hl =>
    obtain rfl := hsame _ hc
    exact ⟨h.not_hasLock hl, .inl rfl⟩
  | taken => exact ⟨hk, .inl rfl⟩
  | vanished hr => exact ⟨hk, .inl rfl⟩
  | lost hl =>
    obtain rfl := hsame _ hc
    exact absurd hk (h.not_hasLock hl)
  | insert now hr =>
    obtain rfl := hsame _ hc
    exact ⟨hasLock_withLock now, .inr ⟨⟨now, rfl⟩, hk, by rw [hr]; nofun⟩⟩
  | race now hr =>
    obtain rfl := hsame _ hc
    exact ⟨hasLock_withLock now, .inr ⟨⟨now, rfl⟩, hk, by rw [hr]; nofun⟩⟩
  | clash hr hclash =>
    -- whatever clashes would be the lock itself
    obtain rfl := hsame _ hc
    refine absurd ?_ hk
    by_contra hno
    have hnone : v.clash? _ = none := Inventory.clash?_eq_none.mpr fun l hl => by
      by_contra hor
      rw [not_and_or, not_not, not_not] at hor
      exact hno ⟨l, hl, (h.locks l hl hor).uid⟩
    rw [hnone] at hclash
    cases hclash
  | _ => cases hc

/-- No lock that has to do with an order is new. -/
def Older (n : NewLock) (v v' : Inventory) : Prop :=
  ∀ l ∈ v'.locks, l.Concerns n → l ∈ v.locks

theorem Older.refl (n : NewLock) (v : Inventory) : Older n v v := fun _ hl _ => hl

theorem Older.hasLock (h : Older n v v') (hl : v'.HasLock n.uid) : v.HasLock n.uid := by
  obtain ⟨l, hl, hu⟩ := hl
  exact ⟨l, h l hl (.inl hu), hu⟩

theorem Kept.of_older (h : Kept n v) (hold : Older n v v')
    (hserves : v.serves? n.room ≠ none → v'.serves? n.room ≠ none) : Kept n v' where
  locks l hl hor := h.locks l (hold l hl hor) hor
  housed hl := hserves (h.housed (hold.hasLock hl))

theorem Kept.withLock (h : Kept n v) (now : Instant) (hr : v.room? n.room ≠ none) :
    Kept n (v.withLock now n) where
  locks l hl hor := by
    rw [Inventory.withLock_locks] at hl
    rcases List.mem_append.mp hl with hl | hl
    · exact h.locks l hl hor
    · rw [List.mem_singleton.mp hl]
      exact ⟨rfl, rfl, rfl, rfl⟩
  housed _ := by
    rw [Inventory.serves?_withLock]
    exact mt Inventory.serves?_eq_none.mp hr

/-- A call about another booking and another request neither places nor removes the lock. -/
theorem older_of_other (hs : v.Sound) (h : Kept n v) (hc : ∀ c, k.call? = some c → c.Other n)
    (hfound : ∀ room uid m, k = .removing room uid m → m ∈ v.locks ∧ m.uid = uid)
    (hm : Keeper.Move k v k' v') : Older n v v' ∧ (v.HasLock n.uid → v'.HasLock n.uid) := by
  rcases hm.inventory_cases with rfl | ⟨m, -, -, rfl⟩ | ⟨m, now, rfl, -, -, rfl, -⟩ |
    ⟨room, uid, m, rfl, -, rfl⟩
  · exact ⟨.refl n v', id⟩
  · exact ⟨fun l hl _ => hl, id⟩
  · obtain ⟨huid, hrequest⟩ : m.uid ≠ n.uid ∧ m.request ≠ n.request := hc _ rfl
    refine ⟨fun l hl hor => ?_, ?_⟩
    · rw [Inventory.withLock_locks] at hl
      rcases List.mem_append.mp hl with hl | hl
      · exact hl
      · rw [List.mem_singleton.mp hl] at hor
        exact (hor.elim huid hrequest).elim
    · rintro ⟨l, hl, hu⟩
      rw [Inventory.HasLock, Inventory.withLock_locks]
      exact ⟨l, List.mem_append_left _ hl, hu⟩
  · obtain ⟨hmem, rfl⟩ := hfound room uid m rfl
    have hother : m.uid ≠ n.uid := hc _ rfl
    refine ⟨fun l hl _ => (Inventory.mem_withoutLock.mp hl).1, ?_⟩
    rintro ⟨l, hl, hu⟩
    refine ⟨l, Inventory.mem_withoutLock.mpr ⟨hl, fun hid => ?_⟩, hu⟩
    obtain rfl := hs.eq_of_id hl hmem hid
    exact hother hu

/-- The release of the room for the booking. Once it is at its end, the lock is gone. -/
theorem older_of_release (hs : v.Sound) (h : Kept n v)
    (hc : k.call? = some (.release n.room n.uid))
    (hfound : ∀ room uid m, k = .removing room uid m → m ∈ v.locks ∧ m.uid = uid)
    (hm : Keeper.Move k v k' v') :
    Older n v v' ∧ ∀ x, k' = .removed n.room n.uid x → ¬ v'.HasLock n.uid := by
  have hsame : ∀ room uid, some (Keeper.Call.release room uid) = some (.release n.room n.uid) →
      room = n.room ∧ uid = n.uid := by
    intro room uid he
    injection Option.some.inj he with hroom huid
    exact ⟨hroom, huid⟩
  cases hm with
  | comeIn => exact ⟨.refl n v, fun x hx => by cases hx⟩
  | check => exact ⟨.refl n v, fun x hx => by cases hx⟩
  | here => exact ⟨.refl n v, fun x hx => by cases hx⟩
  | noSuchRoom hr =>
    obtain ⟨rfl, rfl⟩ := hsame _ _ hc
    exact ⟨.refl n v, fun x _ => h.not_hasLock_of_room? hr⟩
  | nothing hl =>
    obtain ⟨rfl, rfl⟩ := hsame _ _ hc
    refine ⟨.refl n v, fun x _ => ?_⟩
    rintro ⟨l, hmem, hu⟩
    exact Inventory.lockByUid?_eq_none.mp hl l hmem hu
  | elsewhere hl hroom =>
    -- the lock of the booking is on no other room
    obtain ⟨rfl, rfl⟩ := hsame _ _ hc
    obtain ⟨hmem, hu⟩ := Inventory.lockByUid?_eq_some hl
    exact absurd (h.locks _ hmem (.inl hu)).room hroom
  | @delete room uid _ l hex =>
    obtain ⟨rfl, rfl⟩ := hsame _ _ hc
    obtain ⟨hmem, hu⟩ := hfound _ _ l rfl
    refine ⟨fun m hm _ => (Inventory.mem_withoutLock.mp hm).1, fun x _ => ?_⟩
    rintro ⟨m, hm, hmu⟩
    obtain ⟨hm, hid⟩ := Inventory.mem_withoutLock.mp hm
    have hml : m = l := hs.eq_of_uid hm hmem (hmu.trans hu.symm)
    exact hid (congrArg Lock.id hml)
  | gone hno =>
    obtain ⟨hmem, -⟩ := hfound _ _ _ rfl
    exact absurd rfl (hno _ hmem)
  | _ => cases hc

theorem Knows.of_iff (h : Knows n v k) (hl : v'.HasLock n.uid ↔ v.HasLock n.uid) :
    Knows n v' k := by
  cases k with
  | unclaimed m => exact mt hl.mp h
  | free m => exact mt hl.mp h
  | refused m c => exact hl.mpr h
  | placed m r =>
    cases r with
    | ok a => exact hl.mpr h
    | error e => exact mt hl.mp h
  | _ => trivial

namespace Point

/-- The call to the keeper that is made, or will be made again. -/
def call? : Point → Option Keeper.Call
  | other k | on _ _ k => k.call?
  | ready n => some (.confirm n)
  | spent _ | rest => none

/-- A certain order is sent, and nothing else. -/
def Sends (n : NewLock) : Point → Prop
  | rest => True
  | other _ => False
  | ready m | spent m => m = n
  | on m _ k => m = n ∧ k.call? = some (.confirm n)

/-- No attempt follows. -/
def Done : Point → Prop
  | rest | spent _ => True
  | _ => False

end Point

theorem Point.Done.knows {p : Point} (h : p.Done) : Knows n v p.keeper := by
  cases p with
  | rest => trivial
  | spent m => trivial
  | _ => cases h

/-- Orders for other bookings and requests, and calls about them. -/
def Call.Other (n : NewLock) : Call → Prop
  | .deliver _ m _ => m.uid ≠ n.uid ∧ m.request ≠ n.request
  | .keeper c => c.Other n

variable {p p' : Point} {b b' : Stock} {st st' : Stage Call Point} {i : ℕ} {c : Keeper.Call}

theorem Move.call?_of_eq (h : Move p b p' b') (hc : p'.call? = some c) : p.call? = some c := by
  cases h with
  | keeper h => exact h.call?_of_eq hc
  | attempt h => exact h.call?_of_eq hc
  | go => exact hc
  | again => exact hc
  | giveUp => cases hc
  | giveUpReady => cases hc

theorem Move.not_done (h : Move p b p' b') : ¬ p.Done := by
  cases h <;> exact id

/-- A move is one of the keeper's, or changes nothing. -/
theorem Move.keeper_cases (h : Move p b p' b') :
    Keeper.Move p.keeper b.inventory p'.keeper b'.inventory ∧ p'.call? = p'.keeper.call? ∨
      b'.inventory = b.inventory ∧ (p'.keeper = .rest ∨ ∃ m, p'.keeper = .entered m) := by
  cases h with
  | keeper h => exact .inl ⟨h, rfl⟩
  | attempt h => exact .inl ⟨h, rfl⟩
  | go m heard => exact .inr ⟨rfl, .inr ⟨m, rfl⟩⟩
  | _ => exact .inr ⟨rfl, .inl rfl⟩

/-- The first call of a stage is an order, and all others are about other bookings and requests.
Once no more attempts follow, someone may release its room. -/
structure Sole (n : NewLock) (st : Stage Call Point) : Prop where
  clear : Keeper.Clear (fun i => (st.point i).keeper) st.stock.inventory
  begun : 0 < st.calls.length
  kept : Kept n st.stock.inventory
  mine : (st.point 0).Sends n
  knows : Knows n st.stock.inventory (st.point 0).keeper
  theirs : ∀ i, i ≠ 0 → ∀ c, (st.point i).call? = some c →
    c.Other n ∨ c = .release n.room n.uid ∧ (st.point 0).Done
  released : ∀ i x, (st.point i).keeper = .removed n.room n.uid x →
    ¬ st.stock.inventory.HasLock n.uid

theorem keeper_update (point : ℕ → Point) (i : ℕ) (p : Point) :
    (fun k => (Function.update point i p k).keeper) =
      Function.update (fun k => (point k).keeper) i p.keeper :=
  Function.comp_update Point.keeper point i p

theorem Sole.clear_move (h : Sole n st) (hex : script.Exclusive st.point)
    (hm : Move (st.point i) st.stock p b') :
    Keeper.Clear (fun k => (Function.update st.point i p k).keeper) b'.inventory := by
  rw [keeper_update]
  rcases hm.keeper_cases with ⟨hk, -⟩ | ⟨hv, hp⟩
  · exact h.clear.move hex hk
  · rw [hv]
    rcases hp with hp | ⟨m, hp⟩ <;> rw [hp]
    · exact h.clear.update (fun _ h => by cases h) fun _ _ _ h => by cases h
    · exact h.clear.update (fun _ h => by cases h) fun _ _ _ h => by cases h

/-- Nobody is about to release the room while attempts may follow. -/
theorem Sole.others (h : Sole n st) (hdone : ¬ (st.point 0).Done) (hi : i ≠ 0)
    (hc : (st.point i).call? = some c) : c.Other n := by
  rcases h.theirs i hi c hc with hother | ⟨-, hd⟩
  · exact hother
  · exact absurd hd hdone

theorem Move.of_sends (h : Move p b p' b') (hs : p.Sends n) : p'.Sends n ∧
    (Keeper.Move p.keeper b.inventory p'.keeper b'.inventory ∧
        p.keeper.call? = some (.confirm n) ∨
      b'.inventory = b.inventory ∧ (p'.keeper = .rest ∨ ∃ m, p'.keeper = .entered m)) := by
  cases h with
  | keeper h => cases hs
  | attempt h =>
    obtain ⟨rfl, hc⟩ := hs
    exact ⟨⟨rfl, h.call?_eq hc⟩, .inl ⟨h, hc⟩⟩
  | go m heard =>
    obtain rfl : m = n := hs
    exact ⟨⟨rfl, rfl⟩, .inr ⟨rfl, .inr ⟨m, rfl⟩⟩⟩
  | again =>
    obtain ⟨rfl, -⟩ := hs
    exact ⟨rfl, .inr ⟨rfl, .inl rfl⟩⟩
  | giveUp =>
    obtain ⟨rfl, -⟩ := hs
    exact ⟨rfl, .inr ⟨rfl, .inl rfl⟩⟩
  | giveUpReady => exact ⟨hs, .inr ⟨rfl, .inl rfl⟩⟩

theorem Point.call?_of_removed {room : RoomId} {uid : Uid} {x : Except RoomFailure Keeper.Removal}
    (h : p.keeper = .removed room uid x) : p.call? = some (.release room uid) := by
  cases p with
  | other k | on m heard k =>
    obtain rfl : k = .removed room uid x := h
    rfl
  | _ => cases h

/-- Nobody has released the room while attempts may follow. -/
theorem Sole.ne_removed (h : Sole n st) (hdone : ¬ (st.point 0).Done) (hi : i ≠ 0)
    (x : Except RoomFailure Keeper.Removal) :
    (st.point i).keeper ≠ .removed n.room n.uid x := by
  intro hk
  have hother := h.others hdone hi (Point.call?_of_removed hk)
  exact hother rfl

theorem Point.Sends.ne_removed (h : p.Sends n) (room : RoomId) (uid : Uid)
    (x : Except RoomFailure Keeper.Removal) : p.keeper ≠ .removed room uid x := by
  intro hk
  have hc := Point.call?_of_removed hk
  cases p with
  | on m heard k =>
    have hk : k.call? = some (.release room uid) := hc
    rw [h.2] at hk
    cases hk
  | other k => cases h
  | ready m => cases hc
  | spent m => cases hc
  | rest => cases hc

theorem knows_of_door (hk : k = .rest ∨ ∃ m, k = .entered m) : Knows n v k := by
  rcases hk with rfl | ⟨m, rfl⟩ <;> trivial

/-- What the order does to the inventory, and what it knows afterwards. -/
theorem Sole.attempt (h : Sole n st) (hm : Move (st.point 0) st.stock p b') :
    Kept n b'.inventory ∧ Knows n b'.inventory p.keeper ∧
      (b'.inventory = st.stock.inventory ∨
        (∃ now, b'.inventory = st.stock.inventory.withLock now n) ∧
          ¬ st.stock.inventory.HasLock n.uid) := by
  rcases (hm.of_sends h.mine).2 with ⟨hk, hc⟩ | ⟨hv, hp⟩
  · obtain ⟨hknows, hv | ⟨⟨now, hv⟩, hno, hr⟩⟩ := h.kept.attempt hc h.knows hk
    · exact ⟨hv ▸ h.kept, hknows, .inl hv⟩
    · exact ⟨hv ▸ h.kept.withLock now hr, hknows, .inr ⟨⟨now, hv⟩, hno⟩⟩
  · exact ⟨hv ▸ h.kept, knows_of_door hp, .inl hv⟩

theorem Sole.move_mine (h : Sole n st) (hex : script.Exclusive st.point)
    (hm : Move (st.point 0) st.stock p b') :
    Sole n ⟨b', st.calls, Function.update st.point 0 p⟩ := by
  have hdone := hm.not_done
  obtain ⟨hsends, -⟩ := hm.of_sends h.mine
  obtain ⟨hkept, hknows, -⟩ := h.attempt hm
  refine ⟨h.clear_move hex hm, h.begun, hkept, ?_, ?_, ?_, ?_⟩
  · change (Function.update st.point 0 p 0).Sends n
    rwa [Function.update_self]
  · change Knows n b'.inventory (Function.update st.point 0 p 0).keeper
    rwa [Function.update_self]
  · intro i hi c hc
    change (Function.update st.point 0 p i).call? = some c at hc
    rw [Function.update_of_ne hi] at hc
    exact .inl (h.others hdone hi hc)
  · intro i x hx
    change (Function.update st.point 0 p i).keeper = .removed n.room n.uid x at hx
    rcases update_cases (fun q : Point => q.keeper = .removed n.room n.uid x) hx with
      ⟨-, hx⟩ | ⟨hi, hx⟩
    · exact absurd hx (hsends.ne_removed _ _ x)
    · exact absurd hx (h.ne_removed hdone hi x)

/-- What other calls do to the inventory. -/
theorem Sole.older (h : Sole n st) (hi : i ≠ 0) (hm : Move (st.point i) st.stock p b') :
    Kept n b'.inventory ∧ Older n st.stock.inventory b'.inventory ∧
      ((st.point 0).Done ∨
        (st.stock.inventory.HasLock n.uid → b'.inventory.HasLock n.uid)) ∧
      ∀ x, p.keeper = .removed n.room n.uid x → ¬ b'.inventory.HasLock n.uid := by
  rcases hm.keeper_cases with ⟨hk, hcall⟩ | ⟨hv, hp⟩
  · have hfound : ∀ room uid m, (st.point i).keeper = .removing room uid m →
        m ∈ st.stock.inventory.locks ∧ m.uid = uid := by
      intro room uid m hr
      obtain ⟨hmem, hu, -⟩ := h.clear.found i room uid m hr
      exact ⟨hmem, hu⟩
    have hserves : st.stock.inventory.serves? n.room ≠ none → b'.inventory.serves? n.room ≠ none :=
      hk.serves?
    by_cases hrel : ∃ c, (st.point i).keeper.call? = some c ∧ ¬ c.Other n
    · -- a call that is about the order releases its room
      obtain ⟨c, hc, hother⟩ := hrel
      have hpc : (st.point i).call? = some c := hm.call?_of_eq (hcall.trans (hk.call?_eq hc))
      obtain ⟨rfl, hd⟩ := (h.theirs i hi c hpc).resolve_left hother
      obtain ⟨hold, hgone⟩ := older_of_release h.clear.sound h.kept hc hfound hk
      exact ⟨h.kept.of_older hold hserves, hold, .inl hd, hgone⟩
    · have hothers : ∀ c, (st.point i).keeper.call? = some c → c.Other n := by
        intro c hc
        by_contra hother
        exact hrel ⟨c, hc, hother⟩
      obtain ⟨hold, hkeep⟩ := older_of_other h.clear.sound h.kept hothers hfound hk
      refine ⟨h.kept.of_older hold hserves, hold, .inr hkeep, fun x hx => ?_⟩
      have hc : p.keeper.call? = some (.release n.room n.uid) := by
        rw [hx]
        rfl
      exact absurd rfl (hothers _ (hk.call?_of_eq hc))
  · refine ⟨hv ▸ h.kept, hv ▸ .refl n _, .inr fun hl => hv ▸ hl, fun x hx => ?_⟩
    rcases hp with hp | ⟨m, hp⟩ <;> rw [hp] at hx <;> cases hx

/-- Another call comes to another point, and what concerns the order is as it was, or gone once no
more attempts follow. -/
theorem Sole.beside {calls : List Call} (h : Sole n st) (hi : i ≠ 0) (hbegun : 0 < calls.length)
    (hclear : Keeper.Clear (fun k => (Function.update st.point i p k).keeper) b'.inventory)
    (hkept : Kept n b'.inventory) (hold : Older n st.stock.inventory b'.inventory)
    (hkeep : (st.point 0).Done ∨ (st.stock.inventory.HasLock n.uid → b'.inventory.HasLock n.uid))
    (hcall : ∀ c, p.call? = some c → c.Other n ∨ c = .release n.room n.uid ∧ (st.point 0).Done)
    (hgone : ∀ x, p.keeper = .removed n.room n.uid x → ¬ b'.inventory.HasLock n.uid) :
    Sole n ⟨b', calls, Function.update st.point i p⟩ := by
  -- the order itself stays at its point
  have hzero : Function.update st.point i p 0 = st.point 0 := Function.update_of_ne hi.symm _ _
  refine ⟨hclear, hbegun, hkept, ?_, ?_, ?_, ?_⟩
  · change (Function.update st.point i p 0).Sends n
    rw [hzero]
    exact h.mine
  · change Knows n b'.inventory (Function.update st.point i p 0).keeper
    rw [hzero]
    rcases hkeep with hd | hkeep
    · exact hd.knows
    · exact h.knows.of_iff ⟨hold.hasLock, hkeep⟩
  · intro k hk c hc
    change (Function.update st.point i p k).call? = some c at hc
    change _ ∨ _ ∧ (Function.update st.point i p 0).Done
    rw [hzero]
    rcases update_cases (fun q : Point => q.call? = some c) hc with ⟨-, hc⟩ | ⟨-, hc⟩
    · exact hcall c hc
    · exact h.theirs k hk c hc
  · intro k x hx
    change (Function.update st.point i p k).keeper = .removed n.room n.uid x at hx
    rcases update_cases (fun q : Point => q.keeper = .removed n.room n.uid x) hx with
      ⟨-, hx⟩ | ⟨-, hx⟩
    · exact hgone x hx
    · exact mt hold.hasLock (h.released k x hx)

theorem Sole.move_other (h : Sole n st) (hex : script.Exclusive st.point) (hi : i ≠ 0)
    (hm : Move (st.point i) st.stock p b') :
    Sole n ⟨b', st.calls, Function.update st.point i p⟩ := by
  obtain ⟨hkept, hold, hkeep, hgone⟩ := h.older hi hm
  refine h.beside hi h.begun (h.clear_move hex hm) hkept hold hkeep ?_ hgone
  intro c hc
  exact h.theirs i hi c (hm.call?_of_eq hc)

/-- An event that may happen beside the order. -/
def Event.Beside (n : NewLock) (done : Prop) : Event Call → Prop
  | .start c => c.Other n ∨ c = .keeper (.release n.room n.uid) ∧ done
  | _ => True

theorem Call.other_of_first {d : Call} {done : Prop} (hd : Event.Beside n done (.start d))
    (hc : d.first.call? = some c) : c.Other n ∨ c = .release n.room n.uid ∧ done := by
  rcases hd with hd | ⟨rfl, hd⟩
  · cases d with
    | deliver policy m fate =>
      obtain rfl := Option.some.inj hc
      exact .inl hd
    | keeper d =>
      obtain rfl := Keeper.Call.call?_first hc
      exact .inl hd
  · obtain rfl := Option.some.inj hc
    exact .inr ⟨rfl, hd⟩

/-- Where a call begins, it has found out nothing. -/
theorem Call.keeper_first (d : Call) :
    d.first.keeper = .rest ∨ ∃ c : Keeper.Call, d.first.keeper = c.first := by
  cases d with
  | deliver policy m fate => exact .inl rfl
  | keeper c => exact .inr ⟨c, rfl⟩

theorem Sole.clear_update (h : Sole n st)
    (hp : p.keeper = .rest ∨ ∃ c : Keeper.Call, p.keeper = c.first) :
    Keeper.Clear (fun k => (Function.update st.point i p k).keeper) st.stock.inventory := by
  rw [keeper_update]
  rcases hp with hp | ⟨c, hp⟩ <;> rw [hp]
  · exact h.clear.update (fun _ h => by cases h) fun _ _ _ h => by cases h
  · exact h.clear.update c.first_ne_free c.first_ne_removing

theorem Sole.start {d : Call} (h : Sole n st) (hd : Event.Beside n (st.point 0).Done (.start d)) :
    Sole n ⟨st.stock, st.calls ++ [d], Function.update st.point st.calls.length d.first⟩ := by
  have hbegun : 0 < (st.calls ++ [d]).length := by
    rw [List.length_append]
    exact Nat.lt_of_lt_of_le h.begun (Nat.le_add_right ..)
  refine h.beside (Nat.ne_of_gt h.begun) hbegun (h.clear_update d.keeper_first) h.kept (.refl n _)
    (.inr id) (fun c hc => Call.other_of_first hd hc) fun x hx => ?_
  rcases d.keeper_first with hp | ⟨c, hp⟩ <;> rw [hp] at hx
  · cases hx
  · cases c <;> cases hx

theorem Sole.drop (h : Sole n st) (i : ℕ) :
    Sole n ⟨st.stock, st.calls, Function.update st.point i .rest⟩ := by
  have hclear := h.clear_update (i := i) (p := .rest) (.inl rfl)
  by_cases hi : i = 0
  · subst hi
    refine ⟨hclear, h.begun, h.kept, ?_, ?_, ?_, ?_⟩
    · change (Function.update st.point 0 .rest 0).Sends n
      rw [Function.update_self]
      trivial
    · change Knows n _ (Function.update st.point 0 .rest 0).keeper
      rw [Function.update_self]
      trivial
    · intro k hk c hc
      change (Function.update st.point 0 .rest k).call? = some c at hc
      change _ ∨ _ ∧ (Function.update st.point 0 .rest 0).Done
      rw [Function.update_of_ne hk] at hc
      rw [Function.update_self]
      exact (h.theirs k hk c hc).imp_right fun hc => ⟨hc.1, trivial⟩
    · intro k x hx
      rcases update_cases (fun q : Point => q.keeper = .removed n.room n.uid x) hx with
        ⟨-, hx⟩ | ⟨-, hx⟩
      · cases hx
      · exact h.released k x hx
  · exact h.beside hi h.begun hclear h.kept (.refl n _) (.inr id) (fun c hc => by cases hc)
      fun x hx => by cases hx

theorem Sole.turn (h : Sole n st) (t : Turn) : Sole n ⟨st.stock.turn t, st.calls, st.point⟩ := by
  have hinv : (st.stock.turn t).inventory.locks = st.stock.inventory.locks ∧
      (st.stock.turn t).inventory.lastLock = st.stock.inventory.lastLock ∧
      (st.stock.turn t).inventory.rooms = st.stock.inventory.rooms := by
    cases t <;> exact ⟨rfl, rfl, rfl⟩
  obtain ⟨hlocks, hlast, hrooms⟩ := hinv
  have hold : Older n st.stock.inventory (st.stock.turn t).inventory := fun l hl _ => hlocks ▸ hl
  have hhas : (st.stock.turn t).inventory.HasLock n.uid ↔ st.stock.inventory.HasLock n.uid := by
    unfold Inventory.HasLock
    rw [hlocks]
  refine ⟨?_, h.begun, ?_, h.mine, h.knows.of_iff hhas, h.theirs, ?_⟩
  · exact h.clear.of_points hlocks hlast (fun _ _ hk => hk) fun _ _ _ _ hk => hk
  · refine h.kept.of_older hold fun hs => ?_
    change Option.map _ (List.find? _ (st.stock.turn t).inventory.rooms) ≠ none
    rw [hrooms]
    exact hs
  · exact fun k x hx => mt hhas.mp (h.released k x hx)

theorem Sole.next {e : Event Call} (h : Sole n st) (hex : script.Exclusive st.point)
    (he : Event.Beside n (st.point 0).Done e) (hn : script.Next Call.first e st st') :
    Sole n st' := by
  cases hn with
  | start d => exact h.start he
  | @move _ i _ _ hi hm =>
    by_cases hi0 : i = 0
    · subst hi0
      exact h.move_mine hex hm
    · exact h.move_other hex hi0 hm
  | @drop _ i hi => exact h.drop i
  | turn t => exact h.turn t
  | idle => exact h

end Dispatch

end Lodging
