import Lodging.Proofs.Inventory
import Lodging.Proofs.Keeper.Actions
import Lodging.World.Offices
import Lodging.World.Sample

/-!
What an inventory keeps twice agrees: for every room it counts as many locks as it holds. A keeper
removes a lock by an id and a room that were read some time before. They still belong together when
the lock is removed, since no lock ever changes and no id is used again, so the count goes down for
the right room and is not below one then.
-/

namespace Lodging

/-- A call that removes a lock names the room of a lock that is known. -/
def RoomCall.Founded (known : Lock → Prop) : RoomCall → Prop
  | deleteLock id room => ∃ l, known l ∧ l.id = id ∧ l.room = room
  | _ => True

namespace Action

def Founded (known : Lock → Prop) : Action → Prop
  | rooms c => c.Founded known
  | _ => True

/-- The answer to an action shows a lock. -/
def Shows : (x : Action) → x.Answer → Lock → Prop
  | rooms (.lockByUid _), a, l => a = .ok (some l)
  | _, _, _ => False

theorem Founded.mono {known known' : Lock → Prop} {x : Action} (h : x.Founded known)
    (hk : ∀ l, known l → known' l) : x.Founded known' := by
  cases x with
  | rooms c =>
    cases c with
    | deleteLock id room =>
      obtain ⟨l, hl, hid, hroom⟩ := h
      exact ⟨l, hk l hl, hid, hroom⟩
    | _ => trivial
  | _ => trivial

end Action

namespace Inventory

variable {v v' : Inventory} {n : NewLock} {l m : Lock} {r : Room} {now : Instant}

/-- In a sound inventory with its locks by ascending id every lock is of a room, and every room
counts its locks. -/
structure Exact (v : Inventory) : Prop extends v.Sound where
  ascending : v.locks.Pairwise (·.id < ·.id)
  numbered : ∀ r ∈ v.rooms, r.id.number ≤ v.lastRoom
  housed : ∀ l ∈ v.locks, ∃ r ∈ v.rooms, r.id = l.room
  counts : ∀ r ∈ v.rooms, r.timesBooked = v.locks.countP (·.room = r.id)

theorem exact_empty : Exact .empty where
  toSound := sound_empty
  ascending := List.Pairwise.nil
  numbered _ hr := absurd hr List.not_mem_nil
  housed _ hl := absurd hl List.not_mem_nil
  counts _ hr := absurd hr List.not_mem_nil

/-- What may become of an inventory at once. A lock that goes takes one off the count of its room,
wherever that count stands. -/
inductive Change (v : Inventory) : Inventory → Prop
  | furnished {v' : Inventory} (locks : v'.locks = v.locks) (rooms : v.rooms <+: v'.rooms)
    (lastLock : v'.lastLock = v.lastLock) : Change v v'
  | placed (now : Instant) (n : NewLock) : Change v (v.withLock now n)
  | removed {l : Lock} (hl : l ∈ v.locks) :
    Change v (recount (· - 1) l.room { v with locks := v.locks.filter (·.id ≠ l.id) })

theorem Change.refl (v : Inventory) : v.Change v := .furnished rfl (List.prefix_refl _) rfl

theorem mem_recount {f : Int → Int} {id : RoomId} (h : r ∈ (v.recount f id).rooms) :
    ∃ q ∈ v.rooms, q.id = r.id ∧
      r.timesBooked = if q.id = id then f q.timesBooked else q.timesBooked := by
  obtain ⟨q, hq, rfl⟩ := List.mem_map.mp h
  refine ⟨q, hq, ?_⟩
  by_cases hid : q.id = id
  · rw [if_pos hid, if_pos hid]
    exact ⟨rfl, rfl⟩
  · rw [if_neg hid, if_neg hid]
    exact ⟨rfl, rfl⟩

theorem exists_recount {f : Int → Int} {id room : RoomId} (h : ∃ r ∈ v.rooms, r.id = room) :
    ∃ r ∈ (v.recount f id).rooms, r.id = room := by
  obtain ⟨r, hr, hid⟩ := h
  refine ⟨_, List.mem_map_of_mem hr, ?_⟩
  rw [← hid]
  split <;> rfl

theorem withLock_rooms : (v.withLock now n).rooms = (v.recount (· + 1) n.room).rooms := rfl

theorem withoutLock_rooms :
    (v.withoutLock l).rooms = (v.recount (fun n => max (n - 1) 0) l.room).rooms := rfl

theorem Exact.insertRoom (hv : v.Exact) (n : NewRoom) : (v.insertRoom n).2.Exact where
  toSound := ⟨hv.counted, hv.ids, hv.uids, hv.requests⟩
  ascending := hv.ascending
  numbered r hr := by
    change r.id.number ≤ v.lastRoom + 1
    rcases List.mem_append.mp hr with hr | hr
    · have := hv.numbered r hr
      omega
    · obtain rfl := List.mem_singleton.mp hr
      exact Int.le_refl _
  housed l hl := by
    obtain ⟨r, hr, hid⟩ := hv.housed l hl
    exact ⟨r, List.mem_append_left _ hr, hid⟩
  counts r hr := by
    rcases List.mem_append.mp hr with hr | hr
    · exact hv.counts r hr
    · -- no lock is of a room that has just got its id
      rw [List.mem_singleton.mp hr]
      change (0 : Int) = (v.locks.countP _ : ℕ)
      rw [List.countP_eq_zero.mpr]
      · rfl
      · intro l hl hroom
        obtain ⟨q, hq, hid⟩ := hv.housed l hl
        have hle := hv.numbered q hq
        rw [hid, of_decide_eq_true hroom] at hle
        change v.lastRoom + 1 ≤ v.lastRoom at hle
        omega

theorem Exact.withLock (hv : v.Exact) (hr : v.room? n.room = some r) (hc : v.clash? n = none) :
    (v.withLock now n).Exact where
  toSound := hv.toSound.withLock hc
  ascending := by
    rw [withLock_locks, List.pairwise_append]
    refine ⟨hv.ascending, List.pairwise_singleton .., fun l hl m hm => ?_⟩
    rw [List.mem_singleton.mp hm]
    have := hv.counted l hl
    change l.id < v.lastLock + 1
    omega
  numbered q hq := by
    rw [withLock_rooms] at hq
    obtain ⟨p, hp, hid, -⟩ := mem_recount hq
    exact hid ▸ hv.numbered p hp
  housed l hl := by
    rw [withLock_rooms]
    apply exists_recount
    rw [withLock_locks] at hl
    rcases List.mem_append.mp hl with hl | hl
    · exact hv.housed l hl
    · rw [List.mem_singleton.mp hl]
      exact ⟨r, Rows.of_find?_eq_some hr⟩
  counts q hq := by
    rw [withLock_rooms] at hq
    obtain ⟨p, hp, hid, hcount⟩ := mem_recount hq
    rw [hcount, hv.counts p hp, withLock_locks, List.countP_append, List.countP_singleton, ← hid]
    by_cases hroom : p.id = n.room
    · have hnew : (v.newLock now n).room = p.id := hroom.symm
      simp [hroom, hnew]
    · have hnew : (v.newLock now n).room ≠ p.id := Ne.symm hroom
      simp [hroom, hnew]

/-- Of locks of any kind there is one less when one of them goes. -/
theorem Sound.countP_without (hv : v.Sound) (hl : l ∈ v.locks) (p : Lock → Bool) :
    v.locks.countP p =
      (v.locks.filter (·.id ≠ l.id)).countP p + if p l then 1 else 0 := by
  have hone : v.locks.filter (fun m => m.id = l.id) = [l] := Rows.filter_key hv.ids hl
  rw [List.countP_eq_countP_filter_add v.locks p (fun m => m.id ≠ l.id)]
  congr 1
  have hrest : (v.locks.filter fun m => !decide (m.id ≠ l.id)) = [l] := by
    simpa using hone
  rw [hrest, List.countP_singleton]

theorem Exact.one_le_counts (hv : v.Exact) (hl : l ∈ v.locks) (hr : r ∈ v.rooms)
    (hid : r.id = l.room) : 1 ≤ r.timesBooked := by
  have hpos : 0 < v.locks.countP (·.room = r.id) :=
    List.countP_pos_iff.mpr ⟨l, hl, decide_eq_true hid.symm⟩
  rw [hv.counts r hr]
  omega

/-- So it makes no difference that the count of a room does not go below none. -/
theorem Exact.withoutLock_eq (hv : v.Exact) (hl : l ∈ v.locks) : v.withoutLock l =
    recount (· - 1) l.room { v with locks := v.locks.filter (·.id ≠ l.id) } := by
  unfold Inventory.withoutLock recount
  congr 1
  refine List.map_congr_left fun r hr => ?_
  by_cases hid : r.id = l.room
  · have hpos := hv.one_le_counts hl hr hid
    have hmax : max (r.timesBooked - 1) 0 = r.timesBooked - 1 := Int.max_eq_left (by omega)
    rw [if_pos hid, if_pos hid]
    exact congrArg (fun k => { r with timesBooked := k }) hmax
  · rw [if_neg hid, if_neg hid]

theorem Exact.withoutLock (hv : v.Exact) (hl : l ∈ v.locks) : (v.withoutLock l).Exact where
  toSound := hv.toSound.withoutLock l
  ascending := hv.ascending.sublist withoutLock_sublist
  numbered q hq := by
    rw [withoutLock_rooms] at hq
    obtain ⟨p, hp, hid, -⟩ := mem_recount hq
    exact hid ▸ hv.numbered p hp
  housed m hm := exists_recount (hv.housed m (mem_withoutLock.mp hm).1)
  counts q hq := by
    rw [hv.withoutLock_eq hl] at hq ⊢
    obtain ⟨p, hp, hid, hcount⟩ := mem_recount hq
    have hsum := hv.toSound.countP_without hl (·.room = p.id)
    rw [hcount, hv.counts p hp, hsum, ← hid]
    change _ = ((v.locks.filter (·.id ≠ l.id)).countP (·.room = p.id) : Int)
    by_cases hroom : p.id = l.room
    · simp [hroom]
    · simp [hroom, Ne.symm hroom]

/-- If there still is a lock of its id, it is the same lock. -/
def Knows (v : Inventory) (l : Lock) : Prop :=
  l.id ≤ v.lastLock ∧ ∀ m ∈ v.locks, m.id = l.id → m = l

theorem Sound.knows (hv : v.Sound) (hl : l ∈ v.locks) : v.Knows l :=
  ⟨hv.counted l hl, fun _ hm hid => hv.eq_of_id hm hl hid⟩

theorem Change.knows (h : v.Change v') (hl : v.Knows l) : v'.Knows l := by
  obtain ⟨hle, hsame⟩ := hl
  cases h with
  | furnished locks rooms last => exact ⟨last ▸ hle, fun m hm => hsame m (locks ▸ hm)⟩
  | placed now n =>
    refine ⟨?_, fun m hm hid => ?_⟩
    · rw [withLock_lastLock]
      omega
    · rw [withLock_locks] at hm
      rcases List.mem_append.mp hm with hm | hm
      · exact hsame m hm hid
      · -- a new lock has an id of its own
        rw [List.mem_singleton.mp hm] at hid
        change v.lastLock + 1 = l.id at hid
        omega
  | removed hk => exact ⟨hle, fun m hm => hsame m (List.mem_of_mem_filter hm)⟩

/-- Whatever is asked, what is kept twice goes on to agree, if a lock is removed only by one who
knows it. -/
theorem Exact.answer (hv : v.Exact) {c : RoomCall} (hc : c.Founded v.Knows) (now : Instant) :
    (v.answer now c).2.Exact ∧ v.Change (v.answer now c).2 := by
  have hsame : v.Exact ∧ v.Change v := ⟨hv, .refl v⟩
  cases c with
  | insertRoom n => exact ⟨hv.insertRoom n, .furnished rfl (List.prefix_append ..) rfl⟩
  | insertLock n =>
    change (v.insertLock now n).2.Exact ∧ v.Change (v.insertLock now n).2
    rcases v.insertLock_cases now n with heq | ⟨⟨r, hr⟩, hclash, heq⟩
    · rw [heq]
      exact hsame
    · rw [heq]
      exact ⟨hv.withLock hr hclash, .placed now n⟩
  | deleteLock id room =>
    obtain ⟨l, hl, rfl, rfl⟩ := hc
    change (v.deleteLock l.id l.room).2.Exact ∧ v.Change (v.deleteLock l.id l.room).2
    by_cases hm : ∃ m ∈ v.locks, m.id = l.id
    · rw [deleteLock_of_exists hm]
      obtain ⟨m, hm, hid⟩ := hm
      obtain rfl := hl.2 m hm hid
      refine ⟨hv.withoutLock hm, ?_⟩
      rw [hv.withoutLock_eq hm]
      exact .removed hm
    · rw [deleteLock_of_forall l.room (by simpa using hm)]
      exact hsame
  | _ => exact hsame

end Inventory

/-- An action is taken in knowledge of the locks that it is about, and what it shows is true. -/
theorem World.perform_exact {w : World} (hv : w.inventory.Exact) {x : Action}
    (hx : x.Founded w.inventory.Knows) :
    (w.perform x).2.inventory.Exact ∧ w.inventory.Change (w.perform x).2.inventory ∧
      ∀ l, x.Shows (w.perform x).1 l → w.inventory.Knows l := by
  cases x with
  | rooms c =>
    change (w.callRooms c).2.inventory.Exact ∧ w.inventory.Change (w.callRooms c).2.inventory ∧
      ∀ l, Action.Shows (.rooms c) (w.callRooms c).1 l → _
    rcases w.callRooms_cases c with ⟨ha, hv'⟩ | ⟨⟨m, ha⟩, hv'⟩ <;> rw [ha, hv']
    · obtain ⟨hexact, hchange⟩ := hv.answer hx w.now
      refine ⟨hexact, hchange, fun l hl => ?_⟩
      cases c with
      | lockByUid u =>
        have hfind : w.inventory.lockByUid? u = some l := Except.ok.inj hl
        exact hv.toSound.knows (Inventory.lockByUid?_eq_some hfind).1
      | _ => cases hl
    · refine ⟨hv, .refl _, fun l hl => ?_⟩
      cases c <;> cases hl
  | ledger c =>
    have hkept : (w.perform (.ledger c)).2.inventory = w.inventory :=
      World.perform_inventory fun _ => nofun
    rw [hkept]
    exact ⟨hv, .refl _, fun _ hl => False.elim hl⟩
  | _ => exact ⟨hv, .refl _, fun _ hl => False.elim hl⟩

namespace Process

variable {α β : Type} {known known' : Lock → Prop} {p : Process α}

/-- Whatever a process is answered, it removes only locks that are known or that it was shown. -/
def Founded (known : Lock → Prop) : Process α → Prop
  | done _ => True
  | act x next => x.Founded known ∧ ∀ a, (next a).Founded fun l => known l ∨ x.Shows a l
  | enter _ next => ∀ t, (next t).Founded known

theorem Founded.mono (h : p.Founded known) (hk : ∀ l, known l → known' l) : p.Founded known' := by
  induction p generalizing known known' with
  | done a => trivial
  | act x next ih => exact ⟨h.1.mono hk, fun a => ih a (h.2 a) fun l hl => hl.imp_left (hk l)⟩
  | enter room next ih => exact fun t => ih t (h t) hk

theorem Founded.bind {f : α → Process β} (hp : p.Founded known) (hf : ∀ a, (f a).Founded known) :
    (p >>= f).Founded known := by
  change (p.bind f).Founded known
  induction p generalizing known with
  | done a => exact hf a
  | act x next ih => exact ⟨hp.1, fun a => ih a (hp.2 a) fun b => (hf b).mono fun _ => .inl⟩
  | enter room next ih => exact fun t => ih t (hp t) hf

theorem Uses.founded {kind : Action → Prop} (h : p.Uses kind)
    (hkind : ∀ x known, kind x → x.Founded known) : p.Founded known := by
  induction p generalizing known with
  | done a => trivial
  | act x next ih => exact ⟨hkind x known h.1, fun a => ih a (h.2 a)⟩
  | enter room next ih => exact fun t => ih t (h t)

end Process

namespace Keeper

theorem founded_of_looking {x : Action} (h : x.Looking) (known : Lock → Prop) :
    x.Founded known := by
  cases x with
  | rooms c =>
    cases c with
    | deleteLock id room => cases h
    | _ => trivial
  | _ => trivial

/-- A lock is removed by one who has just been shown it. -/
theorem founded_release (room : RoomId) (uid : Uid) (known : Lock → Prop) :
    (release room uid).Founded known := by
  refine fun t => Process.Founded.bind ?_ fun _ => ⟨trivial, fun _ => trivial⟩
  refine Process.Founded.bind
    ((uses_getRoom room).founded fun x known hx => founded_of_looking hx known) fun r => ?_
  cases r with
  | error f => trivial
  | ok r =>
    refine ⟨trivial, fun a => ?_⟩
    match a with
    | .error f => trivial
    | .ok none => trivial
    | .ok (some l) =>
      change Process.Founded _ (ExceptT.run (if l.room ≠ room then _ else _))
      split
      · trivial
      · refine ⟨⟨l, .inr rfl, rfl, rfl⟩, fun b => ?_⟩
        match b with
        | .error f => trivial
        | .ok false => trivial
        | .ok true => exact ⟨trivial, fun _ => trivial⟩

theorem Call.founded (c : Call) (known : Lock → Prop) : c.process.Founded known := by
  cases c with
  | addRoom n => exact ⟨trivial, fun _ => trivial⟩
  | confirm n =>
    refine Process.Founded.bind ((uses_confirm n).founded ?_) fun _ => trivial
    rintro x known (hx | rfl)
    · exact founded_of_looking hx known
    · trivial
  | release room uid => exact Process.Founded.bind (founded_release room uid known) fun _ => trivial
  | available stay =>
    exact Process.Founded.bind
      ((uses_available stay).founded fun x known hx => founded_of_looking hx known) fun _ => trivial
  | recommend stay =>
    exact Process.Founded.bind
      ((uses_recommend stay).founded fun x known hx => founded_of_looking hx known) fun _ => trivial

end Keeper

namespace Job

variable {α : Type} {known known' : Lock → Prop} {j : Job α} {w : World}

def Founded (known : Lock → Prop) : Job α → Prop
  | running p _ => p.Founded known
  | waiting _ next _ => ∀ t, (next t).Founded known
  | finished _ | dropped => True

theorem Founded.mono (h : j.Founded known) (hk : ∀ l, known l → known' l) : j.Founded known' := by
  cases j with
  | running p held => exact Process.Founded.mono h hk
  | waiting t next held => exact fun t => (h t).mono hk
  | _ => trivial

theorem Founded.advance (h : j.Founded w.inventory.Knows) (hv : w.inventory.Exact) :
    (j.advance w).2.inventory.Exact ∧ w.inventory.Change (j.advance w).2.inventory ∧
      (j.advance w).1.Founded (j.advance w).2.inventory.Knows := by
  cases j with
  | running p held =>
    cases p with
    | done a => exact ⟨hv, .refl _, trivial⟩
    | enter room next => exact ⟨hv, .refl _, h⟩
    | act x next =>
      obtain ⟨hexact, hchange, hshown⟩ := World.perform_exact hv h.1
      refine ⟨hexact, hchange, (h.2 _).mono fun l hl => hchange.knows ?_⟩
      exact hl.elim id (hshown l)
  | waiting t next held =>
    simp only [Job.advance]
    split
    · exact ⟨hv, .refl _, h t⟩
    · exact ⟨hv, .refl _, h⟩
  | finished a => exact ⟨hv, .refl _, trivial⟩
  | dropped => exact ⟨hv, .refl _, trivial⟩

theorem drop_inventory (w : World) (j : Job α) :
    (j.drop w).2.inventory = w.inventory ∧ (j.drop w).1.Founded known := by
  cases j <;> exact ⟨rfl, trivial⟩

variable {κ : Type} {jobs : List (κ × Job α)} {c : κ}

theorem founded_concat {p : Process α} (h : ∀ x ∈ jobs, x.2.Founded known) (hp : p.Founded known) :
    ∀ x ∈ jobs ++ [(c, running p [])], x.2.Founded known := by
  intro x hx
  rcases List.mem_append.mp hx with hx | hx
  · exact h x hx
  · rw [List.mem_singleton.mp hx]
    exact hp

/-- What one call does leaves the others in the know. -/
theorem founded_set {v v' : Inventory} {i : ℕ} (h : ∀ x ∈ jobs, x.2.Founded v.Knows)
    (hchange : v.Change v') (hj : j.Founded v'.Knows) :
    ∀ x ∈ jobs.set i (c, j), x.2.Founded v'.Knows := by
  intro x hx
  rcases List.mem_or_eq_of_mem_set hx with hx | rfl
  · exact (h x hx).mono fun l hl => hchange.knows hl
  · exact hj

end Job

/-- What befalls the world from without leaves the counts as they are. -/
theorem World.exact_turn {w : World} (hv : w.inventory.Exact) (t : Turn) :
    (w.turn t).inventory.Exact ∧ w.inventory.Change (w.turn t).inventory := by
  cases t with
  | race =>
    have hexact : (w.turn .race).inventory.Exact :=
      ⟨⟨hv.counted, hv.ids, hv.uids, hv.requests⟩, hv.ascending, hv.numbered, hv.housed, hv.counts⟩
    exact ⟨hexact, .furnished rfl (List.prefix_refl _) rfl⟩
  | _ => exact ⟨hv, .refl _⟩

namespace Offices

variable {s : Offices} {e : Event (ℕ × Keeper.Call)}

/-- The inventory is exact, and all calls know what they remove. -/
structure Orderly (s : Offices) : Prop where
  inventory : s.world.inventory.Exact
  founded : ∀ x ∈ s.jobs, x.2.Founded s.world.inventory.Knows

theorem orderly_opening (now : Instant) (plans : List Plan) : (opening now plans).Orderly where
  inventory := Inventory.exact_empty
  founded _ hx := absurd hx List.not_mem_nil

/-- What one call does leaves the others in the know. -/
theorem Orderly.update (h : s.Orderly) {f : World → Job Keeper.Reply → Job Keeper.Reply × World}
    {i : ℕ} (hf : ∀ w j, w.inventory.Exact → j.Founded w.inventory.Knows →
      (f w j).2.inventory.Exact ∧ w.inventory.Change (f w j).2.inventory ∧
        (f w j).1.Founded (f w j).2.inventory.Knows) :
    (s.update f i).Orderly ∧ s.world.inventory.Change (s.update f i).world.inventory := by
  unfold Offices.update
  split
  next c j hj =>
    obtain ⟨hexact, hchange, hfounded⟩ := hf { s.world with holds := s.tables c.1 } j h.inventory
      (h.founded _ (List.mem_of_getElem? hj))
    exact ⟨⟨hexact, Job.founded_set h.founded hchange hfounded⟩, hchange⟩
  next => exact ⟨h, .refl _⟩

theorem Orderly.step (h : s.Orderly) (e : Event (ℕ × Keeper.Call)) :
    (s.step e).Orderly ∧ s.world.inventory.Change (s.step e).world.inventory := by
  cases e with
  | start c => exact ⟨⟨h.inventory, Job.founded_concat h.founded (c.2.founded _)⟩, .refl _⟩
  | advance i => exact h.update fun w j hv hj => hj.advance hv
  | drop i =>
    refine h.update (f := Job.drop) (i := i) fun w j hv hj => ?_
    obtain ⟨hsame, hfounded⟩ := j.drop_inventory w
    rw [hsame]
    exact ⟨hv, .refl _, hfounded⟩
  | turn t =>
    obtain ⟨hexact, hchange⟩ := World.exact_turn h.inventory t
    exact ⟨⟨hexact, fun x hx => (h.founded x hx).mono fun l hl => hchange.knows hl⟩, hchange⟩

theorem orderly_run (now : Instant) (plans : List Plan) (es : List (Event (ℕ × Keeper.Call))) :
    ((opening now plans).run es).Orderly := by
  have hrun : ∀ s : Offices, s.Orderly → (s.run es).Orderly := by
    induction es with
    | nil => exact fun s h => h
    | cons e rest ih => exact fun s h => ih _ (h.step e).1
  exact hrun _ (orderly_opening now plans)

/-- However calls to keepers are interleaved, whether or not they keep each other out of a room,
whichever of them are given up on the way and whatever goes wrong with the inventory, every room
counts the locks that are held on it. Whenever a lock goes, its room counts one less. -/
theorem every_lock_counted (now : Instant) (plans : List Plan)
    (es : List (Event (ℕ × Keeper.Call))) :
    ((opening now plans).run es).world.inventory.Exact ∧
      ∀ e, ((opening now plans).run es).world.inventory.Change
        (((opening now plans).run es).step e).world.inventory :=
  ⟨(orderly_run now plans es).inventory, fun e => ((orderly_run now plans es).step e).2⟩

/-- Two offices that do not share a table of holds let the same room for the same nights. -/
def letTwice : List (Event (ℕ × Keeper.Call)) :=
  [.start (0, .addRoom Sample.room), .advance 0, .advance 0, .start (1, .confirm (Sample.order 1)),
    .start (2, .confirm (Sample.order 2))] ++ (List.range 12).map fun k => .advance (1 + k % 2)

example : (((opening Sample.newYear []).run letTwice).world.inventory.rooms.map (·.timesBooked),
    ((opening Sample.newYear []).run letTwice).world.inventory.locks.map (·.uid)) =
      ([2], [Sample.uid 1, Sample.uid 2]) := by
  decide +kernel

end Offices

end Lodging
