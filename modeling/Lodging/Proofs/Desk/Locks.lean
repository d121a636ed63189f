import Lodging.Proofs.Desk.Accounts

/-!
How the locks of bookings appear and go, and which orders are still under way. A lock is placed by
the order that makes the booking, and goes when an order that works on the booking releases the
room.
-/

namespace Lodging

theorem Keeper.Move.lock_of_placed {n : NewLock} {a : Placement} {k : Point} {v v' : Inventory}
    (h : Keeper.Move k v (.placed n (.ok a)) v') : ∃ l ∈ v'.locks, l.request = n.request := by
  cases h with
  | repeated hl => exact ⟨_, Inventory.lockByRequest?_eq_some hl⟩
  | insert now => exact ⟨_, List.mem_append_right _ (List.mem_singleton_self _), rfl⟩
  | found hl => exact ⟨_, Inventory.lockByRequest?_eq_some hl⟩

/-- A call that has released a room leaves no lock for the booking. -/
theorem Keeper.Move.gone_of_removed {k : Point} {v v' : Inventory} {room : RoomId} {uid : Uid}
    {r : Except RoomFailure Removal} (h : Keeper.Move k v (.removed room uid r) v') (hs : v.Sound)
    (hfound : ∀ m, k = .removing room uid m → m ∈ v.locks ∧ m.uid = uid ∧ m.room = room)
    (hl : ∀ l ∈ v.locks, l.uid = uid → l.room = room ∧ v.room? room ≠ none) : ¬ v'.HasLock uid := by
  rintro ⟨l, hmem, hu⟩
  cases h with
  | noSuchRoom hr => exact (hl l hmem hu).2 hr
  | nothing hn => exact Inventory.lockByUid?_eq_none.mp hn l hmem hu
  | elsewhere hf hne =>
    obtain ⟨hm, hmu⟩ := Inventory.lockByUid?_eq_some hf
    exact hne (hl _ hm hmu).1
  | delete =>
    obtain ⟨hm, hmu, -⟩ := hfound _ rfl
    obtain ⟨hmem, hid⟩ := Inventory.mem_withoutLock.mp hmem
    obtain rfl := hs.eq_of_uid hmem hm (hu.trans hmu.symm)
    exact hid rfl
  | gone hg =>
    obtain ⟨hm, -, -⟩ := hfound _ rfl
    exact hg _ hm rfl

namespace Desk

variable {st : Stage Call Point} {s s' : Stock} {i k : ℕ} {p p' : Point} {b c : Booking}
  {r : RequestId} {e : Errand} {l : Lock} {uid : Uid}

theorem Accounts.uid_eq_iff (h : Accounts st) {b' : Booking} (hb : (st.point i).row? = some b')
    (hc : c ∈ st.stock.ledger.bookings) : c.id = b'.id ↔ c.uid = b'.uid := by
  obtain ⟨d, hd, hsame⟩ := h.known i b' hb
  constructor
  · intro hid
    rw [h.ledger.eq_of_id hc hd (hid.trans hsame.id_eq.symm)]
    exact hsame.uid_eq
  · intro huid
    rw [h.ledger.eq_of_uid hc hd (huid.trans hsame.uid_eq.symm)]
    exact hsame.id_eq

/-- What becomes of a booking that an order knows. -/
theorem Accounts.row_cases (ha : Accounts st) (hm : Move (st.point i) st.stock p s')
    (hb : (st.point k).row? = some b) (hc : c ∈ s'.ledger.bookings) (hu : c.uid = b.uid) :
    c ∈ st.stock.ledger.bookings ∨
      ∃ d ∈ st.stock.ledger.bookings, d.Same c ∧ Shift (st.point i) d c.status p := by
  rcases hm.row_cases hc with hc | ⟨hf, -, -⟩ | hd
  · exact .inl hc
  · obtain ⟨d, hd, hsame⟩ := ha.known k b hb
    exact absurd (hsame.uid_eq.trans hu.symm) (ha.fresh i c.uid hf d hd)
  · exact .inr hd

/-- An order that begins knows no booking yet. -/
theorem Accounts.point_start (ha : Accounts st) {c : Call} {q : Point} (hq : q.row? = some b) :
    Function.update st.point st.calls.length c.first k = q ↔ st.point k = q := by
  by_cases hk : k = st.calls.length
  · subst hk
    rw [Function.update_self, ha.off _ (Nat.le_refl _)]
    constructor
    · rintro rfl
      cases c <;> cases hq
    · rintro rfl
      cases hq
  · rw [Function.update_of_ne hk]

theorem Accounts.fresh_unlocked (ha : Accounts st) (hf : (st.point i).fresh? = some uid) :
    ¬ st.stock.inventory.HasLock uid := by
  rintro ⟨l, hl, hu⟩
  obtain ⟨c, hc, hcu, -⟩ := ha.covered l hl
  exact ha.fresh i uid hf c hc (hcu.trans hu)

theorem Move.lock_of_secured (h : Move p s (.securing b r e) s') (hf : p.Fits)
    (he : e.Ended true) : ∃ l ∈ s'.inventory.locks, l.request = r := by
  have hfit := h.fits hf
  cases h with
  | insert => cases he
  | secure h =>
    cases h with
    | deny => cases he
    | go => cases he
    | again => cases he
    | @keeper k k' _ _ hk =>
      cases k' with
      | placed n x =>
        cases x with
        | error f => cases he
        | ok a =>
          obtain ⟨l, hl, hr⟩ := hk.lock_of_placed
          injection Option.some.inj hfit with hn
          refine ⟨l, hl, ?_⟩
          rw [hr, hn]
          rfl
      | removed => cases hfit
      | _ => cases he

/-- A lock goes when the order that works on its booking releases the room. -/
theorem Accounts.unlocks (h : Accounts st) (hm : Move (st.point i) st.stock p s')
    (hl : l ∈ st.stock.inventory.locks) : l ∈ s'.inventory.locks ∨
      s'.ledger = st.stock.ledger ∧ ∃ b, b.uid = l.uid ∧
        p.keeper = .removed b.room b.uid (.ok .released) ∧
        ((∃ e r, st.point i = .undoing b r e) ∧ (∃ e r, p = .undoing b r e) ∨
          (∃ e, st.point i = .releasing b e) ∧ ∃ e, p = .releasing b e) := by
  rcases hm.unlocks (h.fits i) hl with hl' | ⟨hled, b, m, hk, hid, hk', hp⟩
  · exact .inl hl'
  · obtain ⟨hmem, hu, -⟩ := h.clear.found i b.room b.uid m hk
    obtain rfl := h.clear.sound.eq_of_id hl hmem hid
    exact .inr ⟨hled, b, hu.symm, hk', hp⟩

theorem Accounts.housed_move (ha : Accounts st) (hm : Move (st.point i) st.stock p s')
    (h : st.stock.inventory.Housed) : s'.inventory.Housed := by
  intro l hl
  rcases hm.locks (ha.fits i) hl with hl | ⟨-, b, r, -, -, hroom, -, -, hr, -⟩
  · exact hm.serves? (h l hl)
  · apply hm.serves?
    rw [hroom]
    exact fun hn => hr (Inventory.serves?_eq_none.mp hn)

/-- An order that has released a room leaves no lock for the booking. -/
theorem Accounts.gone_of_removed (ha : Accounts st) (h : st.stock.inventory.Housed)
    (hm : Move (st.point i) st.stock p s')
    (ha' : Accounts ⟨s', st.calls, Function.update st.point i p⟩) (hb : p.row? = some b)
    {x : Except RoomFailure Keeper.Removal} (hk : p.keeper = .removed b.room b.uid x) :
    ¬ s'.inventory.HasLock b.uid := by
  rcases hm.keeper_cases with ⟨k, k', hw, hmove, hled⟩ | ⟨-, hdoor⟩
  · obtain ⟨rfl, rfl⟩ := hw.keeper
    rw [hk] at hmove
    apply hmove.gone_of_removed ha.clear.sound (ha.clear.found i b.room b.uid)
    intro l hl hu
    obtain ⟨c, hc, hsame⟩ := ha'.known i b (by
      change (Function.update st.point i p i).row? = some b
      rwa [Function.update_self])
    obtain ⟨d, hd, hdu, hdr, -⟩ := ha.covered l hl
    have hcd : d.uid = c.uid := calc
      d.uid = l.uid := hdu
      _ = b.uid := hu
      _ = c.uid := hsame.uid_eq.symm
    have hc : c ∈ st.stock.ledger.bookings := by rwa [← hled]
    obtain rfl := ha.ledger.eq_of_uid hd hc hcd
    have hroom : l.room = b.room := hdr.symm.trans hsame.room_eq
    exact ⟨hroom, fun hn => h l hl (Inventory.serves?_eq_none.mpr (hroom ▸ hn))⟩
  · rw [Point.AtDoor, hk] at hdoor
    rcases hdoor with hdoor | ⟨n, hdoor⟩ | ⟨room, uid, hdoor⟩ <;> cases hdoor

theorem underWay_of_row {x : Scene Call.process} (ht : script.Tells Call.Ends x st)
    (hr : (st.point i).row? = some b) (hs : st.point i ≠ .stale b) :
    ∃ c j, x.jobs[i]? = some (c, j) ∧ j.underWay = true := by
  have hlt : i < x.jobs.length := by
    refine Nat.lt_of_not_le fun hle => ?_
    rw [ht.off i hle] at hr
    cases hr
  obtain ⟨c, j, hj, hk⟩ := ht.of_lt hlt
  refine ⟨c, j, hj, ?_⟩
  cases j with
  | running p held => rfl
  | waiting t next held => rfl
  | dropped =>
    rw [show st.point i = .rest from hk] at hr
    cases hr
  | finished a =>
    obtain ⟨hends, -⟩ := hk
    cases c with
    | create policy user q r today uid =>
      rcases hends with hp | hp | hp <;> rw [hp] at hr <;> cases hr
    | cancel policy id user r =>
      rcases hends with hp | ⟨b', hp, -⟩ <;> rw [hp] at hr
      · cases hr
      · obtain rfl := Option.some.inj hr
        exact absurd hp hs

/-- When no order is under way, those that know a booking have failed with it. -/
theorem stale_of_row_of_quiet {x : Scene Call.process} (ht : script.Tells Call.Ends x st)
    (hquiet : x.Quiet) (hr : (st.point i).row? = some b) : st.point i = .stale b := by
  by_contra hs
  obtain ⟨c, j, hj, hup⟩ := underWay_of_row ht hr hs
  rw [hquiet _ (List.mem_of_getElem? hj)] at hup
  cases hup

theorem furnished_locks (rooms : List NewRoom) : (Inventory.furnished rooms).Sound ∧
    (Inventory.furnished rooms).locks = [] ∧ (Inventory.furnished rooms).raced = false := by
  have hall : ∀ v : Inventory, v.locks = [] → v.raced = false →
      (rooms.foldl (fun v n => (v.insertRoom n).2) v).locks = [] ∧
        (rooms.foldl (fun v n => (v.insertRoom n).2) v).raced = false := by
    induction rooms with
    | nil => exact fun v hv hr => ⟨hv, hr⟩
    | cons n rest ih => exact fun v hv hr => ih _ hv hr
  obtain ⟨hnil, hraced⟩ := hall .empty rfl rfl
  refine ⟨⟨?_, ?_, ?_, ?_⟩, hnil, hraced⟩ <;>
    rw [show (Inventory.furnished rooms).locks = [] from hnil]
  · exact fun l hl => absurd hl List.not_mem_nil
  · exact List.nodup_nil
  · exact List.nodup_nil
  · exact List.nodup_nil

theorem tells_furnished (now : Instant) (rooms : List NewRoom) :
    script.Tells Call.Ends (Scene.opening Call.process (.furnished now rooms))
      ⟨(World.furnished now rooms).stock, [], fun _ => .rest⟩ :=
  Script.tells_opening ⟨rfl, rfl⟩ Holds.sound_empty rfl

theorem accounts_furnished (now : Instant) (rooms : List NewRoom) :
    Accounts ⟨(World.furnished now rooms).stock, [], fun _ => .rest⟩ :=
  accounts_opening (furnished_locks rooms).1 (furnished_locks rooms).2.1 none none

/-- The accounts stay in order in every run, and so does what each event preserves of them. -/
theorem accounts_run {x : Scene Call.process} {P : List (Event Call) → Stage Call Point → Prop}
    (ht : script.Tells Call.Ends x st) (ha : Accounts st) (h0 : P [] st)
    (hstep : ∀ es e st st', script.Tells Call.Ends (x.run es) st → Accounts st → Accounts st' →
      Distinct st.calls → script.Next Call.first e st st' →
      script.Tells Call.Ends (x.run (es ++ [e])) st' → P es st → P (es ++ [e]) st')
    (es : List (Event Call)) (hdistinct : Distinct ((x.run es).jobs.map Prod.fst)) :
    ∃ st, script.Tells Call.Ends (x.run es) st ∧ Accounts st ∧ P es st := by
  obtain ⟨st, ht, hst⟩ := Script.exists_stage_of_run Call.runs Call.inside_first
    (fun es st => Distinct st.calls → Accounts st ∧ P es st) ht (fun _ => ⟨ha, h0⟩)
    (fun es e st st' ht hp hn ht' hd => by
      obtain ⟨ha, hP⟩ := hp (hd.of_next hn)
      have ha' := ha.next hd ht.exclusive hn
      exact ⟨ha', hstep es e st st' ht ha ha' (hd.of_next hn) hn ht' hP⟩) es
  exact ⟨st, ht, hst (ht.calls ▸ hdistinct)⟩

theorem exists_accounts (now : Instant) (rooms : List NewRoom) (es : List (Event Call))
    (hdistinct : Distinct (((Scene.opening Call.process (.furnished now rooms)).run es).jobs.map
      Prod.fst)) :
    ∃ st, script.Tells Call.Ends ((Scene.opening Call.process (.furnished now rooms)).run es) st ∧
      Accounts st := by
  obtain ⟨st, ht, ha, -⟩ := accounts_run (P := fun _ _ => True) (tells_furnished now rooms)
    (accounts_furnished now rooms) trivial (fun _ _ _ _ _ _ _ _ _ _ _ => trivial) es hdistinct
  exact ⟨st, ht, ha⟩

end Desk

end Lodging
