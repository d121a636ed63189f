import Lodging.Proofs.Contest.Standing
import Lodging.Proofs.House

/-!
Rivalry for a room. Whatever the bids do, and in whichever order, the inventory and the ledger stand
as the bids themselves tell: this holds at first, and every move of a bid keeps it.
-/

namespace Lodging.Desk

/-- Of rivals, those who come first are so too. -/
theorem Rivals.of_append {room : RoomId} {w : World} {xs ys : List (Bid room)}
    (h : Rivals w (xs ++ ys)) : Rivals w xs where
  requests := h.requests.sublist ((List.sublist_append_left xs ys).map _)
  uids := h.uids.sublist ((List.sublist_append_left xs ys).map _)
  overlap x hx y hy := h.overlap x (List.mem_append_left _ hx) y (List.mem_append_left _ hy)
  unclaimed x hx := h.unclaimed x (List.mem_append_left _ hx)
  unlocked x hx := h.unlocked x (List.mem_append_left _ hx)
  vacant x hx := h.vacant x (List.mem_append_left _ hx)

namespace Contest

variable {room : RoomId} {w : World} {st st' : Stage (Bid room) (Point room)} {s s' : Stock}
  {i k : ℕ} {p q : Point room} {x y : Bid room} {b : Booking}

/-- How a contest stands that began in a world. -/
structure Standing (w : World) (st : Stage (Bid room) (Point room)) : Prop where
  planned : ∀ o, st.stock.planned o = none
  bids : ∀ i, (st.point i).bid? = st.calls[i]?
  fits : ∀ i, (st.point i).Fits
  contended : Contended w.inventory st.point st.stock.inventory
  booked : Booked w.ledger st.point st.stock.ledger

theorem Standing.mem (h : Standing w st) (hx : (st.point i).bid? = some x) : x ∈ st.calls := by
  rw [h.bids] at hx
  exact List.mem_of_getElem? hx

theorem Standing.eq_of_key {γ : Type} (h : Standing w st) {f : Bid room → γ}
    (hf : (st.calls.map f).Nodup) (hi : (st.point i).bid? = some x)
    (hk : (st.point k).bid? = some y) (hxy : f x = f y) : i = k := by
  rw [h.bids] at hi hk
  have hlt : i < (st.calls.map f).length := by
    rw [List.length_map]
    exact (List.getElem?_eq_some_iff.mp hi).1
  apply (List.getElem?_inj hlt hf).mp
  rw [List.getElem?_map, List.getElem?_map, hi, hk, Option.map_some, Option.map_some, hxy]

/-- Whose booking it is. -/
theorem Standing.owner (h : Standing w st) (hi : (st.point i).row? = some b) :
    ∃ y, (st.point i).bid? = some y ∧ b.uid = y.uid := by
  obtain ⟨y, t, hy, hb⟩ := (h.fits i).of_row? hi
  refine ⟨y, hy, ?_⟩
  rw [hb]
  rfl

theorem Standing.row_unique (h : Standing w st) (hr : Rivals w st.calls)
    (hi : (st.point i).row? = some b) (hk : (st.point k).row? = some b) : k = i := by
  obtain ⟨x, hx, hbx⟩ := h.owner hi
  obtain ⟨y, hy, hby⟩ := h.owner hk
  exact h.eq_of_key hr.uids hy hx (hby.symm.trans hbx)

theorem Standing.won_unique (h : Standing w st) (hr : Rivals w st.calls) (hi : (st.point i).Won)
    (hk : (st.point k).Won) : i = k := by
  obtain ⟨x, hx⟩ := hi.bid?
  obtain ⟨y, hy⟩ := hk.bid?
  obtain ⟨t, ht⟩ := h.contended.taken i x hi hx
  obtain ⟨u, hu⟩ := h.contended.taken k y hk hy
  apply h.eq_of_key hr.uids hx hy
  -- the last lock in the inventory is of both
  have hlocks : w.inventory.locks ++ [w.inventory.newLock t x.lock] =
      w.inventory.locks ++ [w.inventory.newLock u y.lock] := by
    have hinv := congrArg Inventory.locks (ht.symm.trans hu)
    exact hinv
  have hlock := List.singleton_inj.mp (List.append_cancel_left hlocks)
  exact congrArg Lock.uid hlock

theorem Standing.serves? (h : Standing w st) (hw : w.inventory.serves? room = some true) :
    st.stock.inventory.serves? room = some true := by
  by_cases hex : ∃ k, (st.point k).Won
  · obtain ⟨k, hk⟩ := hex
    obtain ⟨y, hy⟩ := hk.bid?
    obtain ⟨t, ht⟩ := h.contended.taken k y hk hy
    rw [ht, Inventory.serves?_withLock]
    exact hw
  · rw [h.contended.vacant fun k hk => hex ⟨k, hk⟩]
    exact hw

/-- As long as a bid has not locked the room, there is no lock for it. -/
theorem Standing.unlocked (h : Standing w st) (hr : Rivals w st.calls)
    (hi : ¬ (st.point i).Won) (hx : (st.point i).bid? = some x) :
    ∀ l ∈ st.stock.inventory.locks, l.uid ≠ x.uid ∧ l.request ≠ x.request := by
  have hold := hr.unlocked x (h.mem hx)
  by_cases hex : ∃ k, (st.point k).Won
  · obtain ⟨k, hk⟩ := hex
    obtain ⟨y, hy⟩ := hk.bid?
    obtain ⟨t, ht⟩ := h.contended.taken k y hk hy
    have hki : k ≠ i := by
      rintro rfl
      exact hi hk
    intro l hl
    rw [ht, Inventory.withLock_locks] at hl
    rcases List.mem_append.mp hl with hl | hl
    · exact hold l hl
    · rw [List.mem_singleton.mp hl]
      refine ⟨fun hu => ?_, fun hq => ?_⟩
      · exact hki (h.eq_of_key hr.uids hy hx hu)
      · exact hki (h.eq_of_key hr.requests hy hx hq)
  · rw [h.contended.vacant fun k hk => hex ⟨k, hk⟩]
    exact hold

/-- The room is free for any bid until one has locked it, and then for none. -/
theorem Standing.overlapping (h : Standing w st) (hr : Rivals w st.calls)
    (hx : (st.point i).bid? = some x) :
    st.stock.inventory.overlapping room x.stay = [] ↔ ∀ k, ¬ (st.point k).Won := by
  constructor
  · intro hfree k hk
    obtain ⟨y, hy⟩ := hk.bid?
    obtain ⟨t, ht⟩ := h.contended.taken k y hk hy
    have hmem : w.inventory.newLock t y.lock ∈ st.stock.inventory.locks := by
      rw [ht, Inventory.withLock_locks]
      exact List.mem_append_right _ (List.mem_singleton_self _)
    have hno : y.stay.overlaps x.stay = false :=
      Inventory.overlapping_eq_nil.mp hfree _ hmem rfl
    have hyes := hr.overlap y (h.mem hy) x (h.mem hx)
    rw [hno] at hyes
    cases hyes
  · intro hno
    rw [h.contended.vacant hno]
    exact hr.vacant x (h.mem hx)

/-- What has to be said of a move. -/
theorem Standing.to (h : Standing w st) (hi : st.point i = q) (hbid : p.bid? = q.bid?) (hp : p.Fits)
    (hs : ∀ o, s'.planned o = st.stock.planned o)
    (hc : Contended w.inventory (Function.update st.point i p) s'.inventory)
    (hb : Booked w.ledger (Function.update st.point i p) s'.ledger) :
    Standing w ⟨s', st.calls, Function.update st.point i p⟩ where
  planned o := (hs o).trans (h.planned o)
  bids := (Function.forall_update_iff st.point fun k q => q.bid? = st.calls[k]?).mpr
    ⟨hbid.trans (hi ▸ h.bids i), fun k _ => h.bids k⟩
  fits := (Function.forall_update_iff st.point fun _ q => q.Fits).mpr ⟨hp, fun k _ => h.fits k⟩
  contended := hc
  booked := hb

/-- A move that changes nothing but the point of a bid. -/
theorem Standing.look (h : Standing w st) (hi : st.point i = q) (hp : p.Fits)
    (hbid : p.bid? = q.bid?) (hrow : p.row? = q.row?) (haccepted : p.accepted? = q.accepted?)
    (hwon : p.Won ↔ q.Won) (hfree : ∀ n, p.keeper = .free n → ∀ k, ¬ (st.point k).Won)
    (hlost : p.Lost → q.Lost ∨ ∃ k, (st.point k).Won) :
    Standing w ⟨st.stock, st.calls, Function.update st.point i p⟩ := by
  refine h.to hi hbid hp (fun _ => rfl) ?_ ?_
  · exact h.contended.keep hi hwon (fun _ => hbid) (fun n hn => .inr (hfree n hn)) hlost
  · exact h.booked.keep hi hrow fun x hx => haccepted.trans hx

theorem Standing.secure {e e' : Errand} (h : Standing w st) (hr : Rivals w st.calls)
    (hw : w.inventory.serves? room = some true) (hex : (script room).Exclusive st.point)
    (hi : st.point i = .securing x b e)
    (hm : Errand.Move .confirm (.wants (lockFor b x.request)) e st.stock e' s') :
    Standing w ⟨s', st.calls, Function.update st.point i (.securing x b e')⟩ := by
  have hfits := h.fits i
  rw [hi] at hfits
  have hb := hfits.1
  have he := hfits.2
  have hlock : lockFor b x.request = x.lock := by rw [hb]; rfl
  have hbid : (st.point i).bid? = some x := by rw [hi]; rfl
  have hnot : ¬ (Point.securing x b e).Won := by
    rw [Point.won_iff_ended hfits]
    exact hm.not_ended
  cases hm with
  | deny hf =>
    rw [h.planned] at hf
    cases hf
  | go =>
    exact h.look hi ⟨hb, hlock⟩ rfl rfl rfl Iff.rfl (fun n hn => (by cases hn)) fun hl => hl.elim
  | again =>
    exact h.look hi ⟨hb, trivial⟩ rfl rfl rfl (iff_of_false id hnot) (fun n hn => (by cases hn))
      fun hl => hl.elim
  | @keeper k k' _ v hk =>
    -- the keeper knows nothing of this bid, so all depends on whether another one has won
    have hno := h.unlocked hr (hi ▸ hnot) hbid
    obtain ⟨hk', hprogress⟩ := Bids.move he (h.serves? hw) hno h.contended.raced hk
    have hover := h.overlapping hr hbid
    have hp : (Point.securing x b (.on k')).Fits := ⟨hb, hk'⟩
    cases hprogress with
    | look hplaced hfree =>
      -- nothing is decided yet
      have hopen : ¬ (Point.securing x b (.on k')).Won ∧ ¬ (Point.securing x b (.on k')).Lost := by
        cases k' with
        | placed n r => exact absurd rfl (hplaced n r)
        | _ => exact ⟨id, id⟩
      refine h.look hi hp rfl rfl rfl (iff_of_false hopen.1 hnot) ?_ fun hl => absurd hl hopen.2
      intro n hn
      exact hover.mp (hfree n hn)
    | down hne =>
      -- the lock in the way can only be that of another bid
      have hex : ∃ k, (st.point k).Won := by
        by_contra hno
        exact hne (hover.mpr fun k hk => hno ⟨k, hk⟩)
      exact h.look hi hp rfl rfl rfl (iff_of_false id hnot) (fun n hn => (by cases hn))
        fun _ => .inr hex
    | lock now l =>
      have hfree : (st.point i).keeper = .free x.lock := by rw [hi]; rfl
      refine h.to hi rfl hp (fun o => by cases o <;> rfl) ?_ ?_
      · exact h.contended.win h.fits hex hfree trivial rfl
      · exact h.booked.keep hi rfl fun y hy => hy

theorem Standing.undo {f : BookingFailure} {e e' : Errand} (h : Standing w st)
    (hr : Rivals w st.calls) (hw : w.inventory.serves? room = some true)
    (hi : st.point i = .undoing x b f e)
    (hm : Errand.Move .release (.wantsOut b.room b.uid) e st.stock e' s') :
    Standing w ⟨s', st.calls, Function.update st.point i (.undoing x b f e')⟩ := by
  have hfits := h.fits i
  rw [hi] at hfits
  obtain ⟨hb, hf, he⟩ := hfits
  have hbid : (st.point i).bid? = some x := by rw [hi]; rfl
  have hnot : ¬ (st.point i).Won := by
    rw [hi]
    exact id
  -- the release finds no lock of this bid, so nothing changes but its point
  have hstay : (Point.undoing x b f e').Fits → (∀ n, e'.keeper ≠ .free n) →
      Standing w ⟨st.stock, st.calls, Function.update st.point i (.undoing x b f e')⟩ :=
    fun hp hfree => h.look hi hp rfl rfl rfl Iff.rfl (fun n hn => absurd hn (hfree n)) .inl
  cases hm with
  | deny hf =>
    rw [h.planned] at hf
    cases hf
  | go =>
    refine hstay ⟨hb, hf, ?_⟩ fun n hn => by cases hn
    rw [hb]
    exact ⟨rfl, rfl⟩
  | again => exact hstay ⟨hb, hf, trivial⟩ fun n hn => by cases hn
  | @keeper k k' _ v hk =>
    have hserves : st.stock.inventory.serves? room ≠ none := by
      rw [h.serves? hw]
      exact Option.some_ne_none true
    have hno : ∀ l ∈ st.stock.inventory.locks, l.uid ≠ x.uid :=
      fun l hl => (h.unlocked hr hnot hbid l hl).1
    obtain ⟨hk', rfl⟩ := Leaves.move he hserves hno hk
    refine hstay ⟨hb, hf, hk'⟩ ?_
    rintro n rfl
    exact hk'

theorem Standing.move (h : Standing w st) (hr : Rivals w st.calls) (hl : w.ledger.Numbered)
    (hw : w.inventory.serves? room = some true) (hex : (script room).Exclusive st.point)
    (hm : Move (st.point i) st.stock p s') :
    Standing w ⟨s', st.calls, Function.update st.point i p⟩ := by
  have hfits := h.fits i
  generalize hi : st.point i = q at hm hfits
  -- the booking that a bid knows is in the ledger, and no other bid knows it
  have hknown : ∀ {b}, q.row? = some b → st.stock.ledger.booking? b.id = some b ∧
      ∀ k, (st.point k).row? = some b → k = i := by
    intro b hb
    rw [← hi] at hb
    exact ⟨(h.booked.booking? hb).2, fun k hk => h.row_unique hr hb hk⟩
  have hplanned : ∀ (l : Ledger) o, { st.stock with ledger := l }.planned o =
      st.stock.planned o := fun l o => by cases o <;> rfl
  cases hm with
  | @accept x _ hx =>
    refine h.to hi rfl trivial (hplanned _) ?_ ?_
    · exact h.contended.keep hi Iff.rfl (fun hp => hp.elim) (fun n hn => (by cases hn))
        fun hp => hp.elim
    · have hbooked := h.booked.keep (p := .accepted x) hi rfl fun y hy => (by cases hy)
      refine hbooked.accept (i := i) (x := x) ?_ rfl
      rw [Function.update_self]
      rfl
  | @refuse x _ hx =>
    -- the request is new, and no other bid carries it
    have hbid : (st.point i).bid? = some x := by rw [hi]; rfl
    rcases h.booked.requests _ hx with hx | ⟨k, y, hy, hxy⟩
    · exact absurd hx (hr.unclaimed x (h.mem hbid))
    · obtain rfl := h.eq_of_key hr.requests hbid (Point.bid?_of_accepted? hy) hxy.symm
      rw [hi] at hy
      cases hy
  | insert x now _ =>
    refine h.to hi rfl ⟨rfl, trivial⟩ (hplanned _) ?_ ?_
    · exact h.contended.keep hi Iff.rfl (fun hp => hp.elim) (fun n hn => (by cases hn))
        fun hp => hp.elim
    · exact h.booked.insert hi rfl rfl fun y hy => hy
  | secure hm => exact h.secure hr hw hex hi hm
  | undo hm => exact h.undo hr hw hi hm
  | @fail x b e f _ he =>
    obtain ⟨hlost, hf⟩ := Point.lost_of_failed hfits he
    have hnot : ¬ (Point.securing x b e).Won := fun hwon => hwon.not_lost hlost
    exact h.look hi ⟨hfits.1, hf⟩ rfl rfl rfl (iff_of_false id hnot) (fun n hn => (by cases hn))
      fun _ => .inl hlost
  | @confirm x b c e _ he hb hc =>
    obtain ⟨hsome, honly⟩ := hknown rfl
    obtain rfl : b = c := Option.some.inj (hsome.symm.trans hb)
    have hp : (Point.confirmed x { b with status := .confirmed }).Fits := by
      change _ = _
      rw [hfits.1]
      rfl
    have hwon : (Point.securing x b e).Won := (Point.won_iff_ended hfits).mpr he
    refine h.to hi rfl hp (hplanned _) ?_ ?_
    · exact h.contended.keep hi (iff_of_true trivial hwon) (fun _ => rfl)
        (fun n hn => (by cases hn)) fun hp => hp.elim
    · exact h.booked.moved hl hi rfl honly rfl fun y hy => hy
  | @cancel x b c f _ hb hc =>
    obtain ⟨hsome, honly⟩ := hknown rfl
    obtain rfl : b = c := Option.some.inj (hsome.symm.trans hb)
    refine h.to hi rfl ⟨hfits.1, hfits.2, trivial⟩ (hplanned _) ?_ ?_
    · exact h.contended.keep hi Iff.rfl (fun hp => hp.elim) (fun n hn => (by cases hn))
        fun _ => .inl trivial
    · exact h.booked.moved hl hi rfl honly rfl fun y hy => hy
  -- nobody else moves the booking of a bid on
  | @overtaken x b e _ he hno =>
    refine absurd ?_ (hno b (hknown rfl).1)
    rw [hfits.1]
    rfl
  | @lost x b f _ hno =>
    refine absurd ?_ (hno b (hknown rfl).1)
    rw [hfits.1]
    rfl

/-- A bid that begins has not done anything yet. -/
theorem Standing.start (h : Standing w st) (x : Bid room) : Standing w
    ⟨st.stock, st.calls ++ [x], Function.update st.point st.calls.length (.asking x)⟩ := by
  have hrest : st.point st.calls.length = .rest := by
    have hnone := h.bids st.calls.length
    rw [List.getElem?_eq_none (Nat.le_refl _)] at hnone
    cases hp : st.point st.calls.length with
    | rest => rfl
    | _ =>
      rw [hp] at hnone
      cases hnone
  refine ⟨h.planned, ?_, ?_, ?_, ?_⟩
  · refine (Function.forall_update_iff st.point fun k q => q.bid? = (st.calls ++ [x])[k]?).mpr ?_
    refine ⟨List.getElem?_concat_length.symm, fun k hk => ?_⟩
    rw [h.bids, List.getElem?_append]
    split
    next => rfl
    next hlt =>
      have hgt : 1 ≤ k - st.calls.length := by omega
      rw [List.getElem?_eq_none (by omega), List.getElem?_eq_none hgt]
  · exact (Function.forall_update_iff st.point fun _ q => q.Fits).mpr
      ⟨trivial, fun k _ => h.fits k⟩
  · exact h.contended.keep hrest Iff.rfl (fun hp => hp.elim) (fun n hn => (by cases hn))
      fun hp => hp.elim
  · exact h.booked.keep hrest rfl fun y hy => (by cases hy)

theorem Standing.next {ev : Event (Bid room)} (h : Standing w st) (hr : Rivals w st.calls)
    (hl : w.ledger.Numbered) (hw : w.inventory.serves? room = some true)
    (hex : (script room).Exclusive st.point) (hc : ev.Calm)
    (hn : (script room).Next .asking ev st st') : Standing w st' := by
  cases hn with
  | start x => exact h.start x
  | move hi hm => exact h.move hr hl hw hex hm
  | drop hi => cases hc
  | turn t =>
    cases t with
    | clock now => exact h
    | _ => cases hc
  | idle => exact h

/-- No move of a bid takes a lock away. -/
theorem Standing.locks_move (h : Standing w st) (hm : Move (st.point i) st.stock p s') {l : Lock}
    (hl : l ∈ st.stock.inventory.locks) : l ∈ s'.inventory.locks := by
  have hfits := h.fits i
  generalize st.point i = q at hm hfits
  -- nobody comes to a point from which a lock is removed
  have herrand : ∀ {o : Operation} {first : Keeper.Point} {e e' : Errand} {s s' : Stock},
      Errand.Move o first e s e' s' → (∀ u v m, e ≠ .on (.removing u v m)) →
        l ∈ s.inventory.locks → l ∈ s'.inventory.locks := by
    intro o first e e' s s' hm hno hl
    cases hm with
    | keeper hk =>
      rcases hk.inventory_cases with rfl | ⟨n, -, -, rfl⟩ | ⟨n, now, -, -, -, rfl, -⟩ |
        ⟨u, v, m, rfl, -⟩
      · exact hl
      · exact hl
      · exact List.mem_append_left _ hl
      · exact absurd rfl (hno u v m)
    | _ => exact hl
  cases hm with
  | secure hm =>
    refine herrand hm ?_ hl
    rintro u v m rfl
    exact hfits.2
  | undo hm =>
    refine herrand hm ?_ hl
    rintro u v m rfl
    exact hfits.2.2
  | _ => exact hl

theorem Standing.locks_next {ev : Event (Bid room)} (h : Standing w st) (hc : ev.Calm)
    (hn : (script room).Next .asking ev st st') {l : Lock} (hl : l ∈ st.stock.inventory.locks) :
    l ∈ st'.stock.inventory.locks := by
  cases hn with
  | start x => exact hl
  | move hi hm => exact h.locks_move hm hl
  | drop hi => cases hc
  | turn t =>
    cases t with
    | clock now => exact hl
    | _ => cases hc
  | idle => exact hl

theorem standing_opening (hraced : w.inventory.raced = false) (hconfirm : w.confirmFailure = none)
    (hrelease : w.releaseFailure = none) (hl : w.ledger.Numbered) :
    Standing w (⟨w.stock, [], fun _ => .rest⟩ : Stage (Bid room) (Point room)) where
  planned o := by
    cases o with
    | recommend => rfl
    | confirm => exact hconfirm
    | release => exact hrelease
  bids _ := rfl
  fits _ := trivial
  contended := ⟨hraced, fun _ _ hi => hi.elim, fun _ => rfl, fun _ _ hi => (by cases hi),
    fun _ hi => hi.elim⟩
  booked := ⟨hl, Int.le_refl _, ⟨[], (List.append_nil _).symm⟩,
    fun b => ⟨.inl, fun hb => hb.elim id fun ⟨_, hi⟩ => by cases hi⟩, fun _ _ hi => (by cases hi),
    fun _ hr => .inl hr⟩

theorem Standing.lost_eq_nil {t : Scene (@Bid.process room)} {ev : Event (Bid room)}
    (h : Standing w st) (hc : ev.Calm) (hn : (script room).Next .asking ev st st')
    (ht : (script room).Tells Ends t st) (ht' : (script room).Tells Ends (t.step ev) st') :
    t.lost ev = [] := by
  refine List.filter_eq_nil_iff.mpr fun l hl => ?_
  have hold : l ∈ st.stock.inventory.locks := by
    rw [ht.stock]
    exact hl
  have hnew := h.locks_next hc hn hold
  rw [ht'.stock] at hnew
  simp only [decide_eq_true_eq, not_not]
  exact hnew

/-- In a house in which nothing goes wrong, every run of rivals is told by a stage that stands well,
and takes no lock away. -/
theorem exists_standing (hw : House.Ready w) (hroom : w.inventory.serves? room = some true)
    (es : List (Event (Bid room))) (hcalm : ∀ e ∈ es, e.Calm)
    (hr : Rivals w (es.filterMap Event.begun?)) :
    ∃ st, (script room).Tells Ends ((contest room w).run es) st ∧
      st.calls = es.filterMap Event.begun? ∧ Standing w st ∧
        (contest room w).trail Scene.lost es = [] := by
  obtain ⟨hundisturbed, hsound, hvisitors, hnumbered⟩ := hw.tidy
  have hrun : ∀ x, (script room).Runs [] (Ends x) (.asking x) x.process := Contest.runs
  have hopening : (script room).Tells Ends (contest room w) ⟨w.stock, [], fun _ => .rest⟩ :=
    Script.tells_opening hundisturbed hsound hvisitors
  have hstanding : Standing w ⟨w.stock, [], fun _ => (.rest : Point room)⟩ :=
    standing_opening hw.raced hw.confirmFailure hw.releaseFailure hnumbered
  -- parts of a calm run of rivals are calm runs of rivals
  obtain ⟨st, ht, hst⟩ := Script.exists_stage_of_run hrun (fun _ => rfl)
    (fun es st => (∀ e ∈ es, e.Calm) → Rivals w st.calls →
      Standing w st ∧ (contest room w).trail Scene.lost es = [])
    hopening (fun _ _ => ⟨hstanding, rfl⟩) (fun es e st st' ht hst hn ht' hcalm hr => by
      obtain ⟨rest, hcalls⟩ := hn.calls
      rw [hcalls] at hr
      have he : e.Calm := hcalm e (List.mem_append_right _ (List.mem_singleton_self e))
      obtain ⟨hstands, htrail⟩ := hst (fun e he => hcalm e (List.mem_append_left _ he)) hr.of_append
      refine ⟨hstands.next hr.of_append hnumbered hroom ht.exclusive he hn, ?_⟩
      rw [Scene.run_concat] at ht'
      rw [Scene.trail_concat, htrail, hstands.lost_eq_nil he hn ht ht', List.append_nil]) es
  have hcalls : st.calls = es.filterMap Event.begun? := by
    rw [ht.calls, Scene.calls_run]
    rfl
  obtain ⟨hstands, htrail⟩ := hst hcalm (hcalls ▸ hr)
  exact ⟨st, ht, hcalls, hstands, htrail⟩

end Contest

end Lodging.Desk
