import Lodging.Proofs.Keeper.Effect
import Lodging.World.Sample

/-!
Orders to the keeper are as good as carried out one after the other, in the order in which they
take effect. While a run goes on, the orders that have taken effect so far, carried out as wholes,
would have answered the same and led to the same inventory.
-/

namespace Lodging

namespace Keeper

variable {v' : Inventory} {i : ℕ} {p : Point}

/-- An order for a lock or for a release begins, or anything happens but that a call is given up or
that a race is to come. -/
def Orderly : Event Call → Prop
  | .start (.confirm _) | .start (.release ..) | .advance _ => True
  | .turn t => t ≠ .race
  | _ => False

/-- All orders for a lock of one request are for one room. -/
def OneRoom (es : List (Event Call)) : Prop :=
  ∀ n m, .start (.confirm n) ∈ es → .start (.confirm m) ∈ es → n.request = m.request →
    n.room = m.room

/-- An order of calls in which they come to the same if each is carried out as a whole, starting
from a world. It holds all calls that have come to their end, and of the others only such as have
taken effect already. What a call answers is known of those at their end. -/
structure Explains (t : Instant) (start : World) (es : List (Event Call)) (order : List ℕ)
    (replies : List Reply) (w : World) : Prop where
  nodup : order.Nodup
  begun : ∀ i ∈ order, i < ((Scene.opening Call.process start).run es).jobs.length
  complete : ∀ i, ((Scene.opening Call.process start).run es).Finished i → i ∈ order
  timely : order.Pairwise fun i k => ¬ (Scene.opening Call.process start).Precedes es k i
  inTurn : World.inTurn Call.process (order.filterMap fun i =>
      (((Scene.opening Call.process start).run es).jobs[i]?).map Prod.fst) start =
    some (replies, w)
  replies : ∀ (k i : ℕ) (c : Call) (r : Reply), order[k]? = some i →
    ((Scene.opening Call.process start).run es).jobs[i]? = some (c, .finished r) →
    (replies[k]?).map (Reply.dated t) = some (r.dated t)
  inventory : w.inventory.dated t =
    ((Scene.opening Call.process start).run es).world.inventory.dated t

/-- What is known of a stage of orderly calls. -/
structure Steady (es : List (Event Call)) (st : Stage Call Point) : Prop where
  clear : Clear st.point st.stock.inventory
  raced : st.stock.inventory.raced = false
  started : ∀ c ∈ st.calls, .start c ∈ es
  call : ∀ i c, st.calls[i]? = some c → (st.point i).call? = some c
  off : ∀ i, st.calls.length ≤ i → st.point i = .rest
  knows : ∀ i, (st.point i).Knows st.stock.inventory

variable {es : List (Event Call)} {e : Event Call} {st st' : Stage Call Point} {c : Call}

theorem Steady.coherent (h : Steady es st) (hroom : OneRoom es) : Coherent st.point := by
  have hstart : ∀ i c, (st.point i).call? = some c → .start c ∈ es := by
    intro i c hc
    have hlt : i < st.calls.length := by
      refine Nat.lt_of_not_le fun hle => ?_
      rw [h.off i hle] at hc
      cases hc
    have hi := h.call i _ (List.getElem?_eq_getElem hlt)
    rw [hc] at hi
    rw [Option.some.inj hi]
    exact h.started _ (List.getElem_mem hlt)
  exact fun i k n m hi hk => hroom n m (hstart i _ hi) (hstart k _ hk)

theorem Steady.started_concat (h : Steady es st) (hc : c ∈ st.calls) : .start c ∈ es ++ [e] :=
  List.mem_append_left _ (h.started c hc)

theorem Steady.start (h : Steady es st) (hex : script.Exclusive st.point)
    (he : Orderly (.start c)) : Steady (es ++ [.start c])
      ⟨st.stock, st.calls ++ [c], Function.update st.point st.calls.length c.first⟩ where
  clear := h.clear.next hex (.start c)
  raced := h.raced
  started d hd := by
    rcases List.mem_append.mp hd with hd | hd
    · exact h.started_concat hd
    · rw [List.mem_singleton.mp hd]
      exact List.mem_append_right _ (List.mem_singleton_self _)
  call i d hd := by
    change (Function.update st.point st.calls.length c.first i).call? = some d
    -- the new call comes last, and those before it keep their points
    rcases Nat.lt_trichotomy i st.calls.length with hlt | rfl | hgt
    · rw [List.getElem?_append_left hlt] at hd
      rw [Function.update_of_ne (Nat.ne_of_lt hlt)]
      exact h.call i d hd
    · rw [List.getElem?_concat_length] at hd
      obtain rfl := Option.some.inj hd
      rw [Function.update_self]
      cases c <;> first | rfl | cases he
    · have hle : (st.calls ++ [c]).length ≤ i := by
        rw [List.length_append, List.length_singleton]
        omega
      rw [List.getElem?_eq_none hle] at hd
      cases hd
  off i hle := by
    rw [List.length_append, List.length_singleton] at hle
    change Function.update st.point st.calls.length c.first i = .rest
    rw [Function.update_of_ne (by omega)]
    exact h.off i (by omega)
  knows i := by
    change (Function.update st.point st.calls.length c.first i).Knows _
    by_cases hi : i = st.calls.length
    · rw [hi, Function.update_self]
      cases c <;> trivial
    · rw [Function.update_of_ne hi]
      exact h.knows i

theorem Steady.move (h : Steady es st) (hex : script.Exclusive st.point) (hroom : OneRoom es)
    (hi : i < st.calls.length) (hm : Move (st.point i) st.stock.inventory p v') :
    Steady (es ++ [e]) ⟨{ st.stock with inventory := v' }, st.calls, Function.update st.point i p⟩
    where
  clear := h.clear.move hex hm
  raced := hm.raced h.raced
  started _ hc := h.started_concat hc
  call k c hc := by
    change (Function.update st.point i p k).call? = some c
    by_cases hki : k = i
    · subst hki
      rw [Function.update_self]
      exact hm.call?_eq (h.call k c hc)
    · rw [Function.update_of_ne hki]
      exact h.call k c hc
  off k hle := by
    change Function.update st.point i p k = .rest
    rw [Function.update_of_ne (Nat.ne_of_gt (Nat.lt_of_lt_of_le hi hle))]
    exact h.off k hle
  knows k := by
    change (Function.update st.point i p k).Knows v'
    by_cases hki : k = i
    · subst hki
      rw [Function.update_self]
      exact (h.knows k).move h.raced hm
    · have hcall := h.call i _ (List.getElem?_eq_getElem hi)
      rw [Function.update_of_ne hki]
      exact (h.knows k).move_of_ne hki hex (h.coherent hroom) hcall hm

theorem Steady.next (h : Steady es st) (hex : script.Exclusive st.point)
    (hn : script.Next Call.first e st st') (he : Orderly e) (hroom : OneRoom es) :
    Steady (es ++ [e]) st' := by
  have hclear := h.clear.next hex hn
  cases hn with
  | start c => exact h.start hex he
  | move hi hm =>
    obtain ⟨v, hm, rfl⟩ := hm
    exact h.move hex hroom hi hm
  | drop => cases he
  | turn t =>
    have ht : (st.stock.turn t).inventory = st.stock.inventory := by
      cases t with
      | race => exact absurd rfl he
      | _ => rfl
    refine ⟨hclear, ht ▸ h.raced, fun _ => h.started_concat, h.call, h.off, ?_⟩
    intro i
    exact ht ▸ h.knows i
  | idle => exact ⟨hclear, h.raced, fun _ => h.started_concat, h.call, h.off, h.knows⟩

/-- A whole order, carried out when nobody else is about. -/
theorem advance_of_serve {w : World} {c : Call} {r : Reply} (hw : w.Alone)
    (hraced : w.inventory.raced = false) (h : w.inventory.serve w.now c = some (r, v')) :
    ∃ w', c.process.advance w = (.inl r, w') ∧ w'.Alone ∧ w'.inventory = v' := by
  cases c with
  | confirm n =>
    obtain ⟨rfl, rfl⟩ := Prod.mk.inj (Option.some.inj h)
    obtain ⟨w', hadv, hal, hv, -⟩ := advance_confirm n hw hraced
    exact ⟨w', (Process.advance_bind_of_done hadv).trans rfl, hal, hv⟩
  | release room uid =>
    obtain ⟨rfl, rfl⟩ := Prod.mk.inj (Option.some.inj h)
    obtain ⟨w', hadv, hal, hv, -⟩ := advance_release room uid hw
    exact ⟨w', (Process.advance_bind_of_done hadv).trans rfl, hal, hv⟩
  | _ => cases h

/-- The calls that have taken effect, in the order in which they did. Carried out one after the
other they answer the same and lead to the same inventory. -/
structure Lined (t : Instant) (start : World) (es : List (Event Call)) (st : Stage Call Point)
    (order : List ℕ) (replies : List Reply) (w : World) : Prop where
  nodup : order.Nodup
  settled : ∀ i, i ∈ order ↔ (st.point i).reply? ≠ none
  timely : order.Pairwise fun i k => ¬ (Scene.opening Call.process start).Precedes es k i
  inTurn : World.inTurn Call.process (order.filterMap (st.calls[·]?)) start = some (replies, w)
  alone : w.Alone
  replies : order.map (fun i => (st.point i).reply?.map (Reply.dated t)) =
    replies.map fun r => some (r.dated t)
  inventory : w.inventory.dated t = st.stock.inventory.dated t

variable {t : Instant} {start w : World} {order : List ℕ} {replies : List Reply}

theorem Lined.lt_length (h : Lined t start es st order replies w) (hs : Steady es st)
    (hi : i ∈ order) : i < st.calls.length := by
  refine Nat.lt_of_not_le fun hle => ?_
  have hset := (h.settled i).mp hi
  rw [hs.off i hle] at hset
  exact hset rfl

theorem Lined.timely_concat (h : Lined t start es st order replies w) (hs : Steady es st)
    (hlen : ((Scene.opening Call.process start).run es).jobs.length = st.calls.length) :
    order.Pairwise fun i k => ¬ (Scene.opening Call.process start).Precedes (es ++ [e]) k i := by
  apply h.timely.imp_of_mem
  intro i k hi hk hnot hprec
  exact hnot (hprec.of_concat (hlen ▸ h.lt_length hs hi))

/-- An event that settles nothing. -/
theorem Lined.keep (h : Lined t start es st order replies w) (hs : Steady es st)
    (hlen : ((Scene.opening Call.process start).run es).jobs.length = st.calls.length)
    (hreply : ∀ i, (st'.point i).reply? = (st.point i).reply?)
    (hcalls : ∀ i < st.calls.length, st'.calls[i]? = st.calls[i]?)
    (hinv : st'.stock.inventory = st.stock.inventory) :
    Lined t start (es ++ [e]) st' order replies w where
  nodup := h.nodup
  settled i := by
    rw [hreply]
    exact h.settled i
  timely := h.timely_concat hs hlen
  inTurn := by
    rw [List.filterMap_congr fun i hi => hcalls i (h.lt_length hs hi)]
    exact h.inTurn
  alone := h.alone
  replies := by
    rw [← h.replies]
    refine List.map_congr_left fun i _ => ?_
    rw [hreply]
  inventory := by
    rw [hinv]
    exact h.inventory

/-- The event by which a call takes effect. -/
theorem Lined.settle {c : Call} {r : Reply} {now : Instant} {b : Stock}
    (h : Lined t start es st order replies w) (hs : Steady es st)
    (hlen : ((Scene.opening Call.process start).run es).jobs.length = st.calls.length)
    (hnot : ¬ ((Scene.opening Call.process start).run es).Finished i)
    (hc : st.calls[i]? = some c) (hp : (st.point i).reply? = none) (hr : p.reply? = some r)
    (hserve : st.stock.inventory.serve now c = some (r, b.inventory)) :
    ∃ order replies w, Lined t start (es ++ [e])
      ⟨b, st.calls, Function.update st.point i p⟩ order replies w := by
  -- the orders before have led to the same inventory, so this one comes to the same after them
  have hserve' : (w.inventory.serve w.now c).map (fun x => (x.1.dated t, x.2.dated t)) =
      some (r.dated t, b.inventory.dated t) := by
    rw [← Inventory.serve_dated, h.inventory, Inventory.serve_dated now, hserve]
    rfl
  obtain ⟨⟨r', v'⟩, hw, hx⟩ := Option.map_eq_some_iff.mp hserve'
  obtain ⟨hr', hv'⟩ := Prod.mk.inj hx
  have hraced : w.inventory.raced = false :=
    (congrArg Inventory.raced h.inventory).trans hs.raced
  obtain ⟨w', hadv, hal, rfl⟩ := advance_of_serve h.alone hraced hw
  have hi : i ∉ order := fun hi => (h.settled i).mp hi hp
  have hne : ∀ k ∈ order, k ≠ i := fun k hk hki => hi (hki ▸ hk)
  refine ⟨order ++ [i], replies ++ [r'], w', ?_, ?_, ?_, ?_, hal, ?_, hv'⟩
  · refine List.nodup_append.mpr ⟨h.nodup, List.nodup_singleton i, ?_⟩
    intro k hk m hm
    rw [List.mem_singleton.mp hm]
    exact hne k hk
  · intro k
    change k ∈ order ++ [i] ↔ (Function.update st.point i p k).reply? ≠ none
    rw [List.mem_append, List.mem_singleton, h.settled]
    by_cases hki : k = i
    · subst hki
      simp [hr]
    · rw [Function.update_of_ne hki]
      simp [hki]
  · refine List.pairwise_append.mpr ⟨h.timely_concat hs hlen, List.pairwise_singleton .., ?_⟩
    intro k hk m hm
    rw [List.mem_singleton.mp hm]
    -- the call has not come to its end, so it precedes nothing that has begun
    exact fun hprec => hnot (hprec.of_concat (hlen ▸ h.lt_length hs hk)).finished
  · rw [List.filterMap_append]
    have hlast : [i].filterMap (st.calls[·]?) = [c] := by simp [hc]
    rw [hlast]
    exact World.inTurn_concat h.inTurn hadv
  · change (order ++ [i]).map
      (fun k => ((Function.update st.point i p) k).reply?.map (Reply.dated t)) = _
    rw [List.map_append, List.map_append, ← h.replies]
    congr 1
    · refine List.map_congr_left fun k hk => ?_
      rw [Function.update_of_ne (hne k hk)]
    · simp [hr, hr']

theorem Steady.reply?_of_finished {s : Scene Call.process} {c : Call} {r : Reply}
    (hs : Steady es st) (ht : script.Tells Call.Ends s st)
    (hi : s.jobs[i]? = some (c, .finished r)) : (st.point i).reply? = some r := by
  have hends : c.Ends r (st.point i) := (ht.keeps i c _ hi).1
  have hc : st.calls[i]? = some c := by
    rw [ht.calls, List.getElem?_map, hi]
    rfl
  have hcall := hs.call i c hc
  cases c with
  | confirm n =>
    obtain ⟨a, rfl, hp⟩ := hends
    rw [hp]
    rfl
  | release room uid =>
    obtain ⟨a, rfl, hp⟩ := hends
    rw [hp]
    rfl
  | _ => cases hp : st.point i <;> rw [hp] at hcall <;> cases hcall

theorem Lined.next (h : Lined t start es st order replies w) (hs : Steady es st)
    (ht : script.Tells Call.Ends ((Scene.opening Call.process start).run es) st)
    (hn : script.Next Call.first e st st') (he : Orderly e) :
    ∃ order replies w, Lined t start (es ++ [e]) st' order replies w := by
  have hlen : ((Scene.opening Call.process start).run es).jobs.length = st.calls.length := by
    rw [ht.calls, List.length_map]
  cases hn with
  | start c =>
    refine ⟨order, replies, w, h.keep hs hlen ?_ ?_ rfl⟩
    · intro i
      change (Function.update st.point st.calls.length c.first i).reply? = _
      by_cases hi : i = st.calls.length
      · rw [hi, Function.update_self, hs.off _ (Nat.le_refl _)]
        cases c <;> rfl
      · rw [Function.update_of_ne hi]
    · intro i hi
      exact List.getElem?_append_left hi
  | @move _ i p _ hi hm =>
    obtain ⟨v, hm, rfl⟩ := hm
    have hc := List.getElem?_eq_getElem hi
    rcases hm.settles t hs.clear hs.raced (hs.knows i) (hs.call i _ hc) with
      ⟨rfl, hr⟩ | ⟨hnone, now, r, hr, hserve⟩
    · refine ⟨order, replies, w, h.keep hs hlen ?_ (fun _ _ => rfl) rfl⟩
      intro k
      change (Function.update st.point i p k).reply? = _
      by_cases hki : k = i
      · rw [hki, Function.update_self, hr]
      · rw [Function.update_of_ne hki]
    · refine h.settle hs hlen ?_ hc hnone hr hserve
      -- a call at its end would have settled its answer before
      rintro ⟨c, a, hfin⟩
      rw [hs.reply?_of_finished ht hfin] at hnone
      cases hnone
  | drop => cases he
  | turn u =>
    refine ⟨order, replies, w, h.keep hs hlen (fun _ => rfl) (fun _ _ => rfl) ?_⟩
    cases u with
    | race => exact absurd rfl he
    | _ => rfl
  | idle => exact ⟨order, replies, w, h.keep hs hlen (fun _ => rfl) (fun _ _ => rfl) rfl⟩

theorem Lined.explains (h : Lined t start es st order replies w) (hs : Steady es st)
    (ht : script.Tells Call.Ends ((Scene.opening Call.process start).run es) st) :
    Explains t start es order replies w where
  nodup := h.nodup
  begun i hi := by
    have hlt := h.lt_length hs hi
    rwa [ht.calls, List.length_map] at hlt
  complete i hi := by
    obtain ⟨c, r, hfin⟩ := hi
    rw [h.settled, hs.reply?_of_finished ht hfin]
    exact Option.some_ne_none r
  timely := h.timely
  inTurn := by
    rw [← h.inTurn, ht.calls]
    congr 1
    refine List.filterMap_congr fun i _ => ?_
    rw [List.getElem?_map]
  replies k i c r hk hi := by
    -- a call that has finished was told the reply that it was lined up with
    have hkth := congrArg (·[k]?) h.replies
    simp only [List.getElem?_map, hk, Option.map_some, hs.reply?_of_finished ht hi] at hkth
    cases hr : replies[k]? with
    | none =>
      rw [hr] at hkth
      cases hkth
    | some r' =>
      rw [hr] at hkth
      exact (Option.some.inj hkth).symm
  inventory := by
    rw [h.inventory, ht.stock]
    rfl

/-- Orders to the keeper, in whichever way their actions are interleaved, come to the same as if
they were carried out one after the other, in an order in which none stands before another one
that had come to its end before it began. They start from what any calls have made of the world,
with none of those calls under way any more. -/
theorem orders_linearizable (now t : Instant) (before es : List (Event Call))
    (hquiet : ((Scene.opening Call.process (.atTime now)).run before).Quiet)
    (hraced : ((Scene.opening Call.process (.atTime now)).run before).world.inventory.raced = false)
    (horderly : ∀ e ∈ es, Orderly e) (hroom : OneRoom es) :
    ∃ order replies w, Explains t ((Scene.opening Call.process (.atTime now)).run before).world es
      order replies w := by
  obtain ⟨st₀, ht₀, hclear⟩ := exists_clear now before
  rw [ht₀.stock] at hclear
  generalize (Scene.opening Call.process (.atTime now)).run before = past at *
  -- nobody is left in a room, so what follows may be told as if the world had just been opened
  have hvis := ht₀.visitors_of_quiet hquiet
  have hopen : script.Tells Call.Ends (Scene.opening Call.process past.world)
      ⟨past.world.stock, [], fun _ => .rest⟩ :=
    Script.tells_opening ht₀.undisturbed ht₀.sound hvis
  have hsteady : Steady [] ⟨past.world.stock, [], fun _ => .rest⟩ :=
    ⟨clear_rest hclear.sound hclear.apart, hraced,
      fun _ h => absurd h List.not_mem_nil, fun _ _ h => (nomatch h), fun _ _ => rfl,
      fun _ => trivial⟩
  have hlined : Lined t past.world [] ⟨past.world.stock, [], fun _ => .rest⟩ [] [] past.world :=
    ⟨List.nodup_nil, fun i => by simp [Point.reply?], List.Pairwise.nil, rfl,
      ⟨ht₀.undisturbed, ht₀.sound, hvis⟩, rfl, rfl⟩
  obtain ⟨st, ht, hp⟩ := Script.exists_stage_of_run Call.runs Call.inside_first
    (fun es st => (∀ e ∈ es, Orderly e) → OneRoom es →
      Steady es st ∧ ∃ order replies w, Lined t past.world es st order replies w) hopen
    (fun _ _ => ⟨hsteady, [], [], past.world, hlined⟩)
    (fun es e st st' ht hp hn _ horderly hroom => by
      have he : Orderly e := horderly e (List.mem_append_right _ (List.mem_singleton_self e))
      have hroom' : OneRoom es := fun n m hn hm =>
        hroom n m (List.mem_append_left _ hn) (List.mem_append_left _ hm)
      obtain ⟨hs, order, replies, w, hl⟩ :=
        hp (fun e he => horderly e (List.mem_append_left _ he)) hroom'
      exact ⟨hs.next ht.exclusive hn he hroom', hl.next hs ht hn he⟩) es
  obtain ⟨hs, order, replies, w, hl⟩ := hp horderly hroom
  exact ⟨order, replies, w, hl.explains hs ht⟩

/-- Two orders for one room, whose actions alternate. -/
theorem orders_linearizable_of_rivals :
    ∃ order replies w, Explains Sample.newYear
      ((Scene.opening Call.process (.atTime Sample.newYear)).run
        [.start (.addRoom Sample.room), .advance 0, .advance 0]).world
      ([.start (.confirm (Sample.order 1)), .start (.confirm (Sample.order 2))] ++
        Sample.byTurns 18) order replies w := by
  refine orders_linearizable Sample.newYear Sample.newYear _ _ (by decide) rfl ?_ ?_
  · intro e he
    rcases List.mem_append.mp he with he | he
    · simp only [List.mem_cons, List.not_mem_nil, or_false] at he
      rcases he with rfl | rfl <;> trivial
    · obtain ⟨k, -, rfl⟩ := List.mem_map.mp he
      trivial
  · intro n m hn hm _
    simp [Sample.byTurns] at hn hm
    rcases hn with rfl | rfl <;> rcases hm with rfl | rfl <;> rfl

end Keeper

end Lodging
