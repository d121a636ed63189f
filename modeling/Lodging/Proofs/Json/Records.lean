import Lodging.Proofs.Json.Reading
import Lodging.Proofs.Rows
import Lodging.World.Likeness

/-!
Values that come back from their JSON. A value is faithful if its decoder makes it of the node that
its own text is read as; records are faithful whose fields are.
-/

namespace Lodging

namespace Json

theorem nodes_eq_map (js : List Json) : nodes js = js.map node := by
  induction js with
  | nil => rfl
  | cons j r ih => rw [nodes, ih, List.map_cons]

theorem entries_eq_map (fs : List (String × Json)) :
    entries fs = (fs.map fun f => (f.1, f.2.node)).map fun e => (some e.1, e.2) := by
  induction fs with
  | nil => rfl
  | cons f r ih =>
    obtain ⟨k, j⟩ := f
    rw [entries, ih]
    rfl

end Json

namespace Decoder

theorem spelled_text {α : Type} {read : String → Option α} {s : String} {a : α}
    (h : read s = some a) : spelled read (.text s) = .ok a := by
  have htext : text (.text s) = .ok s := rfl
  unfold spelled
  rw [htext]
  simp only [bind, Except.bind, h]
  rfl

end Decoder

namespace Record

variable {α β : Type} {es found : List (String × Node)} {name : String} {n : Node} {a : α}

theorem lookup_of_mem {e : String × Node} (h : (es.map Prod.fst).Nodup) (he : e ∈ es) :
    es.lookup e.1 = some e.2 := by
  induction es with
  | nil => cases he
  | cons x rest ih =>
    rw [List.map_cons, List.nodup_cons] at h
    rcases List.mem_cons.mp he with rfl | he
    · rw [List.lookup_cons, beq_self_eq_true]
    · have hne : e.1 ≠ x.1 := fun heq => h.1 (List.mem_map.mpr ⟨e, he, heq⟩)
      have hbeq : (e.1 == x.1) = false := by simpa using hne
      rw [List.lookup_cons, hbeq]
      exact ih h.2 he

/-- Known fields of different names, each with a node that passes its check, are all found. -/
theorem gather_declared {fields : List Field}
    (hcheck : ∀ e ∈ es, ∃ f, fields.find? (fun f => f.name = e.1) = some f ∧ f.check e.2 = .ok ())
    (hnew : ∀ e ∈ es, found.lookup e.1 = none) (hnames : (es.map Prod.fst).Nodup) :
    gather fields (es.map fun e => (some e.1, e.2)) found = .ok (es.reverse ++ found) := by
  induction es generalizing found with
  | nil => rfl
  | cons e rest ih =>
    obtain ⟨key, n⟩ := e
    obtain ⟨f, hf, hn⟩ := hcheck (key, n) List.mem_cons_self
    have hkey : found.lookup key = none := hnew (key, n) List.mem_cons_self
    rw [List.map_cons, List.nodup_cons] at hnames
    -- those behind have other names, so none of them is found twice
    have hlater : ∀ e ∈ rest, ((key, n) :: found).lookup e.1 = none := by
      intro e he
      have hne : e.1 ≠ key := fun h => hnames.1 (List.mem_map.mpr ⟨e, he, h⟩)
      have hbeq : (e.1 == key) = false := by simpa using hne
      rw [List.lookup_cons, hbeq]
      exact hnew e (List.mem_cons_of_mem _ he)
    have hrest := ih (fun e he => hcheck e (List.mem_cons_of_mem _ he)) hlater hnames.2
    rw [List.map_cons, gather]
    simp only [hf, hkey, Option.isSome_none, Bool.false_eq_true, if_false, hn]
    rw [List.reverse_cons, List.append_assoc]
    exact hrest

/-- Fields have nodes that pass their checks, and of which the record is built. -/
structure Meets (r : Record α) (es : List (String × Node)) (a : α) : Prop where
  check : ∀ f ∈ r.fields, ∃ n, (f.name, n) ∈ es ∧ f.check n = .ok ()
  build : ∀ found, (∀ e ∈ es, found.lookup e.1 = some e.2) → r.build found = .ok a

theorem meets_pure (a : α) : (Record.pure a).Meets es a := ⟨nofun, fun _ _ => rfl⟩

theorem Meets.seq {f : Record (α → β)} {r : Record α} {g : α → β} (hf : f.Meets es g)
    (hr : r.Meets es a) : (f <*> r).Meets es (g a) := by
  constructor
  · intro d hd
    rcases List.mem_append.mp hd with hd | hd
    · exact hf.check d hd
    · exact hr.check d hd
  · intro found hfound
    change (do
      let g ← f.build found
      let a ← r.build found
      return g a) = _
    rw [hf.build found hfound, hr.build found hfound]
    rfl

theorem Meets.map {r : Record α} (hr : r.Meets es a) (g : α → β) : (g <$> r).Meets es (g a) :=
  Meets.seq (meets_pure g) hr

theorem meets_field {d : Decoder α} (hmem : (name, n) ∈ es) (hd : d n = .ok a) :
    (field name d).Meets es a := by
  constructor
  · intro f hf
    obtain rfl := List.mem_singleton.mp hf
    exact ⟨n, hmem, by simp only [hd]; rfl⟩
  · intro found hfound
    simp only [field, hfound (name, n) hmem, hd]

theorem meets_defaulted {d : Decoder α} (value : α) (hmem : (name, n) ∈ es) (hd : d n = .ok a) :
    (defaulted name d value).Meets es a := by
  constructor
  · intro f hf
    obtain rfl := List.mem_singleton.mp hf
    exact ⟨n, hmem, by simp only [hd]; rfl⟩
  · intro found hfound
    simp only [defaulted, hfound (name, n) hmem, hd]

/-- A record is made of an object that names its fields in their order. -/
theorem Meets.decode {r : Record α} (fs : List (String × Json))
    (hr : r.Meets (fs.map fun f => (f.1, f.2.node)) a)
    (hnames : fs.map Prod.fst = r.fields.map (·.name)) (hnodup : (r.fields.map (·.name)).Nodup) :
    r.decoder (Json.object fs).node = .ok a := by
  have hkeys : (fs.map fun f => (f.1, f.2.node)).map Prod.fst = r.fields.map (·.name) := by
    rw [List.map_map]
    exact hnames
  have hcheck : ∀ e ∈ fs.map fun f => (f.1, f.2.node), ∃ f,
      r.fields.find? (fun f => f.name = e.1) = some f ∧ f.check e.2 = .ok () := by
    intro e he
    have hname : e.1 ∈ r.fields.map (·.name) := hkeys ▸ List.mem_map_of_mem he
    obtain ⟨f, hf, hfe⟩ := List.mem_map.mp hname
    obtain ⟨n, hn, hok⟩ := hr.check f hf
    -- names tell the fields apart, and the nodes as well
    have hnode : (f.name, n) = e := Rows.eq_of_key (hkeys ▸ hnodup) hn he hfe
    refine ⟨f, ?_, ?_⟩
    · rw [← hfe]
      exact Rows.find?_of_mem hnodup hf
    · rw [← hnode]
      exact hok
  have hnew : ∀ e ∈ fs.map fun f => (f.1, f.2.node),
      ([] : List (String × Node)).lookup e.1 = none := fun _ _ => rfl
  have hgather := gather_declared hcheck hnew (hkeys ▸ hnodup)
  rw [Json.node, Json.entries_eq_map, decoder, hgather, List.append_nil]
  apply hr.build
  intro e he
  have hmem : e ∈ (fs.map fun f => (f.1, f.2.node)).reverse := List.mem_reverse.mpr he
  have hreverse : ((fs.map fun f => (f.1, f.2.node)).reverse.map Prod.fst).Nodup := by
    rw [List.map_reverse, hkeys]
    exact List.nodup_reverse.mpr hnodup
  exact lookup_of_mem hreverse hmem

end Record

namespace Wire

variable {α : Type}

/-- A value that is decoded as it was encoded. -/
def Faithful [Wire α] (a : α) : Prop := decode (encode a).node = .ok a

/-- A faithful value is read from its text. -/
theorem read_write [Wire α] {a : α} (h : Faithful a) : read (write a) = .ok a := by
  unfold read write
  rw [Document.ofText_compact]
  unfold Document.decode
  rw [h]
  rfl

theorem faithful_text (s : String) : Faithful s := rfl

theorem faithful_bool (b : Bool) : Faithful b := rfl

theorem faithful_int {i : Int} (h : Decimal.fits64 i = true) : Faithful i := by
  change Decoder.int64 (.number (.ofInt i)) = .ok i
  unfold Decoder.int64 Decoder.filter Decoder.int Decoder.ofOption
  simp only [Numeral.int?_ofInt]
  change (if Decimal.fits64 i = true then _ else _) = _
  rw [if_pos h]
  rfl

theorem faithful_date (d : Date) : Faithful d := Decoder.spelled_text (Date.ofText?_text d)

theorem faithful_uid (u : Uid) : Faithful u := Decoder.spelled_text (Uid.ofText?_text u)

theorem faithful_requestId (r : RequestId) : Faithful r := rfl

theorem decode_number {f : Int → α} {i : Int} (h : Decimal.fits64 i = true) :
    (f <$> Decoder.int64 (.number (.ofInt i)) : Except DecodeFailure α) = .ok (f i) := by
  have hint : Decoder.int64 (.number (.ofInt i)) = .ok i := faithful_int h
  rw [hint]
  rfl

theorem faithful_roomId {id : RoomId} (h : Decimal.fits64 id.number = true) : Faithful id :=
  decode_number h

theorem faithful_hotelId {id : HotelId} (h : Decimal.fits64 id.number = true) : Faithful id :=
  decode_number h

theorem faithful_list [Wire α] {as : List α} (h : ∀ a ∈ as, Faithful a) : Faithful as := by
  have hitems : ∀ as : List α, (∀ a ∈ as, Faithful a) →
      ((as.map encode).map Json.node).mapM (decode (α := α)) = .ok as := by
    intro as
    induction as with
    | nil => exact fun _ => rfl
    | cons a rest ih =>
      intro hall
      have ha : decode (encode a).node = .ok a := hall a List.mem_cons_self
      rw [List.map_cons, List.map_cons, List.mapM_cons, ha,
        ih fun b hb => hall b (List.mem_cons_of_mem _ hb)]
      rfl
  change Decoder.list decode (Json.array (as.map encode)).node = .ok as
  rw [Json.node, Json.nodes_eq_map]
  unfold Decoder.list
  simp only [hitems as h]
  rfl

theorem faithful_lockOrder (o : LockOrder) : Faithful o := by
  refine Record.Meets.decode [("startDate", encode o.arrival),
    ("endDate", encode o.departure), ("bookingId", encode o.uid), ("requestId", encode o.request)]
    ?_ rfl (by decide)
  refine Record.Meets.seq (Record.Meets.seq (Record.Meets.seq
    (Record.Meets.map ?_ LockOrder.mk) ?_) ?_) ?_
  · exact Record.meets_field (by simp) (faithful_date o.arrival)
  · exact Record.meets_field (by simp) (faithful_date o.departure)
  · exact Record.meets_field (by simp) (faithful_uid o.uid)
  · exact Record.meets_field (by simp) (faithful_requestId o.request)

theorem faithful_roomSummary {r : RoomSummary} (h : r.Fits) : Faithful r := by
  refine Record.Meets.decode [("id", encode r.id), ("hotelId", encode r.hotel),
    ("number", encode r.number), ("available", encode r.available),
    ("timesBooked", encode r.timesBooked)] ?_ rfl (by decide)
  refine Record.Meets.seq (Record.Meets.seq (Record.Meets.seq (Record.Meets.seq
    (Record.Meets.map ?_ RoomSummary.mk) ?_) ?_) ?_) ?_
  · exact Record.meets_field (by simp) (faithful_roomId h.id)
  · exact Record.meets_field (by simp) (faithful_hotelId h.hotel)
  · exact Record.meets_field (by simp) (faithful_text r.number)
  · exact Record.meets_field (by simp) (faithful_bool r.available)
  · exact Record.meets_defaulted 0 (by simp) (faithful_int h.timesBooked)

end Wire

end Lodging
