import Lodging.Proofs.Json.Records
import Lodging.World.Documents

/-!
Whatever text is decoded, the value fits the document that it came in: decoders let no number pass
that has more bits than are meant for it, and a record is made of what its fields let pass.
-/

namespace Lodging

/-- What two steps come to was come to by each of them. -/
theorem exists_of_bind_eq_ok {ε α β : Type} {e : Except ε α} {f : α → Except ε β} {b : β}
    (h : e >>= f = .ok b) : ∃ a, e = .ok a ∧ f a = .ok b := by
  cases e with
  | error x => cases h
  | ok a => exact ⟨a, rfl, h⟩

/-- A test that was passed. -/
theorem of_ite_eq_ok {ε α : Type} {p : Bool} {a b : α} {x : ε}
    (h : (if p = true then Except.ok a else .error x) = .ok b) : p = true ∧ a = b := by
  cases p with
  | false => cases h
  | true => exact ⟨rfl, Except.ok.inj h⟩

namespace Decoder

variable {α β : Type} {d : Decoder α} {P : α → Prop} {Q : β → Prop}

/-- Every value that is decoded has a property. -/
def Gives (d : Decoder α) (P : α → Prop) : Prop := ∀ n a, d n = .ok a → P a

theorem Gives.map {f : α → β} (h : d.Gives P) (hf : ∀ a, P a → Q (f a)) :
    Gives (fun n => do return f (← d n)) Q := by
  intro n b hb
  obtain ⟨a, ha, hb⟩ := exists_of_bind_eq_ok hb
  cases hb
  exact hf a (h n a ha)

theorem gives_filter (d : Decoder α) (p : α → Bool) : (d.filter p).Gives fun a => p a = true := by
  intro n a ha
  obtain ⟨b, -, hb⟩ := exists_of_bind_eq_ok ha
  obtain ⟨hp, rfl⟩ := of_ite_eq_ok hb
  exact hp

theorem gives_int64 : int64.Gives fun i => Decimal.fits64 i = true := gives_filter _ _

theorem gives_nat (bits : Nat) : (nat bits).Gives fun k => k < Decimal.capacity bits := by
  refine Gives.map (gives_filter _ _) fun i hi => ?_
  have hbounds := of_decide_eq_true hi
  omega

theorem Gives.nullable (h : d.Gives P) : d.nullable.Gives fun o => ∀ a ∈ o, P a := by
  have hsome : Gives (fun n => do return some (← d n)) fun o => ∀ a ∈ o, P a := by
    refine Gives.map h fun a ha b hb => ?_
    cases hb
    exact ha
  intro n o ho
  cases n with
  | null =>
    cases ho
    exact fun a ha => absurd ha.symm (Option.some_ne_none a)
  | bool b => exact hsome _ o ho
  | number k => exact hsome _ o ho
  | text s => exact hsome _ o ho
  | unpaired => exact hsome .unpaired o ho
  | array items closed => exact hsome _ o ho
  | object entries closed => exact hsome _ o ho
  | broken => exact hsome .broken o ho

theorem Gives.list (h : d.Gives P) : d.list.Gives fun as => ∀ a ∈ as, P a := by
  have hitems : ∀ (ns : List Node) (as : List α), ns.mapM d = .ok as → ∀ a ∈ as, P a := by
    intro ns
    induction ns with
    | nil =>
      intro as has
      cases has
      exact fun a ha => absurd ha List.not_mem_nil
    | cons n rest ih =>
      intro as has
      rw [List.mapM_cons] at has
      obtain ⟨b, hb, has⟩ := exists_of_bind_eq_ok has
      obtain ⟨bs, hbs, has⟩ := exists_of_bind_eq_ok has
      cases has
      intro a ha
      rcases List.mem_cons.mp ha with rfl | ha
      · exact h n a hb
      · exact ih bs hbs a ha
  intro n as has
  cases n with
  | array items closed =>
    obtain ⟨bs, hbs, has⟩ := exists_of_bind_eq_ok has
    obtain ⟨-, rfl⟩ := of_ite_eq_ok has
    exact hitems items bs hbs
  | _ => cases has

end Decoder

namespace Record

variable {α β : Type} {r : Record α} {P : α → Prop} {Q : β → Prop} {d : Decoder α}
  {name : String}

/-- Every record that is built has a property. -/
def Gives (r : Record α) (P : α → Prop) : Prop := ∀ found a, r.build found = .ok a → P a

theorem Gives.seq {f : Record (α → β)} (hf : f.Gives fun g => ∀ a, P a → Q (g a))
    (hr : r.Gives P) : (f <*> r).Gives Q := by
  intro found b hb
  obtain ⟨g, hg, hb⟩ := exists_of_bind_eq_ok hb
  obtain ⟨a, ha, hb⟩ := exists_of_bind_eq_ok hb
  cases hb
  exact hf found g hg a (hr found a ha)

theorem Gives.map {f : α → β} (hr : r.Gives P) (hf : ∀ a, P a → Q (f a)) : (f <$> r).Gives Q := by
  refine Gives.seq (f := Record.pure f) (fun found g hg => ?_) hr
  cases hg
  exact hf

theorem gives_field (h : d.Gives P) : (field name d).Gives P := by
  intro found a ha
  simp only [field] at ha
  split at ha
  next n _ => exact h n a ha
  next => cases ha

theorem gives_nullable (h : d.Gives P) : (nullable name d).Gives fun o => ∀ a ∈ o, P a := by
  intro found o ho
  simp only [nullable] at ho
  split at ho
  next n _ => exact h.nullable n o ho
  next =>
    cases ho
    exact fun a ha => absurd ha.symm (Option.some_ne_none a)

theorem gives_defaulted {value : α} (h : d.Gives P) (hvalue : P value) :
    (defaulted name d value).Gives P := by
  intro found a ha
  simp only [defaulted] at ha
  split at ha
  next n _ => exact h n a ha
  next =>
    cases ha
    exact hvalue

theorem gives_true (r : Record α) : r.Gives fun _ => True := fun _ _ _ => trivial

/-- However a record is written, it is built of its fields. -/
theorem Gives.decoder (hr : r.Gives P) : r.decoder.Gives P := by
  have hbuild : ∀ (found : List (String × Node)) (closed : Bool) (a : α),
      (if closed = true then r.build found else throw .malformed) = .ok a → P a := by
    intro found closed a ha
    cases closed with
    | false => cases ha
    | true => exact hr found a ha
  intro n a ha
  cases n with
  | object entries closed =>
    obtain ⟨found, -, ha⟩ := exists_of_bind_eq_ok ha
    exact hbuild found closed a ha
  | array items closed =>
    obtain ⟨found, -, ha⟩ := exists_of_bind_eq_ok ha
    exact hbuild found closed a ha
  | _ => cases ha

end Record

namespace Wire

open Decoder (gives_int64 gives_nat)
open Record (Gives gives_field gives_nullable gives_defaulted)
open Bounded (Fits)

/-- A text that is read has a root that is decoded, and nothing behind it. -/
theorem read_eq_ok {α : Type} [Wire α] {s : String} {a : α} (h : read s = .ok a) :
    decode (Document.ofText s).root = .ok a ∧ (Document.ofText s).alone = true := by
  obtain ⟨b, hb, hab⟩ := exists_of_bind_eq_ok h
  obtain ⟨halone, rfl⟩ := of_ite_eq_ok hab
  exact ⟨hb, halone⟩

theorem read_of_alone {α : Type} [Wire α] {s : String} (h : (Document.ofText s).alone = true) :
    read (α := α) s = decode (Document.ofText s).root := by
  unfold read Document.decode
  rw [h]
  cases decode (α := α) (Document.ofText s).root <;> rfl

theorem gives_roomId : (decode (α := RoomId)).Gives Fits := Decoder.Gives.map gives_int64 fun _ => id

theorem gives_hotelId : (decode (α := HotelId)).Gives fun id => Decimal.fits64 id.number = true :=
  Decoder.Gives.map gives_int64 fun _ => id

theorem gives_bookingId :
    (decode (α := BookingId)).Gives fun id => Decimal.fits64 id.number = true :=
  Decoder.Gives.map gives_int64 fun _ => id

theorem gives_problem : (decode (α := Problem)).Gives Fits := by
  refine Gives.decoder (Gives.seq (Gives.seq (Gives.seq (Gives.seq (Gives.seq (Gives.map
    (Record.gives_true _) ?_) (gives_field (gives_nat 16))) (Record.gives_true _))
    (Record.gives_true _)) (Record.gives_true _)) (Record.gives_true _))
  intro timestamp _ status hstatus code _ message _ path _ correlation _
  exact hstatus

theorem gives_roomSummary : (decode (α := RoomSummary)).Gives Fits := by
  refine Gives.decoder (Gives.seq (Gives.seq (Gives.seq (Gives.seq (Gives.map
    (gives_field gives_roomId) ?_) (gives_field gives_hotelId)) (Record.gives_true _))
    (Record.gives_true _)) (gives_defaulted gives_int64 (by decide)))
  intro id hid hotel hhotel number _ available _ timesBooked htimes
  exact ⟨hid, hhotel, htimes⟩

theorem gives_room : (decode (α := Room)).Gives Fits := by
  refine Gives.decoder (Gives.seq (Gives.seq (Gives.seq (Gives.seq (Gives.map
    (gives_field gives_roomId) ?_) (gives_field gives_hotelId)) (Record.gives_true _))
    (Record.gives_true _)) (gives_field gives_int64))
  intro id hid hotel hhotel number _ operational _ timesBooked htimes
  exact ⟨hid, hhotel, htimes⟩

theorem gives_lock : (decode (α := Lock)).Gives Fits := by
  refine Gives.decoder (Gives.seq (Gives.seq (Gives.seq (Gives.seq (Gives.seq (Gives.map
    (gives_field gives_int64) ?_) (gives_field gives_roomId)) (Record.gives_true _))
    (Record.gives_true _)) (Record.gives_true _)) (Record.gives_true _))
  intro id hid room hroom stay _ uid _ request _ createdAt _
  exact ⟨hid, hroom⟩

theorem gives_bookingSummary : (decode (α := BookingSummary)).Gives Fits := by
  refine Gives.decoder (Gives.seq (Gives.seq (Gives.seq (Gives.seq (Gives.seq (Gives.map
    (gives_field gives_bookingId) ?_) (Record.gives_true _)) (gives_field gives_roomId))
    (Record.gives_true _)) (Record.gives_true _)) (Record.gives_true _))
  intro id hid uid _ room hroom arrival _ departure _ status _
  exact ⟨hid, hroom⟩

theorem gives_bookingRequest : (decode (α := BookingRequest)).Gives Fits := by
  refine Gives.decoder (Gives.seq (Gives.seq (Gives.seq (Gives.map (Record.gives_true _) ?_)
    (Record.gives_true _)) (Record.gives_true _)) (gives_nullable gives_roomId))
  intro arrival _ departure _ anyRoom _ room hroom
  exact hroom

theorem gives_page {α : Type} [Wire α] [Bounded α] (h : (decode (α := α)).Gives Fits) :
    (decode (α := Page α)).Gives Fits := by
  refine Gives.decoder (Gives.seq (Gives.seq (Gives.seq (Gives.map (gives_field h.list) ?_)
    (gives_field (gives_nat 32))) (gives_field (gives_nat 32))) (gives_field (gives_nat 64)))
  intro content hcontent page hpage size hsize total htotal
  exact ⟨hcontent, hpage, hsize, htotal⟩

end Wire

end Lodging
