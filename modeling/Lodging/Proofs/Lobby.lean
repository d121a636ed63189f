import Lodging.Proofs.Slots
import Mathlib.Data.List.Induction

/-!
Runs of a table of holds. Whatever is done in whatever order, nobody is in a room with another one,
all who came for a room stand at the gate of its slot, and whoever comes for a room that nobody is
at gets it at once. A slot is kept for a room exactly as long as someone is at it, unless the last
one there gave up: then nobody takes the slot away.
-/

namespace Lodging.Lobby

variable {s : Lobby} {t u : Ticket} {v w : Visitor} {room : RoomId} {es : List Event} {e : Event}

/-- Those who passed a gate are about, no two of them at one gate, and only they go in. -/
structure Sound (s : Lobby) : Prop where
  holds : s.holds.Sound
  laid : s.holds.Laid
  about : ∀ t ∈ s.passed, ∃ v, s.holds.visitor? t = some v
  single : ∀ v ∈ s.holds.visitors, ∀ w ∈ s.holds.visitors, v.ticket ∈ s.passed →
    w.ticket ∈ s.passed → v.gate = w.gate → v = w
  through : ∀ t ∈ s.inside, t ∈ s.passed

theorem sound_empty : Sound .empty :=
  ⟨Holds.sound_empty, Holds.laid_of_slots rfl, nofun, nofun, nofun⟩

theorem admits_iff : s.admits t = true ↔ ∃ v, s.holds.visitor? t = some v ∧
    ∀ w ∈ s.holds.visitors, w.gate = v.gate → w.ticket ∉ s.passed := by
  unfold admits
  cases s.holds.visitor? t with
  | none => simp
  | some v => simp [Holds.queue, or_iff_not_imp_left]

/-- A ticket that is handed out has passed no gate yet. -/
theorem Sound.newcomer (hs : s.Sound) (room : RoomId) :
    (⟨s.holds.nextTicket⟩ : Ticket) ∉ s.passed := by
  intro hmem
  obtain ⟨v, hv⟩ := hs.about _ hmem
  have hno := hs.holds.not_for_request_ticket room v.room
  rw [Holds.request_ticket] at hno
  exact hno ⟨v, hv, rfl⟩

theorem Sound.lineUp (hs : s.Sound) (room : RoomId) : (s.step (.lineUp room)).Sound := by
  obtain ⟨g, hvis, -⟩ := Holds.request_visitors (h := s.holds) room
  -- among those who have passed there is nobody new
  have hold : ∀ v ∈ (s.holds.request room).2.visitors, v.ticket ∈ s.passed →
      v ∈ s.holds.visitors := by
    intro v hv hpassed
    rw [hvis, List.mem_append, List.mem_singleton] at hv
    rcases hv with hv | rfl
    · exact hv
    · exact absurd hpassed (hs.newcomer room)
  refine ⟨hs.holds.request room, hs.laid.request room, ?_, ?_, hs.through⟩
  · intro t ht
    obtain ⟨v, hv⟩ := hs.about t ht
    exact ⟨v, Holds.visitor?_request hv room⟩
  · intro v hv w hw hvp hwp hgate
    exact hs.single v (hold v hv hvp) w (hold w hw hwp) hvp hwp hgate

theorem Sound.pass (hs : s.Sound) (t : Ticket) : (s.step (.pass t)).Sound := by
  simp only [step]
  split
  next hpass =>
    obtain ⟨x, hx, hfree⟩ := admits_iff.mp hpass
    have hxt : x ∈ s.holds.visitors ∧ x.ticket = t := Holds.visitor?_eq_some hx
    -- nobody at the gate of the one who passes has passed before
    have hone : ∀ v ∈ s.holds.visitors, v.ticket = t → v = x := fun v hv hvt =>
      Rows.eq_of_key hs.holds.distinct hv hxt.1 (hvt.trans hxt.2.symm)
    refine ⟨hs.holds, hs.laid, ?_, ?_, fun u hu => List.mem_cons_of_mem _ (hs.through u hu)⟩
    · intro u hu
      rcases List.mem_cons.mp hu with rfl | hu
      · exact ⟨x, hx⟩
      · exact hs.about u hu
    · intro v hv w hw hvp hwp hgate
      rcases List.mem_cons.mp hvp with hvt | hvp <;> rcases List.mem_cons.mp hwp with hwt | hwp
      · rw [hone v hv hvt, hone w hw hwt]
      · rw [hone v hv hvt] at hgate
        exact absurd hwp (hfree w hw hgate.symm)
      · rw [hone w hw hwt] at hgate
        exact absurd hvp (hfree v hv hgate)
      · exact hs.single v hv w hw hvp hwp hgate
  next => exact hs

theorem Sound.goIn (hs : s.Sound) (t : Ticket) : (s.step (.goIn t)).Sound := by
  simp only [step]
  split
  next hpassed =>
    refine ⟨hs.holds, hs.laid, hs.about, hs.single, fun u hu => ?_⟩
    rcases List.mem_cons.mp hu with rfl | hu
    · exact hpassed.1
    · exact hs.through u hu
  next => exact hs

/-- Someone goes, whichever way, and nobody else has anything to do with it. -/
theorem Sound.without (hs : s.Sound) {h : Holds} {inside : List Ticket} (hh : h.Sound)
    (hl : h.Laid) (hvis : h.visitors = (s.holds.withdraw t).visitors)
    (hin : ∀ u ∈ inside, u ∈ s.inside ∧ u ≠ t) :
    Sound ⟨h, s.passed.filter (· ≠ t), inside⟩ := by
  have hpassed : ∀ u, u ∈ s.passed.filter (· ≠ t) ↔ u ∈ s.passed ∧ u ≠ t := by simp
  have hmem : ∀ v ∈ h.visitors, v ∈ s.holds.visitors := by
    intro v hv
    rw [hvis] at hv
    exact (Holds.mem_withdraw.mp hv).1
  refine ⟨hh, hl, ?_, ?_, ?_⟩
  · intro u hu
    obtain ⟨hup, hut⟩ := (hpassed u).mp hu
    obtain ⟨v, hv⟩ := hs.about u hup
    refine ⟨v, ?_⟩
    have hstill := Holds.visitor?_withdraw hv hut
    unfold Holds.visitor? at hstill ⊢
    rwa [hvis]
  · intro v hv w hw hvp hwp hgate
    exact hs.single v (hmem v hv) w (hmem w hw) ((hpassed _).mp hvp).1 ((hpassed _).mp hwp).1 hgate
  · intro u hu
    obtain ⟨hus, hut⟩ := hin u hu
    exact (hpassed u).mpr ⟨hs.through u hus, hut⟩

theorem Sound.leave (hs : s.Sound) (t : Ticket) : (s.step (.leave t)).Sound := by
  simp only [step]
  split
  next =>
    apply hs.without (hs.holds.leave t) (hs.laid.leave t) (Holds.leave_visitors t)
    intro u hu
    simpa using List.mem_filter.mp hu
  next => exact hs

theorem Sound.giveUp (hs : s.Sound) (t : Ticket) : (s.step (.giveUp t)).Sound := by
  simp only [step]
  split
  next => exact hs
  next hout =>
    apply hs.without (hs.holds.withdraw t) (hs.laid.withdraw t) rfl
    intro u hu
    exact ⟨hu, fun hut => hout (hut ▸ hu)⟩

theorem Sound.step (hs : s.Sound) (e : Event) : (s.step e).Sound := by
  cases e with
  | lineUp room => exact hs.lineUp room
  | pass t => exact hs.pass t
  | goIn t => exact hs.goIn t
  | leave t => exact hs.leave t
  | giveUp t => exact hs.giveUp t

theorem sound_after (es : List Event) : (after es).Sound := by
  induction es using List.reverseRecOn with
  | nil => exact sound_empty
  | append_singleton es e ih =>
    rw [after_concat]
    exact ih.step e

theorem not_forsaken_nil : ¬ Forsaken room [] := by
  rintro ⟨before, t, rest, hes, -⟩
  simp at hes

theorem forsaken_concat : Forsaken room (es ++ [e]) ↔
    (∃ t, e = .giveUp t ∧ (after es).holds.party room = [t] ∧ t ∉ (after es).inside) ∨
      Forsaken room es ∧ e ≠ .lineUp room := by
  constructor
  · rintro ⟨before, t, rest, hes, hparty, hout, hrest⟩
    -- the last event is the one that forsakes the room, or it comes after that
    rcases List.eq_nil_or_concat' rest with rfl | ⟨rest, x, rfl⟩
    · obtain ⟨rfl, he⟩ := List.append_inj' hes rfl
      exact .inl ⟨t, List.singleton_inj.mp he, hparty, hout⟩
    · rw [← List.cons_append, ← List.append_assoc] at hes
      obtain ⟨rfl, he⟩ := List.append_inj' hes rfl
      obtain rfl := List.singleton_inj.mp he
      rw [List.mem_append, List.mem_singleton, not_or] at hrest
      exact .inr ⟨⟨before, t, rest, rfl, hparty, hout, hrest.1⟩, fun he => hrest.2 he.symm⟩
  · rintro (⟨t, rfl, hparty, hout⟩ | ⟨⟨before, t, rest, rfl, hparty, hout, hrest⟩, he⟩)
    · exact ⟨es, t, [], rfl, hparty, hout, List.not_mem_nil⟩
    · refine ⟨before, t, rest ++ [e], ?_, hparty, hout, ?_⟩
      · rw [List.append_assoc, List.cons_append]
      · rw [List.mem_append, List.mem_singleton, not_or]
        exact ⟨hrest, fun h => he h.symm⟩

/-- What an event does to the table. -/
theorem holds_step (s : Lobby) (e : Event) :
    (∃ room, e = .lineUp room ∧ (s.step e).holds = (s.holds.request room).2) ∨
      (∃ t, e = .leave t ∧ (s.step e).holds = s.holds.leave t) ∨
      (∃ t, e = .giveUp t ∧ t ∉ s.inside ∧ (s.step e).holds = s.holds.withdraw t) ∨
      (∀ room, e ≠ .lineUp room) ∧ (∀ t, e = .giveUp t → t ∈ s.inside) ∧
        (s.step e).holds = s.holds := by
  cases e with
  | lineUp room => exact .inl ⟨room, rfl, rfl⟩
  | pass t =>
    refine .inr (.inr (.inr ⟨nofun, nofun, ?_⟩))
    simp only [step]
    split <;> rfl
  | goIn t =>
    refine .inr (.inr (.inr ⟨nofun, nofun, ?_⟩))
    simp only [step]
    split <;> rfl
  | leave t =>
    by_cases hin : t ∈ s.inside
    · refine .inr (.inl ⟨t, rfl, ?_⟩)
      simp only [step, hin, if_true]
    · refine .inr (.inr (.inr ⟨nofun, nofun, ?_⟩))
      simp only [step, hin, if_false]
  | giveUp t =>
    by_cases hin : t ∈ s.inside
    · refine .inr (.inr (.inr ⟨nofun, ?_, ?_⟩))
      · intro u hu
        cases hu
        exact hin
      · simp only [step, hin, if_true]
    · refine .inr (.inr (.inl ⟨t, rfl, hin, ?_⟩))
      simp only [step, hin, if_false]

/-- Nobody is at a forsaken room. -/
theorem party_of_forsaken (h : Forsaken room es) : (after es).holds.party room = [] := by
  induction es using List.reverseRecOn with
  | nil => exact absurd h not_forsaken_nil
  | append_singleton es e ih =>
    rw [after_concat]
    rcases forsaken_concat.mp h with ⟨t, rfl, hparty, hout⟩ | ⟨hbefore, he⟩
    · simp only [step, hout, if_false]
      rw [Holds.party_withdraw, hparty]
      simp
    · -- an empty party only grows when someone lines up for the room
      have hnone := ih hbefore
      rcases holds_step (after es) e with ⟨r, rfl, hh⟩ | ⟨t, rfl, hh⟩ | ⟨t, rfl, -, hh⟩ | ⟨-, -, hh⟩
      · have hr : room ≠ r := fun h => he (h ▸ rfl)
        rw [hh, Holds.party_request, hnone, if_neg hr]
        rfl
      · rw [hh, Holds.party_leave, hnone]
        rfl
      · rw [hh, Holds.party_withdraw, hnone]
        rfl
      · rw [hh, hnone]

/-- A room has a slot if and only if someone is at it or it was forsaken. -/
theorem gate?_ne_none_iff (es : List Event) (room : RoomId) :
    (after es).holds.gate? room ≠ none ↔ (after es).holds.party room ≠ [] ∨ Forsaken room es := by
  induction es using List.reverseRecOn with
  | nil => simp [after, empty, Holds.empty, Holds.gate?, Holds.party, not_forsaken_nil]
  | append_singleton es e ih =>
    have hs := sound_after es
    have hsplit := fun t => Holds.filter_ne_nil_or (hs.holds.nodup_party room) t
    rw [after_concat, forsaken_concat]
    rcases holds_step (after es) e with ⟨r, rfl, hh⟩ | ⟨t, rfl, hh⟩ | ⟨t, rfl, hout, hh⟩ |
      ⟨hno, hgone, hh⟩
    · rw [hh, Holds.gate?_request_ne_none, Holds.party_request, ih]
      by_cases hr : room = r
      · simp [hr]
      · have hne : r ≠ room := fun h => hr h.symm
        simp [hr, hne]
    · -- whoever leaves a room takes the slot along, unless there are others
      rw [hh, hs.holds.gate?_leave hs.laid, Holds.party_leave]
      by_cases hone : (after es).holds.party room = [t]
      · have hbefore : ¬ Forsaken room es := fun hf => by simp [party_of_forsaken hf] at hone
        simp [hone, hbefore]
      · rw [if_neg hone, ih, ← hsplit t]
        simp [hone]
    · -- whoever gives up does not
      have hslots : ((after es).holds.withdraw t).gate? room = (after es).holds.gate? room := rfl
      rw [hh, hslots, ih, Holds.party_withdraw, ← hsplit t]
      simp [hout, or_assoc]
    · have hgiven : ¬ ∃ t, e = .giveUp t ∧ (after es).holds.party room = [t] ∧
          t ∉ (after es).inside := by
        rintro ⟨t, he, -, hout⟩
        exact hout (hgone t he)
      rw [hh, ih]
      simp [hgiven, hno]

/-- The table keeps a slot for a room exactly as long as someone is at it, or after the last one
gave up. So it is empty when nobody is about, unless a room was forsaken. -/
theorem slots_kept_or_forsaken (es : List Event) :
    (∀ room, (after es).holds.gate? room ≠ none ↔
      (after es).holds.party room ≠ [] ∨ Forsaken room es) ∧
    ((after es).holds.visitors = [] →
      ((after es).holds.tracked = 0 ↔ ∀ room, ¬ Forsaken room es)) := by
  refine ⟨gate?_ne_none_iff es, fun hnobody => ?_⟩
  -- where nobody is about, only what was forsaken has a slot
  have hparty : ∀ room, (after es).holds.party room = [] := by
    intro room
    apply Holds.party_eq_nil.mpr
    simp [hnobody]
  have hslot : ∀ room, (after es).holds.gate? room ≠ none ↔ Forsaken room es := by
    intro room
    rw [gate?_ne_none_iff, hparty room]
    simp
  unfold Holds.tracked
  rw [List.length_eq_zero_iff]
  constructor
  · intro hempty room hforsaken
    apply (hslot room).mpr hforsaken
    simp [Holds.gate?, hempty]
  · intro hnone
    apply List.eq_nil_iff_forall_not_mem.mpr
    intro x hx
    exact hnone x.1 ((hslot x.1).mp (Holds.gate?_ne_none hx))

/-- In an orderly run all slots are gone in the end. -/
theorem slots_kept_or_forsaken_of_orderly :
    let es : List Event := [.lineUp ⟨1⟩, .pass ⟨0⟩, .goIn ⟨0⟩, .lineUp ⟨1⟩, .leave ⟨0⟩, .pass ⟨1⟩,
      .goIn ⟨1⟩, .leave ⟨1⟩]
    (after es).holds.visitors = [] ∧ ∀ room, ¬ Forsaken room es :=
  have hnobody : (after [.lineUp ⟨1⟩, .pass ⟨0⟩, .goIn ⟨0⟩, .lineUp ⟨1⟩, .leave ⟨0⟩, .pass ⟨1⟩,
      .goIn ⟨1⟩, .leave ⟨1⟩]).holds.visitors = [] := by decide
  ⟨hnobody, ((slots_kept_or_forsaken _).2 hnobody).mp (by decide)⟩

/-- One holds a room while another one waits, lets go of it, and the other one, who has been let
through meanwhile, gives up. Nobody is about any more, and yet the slot is still there. -/
theorem slot_left_behind :
    let room : RoomId := ⟨1⟩
    let es : List Event := [.lineUp room, .pass ⟨0⟩, .goIn ⟨0⟩, .lineUp room, .leave ⟨0⟩, .pass ⟨1⟩,
      .giveUp ⟨1⟩]
    (after es).holds.visitors = [] ∧ (after es).holds.gate? room ≠ none ∧
      (after es).holds.tracked = 1 := by
  decide

end Lodging.Lobby
