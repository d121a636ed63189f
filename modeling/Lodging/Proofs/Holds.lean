import Lodging.Proofs.Rows
import Lodging.Rooms.Holds

/-!
Exclusive holds. In a sound table everyone lines up for a room at the one gate to which its slot
leads, so no two owners of different tickets have the same room, and neither newcomers nor others
who go take a room away from its owner.
-/

namespace Lodging.Holds

variable {h : Holds} {t u : Ticket} {a b : Visitor}

/-- Everyone stands at the gate of the slot of the room, under a ticket of their own. -/
structure Sound (h : Holds) : Prop where
  gate : ∀ v ∈ h.visitors, h.gate? v.room = some v.gate
  fresh : ∀ v ∈ h.visitors, v.ticket.number < h.nextTicket
  distinct : (h.visitors.map (·.ticket)).Nodup

theorem sound_empty : Sound .empty := ⟨nofun, nofun, List.nodup_nil⟩

/-- The ticket is for a room. -/
def For (h : Holds) (t : Ticket) (room : RoomId) : Prop :=
  ∃ v, h.visitor? t = some v ∧ v.room = room

theorem visitor?_eq_some (hv : h.visitor? t = some a) : a ∈ h.visitors ∧ a.ticket = t :=
  Rows.of_find?_eq_some hv

theorem granted_iff : h.granted t = true ↔
    ∃ v, h.visitor? t = some v ∧ (h.queue v.gate).head? = some v := by
  unfold granted
  cases h.visitor? t with
  | none => simp
  | some v => simp

theorem Sound.visitor?_of_mem (hs : h.Sound) (ha : a ∈ h.visitors) :
    h.visitor? a.ticket = some a :=
  Rows.find?_of_mem hs.distinct ha

/-- Two tickets that have been let in are for different rooms. -/
theorem Sound.granted_unique (hs : h.Sound) (ht : h.granted t = true) (hu : h.granted u = true)
    {room : RoomId} (hat : h.For t room) (hau : h.For u room) : t = u := by
  obtain ⟨v, hv, hvq⟩ := granted_iff.mp ht
  obtain ⟨w, hw, hwq⟩ := granted_iff.mp hu
  obtain ⟨v', hv', hvr⟩ := hat
  obtain ⟨w', hw', hwr⟩ := hau
  obtain rfl : v = v' := Option.some.inj (hv.symm.trans hv')
  obtain rfl : w = w' := Option.some.inj (hw.symm.trans hw')
  have hvm := visitor?_eq_some hv
  have hwm := visitor?_eq_some hw
  have hgate : v.gate = w.gate := by
    have hgv := hs.gate v hvm.1
    have hgw := hs.gate w hwm.1
    rw [hvr] at hgv
    rw [hwr, hgv] at hgw
    exact Option.some.inj hgw
  -- so both are the first at one gate
  rw [hgate, hwq] at hvq
  obtain rfl : w = v := Option.some.inj hvq
  exact hvm.2.symm.trans hwm.2

theorem request_visitors (room : RoomId) : ∃ g,
    (h.request room).2.visitors = h.visitors ++ [⟨⟨h.nextTicket⟩, room, g⟩] ∧
      (h.request room).2.gate? room = some g := by
  unfold request
  cases hg : h.gate? room with
  | some g => exact ⟨g, rfl, hg⟩
  | none => exact ⟨⟨h.nextGate⟩, rfl, by simp [gate?]⟩

theorem request_ticket (room : RoomId) : (h.request room).1 = ⟨h.nextTicket⟩ := by
  unfold request
  split <;> rfl

theorem request_nextTicket (room : RoomId) : (h.request room).2.nextTicket = h.nextTicket + 1 := by
  unfold request
  split <;> rfl

/-- A slot that is there stays as it is. -/
theorem request_gate?_of_some {room r : RoomId} {g : Gate} (hg : h.gate? r = some g) :
    (h.request room).2.gate? r = some g := by
  unfold request
  cases hroom : h.gate? room with
  | some g' => exact hg
  | none =>
    have hne : r ≠ room := by
      rintro rfl
      simp [hg] at hroom
    have hbeq : (r == room) = false := by simpa using hne
    simpa [gate?, List.lookup_cons, hbeq] using hg

theorem Sound.request (hs : h.Sound) (room : RoomId) : (h.request room).2.Sound := by
  obtain ⟨g, hvis, hgate⟩ := request_visitors (h := h) room
  refine ⟨?_, ?_, ?_⟩
  · intro v hv
    rw [hvis, List.mem_append, List.mem_singleton] at hv
    rcases hv with hv | rfl
    · exact request_gate?_of_some (hs.gate v hv)
    · exact hgate
  · intro v hv
    rw [request_nextTicket]
    rw [hvis, List.mem_append, List.mem_singleton] at hv
    rcases hv with hv | rfl
    · have := hs.fresh v hv
      omega
    · exact Nat.lt_succ_self _
  · rw [hvis]
    apply Rows.nodup_concat hs.distinct
    intro v hv he
    have hlt := hs.fresh v hv
    rw [he] at hlt
    exact Nat.lt_irrefl _ hlt

theorem Sound.for_request_ticket (hs : h.Sound) (room : RoomId) :
    (h.request room).2.For (h.request room).1 room := by
  obtain ⟨g, hvis, -⟩ := request_visitors (h := h) room
  have hm : (⟨⟨h.nextTicket⟩, room, g⟩ : Visitor) ∈ (h.request room).2.visitors := by
    rw [hvis]
    simp
  rw [request_ticket]
  exact ⟨_, (hs.request room).visitor?_of_mem hm, rfl⟩

/-- A ticket that is handed out was nobody's. -/
theorem Sound.not_for_request_ticket (hs : h.Sound) (room r : RoomId) :
    ¬ h.For (h.request room).1 r := by
  rintro ⟨v, hv, -⟩
  obtain ⟨hm, ht⟩ := visitor?_eq_some hv
  have hlt := hs.fresh v hm
  rw [ht, request_ticket] at hlt
  exact Nat.lt_irrefl _ hlt

theorem visitor?_request (hv : h.visitor? t = some a) (room : RoomId) :
    (h.request room).2.visitor? t = some a := by
  obtain ⟨g, hvis, -⟩ := request_visitors (h := h) room
  unfold visitor? at hv ⊢
  rw [hvis, List.find?_append, hv]
  rfl

theorem For.request {room r : RoomId} (hf : h.For t r) : (h.request room).2.For t r := by
  obtain ⟨v, hv, hr⟩ := hf
  exact ⟨v, visitor?_request hv room, hr⟩

theorem granted_request (ht : h.granted t = true) (room : RoomId) :
    (h.request room).2.granted t = true := by
  obtain ⟨v, hv, hq⟩ := granted_iff.mp ht
  obtain ⟨g, hvis, -⟩ := request_visitors (h := h) room
  refine granted_iff.mpr ⟨v, visitor?_request hv room, ?_⟩
  unfold queue at hq ⊢
  rw [hvis, List.filter_append, List.head?_append, hq]
  rfl

/-- A newcomer has the room at once if nobody else is about. -/
theorem granted_request_of_visitors (hv : h.visitors = []) (room : RoomId) :
    (h.request room).2.granted (h.request room).1 = true := by
  obtain ⟨g, hvis, -⟩ := request_visitors (h := h) room
  rw [hv, List.nil_append] at hvis
  refine granted_iff.mpr ⟨⟨⟨h.nextTicket⟩, room, g⟩, ?_, ?_⟩
  · simp [visitor?, hvis, request_ticket]
  · simp [queue, hvis]

theorem lookup_filter_ne {room r : RoomId} (hne : r ≠ room) (slots : List (RoomId × Gate)) :
    (slots.filter (·.1 ≠ room)).lookup r = slots.lookup r := by
  induction slots with
  | nil => rfl
  | cons s rest ih =>
    by_cases hs : s.1 = room
    · have hbeq : (r == s.1) = false := by simpa [hs] using hne
      rw [List.filter_cons_of_neg (by simpa using hs), ih, List.lookup_cons, hbeq]
    · rw [List.filter_cons_of_pos (by simpa using hs), List.lookup_cons, List.lookup_cons, ih]

theorem visitor?_withdraw (hv : h.visitor? t = some a) (hne : t ≠ u) :
    (h.withdraw u).visitor? t = some a := by
  have hp :
      (fun v : Visitor => decide (decide (v.ticket ≠ u) = true ∧ decide (v.ticket = t) = true)) =
        fun v => decide (v.ticket = t) := by
    funext v
    by_cases hvt : v.ticket = t
    · simp [hvt, hne]
    · simp [hvt]
  unfold visitor? withdraw at *
  rw [List.find?_filter, hp]
  exact hv

theorem For.withdraw {r : RoomId} (hf : h.For t r) (hne : t ≠ u) : (h.withdraw u).For t r := by
  obtain ⟨v, hv, hr⟩ := hf
  exact ⟨v, visitor?_withdraw hv hne, hr⟩

theorem granted_withdraw (ht : h.granted t = true) (hne : t ≠ u) :
    (h.withdraw u).granted t = true := by
  obtain ⟨v, hv, hq⟩ := granted_iff.mp ht
  refine granted_iff.mpr ⟨v, visitor?_withdraw hv hne, ?_⟩
  -- the first in a queue stays the first when another one goes
  obtain ⟨rest, hrest⟩ : ∃ rest, h.queue v.gate = v :: rest := by
    cases hqs : h.queue v.gate with
    | nil => simp [hqs] at hq
    | cons w rest =>
      rw [hqs, List.head?_cons, Option.some.injEq] at hq
      exact ⟨rest, by rw [hq]⟩
  have hqu : (h.withdraw u).queue v.gate = (h.queue v.gate).filter (·.ticket ≠ u) := by
    unfold queue withdraw
    rw [List.filter_filter, List.filter_filter]
    congr 1
    funext x
    exact Bool.and_comm ..
  have hvt : v.ticket ≠ u := by
    rw [(visitor?_eq_some hv).2]
    exact hne
  rw [hqu, hrest, List.filter_cons_of_pos (by simpa using hvt)]
  rfl

theorem Sound.withdraw (hs : h.Sound) (t : Ticket) : (h.withdraw t).Sound where
  gate v hv := hs.gate v (List.mem_of_mem_filter hv)
  fresh v hv := hs.fresh v (List.mem_of_mem_filter hv)
  distinct := hs.distinct.sublist (List.filter_sublist.map _)

/-- What leaving changes besides the slots. -/
theorem leave_visitors (t : Ticket) : (h.leave t).visitors = (h.withdraw t).visitors := by
  unfold leave
  cases hv : h.visitor? t with
  | some v => rfl
  | none =>
    symm
    apply List.filter_eq_self.mpr
    intro v hm
    have := List.find?_eq_none.mp hv v hm
    simpa using this

theorem mem_withdraw : a ∈ (h.withdraw t).visitors ↔ a ∈ h.visitors ∧ a.ticket ≠ t := by
  change a ∈ h.visitors.filter (·.ticket ≠ t) ↔ _
  rw [List.mem_filter]
  simp

theorem mem_leave : a ∈ (h.leave t).visitors ↔ a ∈ h.visitors ∧ a.ticket ≠ t := by
  rw [leave_visitors]
  exact mem_withdraw

theorem leave_nextTicket (t : Ticket) : (h.leave t).nextTicket = h.nextTicket := by
  unfold leave
  split <;> rfl

theorem visitor?_leave (hv : h.visitor? t = some a) (hne : t ≠ u) :
    (h.leave u).visitor? t = some a := by
  have := visitor?_withdraw hv hne
  unfold visitor? at this ⊢
  rwa [leave_visitors]

theorem For.leave {r : RoomId} (hf : h.For t r) (hne : t ≠ u) : (h.leave u).For t r := by
  obtain ⟨v, hv, hr⟩ := hf
  exact ⟨v, visitor?_leave hv hne, hr⟩

theorem granted_leave (ht : h.granted t = true) (hne : t ≠ u) : (h.leave u).granted t = true := by
  obtain ⟨v, hv, hq⟩ := granted_iff.mp (granted_withdraw ht hne)
  refine granted_iff.mpr ⟨v, ?_, ?_⟩
  · unfold visitor? at hv ⊢
    rwa [leave_visitors]
  · unfold queue at hq ⊢
    rwa [leave_visitors]

/-- If only the table and the one who leaves know the gate, nobody else waits for the room. -/
theorem Sound.alone_of_references (hs : h.Sound) (hv : h.visitor? t = some a)
    (hr : h.references a.gate = 2) (hb : b ∈ h.visitors) (hroom : b.room = a.room) :
    b.ticket = t := by
  obtain ⟨ham, hat⟩ := visitor?_eq_some hv
  have hgate : b.gate = a.gate := by
    have hgb := hs.gate b hb
    rw [hroom, hs.gate a ham] at hgb
    exact (Option.some.inj hgb).symm
  -- the slot counts for one reference, so one visitor at most is at the gate
  have hslot : 1 ≤ (h.slots.filter (·.2 = a.gate)).length := by
    have hlook : h.slots.lookup a.room = some a.gate := hs.gate a ham
    have hmem : (a.room, a.gate) ∈ h.slots := by
      obtain ⟨l₁, l₂, hl, -⟩ := List.lookup_eq_some_iff.mp hlook
      rw [hl]
      simp
    exact List.length_pos_of_mem (List.mem_filter.mpr ⟨hmem, by simp⟩)
  have hlen : (h.queue a.gate).length ≤ 1 := by
    unfold references at hr
    omega
  have haq : a ∈ h.queue a.gate := List.mem_filter.mpr ⟨ham, by simp⟩
  have hbq : b ∈ h.queue a.gate := List.mem_filter.mpr ⟨hb, by simp [hgate]⟩
  have hba : b = a := by
    match hq : h.queue a.gate, haq, hbq, hlen with
    | [x], hax, hbx, _ =>
      rw [List.mem_singleton] at hax hbx
      rw [hax, hbx]
  rw [hba, hat]

theorem Sound.leave (hs : h.Sound) (t : Ticket) : (h.leave t).Sound := by
  refine ⟨?_, ?_, ?_⟩
  · intro b hb
    rw [leave_visitors] at hb
    obtain ⟨hbm, hbt⟩ := List.mem_filter.mp hb
    have hbt' : b.ticket ≠ t := by simpa using hbt
    have hgate := hs.gate b hbm
    unfold Holds.leave
    cases hv : h.visitor? t with
    | none => exact hgate
    | some a =>
      simp only [gate?] at hgate ⊢
      split
      next hr =>
        -- the slot that goes is not the one of the other visitor
        have hne : b.room ≠ a.room := fun he => hbt' (hs.alone_of_references hv hr hbm he)
        rw [lookup_filter_ne hne]
        exact hgate
      next => exact hgate
  · intro b hb
    rw [leave_visitors] at hb
    rw [leave_nextTicket]
    exact (hs.withdraw t).fresh b hb
  · rw [leave_visitors]
    exact (hs.withdraw t).distinct

theorem Sound.leaveAll (hs : h.Sound) (ts : List Ticket) : (ts.foldl Holds.leave h).Sound := by
  induction ts generalizing h with
  | nil => exact hs
  | cons t rest ih => exact ih (hs.leave t)

theorem mem_leaveAll {ts : List Ticket} :
    a ∈ (ts.foldl Holds.leave h).visitors ↔ a ∈ h.visitors ∧ a.ticket ∉ ts := by
  induction ts generalizing h with
  | nil => simp
  | cons t rest ih =>
    rw [List.foldl_cons, ih, mem_leave, List.mem_cons, not_or, and_assoc]

theorem For.leaveAll {r : RoomId} (hf : h.For t r) {ts : List Ticket} (hne : t ∉ ts) :
    (ts.foldl Holds.leave h).For t r := by
  induction ts generalizing h with
  | nil => exact hf
  | cons u rest ih =>
    rw [List.mem_cons, not_or] at hne
    exact ih (hf.leave hne.1) hne.2

theorem granted_leaveAll (ht : h.granted t = true) {ts : List Ticket} (hne : t ∉ ts) :
    (ts.foldl Holds.leave h).granted t = true := by
  induction ts generalizing h with
  | nil => exact ht
  | cons u rest ih =>
    rw [List.mem_cons, not_or] at hne
    exact ih (granted_leave ht hne.1) hne.2

end Lodging.Holds
