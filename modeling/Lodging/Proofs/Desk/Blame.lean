import Lodging.Proofs.Desk.Parts
import Lodging.Proofs.Entries

/-!
Who is to blame for a failure of an order. The ledger fails in two ways only: its storage fails, or a
request was accepted before. All other failures are found by the desk itself or by its gateway, each
at a place of its own.
-/

namespace Lodging

/-- How the ledger fails, whatever is planned for it. -/
theorem World.error_of_callLedger {w : World} {c : LedgerCall} {f : BookingFailure}
    (h : (w.callLedger c).1 = .error f) : f = .storage ∨ ∃ r, c = .accept r ∧ f = .duplicate r := by
  have hanswer : ∀ (l : Ledger) (c : LedgerCall), (l.answer w.now c).1 = .error f →
      ∃ r, c = .accept r ∧ f = .duplicate r := by
    intro l c h
    cases c with
    | accept r =>
      simp only [Ledger.answer, Ledger.accept] at h
      split at h
      next => exact ⟨r, rfl, (Except.error.inj h).symm⟩
      next => cases h
    | _ => cases h
  rcases w.callLedger_cases c with ⟨ha, -⟩ | ⟨p, -, ha, -⟩ <;> rw [ha] at h
  · exact .inr (hanswer w.ledger c h)
  · cases c with
    | updateStatus id expected next =>
      cases hm : p.mishap with
      | overtaken s =>
        rw [hm] at h
        exact .inr (hanswer _ _ h)
      | nothing =>
        rw [hm] at h
        cases h
      | _ =>
        rw [hm] at h
        exact .inl (Except.error.inj h).symm
    | get id =>
      simp only [Ledger.spoiled] at h
      split at h
      · cases h
      · exact .inl (Except.error.inj h).symm
    | _ => exact .inl (Except.error.inj h).symm

/-- So do all answers of the ledger in a journal. -/
theorem Scene.error_of_mem_journal {κ α : Type} {code : κ → Process α} {s : Scene code}
    {es : List (Event κ)} {i : ℕ} {c : LedgerCall} {a : (Action.ledger c).Answer}
    {f : BookingFailure} (h : (i, .did (.ledger c) a) ∈ s.journal es) (ha : a = .error f) :
    f = .storage ∨ ∃ r, c = .accept r ∧ f = .duplicate r := by
  obtain ⟨before, e, after, -, -, rfl, -⟩ := exists_perform h
  exact World.error_of_callLedger ha

namespace Desk

open Process (Leads)

section Blame

variable {α β : Type} {P : BookingFailure → Prop} {g : Gateway} {r : RequestId}

/-- Something that fails in one of certain ways only if the ledger says so. -/
def Candid (P : BookingFailure → Prop) (p : Process (Except BookingFailure α)) : Prop :=
  ∀ ds f, P f → Leads p ds (.done (.error f)) →
    ∃ c, ∃ a : (Action.ledger c).Answer, .did (.ledger c) a ∈ ds ∧ a = .error f

theorem Candid.task_bind {t : Task α} {f : α → Task β} (ht : Candid P t.run)
    (hf : ∀ a, Candid P (f a).run) : Candid P (t >>= f).run := by
  intro ds e he h
  rcases h.of_task_bind_done with ⟨e', he', hfirst⟩ | ⟨a, first, rest, rfl, -, hrest⟩
  · cases he'
    exact ht ds e he hfirst
  · obtain ⟨c, b, hmem, hb⟩ := hf a rest e he hrest
    exact ⟨c, b, List.mem_append_right _ hmem, hb⟩

theorem candid_ok (a : α) : Candid P (.done (.ok a)) := by
  intro ds f _ h
  cases Process.done.inj h.of_done.2

theorem candid_error {f : BookingFailure} (hf : ¬ P f) :
    Candid P (.done (.error f) : Process (Except BookingFailure α)) := by
  intro ds f' hf' h
  cases Process.done.inj h.of_done.2
  exact absurd hf' hf

theorem candid_ask (c : LedgerCall) : Candid P (ask c).run := by
  intro ds f _ h
  cases h with
  | @did _ _ a _ _ h =>
    obtain ⟨rfl, ha⟩ := h.of_done
    exact ⟨c, a, List.mem_singleton_self _, (Process.done.inj ha).symm⟩

/-- The failures of a gateway are called by their names. -/
theorem candid_invoke (hinventory : ∀ f, ¬ P (.inventory f)) (p : Process (Except CallFailure α)) :
    Candid P (invoke p).run := by
  intro ds f hf h
  obtain ⟨x, -, hx⟩ := h.of_map_done
  cases x with
  | ok a => cases hx
  | error e =>
    cases hx
    exact absurd hf (hinventory e)

theorem candid_move (hstale : ∀ id s, ¬ P (.stale id s)) (b : Booking) (expected next : Status) :
    Candid P (move b expected next).run := by
  refine (candid_ask _).task_bind fun c => ?_
  cases c with
  | some c => exact candid_ok c
  | none => exact candid_error (hstale b.id expected)

theorem candid_recommended (hinventory : ∀ f, ¬ P (.inventory f)) (hroom : ¬ P .noRoom)
    {wish : BookingRequest} (hany : wish.anyRoom = true) (stay : Stay) :
    Candid P (chooseRoom g wish stay r).run := by
  unfold chooseRoom
  rw [hany]
  refine (candid_invoke hinventory _).task_bind fun rooms => ?_
  cases rooms with
  | nil => exact candid_error hroom
  | cons room rest => exact candid_ok room.id

theorem candid_chooseRoom (hinventory : ∀ f, ¬ P (.inventory f)) (hroom : ¬ P .noRoom)
    (hmissing : ¬ P .roomMissing) (wish : BookingRequest) (stay : Stay) :
    Candid P (chooseRoom g wish stay r).run := by
  cases hany : wish.anyRoom with
  | true => exact candid_recommended hinventory hroom hany stay
  | false =>
    unfold chooseRoom
    rw [hany]
    cases wish.room with
    | some room => exact candid_ok room
    | none => exact candid_error hmissing

theorem candid_conclude (hinventory : ∀ f, ¬ P (.inventory f))
    (hstale : ∀ id s, ¬ P (.stale id s)) (g : Gateway) (r : RequestId) (b : Booking) :
    Candid P (conclude g r b).run := by
  have hsecure : Candid P (secure g b r).run :=
    (candid_invoke hinventory _).task_bind fun _ => candid_move hstale b .pending .confirmed
  intro ds f hf h
  obtain ⟨x, first, rest, rfl, hfirst, hrest⟩ := h.of_bind_done
  obtain rfl : x = .error f := by
    cases hrest with
    | did hrest => exact (Process.done.inj hrest.of_done.2).symm
  -- what the order comes to is what kept the booking from being confirmed
  obtain ⟨y, before, after, rfl, hbefore, hafter⟩ := hfirst.of_bind_done
  cases y with
  | ok c =>
    cases hafter with
    | did hafter => cases Process.done.inj hafter.of_done.2
  | error e =>
    cases hafter with
    | did hafter =>
      obtain ⟨u, -, last, -, -, hlast⟩ := Leads.of_bind_done (p := compensate g b r) hafter
      cases Process.done.inj hlast.of_done.2
      obtain ⟨c, a, hmem, ha⟩ := hsecure before f hf hbefore
      exact ⟨c, a, List.mem_append_left _ (List.mem_append_left _ hmem), ha⟩

end Blame

end Desk

end Lodging
