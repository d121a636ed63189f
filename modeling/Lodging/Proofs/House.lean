import Lodging.Proofs.Desk.Course
import Lodging.Proofs.Entries
import Lodging.World.House

/-!
Whatever has gone on in a house, everything in it is in order: its calls follow a script, though one
that says nothing of what they do to the rooms. So nobody is left in a room when no call is under
way, and the bookings have numbers of their own.
-/

namespace Lodging

namespace Script

variable {σ α : Type} {S : Script σ}

/-- A script by which calls may do what they like, as long as they let go of the rooms they hold. -/
def free : Script Unit where
  Move _ _ _ _ := True
  inside _ := none
  rest := ()
  inside_rest := rfl

theorem Follows.freely {Q : Held → α → σ → Prop} {held : Held} {s : σ} {p : Process α}
    (h : S.Follows Q held s p) : free.Follows (fun held a _ => ∃ s, Q held a s) held () p := by
  induction p generalizing held s with
  | done a => exact ⟨s, h⟩
  | act x next ih =>
    refine ⟨h.1, fun w hw => ?_⟩
    obtain ⟨s', -, -, hn⟩ := h.2 w hw
    exact ⟨(), .inl trivial, fun _ => free.within_of_outside rfl _, ih _ hn⟩
  | enter room next ih =>
    intro t
    obtain ⟨s', -, -, hn⟩ := h t
    exact ⟨(), fun b => .stay _ () b, fun _ => free.within_of_outside rfl _, ih _ hn⟩

theorem Runs.freely {Q : α → σ → Prop} {held : Held} {s : σ} {p : Process α}
    (h : S.Runs held Q s p) : free.Runs held (fun _ _ => True) () p :=
  (Follows.freely h).mono fun _ _ _ ⟨_, hheld, _⟩ => ⟨hheld, trivial⟩

end Script

namespace House

theorem Call.runs (c : Call) : Script.free.Runs [] (fun _ _ => True) () c.process := by
  cases c with
  | keeper c =>
    exact Script.Runs.bind (Keeper.Call.runs c).freely fun _ _ _ => Script.Runs.done trivial
  | desk c =>
    exact Script.Runs.bind (Desk.Call.runs c).freely fun _ _ _ => Script.Runs.done trivial

/-- What can be said of any house in which no call is under way. -/
structure Tidy (w : World) : Prop where
  undisturbed : w.Undisturbed
  sound : w.holds.Sound
  visitors : w.holds.visitors = []
  numbered : w.ledger.Numbered

theorem tidy_after (now : Instant) (es : List (Event Call)) (hquiet : (after now es).Quiet) :
    Tidy (after now es).world := by
  have hopening : Script.free.Tells (fun _ _ _ => True)
      (Scene.opening Call.process (.atTime now)) ⟨(World.atTime now).stock, [], fun _ => ()⟩ :=
    Script.tells_opening ⟨rfl, rfl⟩ Holds.sound_empty rfl
  obtain ⟨st, ht, -⟩ := Script.exists_stage_of_run Call.runs (fun _ => rfl) (fun _ _ => True)
    hopening trivial (fun _ _ _ _ _ _ _ _ => trivial) es
  refine ⟨ht.undisturbed, ht.sound, ht.visitors_of_quiet hquiet, ?_⟩
  exact (Scene.numbered_run (s := .opening Call.process (.atTime now)) Ledger.numbered_empty es).1

theorem Ready.tidy {w : World} (hw : Ready w) : Tidy w := by
  obtain ⟨now, es, hquiet, rfl⟩ := hw.reached
  exact tidy_after now es hquiet

end House

end Lodging
