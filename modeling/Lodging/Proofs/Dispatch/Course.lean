import Lodging.Proofs.Desk.Errand
import Lodging.World.Dispatch

/-!
The course of an order that is sent again and again until its answer comes through. Each attempt
takes the course of a call to the keeper, or none at all if it is lost on its way. After an answer
that ends it, or after the last attempt, nothing follows.
-/

namespace Lodging

/-- The failure is what is left after all attempts. -/
def CallFailure.Unavailable (f : CallFailure) : Prop := ∃ o k, f = .unavailable o k

theorem RoomFailure.not_unavailable_seen (e : RoomFailure) : ¬ e.seen.Unavailable := by
  rintro ⟨o, k, h⟩
  unfold seen at h
  split at h <;> cases h

namespace Dispatch

inductive Point where
  | rest
  | other (k : Keeper.Point)
  /-- Between two attempts. -/
  | ready (n : NewLock)
  /-- An attempt is on, whose answer comes through or not. -/
  | on (n : NewLock) (heard : Bool) (k : Keeper.Point)
  /-- All attempts have failed. -/
  | spent (n : NewLock)

namespace Point

/-- The point of the call to the keeper that is under way. -/
def keeper : Point → Keeper.Point
  | other k | on _ _ k => k
  | _ => .rest

end Point

/-- The attempt is at its end, and another one may follow. -/
def Repeats : Bool → Except RoomFailure Keeper.Placement → Prop
  | false, _ => True
  | true, .ok _ => False
  | true, .error e => e.seen.retryable = true

inductive Move : Point → Stock → Point → Stock → Prop
  | keeper {k k' : Keeper.Point} {b : Stock} {v : Inventory} (h : Keeper.Move k b.inventory k' v) :
    Move (.other k) b (.other k') { b with inventory := v }
  | go (n : NewLock) (heard : Bool) (b : Stock) : Move (.ready n) b (.on n heard (.entered n)) b
  | attempt {n : NewLock} {heard : Bool} {k k' : Keeper.Point} {b : Stock} {v : Inventory}
    (h : Keeper.Move k b.inventory k' v) :
    Move (.on n heard k) b (.on n heard k') { b with inventory := v }
  | again {n : NewLock} {heard : Bool} {x : Except RoomFailure Keeper.Placement} (b : Stock)
    (h : Repeats heard x) : Move (.on n heard (.placed n x)) b (.ready n) b
  | giveUp {n : NewLock} {heard : Bool} {x : Except RoomFailure Keeper.Placement} (b : Stock)
    (h : Repeats heard x) : Move (.on n heard (.placed n x)) b (.spent n) b
  | giveUpReady (n : NewLock) (b : Stock) : Move (.ready n) b (.spent n) b

/-- The script that orders and other calls follow. -/
def script : Script Point where
  Move := Move
  inside p := p.keeper.inside
  rest := .rest
  inside_rest := rfl

variable {n : NewLock}

/-- Where an attempt ends, and how it looks to the sender. -/
inductive Attempted (n : NewLock) : Except CallFailure Unit → Point → Prop
  | lost (text : String) : Attempted n (.error (.transport text)) (.ready n)
  | unanswered (text : String) (x : Except RoomFailure Keeper.Placement) :
    Attempted n (.error (.transport text)) (.on n false (.placed n x))
  | answered (x : Except RoomFailure Keeper.Placement) :
    Attempted n ((x.map fun _ => ()).mapError RoomFailure.seen) (.on n true (.placed n x))

/-- Where the order ends, and what is known of it then. -/
def Delivered (n : NewLock) : Except CallFailure Unit → Point → Prop
  | .ok _, p => ∃ a, p = .on n true (.placed n (.ok a))
  | .error f, p => f.Unavailable ∧ p = .spent n ∨
    ¬ f.Unavailable ∧ ∃ e, e.seen.retryable = false ∧ p = .on n true (.placed n (.error e))

/-- An attempt begins when the keeper lets it into the room. -/
theorem runs_confirm (n : NewLock) (heard : Bool) :
    script.Runs [] (fun x p => p = .on n heard (.placed n x)) (.ready n) (Keeper.confirm n) := by
  have hplace : ∀ t, script.Runs [(t, n.room)]
      (fun x p => script.inside p = none ∧ p = .on n heard (.placed n x)) (.on n heard (.entered n))
      (Keeper.place n).run := by
    intro t
    have hruns : Keeper.script.Runs [(t, n.room)] (fun x k => k = .placed n x) (.entered n)
        (Keeper.place n).run := Keeper.runs_place n
    have hplay := Script.Follows.embed (T := script) (.on n heard) ?_ (fun _ => rfl) hruns
    · apply hplay.mono
      rintro held x _ ⟨k, rfl, hheld, rfl⟩
      exact ⟨hheld, rfl, rfl⟩
    · rintro k b k' _ ⟨v, hm, rfl⟩
      exact .attempt hm
  refine Script.Runs.bind (Q := fun x p => p = .on n heard (.placed n x)) ?_ ?_
  · exact Script.Runs.within (fun b => .inl (.go n heard b)) rfl hplace
  · rintro x p rfl
    exact Script.Runs.meter (.stay _ _) (.refl _) (Script.Runs.done rfl)

theorem runs_attempt (n : NewLock) (f : Fate) :
    script.Runs [] (Attempted n) (.ready n) (attempt n f) := by
  cases f with
  | lost text => exact Script.Runs.done (.lost text)
  | unanswered text =>
    apply Script.Runs.bind (runs_confirm n false)
    rintro x _ rfl
    exact Script.Runs.done (.unanswered text x)
  | answered =>
    apply Script.Runs.bind (runs_confirm n true)
    rintro x _ rfl
    exact Script.Runs.done (.answered x)

theorem Attempted.of_ok {u : Unit} {p : Point} (h : Attempted n (.ok u) p) :
    ∃ a, p = .on n true (.placed n (.ok a)) := by
  generalize hr : (Except.ok u : Except CallFailure Unit) = r at h
  cases h with
  | lost text => cases hr
  | unanswered text x => cases hr
  | answered x =>
    cases x with
    | ok a => exact ⟨a, rfl⟩
    | error e => cases hr

theorem Attempted.of_error {f : CallFailure} {p : Point} (h : Attempted n (.error f) p) :
    p = .ready n ∧ f.retryable = true ∨ (∃ x, p = .on n false (.placed n x)) ∧ f.retryable = true ∨
      ∃ e, f = e.seen ∧ p = .on n true (.placed n (.error e)) := by
  generalize hr : (Except.error f : Except CallFailure Unit) = r at h
  cases h with
  | lost text =>
    obtain rfl := Except.error.inj hr
    exact .inl ⟨rfl, rfl⟩
  | unanswered text x =>
    obtain rfl := Except.error.inj hr
    exact .inr (.inl ⟨⟨x, rfl⟩, rfl⟩)
  | answered x =>
    cases x with
    | ok a => cases hr
    | error e =>
      obtain rfl := Except.error.inj hr
      exact .inr (.inr ⟨e, rfl, rfl⟩)

theorem runs_deliver (policy : RetryPolicy) (n : NewLock) (fate : ℕ → Fate) :
    script.Runs [] (Delivered n) (.ready n) (deliver policy n fate) := by
  refine runs_attempts policy (fun k => runs_attempt n (fate k)) ?_ ?_ ?_ ?_ _ _
  · exact fun u p h => h.of_ok
  · intro f p h hf
    rcases h.of_error with ⟨-, hyes⟩ | ⟨-, hyes⟩ | ⟨e, rfl, rfl⟩
    · rw [hf] at hyes
      cases hyes
    · rw [hf] at hyes
      cases hyes
    · exact .inr ⟨e.not_unavailable_seen, e, hf, rfl⟩
  · intro f p h hf
    rcases h.of_error with ⟨rfl, -⟩ | ⟨⟨x, rfl⟩, -⟩ | ⟨e, rfl, rfl⟩
    · exact ⟨.stay _ _, .refl _⟩
    · exact ⟨fun b => .inl (.again b trivial), Script.stays_out rfl⟩
    · exact ⟨fun b => .inl (.again b hf), Script.stays_out rfl⟩
  · intro f p k h hf
    have hspent : Delivered n (.error (.unavailable .confirm k)) (.spent n) :=
      .inl ⟨⟨_, k, rfl⟩, rfl⟩
    refine ⟨.spent n, ?_, Script.stays_out rfl, hspent⟩
    rcases h.of_error with ⟨rfl, -⟩ | ⟨⟨x, rfl⟩, -⟩ | ⟨e, rfl, rfl⟩
    · exact fun b => .inl (.giveUpReady n b)
    · exact fun b => .inl (.giveUp b trivial)
    · exact fun b => .inl (.giveUp b hf)

/-- Where a call begins. -/
def Call.first : Call → Point
  | .deliver _ n _ => .ready n
  | .keeper c => .other c.first

/-- The point at which a call is that has come to its end. -/
def Call.Ends : Call → Reply → Point → Prop
  | .deliver _ n _, x, p => ∃ r, x = .delivery r ∧ Delivered n r p
  | .keeper c, x, p => ∃ r k, x = .keeper r ∧ p = .other k ∧ c.Ends r k

theorem Call.runs (c : Call) : script.Runs [] c.Ends c.first c.process := by
  cases c with
  | deliver policy n fate =>
    apply Script.Runs.bind (runs_deliver policy n fate)
    exact fun r p hp => Script.Runs.done ⟨r, rfl, hp⟩
  | keeper c =>
    have hplay := Script.Follows.embed (T := script) .other ?_ (fun _ => rfl) c.runs
    · refine Script.Runs.bind (Q := fun r p => ∃ k, p = .other k ∧ c.Ends r k) ?_ ?_
      · apply hplay.mono
        rintro held r _ ⟨k, rfl, hheld, hk⟩
        exact ⟨hheld, k, rfl, hk⟩
      · rintro r _ ⟨k, rfl, hk⟩
        exact Script.Runs.done ⟨r, k, rfl, rfl, hk⟩
    · rintro k b k' _ ⟨v, hm, rfl⟩
      exact .keeper hm

theorem Call.inside_first (c : Call) : script.inside c.first = none := by
  cases c with
  | deliver policy n fate => rfl
  | keeper c => exact c.inside_first

end Dispatch

end Lodging
