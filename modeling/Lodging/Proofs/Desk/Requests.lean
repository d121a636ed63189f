import Lodging.Proofs.Desk.Parts
import Lodging.World.Sample

/-!
A request is taken once. Of the orders for a new booking that carry it the first to ask for its
acceptance is the only one to go on, whatever becomes of that one. All others are turned down
before they have done anything, so one booking at most is written down for a request.
-/

namespace Lodging

/-- An action that neither accepts a request nor writes a booking down. -/
def Action.Plain : Action → Prop
  | ledger (.accept _) | ledger (.insertPending _) => False
  | _ => True

theorem Action.OffLedger.plain {x : Action} (h : x.OffLedger) : x.Plain := by
  cases x with
  | ledger c => cases h
  | _ => trivial

namespace Deed

theorem of_plain {d : Deed} (h : ∀ x a, d = .did x a → x.Plain) :
    d.insert? = none ∧ ∀ r, d.claim? r = none := by
  cases d with
  | linedUp room t => exact ⟨rfl, fun _ => rfl⟩
  | did x a =>
    have hx := h x a rfl
    cases x with
    | ledger c =>
      cases c with
      | accept r => cases hx
      | insertPending n => cases hx
      | _ => exact ⟨rfl, fun _ => rfl⟩
    | _ => exact ⟨rfl, fun _ => rfl⟩

end Deed

namespace Process

variable {α : Type} {p q : Process α} {ds : List Deed}

theorem Leads.of_plain (h : p.Leads ds q) (hp : p.Uses Action.Plain) {d : Deed} (hd : d ∈ ds) :
    d.insert? = none ∧ ∀ r, d.claim? r = none := by
  apply Deed.of_plain
  rintro x a rfl
  exact h.of_uses hp hd

theorem Leads.insert?_of_plain (h : p.Leads ds q) (hp : p.Uses Action.Plain) :
    ds.filterMap Deed.insert? = [] :=
  List.filterMap_eq_nil_iff.mpr fun _ hd => (h.of_plain hp hd).1

end Process

namespace Desk

open Process (Leads)

section Creating

variable {g : Gateway} {user : UserId} {wish : BookingRequest} {r : RequestId} {today : Date}
  {uid : Uid} {stay : Stay} {ds : List Deed} {p : Process (Except BookingFailure BookingSummary)}

/-- What is left to do once the request was accepted. -/
def book (g : Gateway) (user : UserId) (wish : BookingRequest) (r : RequestId) (uid : Uid)
    (stay : Stay) : Task BookingSummary := do
  let room ← chooseRoom g wish stay r
  let b ← ask (.insertPending ⟨uid, user, room, stay⟩)
  ExceptT.mk ((settle g b r).metered fun _ => .bookingTimed)

/-- What is left to do once it was decided on the request. -/
def decided (g : Gateway) (user : UserId) (wish : BookingRequest) (r : RequestId) (uid : Uid)
    (stay : Stay) : Except BookingFailure Unit → Process (Except BookingFailure BookingSummary)
  | .ok () => (book g user wish r uid stay).run
  | .error (.duplicate q) => .act (.meter .duplicateRequest) fun _ => .done (.error (.duplicate q))
  | .error f => .done (.error f)

theorem create_eq (h : Stay.requested wish.arrival wish.departure today = .ok stay) :
    (create g user wish r today uid).run = .act (.meter .bookingStarted) fun _ =>
      .act (.ledger (.accept r)) (decided g user wish r uid stay) := by
  unfold create
  rw [h]
  change Process.act _ _ = _
  congr 1
  funext u
  change Process.act _ _ = _
  congr 1
  funext a
  match a with
  | .ok () => rfl
  | .error (.duplicate q) => rfl
  | .error (.invalid _) | .error .noRoom | .error (.notFound _) | .error (.stale ..)
  | .error (.inventory _) | .error .storage | .error .migration => rfl

theorem decided_of_ne {f : BookingFailure} (hf : ∀ q, f ≠ .duplicate q) :
    decided g user wish r uid stay (.error f) = .done (.error f) := by
  cases f with
  | duplicate q => exact absurd rfl (hf q)
  | _ => rfl

theorem plain_chooseRoom (hg : g.OffLedger) (q : BookingRequest) (stay : Stay) (r : RequestId) :
    (chooseRoom g q stay r).run.Uses Action.Plain :=
  uses_chooseRoom ((hg.recommend stay r).mono fun _ => Action.OffLedger.plain) q

theorem plain_conclude (hg : g.OffLedger) (r : RequestId) (b : Booking) :
    (conclude g r b).run.Uses Action.Plain :=
  uses_conclude (fun _ => trivial) (fun _ _ => trivial)
    ((hg.confirm _ _).mono fun _ => Action.OffLedger.plain)
    ((hg.release _ _ r).mono fun _ => Action.OffLedger.plain)

theorem plain_cancel (hg : g.OffLedger) (id : BookingId) (user : UserId) (r : RequestId) :
    (cancel g id user r).run.Uses Action.Plain :=
  uses_cancel (fun _ => trivial) (fun _ => trivial) (fun _ _ => trivial)
    (fun room uid => (hg.release room uid r).mono fun _ => Action.OffLedger.plain) id user

/-- No other request is asked for, and one booking at most is written down. -/
theorem deeds_of_book (hg : g.OffLedger) (h : Leads (book g user wish r uid stay).run ds p) :
    (∀ d ∈ ds, ∀ q, d.claim? q = none) ∧ (ds.filterMap Deed.insert?).length ≤ 1 := by
  have hchoose := plain_chooseRoom hg wish stay r
  rcases Leads.of_bind h with ⟨q, hq, -⟩ | ⟨a, first, rest, rfl, hfirst, hrest⟩
  · refine ⟨fun d hd => (hq.of_plain hchoose hd).2, ?_⟩
    rw [hq.insert?_of_plain hchoose]
    exact Nat.zero_le 1
  -- the room is chosen, and what follows begins with the new row
  rw [List.filterMap_append, hfirst.insert?_of_plain hchoose, List.nil_append]
  have hrest : (∀ d ∈ rest, ∀ q, d.claim? q = none) ∧
      (rest.filterMap Deed.insert?).length ≤ 1 := by
    cases a with
    | error f =>
      obtain ⟨rfl, -⟩ := hrest.of_done
      exact ⟨fun d hd => absurd hd List.not_mem_nil, Nat.zero_le 1⟩
    | ok room =>
      change Leads (.act (.ledger (.insertPending ⟨uid, user, room, stay⟩)) _) rest p at hrest
      cases hrest with
      | stay => exact ⟨fun d hd => absurd hd List.not_mem_nil, Nat.zero_le 1⟩
      | @did _ _ b ds _ hlast =>
        have hplain : ∀ d ∈ ds, d.insert? = none ∧ ∀ q, d.claim? q = none := by
          intro d hd
          cases b with
          | ok b => exact hlast.of_plain (plain_conclude hg r b) hd
          | error f =>
            obtain ⟨rfl, -⟩ := hlast.of_done
            exact absurd hd List.not_mem_nil
        have hnone : ds.filterMap Deed.insert? = [] :=
          List.filterMap_eq_nil_iff.mpr fun d hd => (hplain d hd).1
        refine ⟨fun d hd => ?_, ?_⟩
        · rcases List.mem_cons.mp hd with rfl | hd
          · exact fun _ => rfl
          · exact (hplain d hd).2
        · have hrow : Deed.insert? (.did (.ledger (.insertPending ⟨uid, user, room, stay⟩)) b) =
              some ⟨uid, user, room, stay⟩ := rfl
          rw [List.filterMap_cons_some hrow, hnone]
          exact Nat.le_refl 1
  refine ⟨fun d hd => ?_, hrest.2⟩
  rcases List.mem_append.mp hd with hd | hd
  · exact (hfirst.of_plain hchoose hd).2
  · exact hrest.1 d hd

/-- The deeds of an order whose request was taken before. -/
def refusal (r : RequestId) : List Deed :=
  [.did (.meter .bookingStarted) (), .did (.ledger (.accept r)) (.error (.duplicate r)),
    .did (.meter .duplicateRequest) ()]

theorem deeds_of_create (hg : g.OffLedger)
    (hstay : Stay.requested wish.arrival wish.departure today = .ok stay)
    (h : Leads (create g user wish r today uid).run ds p) :
    (ds <+: [.did (.meter .bookingStarted) ()] ∧ ∀ x, p ≠ .done x) ∨
      ∃ a rest, ds = .did (.meter .bookingStarted) () :: .did (.ledger (.accept r)) a :: rest ∧
        (a = .ok () → (∀ d ∈ rest, ∀ q, d.claim? q = none) ∧
          (rest.filterMap Deed.insert?).length ≤ 1) ∧
        ∀ f, a = .error f → rest <+: [.did (.meter .duplicateRequest) ()] ∧
          ∀ x, p = .done x → x = .error f := by
  rw [create_eq hstay] at h
  cases h with
  | stay => exact .inl ⟨List.nil_prefix, fun x hx => by cases hx⟩
  | did h =>
    cases h with
    | stay => exact .inl ⟨List.prefix_refl _, fun x hx => by cases hx⟩
    | @did _ _ a rest _ h =>
      refine .inr ⟨a, rest, rfl, ?_, ?_⟩
      · rintro rfl
        exact deeds_of_book hg h
      · rintro f rfl
        by_cases hf : ∃ q, f = .duplicate q
        · obtain ⟨q, rfl⟩ := hf
          change Leads (.act (.meter .duplicateRequest) fun _ => .done (.error (.duplicate q))) rest
            p at h
          cases h with
          | stay => exact ⟨List.nil_prefix, fun x hx => by cases hx⟩
          | did h =>
            obtain ⟨rfl, rfl⟩ := h.of_done
            exact ⟨List.prefix_refl _, fun x hx => (Process.done.inj hx).symm⟩
        · rw [decided_of_ne fun q hq => hf ⟨q, hq⟩] at h
          obtain ⟨rfl, rfl⟩ := h.of_done
          exact ⟨List.nil_prefix, fun x hx => (Process.done.inj hx).symm⟩

theorem deeds_of_untimely {f : BookingFailure}
    (hstay : Stay.requested wish.arrival wish.departure today = .error f)
    (h : Leads (create g user wish r today uid).run ds p) :
    ds <+: [.did (.meter .bookingStarted) ()] := by
  unfold create at h
  rw [hstay] at h
  change Leads (.act (.meter .bookingStarted) fun _ => .done (.error f)) ds p at h
  cases h with
  | stay => exact List.nil_prefix
  | did h =>
    obtain ⟨rfl, -⟩ := h.of_done
    exact List.prefix_refl _

/-- The ways in which an order for a new booking comes to its end: it is turned down for its dates,
or its request is not accepted, or it goes on to book a room. -/
inductive Ends (g : Gateway) (user : UserId) (wish : BookingRequest) (r : RequestId) (today : Date)
    (uid : Uid) : List Deed → Except BookingFailure BookingSummary → Prop
  | untimely {f : BookingFailure}
    (hstay : Stay.requested wish.arrival wish.departure today = .error f) :
    Ends g user wish r today uid [.did (.meter .bookingStarted) ()] (.error f)
  | repeated {stay : Stay} (hstay : Stay.requested wish.arrival wish.departure today = .ok stay)
    (q : RequestId) :
    Ends g user wish r today uid
      [.did (.meter .bookingStarted) (), .did (.ledger (.accept r)) (.error (.duplicate q)),
        .did (.meter .duplicateRequest) ()] (.error (.duplicate q))
  | failed {stay : Stay} (hstay : Stay.requested wish.arrival wish.departure today = .ok stay)
    {f : BookingFailure} (hf : ∀ q, f ≠ .duplicate q) :
    Ends g user wish r today uid
      [.did (.meter .bookingStarted) (), .did (.ledger (.accept r)) (.error f)] (.error f)
  | booked {stay : Stay} (hstay : Stay.requested wish.arrival wish.departure today = .ok stay)
    {rest : List Deed} {x : Except BookingFailure BookingSummary}
    (h : Leads (book g user wish r uid stay).run rest (.done x)) :
    Ends g user wish r today uid
      (.did (.meter .bookingStarted) () :: .did (.ledger (.accept r)) (.ok ()) :: rest) x

theorem ends_of_leads {x : Except BookingFailure BookingSummary}
    (h : Leads (create g user wish r today uid).run ds (.done x)) :
    Ends g user wish r today uid ds x := by
  cases hstay : Stay.requested wish.arrival wish.departure today with
  | error f =>
    unfold create at h
    rw [hstay] at h
    change Leads (.act (.meter .bookingStarted) fun _ => .done (Except.error f)) ds _ at h
    cases h with
    | did h =>
      obtain ⟨rfl, hx⟩ := h.of_done
      cases hx
      exact .untimely hstay
  | ok stay =>
    rw [create_eq hstay] at h
    cases h with
    | did h =>
      cases h with
      | @did _ _ a rest _ h =>
        cases a with
        | ok u => exact .booked hstay h
        | error f =>
          -- an order whose request was taken is counted before it fails, any other is not
          by_cases hf : ∃ q, f = .duplicate q
          · obtain ⟨q, rfl⟩ := hf
            cases h with
            | did h =>
              obtain ⟨rfl, hx⟩ := h.of_done
              cases hx
              exact .repeated hstay q
          · rw [decided_of_ne fun q hq => hf ⟨q, hq⟩] at h
            obtain ⟨rfl, hx⟩ := h.of_done
            cases hx
            exact .failed hstay fun q hq => hf ⟨q, hq⟩

end Creating

/-- Who asked for the acceptance of a request, and what they were told. -/
def claims (r : RequestId) (ds : List (ℕ × Deed)) : List (ℕ × Except BookingFailure Unit) :=
  ds.filterMap fun x => (x.2.claim? r).map fun a => (x.1, a)

/-- The first to ask for the acceptance of a request. -/
def claimant? (r : RequestId) (ds : List (ℕ × Deed)) : Option ℕ :=
  ((claims r ds).head?).map Prod.fst

/-- The request that an order for a new booking carries. -/
def Order.request? : Order → Option RequestId
  | .create _ _ _ r _ _ => some r
  | .cancel .. => none

/-- An order for a new booking whose dates make sense. -/
def Order.Timely : Order → Prop
  | .create _ _ q _ today _ => ∃ stay, Stay.requested q.arrival q.departure today = .ok stay
  | .cancel .. => False

/-- The bookings that orders with a request have written down. -/
def inserted (s : Scene Order.process) (r : RequestId) (ds : List (ℕ × Deed)) : List NewBooking :=
  ds.filterMap fun x =>
    if (s.jobs[x.1]?).bind (·.1.request?) = some r then x.2.insert? else none

theorem mem_claims {r : RequestId} {ds : List (ℕ × Deed)} {i : ℕ} {a : Except BookingFailure Unit} :
    (i, a) ∈ claims r ds ↔ ∃ d, (i, d) ∈ ds ∧ d.claim? r = some a := by
  unfold claims
  simp

/-- The first one is told that the request is accepted, and all others that it was before. -/
def TakenOnce (r : RequestId) (l : Ledger) (answers : List (ℕ × Except BookingFailure Unit)) :
    Prop :=
  r ∉ l.requests ∧ answers = [] ∨
    r ∈ l.requests ∧ ∃ i rest, answers = (i, .ok ()) :: rest ∧
      ∀ x ∈ rest, x.2 = .error (.duplicate r)

theorem TakenOnce.accept {r : RequestId} {l : Ledger}
    {answers : List (ℕ × Except BookingFailure Unit)} (h : TakenOnce r l answers) (i : ℕ)
    (q : RequestId) : TakenOnce r (l.accept q).2
      (answers ++ claims r [(i, .did (.ledger (.accept q)) (l.accept q).1)]) := by
  by_cases hqr : q = r
  · subst hqr
    have hclaim : ∀ a, claims q [(i, .did (.ledger (.accept q)) a)] = [(i, a)] := by
      intro a
      simp [claims, Deed.claim?]
    rw [hclaim]
    rcases h with ⟨hno, rfl⟩ | ⟨hyes, k, rest, rfl, hrest⟩
    · have ha : l.accept q = (.ok (), { l with requests := q :: l.requests }) := by
        simp only [Ledger.accept, hno, if_false]
      rw [ha]
      exact .inr ⟨List.mem_cons_self, i, [], rfl, fun x hx => absurd hx List.not_mem_nil⟩
    · have ha : l.accept q = (.error (.duplicate q), l) := by
        simp only [Ledger.accept, hyes, if_true]
      rw [ha]
      refine .inr ⟨hyes, k, rest ++ [(i, _)], rfl, fun x hx => ?_⟩
      rcases List.mem_append.mp hx with hx | hx
      · exact hrest x hx
      · rw [List.mem_singleton.mp hx]
  · -- another request is accepted
    have hnone : claims r [(i, .did (.ledger (.accept q)) (l.accept q).1)] = [] := by
      simp [claims, Deed.claim?, hqr]
    have hsame : r ∈ (l.accept q).2.requests ↔ r ∈ l.requests := by
      unfold Ledger.accept
      split
      · exact Iff.rfl
      · rw [List.mem_cons]
        exact or_iff_right (Ne.symm hqr)
    rw [hnone, List.append_nil]
    unfold TakenOnce
    rwa [hsame]

theorem takenOnce_run {κ α : Type} {code : κ → Process α} {s : Scene code}
    (hw : s.world.ledgerPlans = []) {r : RequestId} (hr : r ∉ s.world.ledger.requests)
    (es : List (Event κ)) :
    TakenOnce r (s.run es).world.ledger (claims r (s.journal es)) := by
  induction es using List.reverseRecOn with
  | nil => exact .inl ⟨hr, rfl⟩
  | append_singleton es e ih =>
    have hsplit : claims r (s.journal (es ++ [e])) =
        claims r (s.journal es) ++ claims r ((s.run es).deeds e) := by
      rw [Scene.journal_concat]
      exact List.filterMap_append
    rw [hsplit, Scene.run_concat]
    obtain ⟨-, ⟨i, c, hd, hl⟩ | ⟨hno, hl⟩⟩ := Scene.step_ledger (Scene.run_ledgerPlans hw es) e
    · rw [hd, hl]
      cases c with
      | accept q => exact ih.accept i q
      | updateStatus id expected next =>
        -- no other call of the ledger accepts a request
        have hsame : ((s.run es).world.ledger.updateStatus id expected next).2.requests =
            (s.run es).world.ledger.requests := by
          unfold Ledger.updateStatus
          split
          · split <;> rfl
          · rfl
        change TakenOnce r ((s.run es).world.ledger.updateStatus id expected next).2
          (claims r (s.journal es) ++ [])
        rw [List.append_nil]
        unfold TakenOnce
        rwa [hsame]
      | _ =>
        change TakenOnce r _ (claims r (s.journal es) ++ [])
        rw [List.append_nil]
        exact ih
    · have hnone : claims r ((s.run es).deeds e) = [] := by
        refine List.filterMap_eq_nil_iff.mpr fun x hx => ?_
        rw [Deed.claim?_of_offLedger (hno x hx)]
        rfl
      rw [hl, hnone, List.append_nil]
      exact ih

section Claiming

variable {w : World} {es : List (Event Order)} {i k : ℕ} {c : Order}
  {j : Job (Except BookingFailure BookingSummary)} {r : RequestId}

theorem claim?_of_start {ds : List Deed} {m : Meter} {d : Deed}
    (h : ds <+: [.did (.meter m) ()]) (hd : d ∈ ds) : d.claim? r = none ∧ d.insert? = none := by
  rw [List.mem_singleton.mp (h.subset hd)]
  exact ⟨rfl, rfl⟩

/-- Whoever asks for a request is an order for a new booking that carries it, and asks once. -/
theorem exists_claim {a : Except BookingFailure Unit}
    (h : ((orders w).run es).jobs[i]? = some (c, j))
    (hi : (i, a) ∈ claims r ((orders w).journal es)) :
    c.request? = some r ∧ c.Timely ∧ ∃ rest,
      Deed.doneBy i ((orders w).journal es) =
        .did (.meter .bookingStarted) () :: .did (.ledger (.accept r)) a :: rest ∧
      (a = .ok () → (rest.filterMap Deed.insert?).length ≤ 1) := by
  obtain ⟨d, hd, hclaim⟩ := mem_claims.mp hi
  have hd := Deed.mem_doneBy.mpr hd
  obtain ⟨q, hq⟩ := (Scene.told w es h).leads
  generalize Deed.doneBy i ((orders w).journal es) = ds at *
  cases c with
  | cancel o id user r' =>
    have hnone := (hq.of_plain (plain_cancel o.offLedger id user r') hd).2 r
    rw [hnone] at hclaim
    cases hclaim
  | create o user wish r' today uid =>
    cases hstay : Stay.requested wish.arrival wish.departure today with
    | error f =>
      have hnone := (claim?_of_start (r := r) (deeds_of_untimely hstay hq) hd).1
      rw [hnone] at hclaim
      cases hclaim
    | ok stay =>
      rcases deeds_of_create o.offLedger hstay hq with ⟨hpre, -⟩ | ⟨b, rest, rfl, hok, herr⟩
      · rw [(claim?_of_start (r := r) hpre hd).1] at hclaim
        cases hclaim
      · -- nothing that is done later asks for a request
        have hrest : ∀ d ∈ rest, d.claim? r = none := by
          intro d hmem
          cases b with
          | ok u => exact (hok rfl).1 d hmem r
          | error f => exact (claim?_of_start (herr f rfl).1 hmem).1
        rcases List.mem_cons.mp hd with rfl | hd
        · cases hclaim
        rcases List.mem_cons.mp hd with rfl | hd
        · have hq : (if r' = r then some b else none) = some a := hclaim
          split at hq
          next heq =>
            subst heq
            obtain rfl := Option.some.inj hq
            exact ⟨rfl, ⟨stay, hstay⟩, rest, rfl, fun hb => (hok hb).2⟩
          next => cases hq
        · rw [hrest d hd] at hclaim
          cases hclaim

theorem claims_append (ds fs : List (ℕ × Deed)) :
    claims r (ds ++ fs) = claims r ds ++ claims r fs :=
  List.filterMap_append

/-- The first to ask stays the first. -/
theorem claimant?_append {ds : List (ℕ × Deed)} (h : claimant? r ds = some k)
    (fs : List (ℕ × Deed)) : claimant? r (ds ++ fs) = some k := by
  obtain ⟨x, hx, rfl⟩ := Option.map_eq_some_iff.mp h
  unfold claimant?
  rw [claims_append, List.head?_append, hx]
  rfl

/-- Whoever is not the first to ask is told that the request was taken, and does nothing else. -/
theorem refused_of_ne (hw : w.ledgerPlans = []) (hr : r ∉ w.ledger.requests)
    (h : ((orders w).run es).jobs[i]? = some (c, j))
    (hc : c.request? = some r) (ht : c.Timely)
    (hi : claimant? r ((orders w).journal es) ≠ some i) :
    Deed.doneBy i ((orders w).journal es) <+: refusal r ∧
      ∀ x, j = .finished x → x = .error (.duplicate r) := by
  have htaken := takenOnce_run (s := orders w) hw hr es
  have htold := Scene.told w es h
  obtain ⟨q, hq, hend⟩ : ∃ q, c.process.Leads
      (Deed.doneBy i ((orders w).journal es)) q ∧
        ∀ x, j = .finished x → q = .done x := by
    cases j with
    | finished x => exact ⟨.done x, htold, fun y hy => by rw [Job.finished.inj hy]⟩
    | running p held => exact ⟨p, htold, fun y hy => by cases hy⟩
    | waiting t next held =>
      obtain ⟨q, hq⟩ := htold.leads
      exact ⟨q, hq, fun y hy => by cases hy⟩
    | dropped =>
      obtain ⟨q, hq⟩ := htold.leads
      exact ⟨q, hq, fun y hy => by cases hy⟩
  cases c with
  | cancel o id user r' => cases hc
  | create o user wish r' today uid =>
    obtain rfl := Option.some.inj hc
    obtain ⟨stay, hstay⟩ := ht
    rcases deeds_of_create o.offLedger hstay hq with ⟨hpre, hnot⟩ | ⟨a, rest, hds, -, herr⟩
    · refine ⟨hpre.trans ⟨_, rfl⟩, fun x hx => absurd (hend x hx) (hnot x)⟩
    · -- it did ask, so it was told the same as all but the first
      have hmem : (i, a) ∈ claims r' ((orders w).journal es) := by
        refine mem_claims.mpr ⟨.did (.ledger (.accept r')) a, Deed.mem_doneBy.mp ?_, ?_⟩
        · rw [hds]
          exact List.mem_cons_of_mem _ List.mem_cons_self
        · exact if_pos rfl
      rcases htaken with ⟨-, hnone⟩ | ⟨-, k, others, hclaims, hothers⟩
      · rw [hnone] at hmem
        cases hmem
      · rw [hclaims] at hmem
        rcases List.mem_cons.mp hmem with heq | hmem
        · obtain ⟨rfl, -⟩ := Prod.mk.inj heq
          refine absurd ?_ hi
          unfold claimant?
          rw [hclaims]
          rfl
        · have ha : a = .error (.duplicate r') := hothers _ hmem
          obtain ⟨hrest, hdone⟩ := herr _ ha
          rw [hds, ha]
          refine ⟨?_, fun x hx => hdone x (hend x hx)⟩
          exact (List.prefix_append_right_inj [_, _]).mpr hrest

/-- No order that is turned down lines up for a room or writes a booking down. -/
theorem not_mem_refusal {d : Deed} (hd : d ∈ refusal r) :
    d.insert? = none ∧ ∀ room t, d ≠ .linedUp room t := by
  simp only [refusal, List.mem_cons, List.not_mem_nil, or_false] at hd
  rcases hd with rfl | rfl | rfl <;> exact ⟨rfl, nofun⟩

/-- Once someone has asked for a request, anyone else who carries it is soon told that it was
taken. -/
theorem refused_soon (hw : w.ledgerPlans = []) (hr : r ∉ w.ledger.requests)
    (h : ((orders w).run es).jobs[i]? = some (c, j))
    (hc : c.request? = some r) (ht : c.Timely) (hj : j.givenUp = false)
    (hk : claimant? r ((orders w).journal es) = some k) (hki : k ≠ i) :
    ((orders w).run (es ++ List.replicate 4 (.advance i))).jobs[i]? =
      some (c, .finished (.error (.duplicate r))) := by
  -- it is not the first to ask at any later time either
  have hlater : ∀ m, claimant? r ((orders w).journal
      (es ++ List.replicate m (.advance i))) ≠ some i := by
    intro m
    have happend := claimant?_append hk
      (((orders w).run es).journal (List.replicate m (.advance i)))
    rw [Scene.journal, Scene.trail_append]
    intro hi
    exact hki (Option.some.inj (happend.symm.trans hi))
  have hrefused : ∀ m, Deed.doneBy i ((orders w).journal
      (es ++ List.replicate m (.advance i))) <+: refusal r := by
    intro m
    obtain ⟨j', hj'⟩ := Scene.exists_job_run h (List.replicate m (.advance i))
    rw [← Scene.run_append] at hj'
    exact (refused_of_ne hw hr hj' hc ht (hlater m)).1
  obtain ⟨a, ha⟩ := Scene.finishes_of_bound 3 h hj
    (fun m room t hmem => (not_mem_refusal ((hrefused m).subset hmem)).2 room t rfl)
    (fun m => (hrefused m).length_le)
  rw [ha, (refused_of_ne hw hr ha hc ht (hlater 4)).2 a rfl]

theorem length_filterMap_doneBy_le {β : Type} (k : ℕ) {f : ℕ × Deed → Option β}
    {g : Deed → Option β} {ds : List (ℕ × Deed)}
    (h : ∀ x ∈ ds, f x = none ∨ x.1 = k ∧ f x = g x.2) :
    (ds.filterMap f).length ≤ ((Deed.doneBy k ds).filterMap g).length := by
  induction ds with
  | nil => exact Nat.le_refl _
  | cons x rest ih =>
    have hrest := ih fun y hy => h y (List.mem_cons_of_mem _ hy)
    have hsplit : Deed.doneBy k ([x] ++ rest) = Deed.doneBy k [x] ++ Deed.doneBy k rest :=
      Deed.doneBy_append
    rw [List.singleton_append] at hsplit
    rw [hsplit, List.filterMap_append, List.length_append, ← List.singleton_append,
      List.filterMap_append, List.length_append]
    rcases h x List.mem_cons_self with hx | ⟨rfl, hx⟩
    · simp only [List.filterMap_cons, hx, List.filterMap_nil, List.length_nil]
      omega
    · have hone : Deed.doneBy x.1 [x] = [x.2] := by simp [Deed.doneBy]
      rw [hone]
      simp only [List.filterMap_cons, List.filterMap_nil, hx]
      omega

/-- The first to ask is told that the request is accepted. -/
theorem accepted_of_claimant? (hw : w.ledgerPlans = []) (hr : r ∉ w.ledger.requests)
    (hk : claimant? r ((orders w).journal es) = some k) :
    (k, .ok ()) ∈ claims r ((orders w).journal es) ∧ ∃ c j,
      ((orders w).run es).jobs[k]? = some (c, j) ∧ c.request? = some r ∧ c.Timely := by
  have hmem : (k, .ok ()) ∈ claims r ((orders w).journal es) := by
    unfold claimant? at hk
    rcases takenOnce_run (s := orders w) hw hr es with ⟨-, hnone⟩ | ⟨-, i, rest, hclaims, -⟩
    · rw [hnone] at hk
      cases hk
    · rw [hclaims] at hk ⊢
      obtain rfl := Option.some.inj hk
      exact List.mem_cons_self
  obtain ⟨d, hd, -⟩ := mem_claims.mp hmem
  have hlt : k < ((orders w).run es).jobs.length := Scene.lt_of_mem_journal hd
  have hj := List.getElem?_eq_getElem hlt
  obtain ⟨hc, ht, -⟩ := exists_claim hj hmem
  exact ⟨hmem, _, _, hj, hc, ht⟩

/-- One booking at most is written down for a request. -/
theorem length_inserted_le (hw : w.ledgerPlans = []) (hr : r ∉ w.ledger.requests)
    (es : List (Event Order)) :
    (inserted ((orders w).run es) r ((orders w).journal es)).length ≤ 1 := by
  -- whoever writes one down has been the first to ask
  have hfirst : ∀ x ∈ (orders w).journal es,
      (((orders w).run es).jobs[x.1]?).bind (·.1.request?) = some r → x.2.insert? ≠ none →
        claimant? r ((orders w).journal es) = some x.1 := by
    intro x hx hreq hins
    obtain ⟨⟨c, j⟩, hj, hc⟩ := Option.bind_eq_some_iff.mp hreq
    have hmem : x.2 ∈ Deed.doneBy x.1 ((orders w).journal es) := Deed.mem_doneBy.mpr hx
    by_contra hne
    by_cases ht : c.Timely
    · have hpre := (refused_of_ne hw hr hj hc ht hne).1
      exact hins (not_mem_refusal (hpre.subset hmem)).1
    · cases c with
      | cancel o id user r' => cases hc
      | create o user wish r' today uid =>
        obtain ⟨q, hq⟩ := (Scene.told w es hj).leads
        cases hstay : Stay.requested wish.arrival wish.departure today with
        | ok stay => exact ht ⟨stay, hstay⟩
        | error f =>
          exact hins (claim?_of_start (r := r) (deeds_of_untimely hstay hq) hmem).2
  cases hk : claimant? r ((orders w).journal es) with
  | none =>
    have hnil : inserted ((orders w).run es) r ((orders w).journal es) = [] := by
      refine List.filterMap_eq_nil_iff.mpr fun x hx => ?_
      split
      next hreq =>
        by_contra hins
        rw [hfirst x hx hreq hins] at hk
        cases hk
      next => rfl
    rw [hnil]
    exact Nat.zero_le 1
  | some k =>
    have hle : (inserted ((orders w).run es) r ((orders w).journal es)).length ≤
        ((Deed.doneBy k ((orders w).journal es)).filterMap Deed.insert?).length := by
      refine length_filterMap_doneBy_le k fun x hx => ?_
      by_cases hreq : (((orders w).run es).jobs[x.1]?).bind (·.1.request?) = some r
      · simp only [hreq, if_true]
        by_cases hins : x.2.insert? = none
        · exact .inl hins
        · have hx := hfirst x hx hreq hins
          rw [hk] at hx
          exact .inr ⟨(Option.some.inj hx).symm, trivial⟩
      · exact .inl (if_neg hreq)
    obtain ⟨hclaim, c, j, hj, -⟩ := accepted_of_claimant? hw hr hk
    obtain ⟨-, -, rest, hds, hrest⟩ := exists_claim hj hclaim
    rw [hds] at hle
    exact Nat.le_trans hle (hrest rfl)

end Claiming

/-- Of all orders for a new booking that carry a request and have sensible dates, the first to ask
for its acceptance is the only one that goes on. Whatever becomes of it, and whatever its gateway
and those of others answer, all others are told that the request was taken, and have done nothing
else, and do not wait for this. So one booking at most is ever written down for a request. -/
theorem request_taken_once (w : World) (hw : w.ledgerPlans = []) (r : RequestId)
    (hr : r ∉ w.ledger.requests) (es : List (Event Order)) :
    (∀ k, claimant? r ((orders w).journal es) = some k →
      (k, .ok ()) ∈ claims r ((orders w).journal es) ∧ ∃ c j,
        ((orders w).run es).jobs[k]? = some (c, j) ∧ c.request? = some r ∧ c.Timely) ∧
      (∀ i c j, ((orders w).run es).jobs[i]? = some (c, j) → c.request? = some r → c.Timely →
        claimant? r ((orders w).journal es) ≠ some i →
          Deed.doneBy i ((orders w).journal es) <+: refusal r ∧
          (∀ x, j = .finished x → x = .error (.duplicate r)) ∧
          (claimant? r ((orders w).journal es) ≠ none → j.givenUp = false →
            ((orders w).run (es ++ List.replicate 4 (.advance i))).jobs[i]? =
              some (c, .finished (.error (.duplicate r))))) ∧
      (inserted ((orders w).run es) r ((orders w).journal es)).length ≤ 1 ∧
      ((orders w).run es).world.ledger.bookings.length = w.ledger.bookings.length +
        (((orders w).journal es).filterMap (·.2.insert?)).length := by
  refine ⟨fun k hk => accepted_of_claimant? hw hr hk, ?_, length_inserted_le hw hr es,
    Scene.length_bookings (s := orders w) hw es⟩
  intro i c j h hc ht hi
  obtain ⟨hdeeds, hend⟩ := refused_of_ne hw hr h hc ht hi
  refine ⟨hdeeds, hend, fun hsome hj => ?_⟩
  obtain ⟨k, hk⟩ := Option.ne_none_iff_exists'.mp hsome
  have hki : k ≠ i := by
    rintro rfl
    exact hi hk
  exact refused_soon hw hr h hc ht hj hk hki

/-- The same request under two identifiers. -/
def sameRequest (digit : Nat) : Order :=
  .create (.direct .once) ⟨1⟩ (.ofRoom ⟨1⟩ Sample.twoNights.arrival Sample.twoNights.departure) ⟨"1"⟩
    Sample.newYear.date (Sample.uid digit)

/-- The first order is given up as soon as its request is accepted. -/
def forsaken : List (Event Order) :=
  [.start (sameRequest 1), .start (sameRequest 2), .advance 0, .advance 0, .drop 0]

theorem request_taken_once_of_forsaken :
    ((orders (.furnished Sample.newYear [Sample.room])).run
      (forsaken ++ List.replicate 4 (.advance 1))).jobs[1]? =
        some (sameRequest 2, .finished (.error (.duplicate ⟨"1"⟩))) := by
  have hstay : Stay.requested (some Sample.twoNights.arrival) (some Sample.twoNights.departure)
      Sample.newYear.date = .ok Sample.twoNights := by
    rfl
  obtain ⟨-, hothers, -⟩ := request_taken_once (.furnished Sample.newYear [Sample.room]) rfl ⟨"1"⟩
    (by decide) forsaken
  exact (hothers 1 (sameRequest 2) (.running (sameRequest 2).process []) rfl rfl
    ⟨Sample.twoNights, hstay⟩ (by decide)).2.2 (by decide) rfl

end Desk

end Lodging
