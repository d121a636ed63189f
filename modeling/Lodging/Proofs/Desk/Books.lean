import Lodging.Proofs.Desk.Aside
import Lodging.Proofs.Desk.Blame
import Lodging.Proofs.Desk.Requests
import Lodging.Proofs.Desk.Lifecycle

/-!
The books of the desk: what it has counted, next to what has become of the bookings. What an order
that has come to its end has added to the books tells how it went, for there are only a few ways.
-/

namespace Lodging

/-- An entry in the books of the desk. -/
inductive Posting where
  | counted (m : Meter)
  /-- A booking was written down. -/
  | made
  /-- A pending booking was moved to confirmed. -/
  | confirmed
  /-- A booking was moved to cancelled. -/
  | cancelled (id : BookingId)
  /-- A booking was to be moved to cancelled, but was no longer where it was expected to be. -/
  | missed
deriving DecidableEq

/-- What a deed adds to the books. -/
def Deed.posting? : Deed → Option Posting
  | did (.meter m) _ => if m.ofDesk then some (.counted m) else none
  | did (.ledger (.insertPending _)) (.ok _) => some .made
  | did (.ledger (.updateStatus _ .pending .confirmed)) (.ok (some _)) => some .confirmed
  | did (.ledger (.updateStatus id _ .cancelled)) (.ok (some _)) => some (.cancelled id)
  | did (.ledger (.updateStatus _ _ .cancelled)) (.ok none) => some .missed
  | _ => none

/-- What deeds add to the books, one after the other. -/
def Deed.postings (ds : List Deed) : List Posting := ds.filterMap posting?

namespace Posting

/-- An entry that can be made while a booking is undone. -/
def ofUndoing : Posting → Bool
  | cancelled _ | missed | counted .statusLost | counted .releaseFailed => true
  | _ => false

/-- A count that ends the pending state of a booking. -/
def closes : Posting → Bool
  | counted .bookingConfirmed | counted (.compensation _) => true
  | _ => false

end Posting

theorem Deed.postings_append (ds es : List Deed) : postings (ds ++ es) = postings ds ++ postings es :=
  List.filterMap_append

theorem Deed.posting?_cancel (id : BookingId) (s : Status)
    (a : (Action.ledger (.updateStatus id s .cancelled)).Answer) :
    (did (.ledger (.updateStatus id s .cancelled)) a).posting? =
      match a with
      | .ok (some _) => some (.cancelled id)
      | .ok none => some .missed
      | .error _ => none := by
  match a with
  | .ok (some b) | .ok none | .error f => cases s <;> rfl

theorem Action.Aside.posting?_eq_none {x : Action} (hx : x.Aside) (a : x.Answer) :
    (Deed.did x a).posting? = none := by
  cases x with
  | ledger c => cases hx
  | meter m =>
    have hm : m.ofDesk = false := hx
    simp only [Deed.posting?, hm, Bool.false_eq_true, if_false]
  | _ => rfl

/-- An action that adds nothing to the books, whatever comes of it. -/
def Action.Unposted (x : Action) : Prop := ∀ a : x.Answer, (Deed.did x a).posting? = none

theorem Process.Leads.postings_of_unposted {α : Type} {p q : Process α} {ds : List Deed}
    (h : p.Leads ds q) (hp : p.Uses Action.Unposted) : Deed.postings ds = [] := by
  refine List.filterMap_eq_nil_iff.mpr fun d hd => ?_
  cases d with
  | linedUp room t => rfl
  | did x a => exact h.of_uses hp hd a

theorem Process.Leads.postings_of_aside {α : Type} {p q : Process α} {ds : List Deed}
    (h : p.Leads ds q) (hp : p.Uses Action.Aside) : Deed.postings ds = [] :=
  h.postings_of_unposted (hp.mono fun _ hx => hx.posting?_eq_none)

namespace Desk

open Deed (postings postings_append)
open Process (Leads)

section Parts

variable {g : Gateway} {user : UserId} {wish : BookingRequest} {r : RequestId} {today : Date}
  {uid : Uid} {b : Booking} {id : BookingId} {ds : List Deed}
  {x : Except BookingFailure BookingSummary}

theorem postings_releaseQuietly (hg : g.Aside) {u : Unit}
    (h : Leads (releaseQuietly g b r) ds (.done u)) :
    ∀ p ∈ postings ds, p = .counted .releaseFailed := by
  obtain ⟨y, first, rest, rfl, hfirst, hrest⟩ := h.of_bind_done
  rw [postings_append, hfirst.postings_of_aside (hg.release _ _ _), List.nil_append]
  cases y with
  | ok a =>
    obtain ⟨rfl, -⟩ := hrest.of_done
    exact nofun
  | error f =>
    cases hrest with
    | did hend =>
      obtain ⟨rfl, -⟩ := hend.of_done
      exact fun p hp => List.mem_singleton.mp hp

theorem postings_compensate (hg : g.Aside) {u : Unit}
    (h : Leads (compensate g b r) ds (.done u)) : ∀ p ∈ postings ds, p.ofUndoing = true := by
  have hquiet : ∀ rest, Leads (releaseQuietly g b r) rest (.done u) →
      ∀ p ∈ postings rest, p.ofUndoing = true := by
    intro rest hrest p hp
    rw [postings_releaseQuietly hg hrest p hp]
    rfl
  -- the status is written first, and the room released whatever comes of that
  obtain ⟨y, first, rest, rfl, hmove, hrest⟩ := h.of_bind_done
  obtain ⟨a, rfl, -⟩ := leads_move hmove
  have hfirst : ∀ p ∈ postings [Deed.did (.ledger (.updateStatus b.id .pending .cancelled)) a],
      p.ofUndoing = true := by
    match a with
    | .ok (some c) | .ok none => exact fun p hp => List.mem_singleton.mp hp ▸ rfl
    | .error f => exact nofun
  have hrest : ∀ p ∈ postings rest, p.ofUndoing = true := by
    cases y with
    | ok c => exact hquiet rest hrest
    | error f =>
      cases hrest with
      | @did _ _ _ rest _ hrest =>
        intro p hp
        rcases List.mem_cons.mp hp with rfl | hp
        · rfl
        · exact hquiet rest hrest p hp
  intro p hp
  rw [postings_append] at hp
  exact (List.mem_append.mp hp).elim (hfirst p) (hrest p)

theorem postings_secure (hg : g.Aside) {y : Except BookingFailure Booking}
    (h : Leads (secure g b r).run ds (.done y)) :
    postings ds = if y.toBool then [.confirmed] else [] := by
  have hinvoke := uses_invoke (hg.confirm b.room ⟨b.stay.arrival, b.stay.departure, b.uid, r⟩)
  rcases h.of_task_bind_done with ⟨f, rfl, hfirst⟩ | ⟨_, first, rest, rfl, hfirst, hmove⟩
  · exact hfirst.postings_of_aside hinvoke
  · obtain ⟨a, rfl, ha⟩ := leads_move hmove
    rw [postings_append, hfirst.postings_of_aside hinvoke, List.nil_append]
    cases y with
    | ok d =>
      rw [(ha d).mp rfl]
      rfl
    | error f =>
      match a with
      | .ok (some d) => cases (ha d).mpr rfl
      | .ok none | .error e => rfl

/-- What is added to the books from when a booking is pending until its order comes to its end. -/
inductive Concluded : List Posting → Except BookingFailure BookingSummary → Prop
  | confirmed (s : BookingSummary) :
    Concluded [.confirmed, .counted .bookingConfirmed, .counted .bookingTimed] (.ok s)
  | undone (f : BookingFailure) {u : List Posting} (hu : ∀ p ∈ u, p.ofUndoing = true) :
    Concluded (.counted (.compensation f.kind) :: u ++ [.counted .bookingTimed]) (.error f)

theorem concluded_of_leads (hg : g.Aside) (h : Leads (conclude g r b).run ds (.done x)) :
    Concluded (postings ds) x := by
  cases concludes_of_leads h with
  | @confirmed secured d hsecure =>
    rw [postings_append, postings_secure hg hsecure]
    exact .confirmed d.summary
  | @undone secured undone f hsecure hundo =>
    have hps : postings (.did (.meter (.compensation f.kind)) () ::
        (undone ++ [.did (.meter .bookingTimed) ()])) =
          .counted (.compensation f.kind) :: (postings undone ++ [.counted .bookingTimed]) := by
      change Posting.counted (.compensation f.kind) :: postings (undone ++ _) = _
      rw [postings_append]
      rfl
    rw [postings_append, postings_secure hg hsecure, hps]
    exact .undone f (postings_compensate hg hundo)

/-- A failure that says that a request was accepted before. -/
def Repeated (f : BookingFailure) : Prop := ∃ q, f = .duplicate q

/-- What is added to the books by an order for a new booking until it comes to its end. -/
inductive Entered : List Posting → Except BookingFailure BookingSummary → Prop
  | turnedDown {f : BookingFailure} (hf : ¬ Repeated f) :
    Entered [.counted .bookingStarted] (.error f)
  | duplicate (q : RequestId) :
    Entered [.counted .bookingStarted, .counted .duplicateRequest] (.error (.duplicate q))
  | made {ps : List Posting} {x : Except BookingFailure BookingSummary} (h : Concluded ps x)
    (hx : ∀ f, x = .error f → ¬ Repeated f) :
    Entered (.counted .bookingStarted :: .made :: ps) x

/-- The ledger says of nothing but requests that they were accepted before. -/
def Honest (ds : List Deed) : Prop :=
  ∀ c, ∀ a : (Action.ledger c).Answer, .did (.ledger c) a ∈ ds → ∀ f, a = .error f → Repeated f →
    ∃ q, c = .accept q

theorem Honest.of_subset {es : List Deed} (h : Honest ds) (hsub : es ⊆ ds) : Honest es :=
  fun c a hmem => h c a (hsub hmem)

theorem Honest.of_cons {d : Deed} (h : Honest (d :: ds)) : Honest ds :=
  h.of_subset (List.subset_cons_self d ds)

/-- So no part that asks for the acceptance of no request finds that one was accepted before. -/
theorem Honest.not_repeated {α : Type} {p : Process (Except BookingFailure α)} (h : Honest ds)
    {f : BookingFailure} (hp : Candid Repeated p) (hplain : p.Uses Action.Plain)
    (hleads : Leads p ds (.done (.error f))) : ¬ Repeated f := by
  intro hf
  obtain ⟨c, a, hmem, ha⟩ := hp ds f hf hleads
  obtain ⟨q, rfl⟩ := h c a hmem f ha hf
  exact hleads.of_uses hplain hmem

theorem not_repeated_of_requested {f : BookingFailure}
    (h : Stay.requested wish.arrival wish.departure today = .error f) : ¬ Repeated f := by
  rintro ⟨q, rfl⟩
  unfold Stay.requested at h
  split at h
  · split at h
    · split at h <;> cases h
    · cases h
  · cases h

theorem entered_of_book (hg : g.Aside) {stay : Stay} (hds : Honest ds)
    (h : Leads (book g user wish r uid stay).run ds (.done x)) :
    (∃ f, x = .error f ∧ ¬ Repeated f ∧ postings ds = []) ∨
      ∃ ps, Concluded ps x ∧ (∀ f, x = .error f → ¬ Repeated f) ∧ postings ds = .made :: ps := by
  have hchoose : (chooseRoom g wish stay r).run.Uses Action.Aside :=
    uses_chooseRoom (hg.recommend stay r) wish
  rcases Leads.of_task_bind_done (t := chooseRoom g wish stay r) h with
    ⟨f, rfl, hfirst⟩ | ⟨room, first, rest, rfl, hfirst, hrest⟩
  · have hcandid : Candid Repeated (chooseRoom g wish stay r).run :=
      candid_chooseRoom nofun nofun nofun wish stay
    refine .inl ⟨f, rfl, ?_, hfirst.postings_of_aside hchoose⟩
    exact hds.not_repeated hcandid (plain_chooseRoom hg.offLedger wish stay r) hfirst
  · rw [postings_append, hfirst.postings_of_aside hchoose, List.nil_append]
    have hds := hds.of_subset (List.subset_append_right first rest)
    change Leads (.act (.ledger (.insertPending ⟨uid, user, room, stay⟩)) fun a =>
      ExceptT.bindCont (conclude g r) a) rest _ at hrest
    cases hrest with
    | @did _ _ a rest _ hrest =>
      cases a with
      | error f =>
        obtain ⟨rfl, hx⟩ := hrest.of_done
        cases hx
        -- nothing was written down, and for another reason than a request
        refine .inl ⟨f, rfl, fun hf => ?_, rfl⟩
        obtain ⟨q, hq⟩ := hds _ _ (List.mem_singleton_self _) f rfl hf
        cases hq
      | ok b =>
        change Leads (conclude g r b).run rest (.done x) at hrest
        refine .inr ⟨_, concluded_of_leads hg hrest, ?_, rfl⟩
        rintro f rfl
        exact hds.of_cons.not_repeated (candid_conclude nofun nofun g r b)
          (plain_conclude hg.offLedger r b) hrest

theorem entered_of_leads (hg : g.Aside) (hds : Honest ds)
    (h : Leads (create g user wish r today uid).run ds (.done x)) : Entered (postings ds) x := by
  cases ends_of_leads h with
  | untimely hstay => exact .turnedDown (not_repeated_of_requested hstay)
  | repeated hstay q => exact .duplicate q
  | failed hstay hf => exact .turnedDown fun ⟨q, hq⟩ => hf q hq
  | @booked stay hstay rest x h =>
    have hps : postings (.did (.meter .bookingStarted) () ::
        .did (.ledger (.accept r)) (.ok ()) :: rest) = .counted .bookingStarted :: postings rest :=
      rfl
    rw [hps]
    rcases entered_of_book hg hds.of_cons.of_cons h with ⟨f, rfl, hf, hnil⟩ | ⟨ps, hend, hx, hcons⟩
    · rw [hnil]
      exact .turnedDown hf
    · rw [hcons]
      exact .made hend hx

/-- What is added to the books by a cancellation until it comes to its end. -/
inductive Withdrawn : List Posting → Except BookingFailure BookingSummary → Prop
  | failed (f : BookingFailure) {u : List Posting} (hu : ∀ p ∈ u, p = .counted .releaseFailed) :
    Withdrawn u (.error f)
  | already (s : BookingSummary) : Withdrawn [] (.ok s)
  | cancelled (id : BookingId) (s : BookingSummary) {u : List Posting}
    (hu : ∀ p ∈ u, p = .counted .releaseFailed) :
    Withdrawn (u ++ [.cancelled id, .counted .bookingCancelled]) (.ok s)
  | late (s : BookingSummary) {u : List Posting} (hu : ∀ p ∈ u, p = .counted .releaseFailed) :
    Withdrawn (u ++ [.missed, .counted .bookingCancelled]) (.ok s)
  | stale (f : BookingFailure) {u : List Posting} (hu : ∀ p ∈ u, p = .counted .releaseFailed) :
    Withdrawn (u ++ [.missed]) (.error f)

theorem postings_markCancelled {y : Except BookingFailure Booking}
    (h : Leads (markCancelled b).run ds (.done y)) :
    postings ds = [.cancelled b.id] ∧ (∃ c, y = .ok c) ∨ postings ds = [.missed] ∨
      postings ds = [] ∧ ∃ f, y = .error f := by
  rcases h.of_task_bind_done with ⟨f, rfl, hask⟩ | ⟨c, first, rest, rfl, hask, hrest⟩
  · cases hask with
    | did hask =>
      obtain ⟨rfl, ha⟩ := hask.of_done
      cases ha
      refine .inr (.inr ⟨?_, f, rfl⟩)
      simp only [postings, List.filterMap_cons, Deed.posting?_cancel, List.filterMap_nil]
  · have hfirst : postings first = [(c.elim .missed fun _ => .cancelled b.id)] := by
      cases hask with
      | did hask =>
        obtain ⟨rfl, ha⟩ := hask.of_done
        cases ha
        cases c <;>
          simp only [postings, List.filterMap_cons, Deed.posting?_cancel, List.filterMap_nil,
            Option.elim]
    -- the look at the booking after a miss posts nothing
    have hrest : postings rest = [] ∧ (c ≠ none → ∃ d, y = .ok d) := by
      cases c with
      | some d =>
        obtain ⟨rfl, hy⟩ := hrest.of_done
        cases hy
        exact ⟨rfl, fun _ => ⟨d, rfl⟩⟩
      | none =>
        refine ⟨hrest.postings_of_unposted ?_, fun h => absurd rfl h⟩
        refine Process.Uses.task_bind (uses_ask fun _ => rfl) fun d => ?_
        cases d with
        | none => trivial
        | some d =>
          simp only
          split <;> trivial
    rw [postings_append, hfirst, hrest.1]
    cases c with
    | some d => exact .inl ⟨rfl, hrest.2 (Option.some_ne_none d)⟩
    | none => exact .inr (.inl rfl)

theorem withdrawn_of_leads (hg : g.Aside)
    (h : Leads (cancel g id user r).run ds (.done x)) : Withdrawn (postings ds) x := by
  rw [cancel_eq] at h
  have howned : (owned id user).run.Uses Action.Unposted := uses_owned (fun _ => rfl) user
  rcases Leads.of_task_bind_done h with ⟨f, rfl, hfirst⟩ | ⟨b, first, rest, rfl, hfirst, hrest⟩
  · rw [hfirst.postings_of_unposted howned]
    exact .failed f nofun
  · rw [postings_append, hfirst.postings_of_unposted howned, List.nil_append]
    unfold withdraw at hrest
    split at hrest
    next =>
      obtain ⟨rfl, hx⟩ := hrest.of_done
      cases hx
      exact .already b.summary
    next hb =>
      -- the room is released before the booking is marked, and may fail without notice
      obtain ⟨y, quiet, last, rfl, hlift, hlast⟩ := Leads.of_bind_done hrest
      obtain ⟨u, hquiet, rfl⟩ := Leads.of_map_done (p := releaseQuietly g b r) hlift
      have hu := postings_releaseQuietly hg hquiet
      rw [postings_append]
      rcases Leads.of_task_bind_done (t := markCancelled b) hlast with
        ⟨f, rfl, hmark⟩ | ⟨c, marked, noted, rfl, hmark, hnote⟩
      · rcases postings_markCancelled hmark with ⟨-, c, hc⟩ | hps | ⟨hps, -⟩
        · cases hc
        · exact hps ▸ .stale f hu
        · rw [hps, List.append_nil]
          exact .failed f hu
      · cases hnote with
        | did hend =>
          obtain ⟨rfl, hx⟩ := hend.of_done
          cases hx
          rw [postings_append]
          rcases postings_markCancelled hmark with ⟨hps, -⟩ | hps | ⟨-, f, hf⟩
          · exact hps ▸ .cancelled b.id c.summary hu
          · exact hps ▸ .late c.summary hu
          · cases hf

end Parts

end Desk

end Lodging
