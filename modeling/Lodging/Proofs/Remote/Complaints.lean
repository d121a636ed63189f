import Lodging.Proofs.Json.Complaints
import Lodging.Proofs.Service.Frame
import Lodging.World.Sample

/-!
A client is told what a service complains of. The service puts a refusal into an envelope and fills
that in on the way out; whatever texts go into it, the client finds the message again.
-/

namespace Lodging.Complaint

variable {code message : String}

/-- The message of an envelope is found again, or else its code. -/
theorem ofBody?_make (now : Instant) {status : Nat} (path correlation : Option String)
    (hstatus : status < 2 ^ 16) (hcode : blank code = false) :
    ofBody? (Wire.write { Problem.make now status code message with
      path := path, correlation := correlation }) =
        some (if blank message then code else message) := by
  let p : Problem := { Problem.make now status code message with
    path := path, correlation := correlation }
  have hbound : p.status < 2 ^ 53 := Nat.lt_trans hstatus (by decide)
  calc ofBody? (Wire.write p)
    _ = some (ofProblem p) := ofBody?_write hbound hcode
    _ = some (if blank message then code else message) :=
      congrArg some (ofProblem_of_message (p := p) rfl)

/-- The texts of an envelope come through to the client: its message if that is not blank, and else
its code. Of any other body the client makes nothing if it is blank, and else a text that is not. -/
theorem complaints_come_through :
    (∀ now status code message path correlation, status < 2 ^ 16 → blank code = false →
      ofBody? (Wire.write { Problem.make now status code message with
        path := path, correlation := correlation }) =
          some (if blank message then code else message)) ∧
    (∀ (x : Exchange) (f : Refusal), f.status < 2 ^ 16 → blank f.code = false →
      ofBody? (Service.sent x (.error f)).body =
        some (if blank f.message then f.code else f.message)) ∧
    ∀ body, (ofBody? body = none ↔ blank body = true) ∧
      ∀ t, ofBody? body = some t → blank t = false := by
  refine ⟨?_, ?_, ?_⟩
  · intro now status code message path correlation hstatus hcode
    exact ofBody?_make now path correlation hstatus hcode
  · intro x f hstatus hcode
    exact ofBody?_make x.occasion.now _ _ hstatus hcode
  · intro body
    exact ⟨ofBody?_eq_none_iff, fun t h => ofBody?_not_blank h⟩

theorem complaints_come_through_quoted :
    let said := "\"101\" \\\n\u0001☃"
    let x : Exchange := ⟨⟨Sample.newYear, Sample.uid 1, ⟨"new"⟩⟩, ⟨"GET", "/\"", [], ""⟩, []⟩
    ofBody? (Wire.write { Problem.make Sample.newYear 409 "CONFLICT" said with
        path := some "/\"", correlation := none }) = some said ∧
      ofBody? (Service.sent x (.error ⟨503, "SERVICE_UNAVAILABLE", "\u3000\n"⟩)).body =
        some "SERVICE_UNAVAILABLE" := by
  intro said x
  obtain ⟨hmade, hsent, -⟩ := complaints_come_through
  have hmessage := hmade Sample.newYear 409 "CONFLICT" said (some "/\"") none (by decide)
    (by decide)
  have hcode := hsent x ⟨503, "SERVICE_UNAVAILABLE", "\u3000\n"⟩ (by decide) (by decide)
  have hspoken : blank said = false := by decide
  have hblank : blank "\u3000\n" = true := by decide
  simp only [hspoken, Bool.false_eq_true, if_false] at hmessage
  simp only [hblank, if_true] at hcode
  exact ⟨hmessage, hcode⟩

end Lodging.Complaint
