import Lodging.Client.Complaint
import Lodging.Proofs.Json.Magnitudes
import Lodging.Proofs.Text.Pieces
import Lodging.Wire

/-!
The complaint in the body of an answer. What the envelope of a failure says is found again by the
one who is told of it: its message, or its code if it has none.
-/

namespace Lodging

namespace Json

/-- An object has no white space at its ends. -/
theorem trimmed_compact (f : String × Json) (fs : List (String × Json)) :
    blank (object (f :: fs)).compact = false ∧
      trimmed (object (f :: fs)).compact = (object (f :: fs)).compact := by
  obtain ⟨k, j⟩ := f
  have hends : (object ((k, j) :: fs)).chars =
      '\x7b' :: ((quoted k ++ ':' :: j.chars ++ moreFields fs) ++ ['\x7d']) := by
    simp [chars]
  unfold blank trimmed compact
  rw [String.toList_ofList, hends, trim_of_ends _ (by decide) (by decide)]
  refine ⟨?_, rfl⟩
  rw [List.all_cons]
  rfl

end Json

namespace Complaint

/-- What an envelope complains of. -/
def ofProblem (p : Problem) : String :=
  match p.message with
  | some m => if blank m then p.code else m
  | none => p.code

theorem ofProblem_of_message {p : Problem} {message : String}
    (h : p.message = if message = "" then none else some message) :
    ofProblem p = if blank message then p.code else message := by
  unfold ofProblem
  rw [h]
  by_cases hempty : message = ""
  · rw [if_pos hempty, hempty]
    rfl
  · rw [if_neg hempty]

/-- The fields of an envelope, as they are read. -/
def entriesOf (p : Problem) : List (Option String × Node) :=
  [(some "timestamp", .text p.timestamp.text), (some "httpStatus", .number (.ofInt p.status)),
    (some "errorCode", .text p.code), (some "message", (Wire.ofOption p.message).node),
    (some "path", (Wire.ofOption p.path).node),
    (some "correlationId", (Wire.ofOption p.correlation).node)]

theorem value?_text (read : String → Option Node) (depth : Nat) (s : String) :
    (Node.text s).value? read depth = some (.text s) := by
  cases depth <;> rfl

theorem value?_ofOption (read : String → Option Node) (depth : Nat) (o : Option String) :
    (Wire.ofOption o).node.value? read depth = some (Wire.ofOption o).node := by
  cases o with
  | none => cases depth <;> rfl
  | some s => exact value?_text read depth s

theorem value?_entriesOf {p : Problem} (hstatus : p.status < 2 ^ 53)
    (read : String → Option Node) (depth : Nat) :
    (Node.object (entriesOf p) true).value? read (depth + 1) =
      some (.object (entriesOf p) true) := by
  have hnumber : (Node.number (.ofInt p.status)).value? read depth =
      some (.number (.ofInt p.status)) := by
    have hkept : (Numeral.ofInt p.status).representable = true :=
      Numeral.representable_ofInt hstatus
    cases depth <;> simp only [Node.value?, hkept, if_true]
  simp [Node.value?, entriesOf, Node.spelling, value?_text, value?_ofOption, hnumber]

theorem field?_ofOption {es : List (Option String × Node)} {name : String} {o : Option String}
    (h : es.reverse.lookup (some name) = some (Wire.ofOption o).node) :
    field? es name = o.filter fun s => ! blank s := by
  unfold field?
  rw [h]
  cases o with
  | none => rfl
  | some s =>
    cases hs : blank s <;>
      simp [Wire.ofOption, Json.ofOption, Wire.encode, Json.node, Option.filter, hs]

theorem findSome?_entriesOf {p : Problem} (hcode : blank p.code = false) :
    fields.findSome? (field? (entriesOf p)) = some (ofProblem p) := by
  have hmessage : field? (entriesOf p) "message" = p.message.filter fun s => ! blank s :=
    field?_ofOption (by simp [entriesOf, List.lookup_cons])
  have herror : field? (entriesOf p) "error" = none := by
    simp [field?, entriesOf, List.lookup_cons]
  have herrorCode : field? (entriesOf p) "errorCode" = some p.code := by
    simp [field?, entriesOf, List.lookup_cons, hcode]
  -- a blank message is passed over for the code
  unfold fields ofProblem
  simp only [List.findSome?, hmessage, herror, herrorCode]
  cases p.message with
  | none => rfl
  | some m => cases hm : blank m <;> simp [Option.filter, hm]

/-- The complaint about an envelope is its message, or else its code. -/
theorem ofBody?_write {p : Problem} (hstatus : p.status < 2 ^ 53) (hcode : blank p.code = false) :
    ofBody? (Wire.write p) = some (ofProblem p) := by
  have hwrite : Wire.write p = (Wire.encode p).compact := rfl
  have hnode : (Wire.encode p).node = .object (entriesOf p) true := rfl
  have hvalue : ∀ n, value? (n + 1) (Wire.write p) = some (.object (entriesOf p) true) := by
    intro n
    unfold value?
    rw [hwrite, Document.ofText_compact, hnode]
    exact value?_entriesOf hstatus _ _
  obtain ⟨hblank, htrimmed⟩ := Json.trimmed_compact ("timestamp", Wire.encode p.timestamp)
    [("httpStatus", .int p.status), ("errorCode", Wire.encode p.code),
      ("message", Wire.ofOption p.message), ("path", Wire.ofOption p.path),
      ("correlationId", Wire.ofOption p.correlation)]
  have hobject : ofObject? (Wire.write p) = some (ofProblem p) := by
    unfold ofObject?
    rw [hvalue]
    exact findSome?_entriesOf hcode
  unfold ofBody?
  change (if blank (Wire.write p) = true then none else
    some ((ofObject? (trimmed (Wire.write p))).getD (Wire.write p))) = _
  have hnonblank : blank (Wire.write p) = false := hblank
  have hsame : trimmed (Wire.write p) = Wire.write p := htrimmed
  rw [hnonblank, hsame, hobject]
  rfl

theorem ofBody?_eq_none_iff {body : String} : ofBody? body = none ↔ blank body = true := by
  unfold ofBody?
  split
  next h => simp [h]
  next h => simp [h]

theorem field?_not_blank {entries : List (Option String × Node)} {name t : String}
    (h : field? entries name = some t) : blank t = false := by
  unfold field? at h
  split at h
  next s _ =>
    split at h
    next => cases h
    next hs =>
      cases h
      exact Bool.eq_false_iff.mpr hs
  next => cases h

theorem ofObject?_not_blank {s t : String} (h : ofObject? s = some t) : blank t = false := by
  unfold ofObject? at h
  split at h
  next entries _ _ =>
    obtain ⟨name, -, hfield⟩ := List.exists_of_findSome?_eq_some h
    exact field?_not_blank hfield
  next => cases h

/-- A complaint says something, whatever the body is. -/
theorem ofBody?_not_blank {body t : String} (h : ofBody? body = some t) : blank t = false := by
  unfold ofBody? at h
  split at h
  next => cases h
  next hbody =>
    obtain rfl := Option.some.inj h
    cases hobject : ofObject? (trimmed body) with
    | none => exact Bool.eq_false_iff.mpr hbody
    | some t => exact ofObject?_not_blank hobject

end Complaint

end Lodging
