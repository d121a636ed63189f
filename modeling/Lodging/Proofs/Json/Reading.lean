import Lodging.Json.Basic
import Lodging.Json.Reader
import Lodging.Proofs.Text.Numerals

/-!
Reading what was written. A value that is written and read is the node which looks like it, with no
text left over. Only a number does not show its own end: it is complete if what follows is no part of
a number, or nothing.
-/

namespace Lodging

/-- The numeral of an integer as it is written. -/
def Numeral.ofInt (i : Int) : Numeral := ⟨decide (i < 0), Decimal.digits i.natAbs, [], false, []⟩

theorem Numeral.int?_ofInt (i : Int) : (ofInt i).int? = some i := by
  unfold int? ofInt
  simp only [ne_eq, not_true_eq_false, or_self, if_false, Decimal.value_digits]
  by_cases h : i < 0
  · have hne : i.natAbs ≠ 0 := by omega
    simp only [h, decide_true, if_true, hne, if_false]
    congr 1
    omega
  · simp only [h, decide_false, Bool.false_eq_true, if_false]
    congr 1
    omega

namespace Json

mutual

/-- What a value looks like when it is read. -/
def node : Json → Node
  | null => .null
  | bool b => .bool b
  | int i => .number (.ofInt i)
  | text s => .text s
  | array items => .array (nodes items) true
  | object fields => .object (entries fields) true

def nodes : List Json → List Node
  | [] => []
  | j :: r => node j :: nodes r

def entries : List (String × Json) → List (Option String × Node)
  | [] => []
  | (k, j) :: r => (some k, node j) :: entries r

end

/-- A value begins with a character that can begin nothing else. -/
theorem exists_chars_cons (j : Json) :
    ∃ c s, j.chars = c :: s ∧ Reader.gap c = false ∧ c ≠ ']' := by
  match j with
  | null => exact ⟨_, _, rfl, rfl, by decide⟩
  | bool true | bool false => exact ⟨_, _, rfl, rfl, by decide⟩
  | text s => exact ⟨_, _, rfl, rfl, by decide⟩
  | array [] | array (_ :: _) => exact ⟨_, _, rfl, rfl, by decide⟩
  | object [] | object ((_, _) :: _) => exact ⟨_, _, rfl, rfl, by decide⟩
  | int i =>
    simp only [chars, Decimal.intDigits]
    split
    · exact ⟨_, _, rfl, rfl, by decide⟩
    · obtain ⟨d, ds, hds, hd, -⟩ := Decimal.exists_digits_cons i.natAbs
      refine ⟨d, ds, hds, ?_, ne_of_isDigit hd (by decide)⟩
      have hspace := ne_of_isDigit hd (d := ' ') (by decide)
      have hline := ne_of_isDigit hd (d := '\n') (by decide)
      have htab := ne_of_isDigit hd (d := '\t') (by decide)
      have hreturn := ne_of_isDigit hd (d := '\r') (by decide)
      simp [Reader.gap, hspace, hline, htab, hreturn]

end Json

namespace Reader

variable {s : State} {n : Node} {frames : List Frame} {c : Char} {use : Use} {sp : Spelling}

theorem addUnit_of_lt {u : Nat} (h : u < 0xD800) : sp.addUnit u = sp.add (Char.ofNat u) := by
  unfold Spelling.addUnit
  rw [if_neg (by omega), if_neg (by omega)]

/-- A character is read back from its escape, or as itself. -/
theorem foldl_escaped (c : Char) (use : Use) (sp : Spelling) (frames : List Frame) :
    (Json.escaped c).foldl step ⟨.text use sp .none, frames⟩ =
      ⟨.text use (sp.add c) .none, frames⟩ := by
  unfold Json.escaped
  cases hshort : Json.shortEscape? c with
  | some e =>
    -- the seven characters with a short escape
    unfold Json.shortEscape? at hshort
    repeat' split at hshort
    all_goals first
      | (subst_vars; cases hshort; rfl)
      | cases hshort
  | none =>
    have hquote : c ≠ '"' := by
      rintro rfl
      cases hshort
    have hback : c ≠ '\\' := by
      rintro rfl
      cases hshort
    by_cases hcontrol : c.toNat < 0x20
    · have hhigh : Hex.val? (Hex.lower (c.toNat / 16)) = some (c.toNat / 16) :=
        Hex.val?_lower ⟨c.toNat / 16, by omega⟩
      have hlow : Hex.val? (Hex.lower (c.toNat % 16)) = some (c.toNat % 16) :=
        Hex.val?_lower ⟨c.toNat % 16, by omega⟩
      have hunit : 16 * (c.toNat / 16) + c.toNat % 16 = c.toNat := Nat.div_add_mod ..
      have hzero : Hex.val? '0' = some 0 := rfl
      simp only [hcontrol, if_true, List.foldl_cons, List.foldl_nil, step, spell, hzero, hhigh,
        hlow]
      simp [hunit, addUnit_of_lt (show c.toNat < 0xD800 by omega), Char.ofNat_toNat]
    · simp only [hcontrol, if_false, List.foldl_cons, List.foldl_nil, step, spell, hquote, hback]

theorem foldl_spelling (cs : List Char) (use : Use) (before : List Char) (frames : List Frame) :
    (cs.flatMap Json.escaped).foldl step ⟨.text use ⟨before, none, true⟩ .none, frames⟩ =
      ⟨.text use ⟨cs.reverse ++ before, none, true⟩ .none, frames⟩ := by
  induction cs generalizing before with
  | nil => rfl
  | cons c rest ih =>
    rw [List.flatMap_cons, List.foldl_append, foldl_escaped]
    have hadd : (⟨before, none, true⟩ : Spelling).add c = ⟨c :: before, none, true⟩ := rfl
    rw [hadd, ih, List.reverse_cons, List.append_assoc]
    rfl

/-- A string is read from behind its first quotation mark. -/
theorem foldl_quoted (s : String) (use : Use) (frames : List Frame) :
    (s.toList.flatMap Json.escaped ++ ['"']).foldl step ⟨.text use .empty .none, frames⟩ =
      ⟨finish use (some s), frames⟩ := by
  have htext : (⟨s.toList.reverse ++ [], none, true⟩ : Spelling).text? = some s := by
    unfold Spelling.text?
    simp
  rw [List.foldl_append, Spelling.empty, foldl_spelling]
  simp only [List.foldl_cons, List.foldl_nil, step, spell, if_true, htext]

/-- A value has been read to its end, where a number may still go on. -/
def Complete (s : State) (n : Node) (frames : List Frame) : Prop :=
  s.frames = frames ∧ (s.mode = .after n ∨
    ∃ stage m, s.mode = .number stage m ∧ stage.final = true ∧ .number (numeral m) = n)

theorem complete_after (n : Node) (frames : List Frame) : Complete ⟨.after n, frames⟩ n frames :=
  ⟨rfl, .inl rfl⟩

/-- The marks between values and behind them. -/
def mark (c : Char) : Bool := c = ',' || c = ']' || c = '\x7d'

/-- A mark is no part of a number. -/
theorem next?_mark (hc : mark c = true) (stage : Stage) : stage.next? c = none := by
  have hcases : c = ',' ∨ c = ']' ∨ c = '\x7d' := by
    simpa [mark, or_assoc] using hc
  rcases hcases with rfl | rfl | rfl <;> cases stage <;> rfl

theorem Complete.step (hs : Complete s n frames) (hc : mark c = true) :
    step s c = follow n frames c := by
  obtain ⟨mode, frames'⟩ := s
  obtain ⟨rfl, hmode⟩ := hs
  rcases hmode with hmode | ⟨stage, m, hmode, hfinal, rfl⟩
  · simp only at hmode
    simp only [hmode, Reader.step]
  · simp only at hmode
    simp only [hmode, Reader.step, next?_mark hc, hfinal, if_true]

theorem Complete.document (hs : Complete s n []) : s.document = ⟨n, true⟩ := by
  obtain ⟨mode, frames⟩ := s
  obtain ⟨hframes, hmode⟩ := hs
  simp only at hframes
  subst hframes
  rcases hmode with hmode | ⟨stage, m, hmode, hfinal, rfl⟩
  · simp only at hmode
    simp only [hmode, State.document, List.foldl_nil, Mode.node]
  · simp only at hmode
    simp only [hmode, State.document, List.foldl_nil, Mode.node, hfinal, if_true]

theorem foldl_digits {ds : List Char} (hds : ∀ c ∈ ds, c.isDigit = true) (m : Numeral)
    (frames : List Frame) : ds.foldl step ⟨.number .whole m, frames⟩ =
      ⟨.number .whole { m with whole := ds.reverse ++ m.whole }, frames⟩ := by
  induction ds generalizing m with
  | nil => rfl
  | cons d rest ih =>
    have hd := hds d List.mem_cons_self
    have hstep : step ⟨.number .whole m, frames⟩ d =
        ⟨.number .whole { m with whole := d :: m.whole }, frames⟩ := by
      simp only [Reader.step, Stage.next?, hd, if_true, Stage.add]
    rw [List.foldl_cons, hstep, ih fun c hc => hds c (List.mem_cons_of_mem _ hc),
      List.reverse_cons, List.append_assoc]
    rfl

/-- The part of a number that its first digit begins. -/
def firstStage (d : Char) : Stage := if d = '0' then .zero else .whole

theorem next?_sign {d : Char} (hd : d.isDigit = true) :
    Stage.sign.next? d = some (firstStage d) := by
  by_cases h : d = '0'
  · simp [Stage.next?, firstStage, h]
  · simp [Stage.next?, firstStage, h, hd]

theorem begin_digit {d : Char} (hd : d.isDigit = true) (frames : List Frame) :
    begin frames d = ⟨.number (firstStage d) ⟨false, [d], [], false, []⟩, frames⟩ := by
  have hne : ∀ c : Char, c.isDigit = false → d ≠ c := fun c hc => ne_of_isDigit hd hc
  unfold begin
  simp only [hne '"' rfl, hne '[' rfl, hne '\x7b' rfl, hne 'n' rfl, hne 't' rfl, hne 'f' rfl,
    hne '-' rfl, if_false, next?_sign hd]

/-- The digits of a number are read to an end, with or without a sign before them. -/
theorem complete_digits (k : Nat) (negative : Bool) {d : Char} {ds : List Char}
    (hds : Decimal.digits k = d :: ds) (frames : List Frame) :
    Complete (ds.foldl step ⟨.number (firstStage d) ⟨negative, [d], [], false, []⟩, frames⟩)
      (.number ⟨negative, Decimal.digits k, [], false, []⟩) frames := by
  have hall : ∀ c ∈ ds, c.isDigit = true := fun c hc =>
    Decimal.isDigit_of_mem_digits (hds ▸ List.mem_cons_of_mem _ hc)
  by_cases hzero : d = '0'
  · -- only zero itself begins with a zero
    have hk : k = 0 := by
      apply Nat.eq_zero_of_not_pos
      intro hpos
      have hhead := Decimal.head?_digits hpos
      rw [hds, hzero] at hhead
      exact hhead rfl
    have hdigits : Decimal.digits 0 = ['0'] := by
      unfold Decimal.digits
      rfl
    rw [hk, hdigits] at hds
    obtain ⟨rfl, rfl⟩ := List.cons.inj hds
    rw [hk, hdigits]
    exact ⟨rfl, .inr ⟨.zero, _, rfl, rfl, rfl⟩⟩
  · have hstage : firstStage d = .whole := if_neg hzero
    rw [hstage, foldl_digits hall]
    refine ⟨rfl, .inr ⟨.whole, _, rfl, rfl, ?_⟩⟩
    rw [hds]
    simp [numeral]

theorem complete_int (i : Int) (frames : List Frame) :
    Complete ((Decimal.intDigits i).foldl step ⟨.value, frames⟩) (.number (.ofInt i)) frames := by
  obtain ⟨d, ds, hds, hd, -⟩ := Decimal.exists_digits_cons i.natAbs
  unfold Decimal.intDigits Numeral.ofInt
  by_cases hneg : i < 0
  · have hminus : step ⟨.value, frames⟩ '-' =
        ⟨.number .sign ⟨true, [], [], false, []⟩, frames⟩ := rfl
    have hfirst : step ⟨.number .sign ⟨true, [], [], false, []⟩, frames⟩ d =
        ⟨.number (firstStage d) ⟨true, [d], [], false, []⟩, frames⟩ := by
      simp only [Reader.step, next?_sign hd]
      unfold firstStage
      split <;> rfl
    rw [if_pos hneg, List.foldl_cons, hminus, hds, List.foldl_cons, hfirst, ← hds]
    simpa [hneg] using complete_digits i.natAbs true hds frames
  · have hgap : gap d = false := by
      have hne : ∀ c : Char, c.isDigit = false → d ≠ c := fun c hc => ne_of_isDigit hd hc
      simp [gap, hne ' ' rfl, hne '\n' rfl, hne '\t' rfl, hne '\r' rfl]
    have hfirst : step ⟨.value, frames⟩ d =
        ⟨.number (firstStage d) ⟨false, [d], [], false, []⟩, frames⟩ := by
      simp only [Reader.step, hgap, Bool.false_eq_true, if_false]
      exact begin_digit hd frames
    rw [if_neg hneg, hds, List.foldl_cons, hfirst, ← hds]
    simpa [hneg] using complete_digits i.natAbs false hds frames

/-- A key is read from behind its first quotation mark, up to its value. -/
theorem foldl_key (k : String) (before : List (Option String × Node)) (frames : List Frame)
    (rest : List Char) :
    (k.toList.flatMap Json.escaped ++ ('"' :: ':' :: rest)).foldl step
      ⟨.text (.key before) .empty .none, frames⟩ =
      rest.foldl step ⟨.value, .entry before (some k) :: frames⟩ := by
  have hsplit : k.toList.flatMap Json.escaped ++ ('"' :: ':' :: rest) =
      (k.toList.flatMap Json.escaped ++ ['"']) ++ (':' :: rest) := by simp
  rw [hsplit, List.foldl_append, foldl_quoted]
  rfl

mutual

/-- Whatever is around it, a written value is read to its end. -/
theorem complete_chars (j : Json) (frames : List Frame) :
    Complete (j.chars.foldl step ⟨.value, frames⟩) j.node frames := by
  match j with
  | .null =>
    have hword : Json.null.chars.foldl step ⟨.value, frames⟩ = ⟨.after .null, frames⟩ := by
      simp [Json.chars, Reader.step, gap, begin]
    rw [hword]
    exact complete_after _ _
  | .bool true =>
    have hword : (Json.bool true).chars.foldl step ⟨.value, frames⟩ =
        ⟨.after (.bool true), frames⟩ := by
      simp [Json.chars, Reader.step, gap, begin]
    rw [hword]
    exact complete_after _ _
  | .bool false =>
    have hword : (Json.bool false).chars.foldl step ⟨.value, frames⟩ =
        ⟨.after (.bool false), frames⟩ := by
      simp [Json.chars, Reader.step, gap, begin]
    rw [hword]
    exact complete_after _ _
  | .int i => exact complete_int i frames
  | .text s =>
    have hquoted := foldl_quoted s .value frames
    rw [Json.chars]
    unfold Json.quoted
    rw [List.cons_append, List.foldl_cons]
    change Complete ((s.toList.flatMap Json.escaped ++ ['"']).foldl step
      ⟨.text .value .empty .none, frames⟩) _ _
    rw [hquoted]
    exact complete_after _ _
  | .array [] => exact complete_after _ _
  | .array (j :: r) =>
    obtain ⟨c, s, hchars, hgap, hbracket⟩ := j.exists_chars_cons
    -- the first item is read as any value
    have hfirst : j.chars.foldl step ⟨.firstItem, frames⟩ =
        j.chars.foldl step ⟨.value, .item [] :: frames⟩ := by
      rw [hchars, List.foldl_cons, List.foldl_cons]
      simp only [Reader.step, hgap, hbracket, Bool.false_eq_true, if_false]
    have hitem := complete_chars j (.item [] :: frames)
    have hrest := foldl_moreItems r hitem
    rw [Json.chars, List.append_assoc, List.cons_append, List.foldl_cons, List.foldl_append]
    change Complete ((Json.moreItems r ++ [']']).foldl step
      (j.chars.foldl step ⟨.firstItem, frames⟩)) _ _
    rw [hfirst, hrest]
    exact complete_after _ _
  | .object [] => exact complete_after _ _
  | .object ((k, j) :: r) =>
    have hentry := complete_chars j (.entry [] (some k) :: frames)
    have hrest := foldl_moreFields r hentry
    have hsplit : (Json.object ((k, j) :: r)).chars = '\x7b' :: '"' ::
        (k.toList.flatMap Json.escaped ++
          ('"' :: ':' :: (j.chars ++ (Json.moreFields r ++ ['\x7d'])))) := by
      simp [Json.chars, Json.quoted]
    rw [hsplit, List.foldl_cons, List.foldl_cons]
    change Complete (List.foldl step ⟨.text (.key []) .empty .none, frames⟩ _) _ _
    rw [foldl_key, List.foldl_append, hrest]
    exact complete_after _ _

/-- The items behind one of an array are read to its end. -/
theorem foldl_moreItems (r : List Json) {s : State} {n : Node} {before : List Node}
    {frames : List Frame} (hs : Complete s n (.item before :: frames)) :
    (Json.moreItems r ++ [']']).foldl step s =
      ⟨.after (.array (before.reverse ++ n :: Json.nodes r) true), frames⟩ := by
  match r with
  | [] =>
    rw [Json.moreItems, Json.nodes, List.nil_append, List.foldl_cons, List.foldl_nil,
      hs.step (by decide)]
    simp [follow, gap]
  | j :: r =>
    have hcomma : step s ',' = ⟨.value, .item (n :: before) :: frames⟩ := by
      rw [hs.step (by decide)]
      rfl
    have hitem := complete_chars j (.item (n :: before) :: frames)
    have hrest := foldl_moreItems r hitem
    rw [Json.moreItems, List.append_assoc, List.cons_append, List.foldl_cons, hcomma,
      List.foldl_append, hrest, Json.nodes]
    simp

/-- The fields behind one of an object are read to its end. -/
theorem foldl_moreFields (r : List (String × Json)) {s : State} {n : Node} {key : Option String}
    {before : List (Option String × Node)} {frames : List Frame}
    (hs : Complete s n (.entry before key :: frames)) :
    (Json.moreFields r ++ ['\x7d']).foldl step s =
      ⟨.after (.object (before.reverse ++ (key, n) :: Json.entries r) true), frames⟩ := by
  match r with
  | [] =>
    rw [Json.moreFields, Json.entries, List.nil_append, List.foldl_cons, List.foldl_nil,
      hs.step (by decide)]
    simp [follow, gap]
  | (k, j) :: r =>
    have hcomma : step s ',' = ⟨.nextKey ((key, n) :: before), frames⟩ := by
      rw [hs.step (by decide)]
      rfl
    have hentry := complete_chars j (.entry ((key, n) :: before) (some k) :: frames)
    have hrest := foldl_moreFields r hentry
    have hsplit : Json.moreFields ((k, j) :: r) ++ ['\x7d'] = ',' :: '"' ::
        (k.toList.flatMap Json.escaped ++
          ('"' :: ':' :: (j.chars ++ (Json.moreFields r ++ ['\x7d'])))) := by
      simp [Json.moreFields, Json.quoted]
    rw [hsplit, List.foldl_cons, hcomma, List.foldl_cons]
    change List.foldl step ⟨.text (.key ((key, n) :: before)) .empty .none, frames⟩ _ = _
    rw [foldl_key, List.foldl_append, hrest, Json.entries]
    simp

end

end Reader

/-- The text of a value is read as a document of this value and nothing else. -/
theorem Document.ofText_compact (j : Json) : ofText j.compact = ⟨j.node, true⟩ := by
  unfold ofText ofChars Json.compact
  rw [String.toList_ofList]
  exact (Reader.complete_chars j []).document

end Lodging
