import Lodging.Json.Node
import Lodging.Text.Hex

/-!
Reading JSON, one character at a time. The state is what is being read and the containers around it,
so that no depth of nesting is too deep. Reading never fails: it records where the text goes wrong.
-/

namespace Lodging.Reader

/-- The parts of a number. -/
inductive Stage where
  | sign | zero | whole | point | fraction | mark | markSign | exponent
deriving DecidableEq

/-- The part that a character of a number begins or goes on with. -/
def Stage.next? (c : Char) : Stage → Option Stage
  | sign => if c = '0' then some zero else if c.isDigit then some whole else none
  | zero => if c = '.' then some point else if c = 'e' ∨ c = 'E' then some mark else none
  | whole =>
    if c.isDigit then some whole else if c = '.' then some point
    else if c = 'e' ∨ c = 'E' then some mark else none
  | point => if c.isDigit then some fraction else none
  | fraction =>
    if c.isDigit then some fraction else if c = 'e' ∨ c = 'E' then some mark else none
  | mark =>
    if c = '+' ∨ c = '-' then some markSign else if c.isDigit then some exponent else none
  | markSign => if c.isDigit then some exponent else none
  | exponent => if c.isDigit then some exponent else none

/-- A number may end here. -/
def Stage.final : Stage → Bool
  | zero | whole | fraction | exponent => true
  | _ => false

/-- Adds a character to a numeral, whose digits are kept in reverse while it is read. -/
def Stage.add (c : Char) (n : Numeral) : Stage → Numeral
  | zero | whole => { n with whole := c :: n.whole }
  | fraction => { n with fraction := c :: n.fraction }
  | exponent => { n with exponent := c :: n.exponent }
  | markSign => { n with exponentNegative := c = '-' }
  | _ => n

/-- A numeral read to its end. -/
def numeral (n : Numeral) : Numeral :=
  { n with
    whole := n.whole.reverse, fraction := n.fraction.reverse, exponent := n.exponent.reverse }

/-- A string as far as it is read: its characters in reverse, a leading surrogate that waits for
its partner, and whether all surrogates before had one. -/
structure Spelling where
  chars : List Char
  lead : Option Nat
  paired : Bool

def Spelling.empty : Spelling := ⟨[], none, true⟩

/-- Adds a character that is no escaped surrogate. -/
def Spelling.add (s : Spelling) (c : Char) : Spelling :=
  ⟨c :: s.chars, none, s.paired && s.lead.isNone⟩

/-- Adds an escaped unit of sixteen bits. -/
def Spelling.addUnit (s : Spelling) (u : Nat) : Spelling :=
  if 0xD800 ≤ u ∧ u < 0xDC00 then ⟨s.chars, some u, s.paired && s.lead.isNone⟩
  else if 0xDC00 ≤ u ∧ u < 0xE000 then
    match s.lead with
    | some l => ⟨Char.ofNat (0x10000 + (l - 0xD800) * 0x400 + (u - 0xDC00)) :: s.chars, none, s.paired⟩
    | none => ⟨s.chars, none, false⟩
  else s.add (Char.ofNat u)

/-- The text, unless a surrogate stands alone. -/
def Spelling.text? (s : Spelling) : Option String :=
  if s.paired ∧ s.lead.isNone then some (String.ofList s.chars.reverse) else none

/-- The character that a short escape stands for. -/
def unescape? (c : Char) : Option Char :=
  if c = '"' then some '"' else if c = '\\' then some '\\' else if c = '/' then some '/'
  else if c = 'b' then some '\x08' else if c = 'f' then some '\x0c' else if c = 'n' then some '\n'
  else if c = 'r' then some '\r' else if c = 't' then some '\t' else none

/-- Where in an escape a string is: in none, behind the backslash, or with so many hexadecimal
digits to come. -/
inductive Escape where
  | none
  | begun
  | unit (left value : Nat)

/-- What a string is read for: as a value, or as a key behind the entries read before. -/
inductive Use where
  | value
  | key (before : List (Option String × Node))

/-- What is being read. Lists are in reverse. -/
inductive Mode where
  | value
  | firstItem
  | firstKey
  | nextKey (before : List (Option String × Node))
  | colon (before : List (Option String × Node)) (key : Option String)
  | text (use : Use) (spelling : Spelling) (escape : Escape)
  | word (left : List Char) (node : Node)
  | number (stage : Stage) (numeral : Numeral)
  | after (node : Node)
  /-- The text went wrong, with this much of the innermost value read. -/
  | failed (node : Node)

/-- A container around the value being read. -/
inductive Frame where
  | item (before : List Node)
  | entry (before : List (Option String × Node)) (key : Option String)

structure State where
  mode : Mode
  frames : List Frame

def State.start : State := ⟨.value, []⟩

/-- White space between tokens. -/
def gap (c : Char) : Bool := c = ' ' || c = '\n' || c = '\t' || c = '\r'

/-- The first character of a value. -/
def begin (frames : List Frame) (c : Char) : State :=
  if c = '"' then ⟨.text .value .empty .none, frames⟩
  else if c = '[' then ⟨.firstItem, frames⟩
  else if c = '\x7b' then ⟨.firstKey, frames⟩
  else if c = 'n' then ⟨.word ['u', 'l', 'l'] .null, frames⟩
  else if c = 't' then ⟨.word ['r', 'u', 'e'] (.bool true), frames⟩
  else if c = 'f' then ⟨.word ['a', 'l', 's', 'e'] (.bool false), frames⟩
  else if c = '-' then ⟨.number .sign ⟨true, [], [], false, []⟩, frames⟩
  else
    match Stage.sign.next? c with
    | some stage => ⟨.number stage ⟨false, [c], [], false, []⟩, frames⟩
    | none => ⟨.failed .broken, frames⟩

/-- A character behind a value. -/
def follow (node : Node) (frames : List Frame) (c : Char) : State :=
  if gap c then ⟨.after node, frames⟩
  else match frames with
    | .item before :: outer =>
      if c = ',' then ⟨.value, .item (node :: before) :: outer⟩
      else if c = ']' then ⟨.after (.array (node :: before).reverse true), outer⟩
      else ⟨.failed node, frames⟩
    | .entry before key :: outer =>
      if c = ',' then ⟨.nextKey ((key, node) :: before), outer⟩
      else if c = '\x7d' then ⟨.after (.object ((key, node) :: before).reverse true), outer⟩
      else ⟨.failed node, frames⟩
    | [] => ⟨.failed node, []⟩

/-- What a string amounts to if the text goes wrong in it. -/
def Use.unfinished : Use → Node
  | value => .broken
  | key before => .object before.reverse false

/-- A string read to its closing quotation mark. -/
def finish (use : Use) (text : Option String) : Mode :=
  match use with
  | .value => .after (text.elim .unpaired .text)
  | .key before => .colon before text

/-- A character inside a string. -/
def spell (use : Use) (s : Spelling) (c : Char) : Escape → Mode
  | .none =>
    if c = '"' then finish use s.text?
    else if c = '\\' then .text use s .begun
    else if c.toNat < 0x20 then .failed use.unfinished
    else .text use (s.add c) .none
  | .begun =>
    if c = 'u' then .text use s (.unit 4 0)
    else match unescape? c with
      | some d => .text use (s.add d) .none
      | none => .failed use.unfinished
  | .unit left value =>
    match Hex.val? c with
    | some d =>
      if left ≤ 1 then .text use (s.addUnit (16 * value + d)) .none
      else .text use s (.unit (left - 1) (16 * value + d))
    | none => .failed use.unfinished

def step (s : State) (c : Char) : State :=
  match s.mode with
  | .value => if gap c then s else begin s.frames c
  | .firstItem =>
    if gap c then s
    else if c = ']' then { s with mode := .after (.array [] true) }
    else begin (.item [] :: s.frames) c
  | .firstKey =>
    if gap c then s
    else if c = '\x7d' then { s with mode := .after (.object [] true) }
    else if c = '"' then { s with mode := .text (.key []) .empty .none }
    else { s with mode := .failed (.object [] false) }
  | .nextKey before =>
    if gap c then s
    else if c = '"' then { s with mode := .text (.key before) .empty .none }
    else { s with mode := .failed (.object before.reverse false) }
  | .colon before key =>
    if gap c then s
    else if c = ':' then ⟨.value, .entry before key :: s.frames⟩
    else { s with mode := .failed (.object before.reverse false) }
  | .text use spelling escape => { s with mode := spell use spelling c escape }
  | .word [] node => follow node s.frames c
  | .word (d :: left) node =>
    if c = d then
      { s with mode := if left = [] then .after node else .word left node }
    else { s with mode := .failed .broken }
  | .number stage n =>
    match stage.next? c with
    | some stage' => { s with mode := .number stage' (stage'.add c n) }
    | none =>
      if stage.final then follow (.number (numeral n)) s.frames c
      else { s with mode := .failed .broken }
  | .after node => follow node s.frames c
  | .failed _ => s

/-- What has been read of the innermost value. -/
def Mode.node : Mode → Node
  | value => .broken
  | firstItem => .array [] false
  | firstKey => .object [] false
  | nextKey before => .object before.reverse false
  | colon before _ => .object before.reverse false
  | text use _ _ => use.unfinished
  | word _ _ => .broken
  | number stage n => if stage.final then .number (numeral n) else .broken
  | after node => node
  | failed node => node

/-- The container of a value, left open. -/
def Frame.enclose (node : Node) : Frame → Node
  | item before => .array (node :: before).reverse false
  | entry before key => .object ((key, node) :: before).reverse false

def State.document (s : State) : Document where
  root := s.frames.foldl Frame.enclose s.mode.node
  alone :=
    match s.mode, s.frames with
    | .after _, [] => true
    | .number stage _, [] => stage.final
    | _, _ => false

end Reader

/-- Reads a text. -/
def Document.ofChars (s : List Char) : Document := (s.foldl Reader.step .start).document

def Document.ofText (s : String) : Document := ofChars s.toList

end Lodging
