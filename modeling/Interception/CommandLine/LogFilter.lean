/-
The log filter.

A filter is a list of directives with commas between them, of which empty ones are left
out.  A directive is a level, or a target, or a target, an equals sign and a level;
after the target a span may stand between brackets, and at the end of the span one of
its fields between braces, alone or with an equals sign and the value it should have.

Directives are read from the left up to the first that is malformed, which makes the
filter as a whole malformed.  A directive is read without the blanks around it, but its
parts are cut from the directive as it was given, at the byte offsets that they have
once the blanks are gone.  So blanks in front make each part start and end too early,
and an offset may then fall inside a character, where no text can be cut: reading breaks
off there.
-/
import Interception.Decimal.Reading
import Interception.Text.Alphanumeric
import Interception.Text.Blank
import Interception.Text.Pattern.Grammar

namespace Interception.CommandLine.LogFilter

/-- Why a directive could not be read. -/
inductive Fault where
  | malformed
  /-- A part would start or end inside a character. -/
  | insideCharacter
  deriving DecidableEq, Repr

/-! ### Cutting -/

/-- The text from a byte offset on, which must not be inside a character. -/
def dropBytes? : Nat → List Char → Option (List Char)
  | 0, cs => some cs
  | _ + 1, [] => none
  | n + 1, c :: cs =>
    if c.utf8Size ≤ n + 1 then dropBytes? (n + 1 - c.utf8Size) cs else none

/-- The text up to a byte offset, which must not be inside a character. -/
def takeBytes? : Nat → List Char → Option (List Char)
  | 0, _ => some []
  | _ + 1, [] => none
  | n + 1, c :: cs =>
    if c.utf8Size ≤ n + 1 then (takeBytes? (n + 1 - c.utf8Size) cs).map (c :: ·) else none

/-- The text from a byte offset on. -/
def cutFrom (given : List Char) (start : Nat) : Except Fault (List Char) :=
  match dropBytes? start given with
  | some cs => .ok cs
  | none => .error .insideCharacter

/-- The text between two byte offsets. -/
def cut (given : List Char) (start stop : Nat) : Except Fault (List Char) :=
  match (dropBytes? start given).bind (takeBytes? (stop - start)) with
  | some cs => .ok cs
  | none => .error .insideCharacter

/-! ### Parts -/

/-- The levels by name, in any case, or by number; no level is as good as one. -/
def isLevel (cs : List Char) : Bool :=
  let word := String.ofList (cs.map Char.toLower)
  cs.isEmpty || (Decimal.count? word).any (· ≤ 5)
    || ["off", "error", "warn", "info", "debug", "trace"].contains word

/-- The value of a field is a number or a pattern. -/
def isFieldValue (cs : List Char) : Bool :=
  let text := String.ofList cs
  (Decimal.count? text).isSome || (Decimal.int64? text).isSome || (Decimal.float? text).isSome
    || Text.Pattern.isPattern cs

/-- A field has a name and may have a value; what follows a second equals sign is left
out. -/
def isField (cs : List Char) : Bool :=
  match cs.dropWhile (· ≠ '=') with
  | [] => !cs.isEmpty
  | _ :: more => isFieldValue (more.takeWhile (· ≠ '='))

/-! ### Directives -/

/-- What the next character of a directive belongs to; parts that are open have their
offset. -/
inductive Place where
  | start
  | target
  | span (start : Nat)
  | afterSpan
  | field (start : Nat)
  | afterField
  | level (start : Nat)
  deriving DecidableEq, Repr

namespace Place

/-- Read a character at an offset. -/
def step (given : List Char) (offset : Nat) (c : Char) : Place → Except Fault Place
  | start =>
    if c = '[' then .ok (span (offset + 1))
    else if c = '-' ∨ c = ':' ∨ c = '_' ∨ Text.isAlphanumeric c then .ok target
    else .error .malformed
  | target =>
    if c = '=' then (cut given 0 offset).map fun _ => level (offset + 1)
    else if c = '[' then (cut given 0 offset).map fun _ => span (offset + 1)
    else .ok target
  | span i =>
    if c = ']' then (cut given i offset).map fun _ => afterSpan
    else if c = '\x7b' then (cut given i offset).map fun _ => field (offset + 1)
    else .ok (span i)
  | afterSpan => if c = '=' then .ok (level (offset + 1)) else .error .malformed
  | field i =>
    if c = '\x7d' then do
      let text ← cut given i offset
      if isField text then .ok afterField else .error .malformed
    else .ok (field i)
  | afterField => if c = ']' then .ok afterSpan else .error .malformed
  | level i => .ok (level i)

/-- End a directive. -/
def finish (given : List Char) : Place → Except Fault Unit
  | target | afterSpan => .ok ()
  | level i => do
    let text ← cutFrom given i
    if isLevel text then .ok () else .error .malformed
  | start | span _ | field _ | afterField => .error .malformed

end Place

/-- Read the rest of a directive, the next character being at an offset. -/
def readFrom (given : List Char) : Place → Nat → List Char → Except Fault Unit
  | place, _, [] => place.finish given
  | place, offset, c :: cs => do
    let place ← place.step given offset c
    readFrom given place (offset + c.utf8Size) cs

/-- Read a directive. -/
def readDirective (given : List Char) : Except Fault Unit :=
  readFrom given .start 0 (Text.trim given)

/-- The directives of a filter. -/
def directives (text : String) : List (List Char) :=
  ((text.splitOn ",").map String.toList).filter (!·.isEmpty)

/-- Read a filter. -/
def read (text : String) : Except Fault Unit := (directives text).forM readDirective

/-- Reading a filter breaks off. -/
def breaksOff (text : String) : Bool :=
  match read text with
  | .error .insideCharacter => true
  | _ => false

end Interception.CommandLine.LogFilter
