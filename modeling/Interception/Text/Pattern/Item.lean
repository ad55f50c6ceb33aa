/-
The smallest parts of a search pattern.

A pattern is read in a mode that its flags set.  It is about characters or about bytes;
upper and lower case are told apart or not; and blanks and comments stand between the
parts or are parts themselves.

No table of character properties is at hand.  So classes and boundaries that depend on
such a property are usable in a pattern about bytes only, where they are those of ASCII,
and upper and lower case can be taken for the same in such a pattern only.  A pattern
about bytes may nevertheless match whole characters alone: it names no byte, and no set
of bytes, beyond ASCII.
-/
import Interception.Text.Blank

namespace Interception.Text.Pattern

/-- How a pattern is read. -/
structure Mode where
  ignoresCase : Bool := false
  /-- The pattern is about bytes. -/
  bytes : Bool := false
  /-- Blanks and comments are left out. -/
  spaced : Bool := false
  deriving DecidableEq, Repr

/-- A part that stands for itself or for something fixed. -/
inductive Item where
  | literal (c : Char)
  /-- A character given by two hexadecimal digits. -/
  | byte (c : Char)
  /-- Digits, blanks or the characters of words, or all characters but these. -/
  | property (negated : Bool)
  /-- The start or the end of the text. -/
  | edge
  /-- The start or the end of a word, or either, or neither. -/
  | wordEdge
  deriving DecidableEq, Repr

/-! ### Blanks and comments -/

/-- The text without the blanks and comments at its start; the first of them may have
begun already. -/
def skipSpace : Bool → List Char → List Char
  | _, [] => []
  | true, c :: cs => skipSpace (c ≠ '\n') cs
  | false, c :: cs =>
    if isBlank c then skipSpace false cs
    else if c = '#' then skipSpace true cs
    else c :: cs

/-- The text without what the mode leaves out at its start. -/
def Mode.skip (m : Mode) (cs : List Char) : List Char :=
  if m.spaced then skipSpace false cs else cs

/-- The character to look at ahead of the text: where blanks are left out it is the next
one that is not blank, after one mark of a comment, if there is such a character. -/
def Mode.peek (m : Mode) (cs : List Char) : Option Char :=
  if m.spaced then
    match cs.dropWhile isBlank with
    | [] => cs.head?
    | '#' :: more => (more.find? fun c => !isBlank c) <|> cs.head?
    | c :: _ => some c
  else cs.head?

/-! ### Escapes -/

/-- The value of a hexadecimal digit. -/
def hexDigit? (c : Char) : Option Nat :=
  if c.isDigit then some (c.toNat - '0'.toNat)
  else if 'a' ≤ c ∧ c ≤ 'f' then some (c.toNat - 'a'.toNat + 10)
  else if 'A' ≤ c ∧ c ≤ 'F' then some (c.toNat - 'A'.toNat + 10)
  else none

/-- Read so many more hexadecimal digits after those with a value. -/
def hexDigits? (m : Mode) : Nat → Nat → List Char → Option (Nat × List Char)
  | 0, value, cs => some (value, cs)
  | _ + 1, _, [] => none
  | n + 1, value, c :: cs =>
    (hexDigit? c).bind fun d => hexDigits? m n (16 * value + d) (m.skip cs)

/-- Read a character that is given by so many hexadecimal digits. -/
def numbered? (m : Mode) (count : Nat) (cs : List Char) : Option (Char × List Char) :=
  (hexDigits? m count 0 (m.skip cs)).bind fun (n, rest) =>
    if n.isValidChar then some (Char.ofNat n, rest) else none

/-- The characters that a letter after a backslash stands for. -/
def letterEscape? : Char → Option Char
  | 'a' => some '\x07'
  | 't' => some '\t'
  | 'n' => some '\n'
  | 'v' => some '\x0b'
  | 'f' => some '\x0c'
  | 'r' => some '\r'
  | _ => none

/-- Read what follows a backslash. -/
def escape? (m : Mode) : List Char → Option (Item × List Char)
  | [] => none
  | c :: cs =>
    if c = 'x' then (numbered? m 2 cs).map fun (d, rest) => (.byte d, rest)
    else if c = 'u' then (numbered? m 4 cs).map fun (d, rest) => (.literal d, rest)
    else if c = 'U' then (numbered? m 8 cs).map fun (d, rest) => (.literal d, rest)
    else if c = 'd' ∨ c = 's' ∨ c = 'w' then some (.property false, cs)
    else if c = 'D' ∨ c = 'S' ∨ c = 'W' then some (.property true, cs)
    else if c = 'A' ∨ c = 'z' then some (.edge, cs)
    else if c = 'b' ∨ c = 'B' ∨ c = '<' ∨ c = '>' then some (.wordEdge, cs)
    else if c.toNat < 0x80 ∧ !c.isAlphanum then some (.literal c, cs)
    else (letterEscape? c).map fun d => (.literal d, cs)

/-! ### What a mode allows -/

/-- An item may stand outside brackets. -/
def Mode.allows (m : Mode) : Item → Bool
  | .literal c => if m.bytes then c.toNat < 0x80 || !m.ignoresCase else !m.ignoresCase
  | .byte c => if m.bytes then c.toNat < 0x80 else !m.ignoresCase
  | .property negated => m.bytes && !negated
  | .edge => true
  | .wordEdge => m.bytes

/-- An item may stand inside brackets. -/
def Mode.allowsInside (m : Mode) : Item → Bool
  | .literal c | .byte c => if m.bytes then c.toNat < 0x80 else !m.ignoresCase
  | .property negated => m.bytes && !negated
  | .edge | .wordEdge => false

/-- The character of an item that could be an end of a range. -/
def Item.char? : Item → Option Char
  | literal c | byte c => some c
  | _ => none

end Interception.Text.Pattern
