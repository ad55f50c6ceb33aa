/-
Classes of characters between brackets.

A class lists characters, ranges, named classes of ASCII and other classes; it may be
the negation of what it lists.  A doubled sign between two lists stands for what is in
both (`&&`), in the first alone (`--`) or in just one of them (`~~`).  A closing bracket
at the very start is a character like any other, and so are hyphens there and a hyphen
at the end.

What is kept of a class is how deep it nests: a class, a list of more than one thing
and an operation are each one deeper than the deepest part.
-/
import Interception.Text.Pattern.Item

namespace Interception.Text.Pattern

/-- How deep a row of parts of these depths nests; one part alone makes no row. -/
def rowDepth : List Nat → Nat
  | [] => 0
  | [d] => d
  | ds => ds.foldl max 0 + 1

/-- The names of classes of ASCII. -/
def classNames : List String :=
  ["alnum", "alpha", "ascii", "blank", "cntrl", "digit", "graph", "lower", "print", "punct",
   "space", "upper", "word", "xdigit"]

/-- Read a named class after its opening bracket: whether it is negated. -/
def namedClass? : List Char → Option (Bool × List Char)
  | ':' :: cs =>
    let (negated, cs) := match cs with
      | '^' :: more => (true, more)
      | _ => (false, cs)
    match cs.dropWhile (· ≠ ':') with
    | ':' :: ']' :: rest =>
      if classNames.contains (String.ofList (cs.takeWhile (· ≠ ':'))) then some (negated, rest)
      else none
    | _ => none
  | _ => none

/-- Read a character or an escape inside a class. -/
def member? (m : Mode) : List Char → Option (Item × List Char)
  | [] => none
  | '\\' :: cs => escape? m cs
  | c :: cs => some (.literal c, cs)

/-- Read a member of a class, or a range between two.  A hyphen before a closing bracket
or another hyphen makes no range. -/
def range? (m : Mode) (cs : List Char) : Option (List Char) := do
  let (low, rest) ← member? m cs
  if !m.allowsInside low then none
  else
    match m.skip rest with
    | '-' :: more =>
      if m.peek more = some ']' ∨ m.peek more = some '-' then some ('-' :: more)
      else
        let (high, rest) ← member? m (m.skip more)
        let a ← low.char?
        let b ← high.char?
        if m.allowsInside high && a ≤ b then some rest else none
    | rest => some rest

/-- Read hyphens at the start of a class; each is a member of depth zero. -/
def hyphens (m : Mode) : Nat → List Char → List Nat × List Char
  | 0, cs => ([], cs)
  | fuel + 1, cs =>
    match cs with
    | '-' :: rest =>
      let (ds, rest) := hyphens m fuel (m.skip rest)
      (0 :: ds, rest)
    | _ => ([], cs)

/-- Read the start of a class after its opening bracket; characters that are ordinary
only there are read with it. -/
def classStart? (m : Mode) (cs : List Char) : Option (List Nat × List Char) :=
  let cs := m.skip cs
  let (negated, cs) := match cs with
    | '^' :: more => (true, m.skip more)
    | _ => (false, cs)
  let (ds, cs) := hyphens m cs.length cs
  let (ds, cs) := match ds, cs with
    | [], ']' :: rest => ([0], m.skip rest)
    | _, _ => (ds, cs)
  if (negated && m.bytes) || (!ds.isEmpty && !m.bytes && m.ignoresCase) then none
  else some (ds, cs)

/-- Read the rest of a class.  The depths are that of the operand on the left of the
last operation, if there was one, and those of the members read since. -/
def classRest? (m : Mode) : Nat → Option Nat → List Nat → List Char → Option (Nat × List Char)
  | 0, _, _, _ => none
  | fuel + 1, left, ds, cs =>
    let depth := match left with
      | some d => max d (rowDepth ds) + 1
      | none => rowDepth ds
    match m.skip cs with
    | [] => none
    | ']' :: rest => some (depth + 1, rest)
    | '[' :: rest =>
      match namedClass? rest with
      | some (negated, rest) =>
        if if m.bytes then negated else m.ignoresCase then none
        else classRest? m fuel left (0 :: ds) rest
      | none => do
        let (start, rest) ← classStart? m rest
        let (d, rest) ← classRest? m fuel none start rest
        classRest? m fuel left (d :: ds) rest
    | '&' :: '&' :: rest | '-' :: '-' :: rest | '~' :: '~' :: rest =>
      classRest? m fuel (some depth) [] rest
    | cs => do
      let rest ← range? m cs
      classRest? m fuel left (0 :: ds) rest

/-- Read a class after its opening bracket. -/
def class? (m : Mode) (cs : List Char) : Option (Nat × List Char) := do
  let (ds, rest) ← classStart? m cs
  classRest? m (rest.length + 1) none ds rest

end Interception.Text.Pattern
