/-
The syntax of search patterns.

A pattern is a row of items, classes and groups, with bars between alternatives.  Any of
them may be repeated by a mark, and a mark may be followed by a question mark, which
does not change what is matched, only how much of it.  Repetition is never counted: a
brace stands for itself inside brackets and in comments only.  A group may have a name
of its own, or flags for the mode it is read in; flags without a group hold up to the
end of the group around them, alternatives included.  There is no looking ahead or back.

A pattern that nests too deep is refused.  Each group, class, repetition, row of more
than one part and list of alternatives is one deeper than the deepest of its parts.
-/
import Interception.Text.Alphanumeric
import Interception.Text.Pattern.Bracket

namespace Interception.Text.Pattern

/-- How deep a pattern may nest. -/
def maxDepth : Nat := 250

/-- What has been read since a group was opened. -/
structure Body where
  /-- How deep the alternatives before the last bar nest. -/
  alternatives : List Nat := []
  /-- How deep the parts since then nest, newest first; flags are parts without a
  depth. -/
  row : List (Option Nat) := []

namespace Body

/-- Add a part. -/
def add (b : Body) (depth : Nat) : Body := { b with row := some depth :: b.row }

/-- End an alternative. -/
def bar (b : Body) : Body :=
  { alternatives := rowDepth (b.row.map (·.getD 0)) :: b.alternatives }

/-- How deep the whole nests. -/
def depth (b : Body) : Nat := rowDepth b.bar.alternatives

/-- Repeat the last part, which must not be missing or flags. -/
def repeatLast? (b : Body) : Option Body :=
  match b.row with
  | some d :: more => some { b with row := some (d + 1) :: more }
  | _ => none

end Body

/-- A pattern read up to some point. -/
structure Progress where
  mode : Mode := {}
  body : Body := {}
  /-- The groups that are open, each with the mode and the parts around it. -/
  outer : List (Mode × Body) := []
  /-- The names that groups have. -/
  names : List (List Char) := []

namespace Progress

/-- Open a group. -/
def openGroup (p : Progress) (mode : Mode) : Progress :=
  { p with mode, body := {}, outer := (p.mode, p.body) :: p.outer }

/-- Close a group, if one is open. -/
def closeGroup? (p : Progress) : Option Progress :=
  match p.outer with
  | [] => none
  | (mode, around) :: outer => some { p with mode, body := around.add (p.body.depth + 1), outer }

end Progress

/-- The name of a group. -/
def isName : List Char → Bool
  | [] => false
  | c :: cs =>
    (c = '_' || isAlphabetic c) && cs.all fun c => "_.[]".contains c || isAlphanumeric c

/-- Read a name up to the closing angle bracket and open the group that has it; no two
groups have the same. -/
def namedGroup? (p : Progress) (cs : List Char) : Option (Progress × List Char) :=
  let name := cs.takeWhile (· ≠ '>')
  match cs.dropWhile (· ≠ '>') with
  | [] => none
  | _ :: rest =>
    if isName name && !p.names.contains name then
      some ({ p with names := name :: p.names }.openGroup p.mode, rest)
    else none

/-- Nothing occurs twice. -/
def allDistinct : List Char → Bool
  | [] => true
  | c :: cs => !cs.contains c && allDistinct cs

/-- Set the mode by flags: those after a hyphen are turned off. -/
def Mode.withFlags (m : Mode) (flags : List Char) : Mode :=
  let on := flags.takeWhile (· ≠ '-')
  let off := flags.dropWhile (· ≠ '-')
  let set (flag : Char) (old : Bool) : Bool :=
    on.contains flag || (old && !off.contains flag)
  { ignoresCase := set 'i' m.ignoresCase
    bytes := !set 'u' (!m.bytes)
    spaced := set 'x' m.spaced }

/-- Read flags, and open the group they are for or set the mode. -/
def flagged? (p : Progress) (cs : List Char) : Option (Progress × List Char) :=
  let isEnd (c : Char) : Bool := c = ':' || c = ')'
  let flags := cs.takeWhile fun c => !isEnd c
  if !flags.all ("imsUuRx-".contains ·) || !allDistinct flags || flags.getLast? == some '-' then
    none
  else
    let mode := p.mode.withFlags flags
    match cs.dropWhile fun c => !isEnd c with
    | ':' :: rest => some (p.openGroup mode, rest)
    | ')' :: rest =>
      if flags.isEmpty then none
      else some ({ p with mode, body := { p.body with row := none :: p.body.row } }, rest)
    | _ => none

/-- Read what follows an opening parenthesis. -/
def group? (p : Progress) (cs : List Char) : Option (Progress × List Char) :=
  match p.mode.skip cs with
  | '?' :: '=' :: _ | '?' :: '!' :: _ | '?' :: '<' :: '=' :: _ | '?' :: '<' :: '!' :: _ => none
  | '?' :: 'P' :: '<' :: rest | '?' :: '<' :: rest => namedGroup? p rest
  | '?' :: rest => flagged? p rest
  | rest => some (p.openGroup p.mode, rest)

/-- Add an item, if it is allowed. -/
def item? (p : Progress) (i : Item) : Option Progress :=
  if p.mode.allows i then some { p with body := p.body.add 0 } else none

/-- Read the next part of a pattern. -/
def part? (p : Progress) (c : Char) (cs : List Char) : Option (Progress × List Char) :=
  if c = '(' then group? p cs
  else if c = ')' then p.closeGroup?.map fun p => (p, cs)
  else if c = '|' then some ({ p with body := p.body.bar }, cs)
  else if c = '[' then
    (class? p.mode cs).map fun (depth, rest) => ({ p with body := p.body.add depth }, rest)
  else if c = '*' ∨ c = '+' ∨ c = '?' then
    p.body.repeatLast?.map fun body =>
      ({ p with body }, match cs with
        | '?' :: rest => rest
        | _ => cs)
  else if c = '\x7b' then none
  else if c = '\\' then
    (escape? p.mode cs).bind fun (i, rest) => (item? p i).map fun p => (p, rest)
  else if c = '.' then
    if p.mode.bytes then none else some ({ p with body := p.body.add 0 }, cs)
  else if c = '^' ∨ c = '$' then (item? p .edge).map fun p => (p, cs)
  else (item? p (.literal c)).map fun p => (p, cs)

/-- Read the rest of a pattern; every part takes at least one character. -/
def parts? : Nat → Progress → List Char → Option Progress
  | 0, _, _ => none
  | fuel + 1, p, cs =>
    match p.mode.skip cs with
    | [] => some p
    | c :: rest => (part? p c rest).bind fun (p, rest) => parts? fuel p rest

/-- The text is a pattern. -/
def isPattern (cs : List Char) : Bool :=
  match parts? (cs.length + 1) {} cs with
  | some p => p.outer.isEmpty && p.body.depth ≤ maxDepth
  | none => false

end Interception.Text.Pattern
