/-
Indented JSON.

A document is written with two spaces per level, one member or element a line, a
space after each colon, members in the order they are listed.  Empty lists and
records are written without a line break.  In strings only the double quote, the
backslash and control characters are escaped.
-/
namespace Interception.Text

/-- A JSON document. -/
inductive Json where
  | bool (b : Bool)
  | number (n : Nat)
  | text (s : String)
  | list (items : List Json)
  | record (members : List (String × Json))

namespace Json

/-- How a character is written in a JSON string. -/
def escape (c : Char) : List Char :=
  if c = '"' then ['\\', '"']
  else if c = '\\' then ['\\', '\\']
  else if c = '\n' then ['\\', 'n']
  else if c = '\r' then ['\\', 'r']
  else if c = '\t' then ['\\', 't']
  else if c.toNat = 8 then ['\\', 'b']
  else if c.toNat = 12 then ['\\', 'f']
  else if c.toNat < 32 then
    let digits := Nat.toDigits 16 c.toNat
    '\\' :: 'u' :: (List.replicate (4 - digits.length) '0' ++ digits)
  else [c]

/-- A JSON string. -/
def string (s : String) : String :=
  String.ofList ('"' :: (s.toList.flatMap escape ++ ['"']))

/-- Put items on lines of their own, between brackets. -/
def block (opening closing : String) (level : Nat) (items : List String) : String :=
  if items.isEmpty then opening ++ closing
  else
    let indent (n : Nat) : String := String.ofList (List.replicate (2 * n) ' ')
    let body := String.intercalate ",\n" (items.map (indent (level + 1) ++ ·))
    opening ++ "\n" ++ body ++ "\n" ++ indent level ++ closing

mutual

/-- Write a document that starts at a level of indentation. -/
def write (level : Nat) : Json → String
  | bool b => if b then "true" else "false"
  | number n => toString n
  | text s => string s
  | list items => block "[" "]" level (writeItems (level + 1) items)
  | record members => block "\x7b" "\x7d" level (writeMembers (level + 1) members)

def writeItems (level : Nat) : List Json → List String
  | [] => []
  | item :: items => item.write level :: writeItems level items

def writeMembers (level : Nat) : List (String × Json) → List String
  | [] => []
  | (key, value) :: members =>
    (string key ++ ": " ++ value.write level) :: writeMembers level members

end

/-- The whole document. -/
def indented (j : Json) : String := j.write 0

end Json

end Interception.Text
