/-
Styled text.

A piece of text may be bold and may have a color.  On a terminal that takes escape
sequences it is written after a reset, the code for bold and the code of its color,
and before another reset; elsewhere only the text is written.
-/
namespace Interception.Text

/-- The colors in use. -/
inductive Color where
  | green
  | yellow
  | cyan
  deriving DecidableEq, Repr

/-- The parameter of the escape sequence that selects a color. -/
def Color.code : Color → String
  | green => "32"
  | yellow => "33"
  | cyan => "36"

/-- A piece of output. -/
structure Span where
  text : String
  color : Option Color := none
  bold : Bool := false
  /-- Written as it is, without even a reset. -/
  plain : Bool := false
  deriving DecidableEq, Repr

namespace Span

def ofText (text : String) : Span := { text, plain := true }

def newline : Span := ofText "\n"

/-- An escape sequence that selects a graphic rendition. -/
def sgr (parameter : String) : String := "\x1b[" ++ parameter ++ "m"

/-- Write a piece, with or without escape sequences. -/
def write (ansi : Bool) (s : Span) : String :=
  if s.plain || !ansi then s.text
  else
    sgr "0" ++ (if s.bold then sgr "1" else "")
      ++ (match s.color with
        | some c => sgr c.code
        | none => "")
      ++ s.text ++ sgr "0"

end Span

/-- When to write escape sequences. -/
inductive ColorChoice where
  | always
  | never
  /-- Where the terminal is known to take them. -/
  | auto
  deriving DecidableEq, Repr

namespace ColorChoice

/-- A set `NO_COLOR`, whatever its value, wins over the flag; a flag that is neither
of the two exact words leaves the choice to the terminal. -/
def resolve (flag : Option String) (noColor : Option String) : ColorChoice :=
  if noColor.isSome then never
  else if flag = some "always" then always
  else if flag = some "never" then never
  else auto

/-- Whether escape sequences are written to a terminal of this name. -/
def usesAnsi (choice : ColorChoice) (terminal : Option String) : Bool :=
  match choice with
  | always => true
  | never => false
  | auto =>
    match terminal with
    | none => false
    | some name => name != "dumb"

end ColorChoice

end Interception.Text
