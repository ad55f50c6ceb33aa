/-
What the commands print.

Text reports are lists of styled pieces; a labelled value has its label padded to a
column.  The same reports are available as JSON, with members in a fixed order.
-/
import Interception.Demo
import Interception.Text.Json
import Interception.Text.Styled

namespace Interception.CommandLine

open Text

/-- The name of the command, as it prints it. -/
def programName : String := "interpose"

def version : String := "0.1.0"

/-- What the commands can see of their surroundings. -/
structure Environment where
  /-- The operating system and processor. -/
  platform : String
  lookup : String → Option String

/-! ### Pieces -/

/-- A label padded to its column, a value in color, and the end of the line. -/
def field (label value : String) : List Span :=
  let padding := String.ofList (List.replicate (16 - label.length) ' ')
  [.ofText (label ++ padding), { text := value, color := some .cyan }, .newline]

def heading (text : String) : List Span := [{ text, bold := true }, .newline]

/-! ### The interception table -/

/-- The rows of the table as text. -/
def specsText (rows : List Row) : List Span :=
  rows.flatMap (fun r =>
    heading r.className
      ++ field "  methods" (String.intercalate ", " r.methods)
      ++ field "  handler" r.handlerClass)
    ++ [.ofText s!"{rows.length} row(s)", .newline]

def texts (items : List String) : Json := .list (items.map .text)

/-- The rows of the table as JSON. -/
def specsJson (rows : List Row) : Json :=
  .list <| rows.map fun r =>
    .record [("class_name", .text r.className), ("methods", texts r.methods),
      ("handler_class", .text r.handlerClass)]

/-! ### Version and defaults -/

/-- The compiled-in defaults. -/
structure Info where
  version : String
  mode : SwapMode
  maxDepth : Nat
  intercepts : Nat
  handlerField : String
  deriving DecidableEq, Repr

def info : Info :=
  let standard : VmOptions := {}
  { version
    mode := standard.mode
    maxDepth := standard.maxDepth
    intercepts := builtinRows.length
    handlerField := s!"{handlerFieldName}: {handlerFieldType}" }

/-- The variables the report on defaults shows. -/
def shownVariables : List String := ["INTERPOSE_LOG", "NO_COLOR"]

def infoText (env : Environment) (i : Info) : List Span :=
  heading s!"Interpose v{i.version}"
    ++ [.newline]
    ++ field "Platform:" env.platform
    ++ field "Swap mode:" i.mode.name
    ++ field "Call depth:" (toString i.maxDepth)
    ++ field "Intercepts:" (toString i.intercepts)
    ++ field "Handler field:" i.handlerField
    ++ [.newline, .ofText "Environment:", .newline]
    ++ shownVariables.flatMap fun name =>
      field s!"  {name}" ((env.lookup name).getD "(not set)")

/-! ### The demonstration -/

def demoText (r : Demo.Report) : List Span :=
  let method := s!"{Demo.activityName}.{Demo.methodName}"
  heading s!"{method} x {r.threads} thread(s) x {r.callsPerThread} call(s), {r.mode.name}"
    ++ field "expected" (toString r.expected)
    ++ field "handler" (toString r.handlerEntries)
    ++ field "original" (toString r.methodRuns)
    ++ field "errors" (toString r.errors)
    ++ field "final state" (if r.armed then "ARMED" else "UNSWAPPED")
    ++ [if r.isExact then { text := "exact", color := some .green, bold := true }
        else
          { text := "drift: concurrent class-wide windows raced"
            color := some .yellow
            bold := true },
      .newline]

def statsJson (s : EntryStats) : Json :=
  .record
    [("class", .text s.row.className), ("handler", .text s.row.handlerClass),
      ("methods", texts s.row.methods), ("resolved", .bool s.resolved),
      ("trampolines", .number s.trampolines), ("open_windows", .number s.openWindows),
      ("calls", .number s.calls)]

def demoJson (r : Demo.Report) : Json :=
  .record
    [("mode", .text r.mode.name), ("threads", .number r.threads),
      ("calls_per_thread", .number r.callsPerThread), ("expected", .number r.expected),
      ("handler_entries", .number r.handlerEntries), ("original_runs", .number r.methodRuns),
      ("errors", .number r.errors), ("armed", .bool r.armed),
      ("stats", .list (r.stats.map statsJson))]

end Interception.CommandLine
