/-
Carrying out a command line.

The result is the text for standard output, a complaint, and an exit code: zero for
what was done, one for a command that failed, two for words that do not fit, and a
hundred and one for a run that broke off.  Only what succeeded has output, and only
what did not has a complaint.

The log filter is read before a command is carried out, but not for words that do not
fit, nor for help or the version.  A filter that is malformed is passed over.
-/
import Interception.CommandLine.Arguments
import Interception.CommandLine.LogFilter
import Interception.CommandLine.Report

namespace Interception.CommandLine

open Text

/-- How a command line ended. -/
structure Result where
  code : Nat
  output : String := ""
  complaint : String := ""
  deriving DecidableEq, Repr

/-- The lines that list the options of a place. -/
def optionLines : Option CommandName → List String
  | none =>
    ["  -v, --verbose...     Increase log verbosity (-v debug, -vv trace)",
      "      --color <COLOR>  Colored output: auto, always, never",
      "  -h, --help           Print help",
      "  -V, --version        Print version"]
  | some .specs =>
    ["      --json           Print as JSON",
      "  -v, --verbose...     Increase log verbosity (-v debug, -vv trace)",
      "      --color <COLOR>  Colored output: auto, always, never",
      "  -h, --help           Print help"]
  | some .demo =>
    ["  -m, --mode <MODE>        Call guard strategy (per-call or class-wide) [default: per-call]",
      "  -t, --threads <THREADS>  Worker threads, one activity each [default: 4]",
      "  -c, --calls <CALLS>      onResume calls per thread [default: 1000]",
      "      --json               Print the report as JSON",
      "  -v, --verbose...         Increase log verbosity (-v debug, -vv trace)",
      "      --color <COLOR>      Colored output: auto, always, never",
      "  -h, --help               Print help"]
  | some .info =>
    ["  -v, --verbose...     Increase log verbosity (-v debug, -vv trace)",
      "      --color <COLOR>  Colored output: auto, always, never",
      "  -h, --help           Print help"]

/-- What a command does, in one line. -/
def CommandName.about : CommandName → String
  | specs => "List the compiled-in interception table"
  | demo => "Run intercepted calls on App.Activity and report what happened"
  | info => "Display version and configuration defaults"

def CommandName.word : CommandName → String
  | specs => "specs"
  | demo => "demo"
  | info => "info"

/-- The help text on everything or on one command. -/
def helpLines (topic : Option CommandName) : List String :=
  match topic with
  | none =>
    ["Dispatch-table method interception toolkit", "",
      s!"Usage: {programName} [OPTIONS] <COMMAND>", "", "Commands:"]
      ++ [CommandName.specs, .demo, .info].map (fun n =>
        "  " ++ n.word ++ String.ofList (List.replicate (7 - n.word.length) ' ') ++ n.about)
      ++ ["  help   Print this message or the help of the given subcommand(s)", "", "Options:"]
      ++ optionLines none
  | some name =>
    [name.about, "", s!"Usage: {programName} {name.word} [OPTIONS]", "", "Options:"]
      ++ optionLines topic

/-- What a command prints, unless it fails. -/
def Command.text (env : Environment) (ansi : Bool) : Command → Except Demo.Failure String
  | specs json =>
    .ok (if json then (specsJson builtinRows).indented ++ "\n"
      else write (specsText builtinRows))
  | demo options json =>
    (Demo.run options).map fun report =>
      if json then (demoJson report).indented ++ "\n" else write (demoText report)
  | info => .ok (write (infoText env CommandLine.info))
where
  write (spans : List Span) : String := String.join (spans.map (Span.write ansi))

/-- The exit code of a run that broke off. -/
def brokenOff : Nat := 101

/-- The exit code of a demonstration without a report. -/
def failureCode : Demo.Failure → Nat
  | .tooManyThreads => brokenOff
  | _ => 1

/-- Carry out a command line. -/
def run (env : Environment) (words : List String) : Result :=
  match read words with
  | .misuse =>
    { code := 2, complaint := s!"error: invalid arguments; try {programName} --help\n" }
  | .version => { code := 0, output := s!"{programName} {version}\n" }
  | .help topic => { code := 0, output := String.join ((helpLines topic).map (· ++ "\n")) }
  | .run command color =>
    if (env.lookup "INTERPOSE_LOG").any LogFilter.breaksOff then
      { code := brokenOff, complaint := "error: the log filter cannot be read\n" }
    else
      let choice := ColorChoice.resolve color (env.lookup "NO_COLOR")
      match command.text env (choice.usesAnsi (env.lookup "TERM")) with
      | .ok output => { code := 0, output }
      | .error failure =>
        { code := failureCode failure, complaint := s!"Error: {failure.message}\n" }

end Interception.CommandLine
