/-
Reading the command line.

A command is a word, after any global options; its own options and the global ones
follow it in any order.  A long option takes its value after `=` or from the next
word, a short one from the rest of its word, after an `=` that is dropped, or from
the next word.  The next word is not taken if it looks like an option, that is if it
starts with a hyphen and is more than one.  Flags without a value may be run
together in one word.  Apart from the verbosity, an option may be given only once on
either side of the command, and the command's side of a global option wins.

Reading stops at the first thing that settles the outcome: a request for help or the
version, or a word that does not fit.
-/
import Interception.Decimal.Reading
import Interception.Demo

namespace Interception.CommandLine

/-- What to do. -/
inductive Command where
  | specs (json : Bool)
  | demo (options : Demo.Options) (json : Bool)
  | info
  deriving DecidableEq, Repr

/-- The commands by name. -/
inductive CommandName where
  | specs
  | demo
  | info
  deriving DecidableEq, Repr

def CommandName.ofWord? : String → Option CommandName
  | "specs" => some specs
  | "demo" => some demo
  | "info" => some info
  | _ => none

/-- What the command line asks for. -/
inductive Request where
  | run (command : Command) (color : Option String)
  | version
  /-- Help, on everything or on one command. -/
  | help (topic : Option CommandName)
  /-- The words do not fit the grammar. -/
  | misuse
  deriving DecidableEq, Repr

/-- An option that is recognized in some place. -/
inductive Flag where
  | verbose
  | color
  | help
  | version
  | json
  | mode
  | threads
  | calls
  deriving DecidableEq, Repr

namespace Flag

/-- The option needs a value. -/
def takesValue : Flag → Bool
  | color | mode | threads | calls => true
  | _ => false

/-- The options of a place: before the command, or after one. -/
def allowed : Option CommandName → List Flag
  | none => [verbose, color, help, version]
  | some .specs => [verbose, color, help, json]
  | some .demo => [verbose, color, help, json, mode, threads, calls]
  | some .info => [verbose, color, help]

def long : Flag → String
  | verbose => "verbose"
  | color => "color"
  | help => "help"
  | version => "version"
  | json => "json"
  | mode => "mode"
  | threads => "threads"
  | calls => "calls"

def short? : Flag → Option Char
  | verbose => some 'v'
  | help => some 'h'
  | version => some 'V'
  | mode => some 'm'
  | threads => some 't'
  | calls => some 'c'
  | color | json => none

end Flag

/-- What one place of the command line has been given so far. -/
structure Given where
  color : Option String := none
  json : Bool := false
  mode : Option SwapMode := none
  threads : Option Nat := none
  calls : Option Nat := none

/-- Why reading a place stopped early. -/
inductive Stop where
  | help
  | version
  | misuse

/-- Take an option without a value. -/
def Given.flag (g : Given) : Flag → Except Stop Given
  | .verbose => .ok g
  | .help => .error .help
  | .version => .error .version
  | .json => if g.json then .error .misuse else .ok { g with json := true }
  | _ => .error .misuse

/-- Take an option with its value, which must be readable and the first. -/
def Given.value (g : Given) (f : Flag) (text : String) : Except Stop Given :=
  match f with
  | .color => if g.color.isSome then .error .misuse else .ok { g with color := some text }
  | .mode =>
    match g.mode, SwapMode.parse text with
    | none, .ok mode => .ok { g with mode := some mode }
    | _, _ => .error .misuse
  | .threads =>
    match g.threads, Decimal.count? text with
    | none, some n => .ok { g with threads := some n }
    | _, _ => .error .misuse
  | .calls =>
    match g.calls, Decimal.count? text with
    | none, some n => .ok { g with calls := some n }
    | _, _ => .error .misuse
  | _ => .error .misuse

/-- The word starts with a hyphen and is not the hyphen alone. -/
def looksLikeOption (word : String) : Bool :=
  match word.toList with
  | '-' :: _ :: _ => true
  | _ => false

/-- Split a word at its first `=`. -/
def splitAtEquals (cs : List Char) : String × Option String :=
  let name := String.ofList (cs.takeWhile (· != '='))
  match cs.dropWhile (· != '=') with
  | [] => (name, none)
  | _ :: value => (name, some (String.ofList value))

/-- An option that still waits for its value, or none. -/
abbrev Pending := Option Flag

/-- Take a long option. -/
def takeLong (place : Option CommandName) (g : Given) (cs : List Char) :
    Except Stop (Given × Pending) :=
  let (name, value) := splitAtEquals cs
  match (Flag.allowed place).find? (·.long == name), value with
  | none, _ => .error .misuse
  | some f, none =>
    if f.takesValue then .ok (g, some f)
    else (g.flag f).map fun g => (g, none)
  | some f, some text =>
    if f.takesValue then (g.value f text).map fun g => (g, none)
    else .error .misuse

/-- Take a word of short options. -/
def takeShort (place : Option CommandName) (g : Given) : List Char →
    Except Stop (Given × Pending)
  | [] => .ok (g, none)
  | c :: cs =>
    match (Flag.allowed place).find? (·.short? == some c) with
    | none => .error .misuse
    | some f =>
      if f.takesValue then
        match cs with
        | [] => .ok (g, some f)
        | '=' :: text => (g.value f (String.ofList text)).map fun g => (g, none)
        | text => (g.value f (String.ofList text)).map fun g => (g, none)
      else
        match g.flag f with
        | .ok g => takeShort place g cs
        | .error stop => .error stop

/-- Take a word that looks like an option. -/
def takeWord (place : Option CommandName) (g : Given) (word : String) :
    Except Stop (Given × Pending) :=
  match word.toList with
  | '-' :: '-' :: cs => takeLong place g cs
  | '-' :: cs => takeShort place g cs
  | _ => .error .misuse

/-- Read the options of one place, up to the first word that is not one.  Two hyphens
end the options, and nothing may follow them. -/
def readPlace (place : Option CommandName) : Given → Pending → List String →
    Except Stop (Given × List String)
  | g, none, [] => .ok (g, [])
  | _, some _, [] => .error .misuse
  | g, some f, word :: words =>
    if looksLikeOption word then .error .misuse
    else
      match g.value f word with
      | .ok g => readPlace place g none words
      | .error stop => .error stop
  | g, none, word :: words =>
    if word = "--" then
      if words.isEmpty then .ok (g, []) else .error .misuse
    else if looksLikeOption word then
      match takeWord place g word with
      | .ok (g, pending) => readPlace place g pending words
      | .error stop => .error stop
    else .ok (g, word :: words)

/-- The command with what was given after it. -/
def CommandName.with (name : CommandName) (g : Given) : Command :=
  match name with
  | .specs => .specs g.json
  | .info => .info
  | .demo =>
    let standard : Demo.Options := {}
    .demo
      { mode := g.mode.getD .standard
        threads := g.threads.getD standard.threads
        calls := g.calls.getD standard.calls } g.json

/-- What to do when reading stopped early in a place. -/
def Stop.request (place : Option CommandName) : Stop → Request
  | help => .help place
  | version => .version
  | misuse => .misuse

/-- Read the words after `help`. -/
def readHelp : List String → Request
  | [] => .help none
  | [word] =>
    if word = "help" then .help none
    else
      match CommandName.ofWord? word with
      | some name => .help (some name)
      | none => .misuse
  | _ => .misuse

/-- Read the command line. -/
def read (words : List String) : Request :=
  match readPlace none {} none words with
  | .error stop => stop.request none
  | .ok (_, []) => .misuse
  | .ok (outer, word :: words) =>
    if word = "help" then readHelp words
    else
      match CommandName.ofWord? word with
      | none => .misuse
      | some name =>
        match readPlace (some name) {} none words with
        | .error stop => stop.request (some name)
        | .ok (_, _ :: _) => .misuse
        | .ok (inner, []) => .run (name.with inner) (inner.color.or outer.color)

end Interception.CommandLine
