/-
Running a session.

Inside a body an action may log its answer and may turn its error into a logged
answer, and a returned value ends the body, from within branches too.  A body that
runs out returns null.  The steps of a session are actions of one outermost frame;
each is carried out even if earlier ones failed, and reports how it ended together
with what was logged meanwhile.  The next step starts with the world, thread and bench
this one left.
-/
import Interception.Dispatch
import Interception.Session.Perform

namespace Interception.Session

open Script in
/-- Log the answer, or catch the error, of an action inside a body. -/
def noted (notes : Notes) (run : Script Answer) : Script Unit := do
  let r ← tryCatch (Except.ok <$> run) fun e => pure (Except.error e)
  match r with
  | .ok answer => if notes.shown then edit fun b => b.push answer
  | .error e => if notes.tried then edit fun b => b.push (.caught e) else throw e

mutual

/-- Run a statement of a body; the value is the body's if it ended there. -/
def Statement.run : Statement → Script (Option Value)
  | .act notes action => do
    noted notes (Script.act notes action)
    return none
  | .ret value => do
    let v ← Script.eval value
    return some v
  | .branch a b yes no => do
    let x ← Script.eval a
    let y ← Script.eval b
    if x.same y then runAll yes else runAll no

/-- Run statements until one returns. -/
def runAll : List Statement → Script (Option Value)
  | [] => return none
  | s :: rest => do
    match ← s.run with
    | some v => return some v
    | none => runAll rest

end

/-- What a native body does. -/
def runBody (body : Body) (v : VmRef) (this : ObjectRef) (args : List Value) :
    Program Body Bench Value := do
  let (r, _) ← runAll body { vm := v, this? := some this, args }
  match r with
  | .ok result => return result.getD .null
  | .error e => .fail e

/-- Bodies mean what their statements do; nothing watches. -/
def host : Host Body Bench where
  body := runBody

/-- How a step ended, and what was logged meanwhile. -/
structure StepResult where
  ending : Ending Answer
  log : List Answer

/-- A session between two steps. -/
structure Progress where
  state : State Body Bench
  frame : Frame

namespace Progress

/-- Carry out one step. -/
def step (s : Progress) (st : Step) : StepResult × Progress :=
  let (r, state) := Program.start host (Script.act st.notes st.action s.frame)
    { s.state with host := { s.state.host with log := [] } }
  let log := state.host.log.reverse
  match r with
  | .value (.ok answer, frame) => (⟨.value answer, log⟩, ⟨state, frame⟩)
  | .value (.error e, frame) => (⟨.error e, log⟩, ⟨state, frame⟩)
  | .error e => (⟨.error e, log⟩, ⟨state, s.frame⟩)
  | .panic text => (⟨.panic text, log⟩, ⟨state, s.frame⟩)
  | .endless => (⟨.endless, log⟩, ⟨state, s.frame⟩)

/-- Carry out steps in order. -/
def steps : Progress → List Step → List StepResult
  | _, [] => []
  | s, st :: rest =>
    let (r, s) := s.step st
    r :: steps s rest

end Progress

/-- A machine to set up: its options, and an earlier machine whose core it shares. -/
structure VmSetup where
  options : VmOptions := {}
  share : Option Nat := none

/-- Set up machines in order. -/
def setUp (w : World Body) : List VmSetup → World Body
  | [] => w
  | m :: rest =>
    let (_, w) := match m.share with
      | some i => w.newVmAround m.options (w.coreOf ⟨i⟩)
      | none => w.newVm m.options
    setUp w rest

/-- Run a session; without machines it has one with standard options. -/
def run (vms : List VmSetup) (steps : List Step) : List StepResult :=
  let world := setUp {} (if vms.isEmpty then [{}] else vms)
  Progress.steps ⟨⟨world, {}, {}⟩, { vm := ⟨0⟩ }⟩ steps

end Interception.Session
