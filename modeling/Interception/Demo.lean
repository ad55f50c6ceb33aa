/-
The demonstration workload.

Each worker has a thread and an activity of its own and calls `onResume` on it a
fixed number of times.  The handler counts its entries and calls through to the
method it stands before, which counts its runs.  Workers take turns in any order;
a turn is a whole call, or the start of the next worker.  A run is exact if every
call entered the handler once and reached the method once, none failed, and the
class is armed at the end.
-/
import Interception.Dispatch
import Interception.Stats

namespace Interception.Demo

/-- The intercepted class. -/
def activityName : String := "App.Activity"

/-- The class of its handlers. -/
def handlerName : String := "App.ActivityInvocationHandler"

/-- The intercepted method. -/
def methodName : String := "onResume"

/-- How deep the demonstration lets calls nest. -/
def maxDepth : Nat := 256

/-- What to run. -/
structure Options where
  mode : SwapMode := .perCall
  threads : Nat := 4
  calls : Nat := 1000
  deriving DecidableEq, Repr

/-- The bodies of the two classes. -/
inductive Body where
  | invoke
  | onResume
  deriving DecidableEq, Repr

/-- How often each body ran. -/
structure Tally where
  handlerEntries : Nat := 0
  methodRuns : Nat := 0
  deriving DecidableEq, Repr

/-- Count an entry and call through to the method. -/
def invoke (v : VmRef) (this : ObjectRef) (args : List Value) :
    Program Body Tally Value := do
  let caller ← Program.modifyGet fun w t =>
    (w.classOf this, { t with handlerEntries := t.handlerEntries + 1 })
  match args[0]?.bind Value.asObject? with
  | none => .fail (.typeError "invoke: missing target")
  | some target =>
    match args[1]?.bind Value.asMethod? with
    | none => .fail (.typeError "invoke: missing method")
    | some m => .perform (.callMethod v (some caller) m target (args.drop 2))

/-- Count a run. -/
def onResume : Program Body Tally Value :=
  Program.modifyGet fun _ t => (.null, { t with methodRuns := t.methodRuns + 1 })

/-- The meaning of the bodies. -/
def host : Host Body Tally where
  body
    | .invoke => invoke
    | .onResume => fun _ _ _ => onResume

/-- The class of handlers. -/
def handlerDecl : ClassDecl Body :=
  { name := handlerName, virtuals := [{ name := handlerMethod, body := some .invoke }] }

/-- The intercepted class. -/
def activityDecl : ClassDecl Body :=
  { name := activityName
    fields := [⟨handlerFieldName, handlerFieldType⟩]
    virtuals := [{ name := methodName, visibility := .derived, body := some .onResume }] }

/-- Why a demonstration gave no report. -/
inductive Failure where
  | noThreads
  /-- There is no room for a list of the workers. -/
  | tooManyThreads
  | refused (e : VmError)
  | workerPanicked
  | endless
  deriving DecidableEq, Repr

def Failure.message : Failure → String
  | noThreads => "--threads must be at least 1"
  | tooManyThreads => "capacity overflow"
  | refused e => e.message
  | workerPanicked => "demo worker panicked"
  | endless => "demo worker did not end"

/-- A worker between two of its calls. -/
structure Worker where
  object : ObjectRef
  thread : Thread := {}
  deriving Inhabited

/-- A demonstration between two turns. -/
structure Scene where
  world : World Body
  vm : VmRef
  activity : ClassRef
  tally : Tally := {}
  workers : Array Worker := #[]
  errors : Nat := 0

/-- The machine with both classes defined and no worker yet. -/
def Scene.make (mode : SwapMode) : Except VmError Scene := do
  let (vm, world) := World.newVm {} { mode, maxDepth }
  let (_, world) ← world.define vm handlerDecl
  let (activity, world) ← world.define vm activityDecl
  return { world, vm, activity }

/-- One step of a schedule. -/
inductive Turn where
  /-- The next worker gets its activity. -/
  | start
  /-- A worker makes its next call. -/
  | call (worker : Nat)
  deriving DecidableEq, Repr

namespace Scene

/-- Allocate the next worker's activity. -/
def start (s : Scene) : Except Failure Scene :=
  match s.world.allocate s.vm s.activity with
  | (.value object, world) => .ok { s with world, workers := s.workers.push { object } }
  | (.error e, _) => .error (.refused e)
  | (.panic _, _) => .error .workerPanicked
  | (.endless, _) => .error .endless

/-- Let a worker make one call; a worker that has not started makes none. -/
def call (s : Scene) (i : Nat) : Except Failure Scene :=
  match s.workers[i]? with
  | none => .ok s
  | some worker =>
    let ask : Program Body Tally Value := .perform (.callVirtual s.vm worker.object methodName [])
    let (r, after) := ask.start host ⟨s.world, worker.thread, s.tally⟩
    let s : Scene :=
      { s with
        world := after.world
        tally := after.host
        workers := s.workers.setIfInBounds i { worker with thread := after.thread } }
    match r with
    | .value _ => .ok s
    | .error _ => .ok { s with errors := s.errors + 1 }
    | .panic _ => .error .workerPanicked
    | .endless => .error .endless

/-- Take one turn. -/
def turn (s : Scene) : Turn → Except Failure Scene
  | .start => s.start
  | .call i => s.call i

/-- The intercepted table is installed and the method's slot holds a trampoline. -/
def isArmed (s : Scene) : Bool :=
  let w := s.world
  match (w.ownEntry (w.coreOf s.vm).registry s.activity).bind fun i =>
      (w.entry (w.coreOf s.vm).registry i).resolution with
  | none => false
  | some r =>
    let cell := ((w.classes.get s.activity).slotOf methodName).bind fun slot =>
      (w.tables.get r.intercepted)[slot]?
    (w.classes.get s.activity).table == r.intercepted
      && cell.any fun m => (w.content m).isTrampoline

end Scene

/-- What a demonstration observed. -/
structure Report where
  mode : SwapMode
  threads : Nat
  callsPerThread : Nat
  expected : Nat
  handlerEntries : Nat
  methodRuns : Nat
  errors : Nat
  armed : Bool
  stats : List EntryStats
  deriving DecidableEq, Repr

/-- Every call entered the handler once and reached the method once, none failed,
and the class is armed. -/
def Report.isExact (r : Report) : Bool :=
  r.handlerEntries == r.expected && r.methodRuns == r.expected && r.errors == 0 && r.armed

/-- What there is to report once a schedule is finished. -/
def Scene.report (s : Scene) (o : Options) : Report :=
  { mode := o.mode
    threads := o.threads
    callsPerThread := o.calls
    expected := o.threads * o.calls
    handlerEntries := s.tally.handlerEntries
    methodRuns := s.tally.methodRuns
    errors := s.errors
    armed := s.isArmed
    stats := s.world.stats (s.world.coreOf s.vm) }

/-- How many workers can be listed.  The size of a list in bytes is a signed 64-bit
number, and each worker takes 24 bytes of it: the size of the standard library's
handle of a scoped thread on a 64-bit target, which the program itself does not
state. -/
def maxThreads : Nat := Int64.maxValue.toInt.toNat / 24

/-- Play from the machine with no worker yet, and report what came of it.  Without a
thread there is nothing to play, and with too many the play does not begin. -/
def runBy (o : Options) (play : Scene → Except Failure Scene) : Except Failure Report :=
  if o.threads = 0 then .error .noThreads
  else
    match Scene.make o.mode with
    | .error e => .error (.refused e)
    | .ok scene =>
      if maxThreads < o.threads then .error .tooManyThreads
      else (play scene).map (·.report o)

/-- Run a schedule. -/
def runSchedule (o : Options) (schedule : List Turn) : Except Failure Report :=
  runBy o fun scene => schedule.foldlM Scene.turn scene

/-- All workers start and then take turns, one call each, round after round. -/
def rounds (o : Options) : List Turn :=
  List.replicate o.threads .start ++
    (List.replicate o.calls ((List.range o.threads).map .call)).flatten

/-- Run the demonstration.  The turns are not laid out before they are needed. -/
def run (o : Options) : Except Failure Report :=
  runBy o fun scene => (rounds o).foldlM Scene.turn scene

/-- The demonstration is one of the schedules. -/
theorem run_eq_runSchedule (o : Options) : run o = runSchedule o (rounds o) := rfl

end Interception.Demo
