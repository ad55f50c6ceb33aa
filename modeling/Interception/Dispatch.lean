/-
Dispatch.

A virtual call resolves a name to a slot by the class's fixed map and then takes
whatever the receiver's current table holds there.  Running a cell reads its
descriptor once.  If that is a trampoline, control goes to interception: inside a
window of its own, or without a handler, the call falls through to the replaced
cell; otherwise a window is opened, the handler's `invoke` is called with the
receiver, the trampoline and the arguments, and the window is closed again however
the call ended.

Every run of a cell takes one frame, and a machine refuses a frame beyond its
limit.  `execute` recurses on the room left: a number of frames such that no
machine would admit another once they are used up.  With no room left refusing is
therefore not an approximation but what the limit asks for.

A host gives bodies their meaning and may watch what happens.
-/
import Interception.Access
import Interception.Program

namespace Interception

/-- What a host can watch. -/
inductive Event (β : Type) where
  /-- A frame was admitted and its cell is about to run. -/
  | entered (v : VmRef) (m : CellRef) (this : ObjectRef) (args : List Value)
  /-- The frame ended. -/
  | left (v : VmRef) (m : CellRef) (this : ObjectRef)
  /-- A frame was refused. -/
  | refused (v : VmRef) (m : CellRef) (this : ObjectRef)
  /-- Interception opened a window. -/
  | opened (g : Guard β)
  /-- Interception closed the window. -/
  | closed (g : Guard β)
  /-- A program got the answer to this operation. -/
  | performed (op : Op β)

/-- The meaning of bodies, and what to do about events. -/
structure Host (β H : Type) where
  /-- What a body does, given the machine that runs it, the receiver and the
  arguments. -/
  body : β → VmRef → ObjectRef → List Value → Program β H Value
  observe : Event β → World β → Thread → H → H := fun _ _ _ h => h

/-- Everything one thread's run reads and changes. -/
structure State (β H : Type) where
  world : World β
  thread : Thread
  host : H

/-- A run from a state to an ending and a state. -/
abbrev Act (β H α : Type) := State β H → Ending α × State β H

/-- Running a cell on a machine. -/
abbrev Executor (β H : Type) := VmRef → CellRef → ObjectRef → List Value → Act β H Value

namespace State

variable {β H : Type}

/-- Let the host know. -/
def notify (s : State β H) (host : Host β H) (e : Event β) : State β H :=
  { s with host := host.observe e s.world s.thread s.host }

/-- One call deeper. -/
def deepen (s : State β H) : State β H :=
  { s with thread := { s.thread with depth := s.thread.depth + 1 } }

/-- One call less deep. -/
def rise (s : State β H) : State β H :=
  { s with thread := { s.thread with depth := s.thread.depth - 1 } }

/-- Open a window. -/
def openWindow (s : State β H) (v : VmRef) (core : Core) (o : ObjectRef) (m : CellRef) :
    Guard β × State β H :=
  let (g, world, thread) := s.world.openWindow s.thread v core o m
  (g, { s with world, thread })

/-- Close a window. -/
def closeWindow (s : State β H) (g : Guard β) : State β H :=
  let (world, thread) := s.world.closeWindow s.thread g
  { s with world, thread }

/-- Frames that any machine could still admit. -/
def room (s : State β H) : Nat := s.world.depthBound - s.thread.depth

end State

/-- The direct method a name refers to, searching from a class upwards. -/
def World.directMethod {β : Type} (w : World β) (c : ClassRef) (name : String) :
    Option CellRef :=
  (w.lineage c).findSome? fun a =>
    (w.classes.get a).directs.find? fun m => (w.content m).name == name

section Calls

variable {β H : Type} (host : Host β H) (exec : Executor β H)

/-- Call what the receiver's current table holds in a slot. -/
def invokeSlot (v : VmRef) (this : ObjectRef) (slot : Nat) (args : List Value) :
    Act β H Value := fun s =>
  let c := s.world.classOf this
  match s.world.methodAt c slot with
  | some m => exec v m this args s
  | none => (.error (.methodNotFound (s.world.className c) s!"#{slot}"), s)

/-- Call a virtual method by name. -/
def invokeVirtual (v : VmRef) (this : ObjectRef) (name : String) (args : List Value) :
    Act β H Value := fun s =>
  let c := s.world.classOf this
  match (s.world.classes.get c).slotOf name with
  | some slot => invokeSlot exec v this slot args s
  | none => (.error (.methodNotFound (s.world.className c) name), s)

/-- Call a direct method of the receiver's class or a superclass. -/
def invokeDirect (v : VmRef) (this : ObjectRef) (name : String) (args : List Value) :
    Act β H Value := fun s =>
  let c := s.world.classOf this
  match s.world.directMethod c name with
  | some m => exec v m this args s
  | none => (.error (.methodNotFound (s.world.className c) name), s)

/-- Call a method handle after the receiver and access checks. -/
def invokeMethod (v : VmRef) (caller : Option ClassRef) (m : CellRef) (this : ObjectRef)
    (args : List Value) : Act β H Value := fun s =>
  let d := s.world.content m
  match s.world.checkReceiver this d with
  | .error e => (.error e, s)
  | .ok () =>
    match s.world.checkAccess v caller d with
    | .error e => (.error e, s)
    | .ok () => exec v m this args s

/-- Call a handler inside a window. -/
def invokeHandler (v : VmRef) (core : Core) (handler : ObjectRef) (m : CellRef)
    (this : ObjectRef) (args : List Value) : Act β H Value := fun s =>
  let (g, s) := s.openWindow v core this m
  let s := s.notify host (.opened g)
  let (r, s) := invokeVirtual exec v handler handlerMethod (.object this :: .method m :: args) s
  (r, (s.closeWindow g).notify host (.closed g))

/-- The entry point of interception. -/
def invokeTrampoline (v : VmRef) (core : Core) (m : CellRef) (this : ObjectRef)
    (args : List Value) : Act β H Value := fun s =>
  match (s.world.content m).replaced? with
  | none => exec v m this args s
  | some replaced =>
    if core.mode = .perCall ∧ s.thread.inWindow m this = true then
      exec v replaced this args s
    else
      match s.world.handlerOf v core this with
      | none => exec v replaced this args s
      | some handler => invokeHandler host exec v core handler m this args s

/-- Carry out an operation. -/
def Op.run : (op : Op β) → Act β H op.Answer
  | .define v d => fun s =>
    match s.world.define v d with
    | .ok (c, world) => (.value c, { s with world })
    | .error e => (.error e, s)
  | .allocate v c => fun s =>
    let (r, world) := s.world.allocate v c
    (r, { s with world })
  | .callVirtual v this name args => invokeVirtual exec v this name args
  | .callSlot v this slot args => invokeSlot exec v this slot args
  | .callDirect v this name args => invokeDirect exec v this name args
  | .callMethod v caller m this args => invokeMethod exec v caller m this args
  | .execute v m this args => exec v m this args
  | .setField o i x => fun s =>
    match s.world.setField o i x with
    | .ok world => (.value (), { s with world })
    | .error e => (.error e, s)
  | .callTrampoline v core m this args => invokeTrampoline host exec v core m this args
  | .patch v core c => fun s =>
    let (r, world) := s.world.patch v core c
    (.value r, { s with world })
  | .bind v core o => fun s =>
    let (r, world) := s.world.bind v core o
    (r, { s with world })
  | .openWindow v core o m => fun s =>
    let (g, s) := s.openWindow v core o m
    (.value g, s)
  | .closeWindow g => fun s => (.value (), s.closeWindow g)
  | .overwrite m d => fun s =>
    (.value (s.world.content m), { s with world := s.world.overwrite m d })
  | .install c t => fun s =>
    (.value (s.world.classes.get c).table, { s with world := s.world.install c t })
  | .newCell d => fun s =>
    (.value s.world.cells.next,
      { s with world := { s.world with cells := s.world.cells.add d } })
  | .newTable ms => fun s =>
    (.value s.world.tables.next,
      { s with world := { s.world with tables := s.world.tables.add ms } })
  | .newRegistry rows => fun s =>
    let (g, world) := s.world.newRegistry rows
    (.value g, { s with world })

/-- Run a program, running cells by `exec`. -/
def Program.run {α : Type} : Program β H α → Act β H α
  | .pure a, s => (.value a, s)
  | .fail e, s => (.error e, s)
  | .panic text, s => (.panic text, s)
  | .host update next, s =>
    (next s.world s.host).run { s with host := update s.world s.host }
  | .call op next, s =>
    match op.run host exec s with
    | (.value a, s) => (next (.ok a)).run (s.notify host (.performed op))
    | (.error e, s) => (next (.error e)).run (s.notify host (.performed op))
    | (.panic text, s) => (.panic text, s)
    | (.endless, s) => (.endless, s)

/-- Run what a cell references, inside an admitted frame. -/
def runCell (v : VmRef) (m : CellRef) (this : ObjectRef) (args : List Value) :
    Act β H Value := fun s =>
  let d := s.world.content m
  match d.code with
  | .native b => (host.body b v this args).run host exec s
  | .abstract => (.error (.abstractMethod d.qualifiedName), s)
  | .trampoline _ => invokeTrampoline host exec v (s.world.coreOf v) m this args s

end Calls

section Frames

variable {β H : Type} (host : Host β H)

/-- Refuse a frame. -/
def refuse (v : VmRef) (m : CellRef) (this : ObjectRef) : Act β H Value := fun s =>
  (.error (.stackOverflow (s.thread.depth + 1)), s.notify host (.refused v m this))

/-- Run what a cell references in a frame of its own, with room for this many. -/
def execute : Nat → Executor β H
  | 0, v, m, this, _, s => refuse host v m this s
  | room + 1, v, m, this, args, s =>
    if s.world.maxDepth v < s.thread.depth + 1 then refuse host v m this s
    else
      let s := s.deepen.notify host (.entered v m this args)
      let (r, s) := runCell host (execute room) v m this args s
      (r, s.rise.notify host (.left v m this))

/-- Run a program from a state, with all the room the machines' limits leave. -/
def Program.start {α : Type} (p : Program β H α) : Act β H α := fun s =>
  p.run host (execute host s.room) s

end Frames

end Interception
