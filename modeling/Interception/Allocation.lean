/-
Allocating objects and binding their handlers.

An instance of an intercepted class gets a fresh handler, which is itself allocated
and may therefore get a handler of its own, and so on along a chain of handler
classes.  Each class of the chain determines the next, so a chain longer than the
number of classes repeats itself and never ends; the count of classes is all the
fuel the recursion needs, and running out of it is the definite answer that the
allocation does not end.

The object is made before its handlers, the handler is stored once it is complete,
and an allocation counts only when it succeeds.
-/
import Interception.Lookup

namespace Interception.World

variable {β : Type}

/-- Bind a fresh handler to an object if its class is intercepted, allocating the
handler by `allocate`. -/
def bindWith (allocate : World β → ClassRef → Ending ObjectRef × World β) (w : World β)
    (g : RegistryRef) (o : ObjectRef) : Ending (Option ObjectRef) × World β :=
  match w.interceptionOf g (w.classOf o) with
  | none => (.value none, w)
  | some (_, r) =>
    Ending.andThen (allocate w r.handlerClass) fun h w =>
      match w.setField o r.handlerOffset (.object h) with
      | .ok w => (.value (some h), w)
      | .error e => (.error e, w)

/-- Allocate an instance on machine `v`, following a chain of at most `fuel` classes. -/
def allocateWithin (v : VmRef) : Nat → World β → ClassRef → Ending ObjectRef × World β
  | 0, w, _ => (.endless, w)
  | fuel + 1, w, c =>
    if (w.classes.get c).initialized then
      let (o, w) := w.newObject c
      Ending.andThen (bindWith (allocateWithin v fuel) w (w.coreOf v).registry o) fun _ w =>
        (.value o, w.modifyVm v fun k => { k with allocations := k.allocations + 1 })
    else
      (.error (.runtimeError s!"class {w.className c} is not initialized"), w)

/-- Allocate an instance of a class, and its handlers, on machine `v`. -/
def allocate (w : World β) (v : VmRef) (c : ClassRef) : Ending ObjectRef × World β :=
  allocateWithin v (w.classes.size + 1) w c

/-- Bind a handler to an existing object: the allocation hook on its own. -/
def bind (w : World β) (v : VmRef) (core : Core) (o : ObjectRef) :
    Ending (Option ObjectRef) × World β :=
  bindWith (fun w => w.allocate v) w core.registry o

end Interception.World
