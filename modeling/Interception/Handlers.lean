/-
The handler bound to an object.

Instances of classes that directly extend a machine's proxy base keep their handler
in the base's own field and are otherwise left alone by interception.  Any other
object has a handler if the nearest row of its class was resolved for a class on
its lineage and the handler field now holds an object.
-/
import Interception.Lookup

namespace Interception.World

variable {β : Type}

/-- The object's class directly extends the proxy base of this machine. -/
def isProxyInstance (w : World β) (v : VmRef) (o : ObjectRef) : Bool :=
  (w.classes.get (w.classOf o)).super? == some (w.vms.get v).proxy

/-- The handler of an object, as seen by a machine and a core. -/
def handlerOf (w : World β) (v : VmRef) (core : Core) (o : ObjectRef) : Option ObjectRef :=
  if w.isProxyInstance v o then
    (w.field? o (w.vms.get v).proxyOffset).bind Value.asObject?
  else
    (w.interceptionOf core.registry (w.classOf o)).bind fun (_, r) =>
      (w.field? o r.handlerOffset).bind Value.asObject?

/-- The class is trusted as a handler class; trust goes by name alone. -/
def isHandlerClass (w : World β) (core : Core) (c : ClassRef) : Bool :=
  (w.registries.get core.registry).isHandlerClass (w.className c)

end Interception.World
