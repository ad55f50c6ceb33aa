/-
Defining classes and setting up machines.

A class becomes visible only after it was linked and its initialization hook, which
patches it, has run; a failed patch does not keep it from being published.  A
machine starts with two classes, the root and the base of dynamic proxies, which
go through the same hook.
-/
import Interception.Linking
import Interception.Patching

namespace Interception

/-- Name of the class every class derives from. -/
def rootClassName : String := "interpose.lang.Object"

/-- Name of the base class of dynamic proxies. -/
def proxyClassName : String := "interpose.reflect.Proxy"

namespace World

variable {β : Type}

/-- The class-initialization hook. -/
def initializeClass (w : World β) (v : VmRef) (c : ClassRef) : World β :=
  let (_, w) := w.patch v (w.coreOf v) c
  { w with classes := w.classes.modify c fun k => { k with initialized := true } }

/-- Make a class visible to lookups on a machine. -/
def publish (w : World β) (v : VmRef) (c : ClassRef) : World β :=
  let cls := w.classes.get c
  w.modifyVm v fun k => { k with classes := k.classes.register cls.name cls.number c }

/-- Link, initialize and publish a class.  A refusal leaves the world as it was. -/
def define (w : World β) (v : VmRef) (d : ClassDecl β) :
    Except VmError (ClassRef × World β) :=
  let classes := (w.vms.get v).classes
  if classes.contains d.name then .error (.duplicateClass d.name)
  else
    let superName := d.extends?.getD rootClassName
    match classes.byName? superName with
    | none => .error (.classNotFound superName)
    | some s =>
      let (c, w) := w.link d classes.next (some s)
      .ok (c, (w.initializeClass v c).publish v c)

/-- A new registry over a table. -/
def newRegistry (w : World β) (rows : List Row) : RegistryRef × World β :=
  (w.registries.next, { w with registries := w.registries.add (.ofRows rows) })

/-- A machine around an existing core; its own table and mode are only recorded. -/
def newVmAround (w : World β) (options : VmOptions) (core : Core) : VmRef × World β :=
  let (root, w) := w.link { name := rootClassName } 0 none
  let (proxy, w) := w.link
    { name := proxyClassName, fields := [⟨handlerFieldName, handlerFieldType⟩] } 1 (some root)
  let v := w.vms.next
  let proxyOffset := (w.classes.get proxy).fields.length - 1
  let w := { w with vms := w.vms.add { classes := {}, core, root, proxy, proxyOffset, options } }
  let w := (w.initializeClass v root).publish v root
  (v, (w.initializeClass v proxy).publish v proxy)

/-- A machine with a core of its own. -/
def newVm (w : World β) (options : VmOptions) : VmRef × World β :=
  let (g, w) := w.newRegistry options.rows
  w.newVmAround options ⟨g, options.mode⟩

end World

end Interception
