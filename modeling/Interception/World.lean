/-
Everything that several threads and machines can see.

A world is a handful of stores: descriptor cells, dispatch tables, classes,
objects, interception registries and machines.  Machines share one world, so
handles, objects and registries of one can reach another.  A machine itself is a
class registry, an interception core, its two built-in classes and a count of
allocations.

This file holds the records, the ways of reading a world, and the single-record
writes that larger operations are made of.
-/
import Interception.Class
import Interception.Error
import Interception.Registry
import Interception.Value

namespace Interception

/-- The classes of one machine, by number and by name. -/
structure ClassRegistry where
  /-- Classes in the order they were registered. -/
  classes : Array ClassRef := #[]
  /-- Number under which each name was registered, newest first. -/
  numbers : List (String × Nat) := []
  deriving Inhabited

namespace ClassRegistry

def size (g : ClassRegistry) : Nat := g.classes.size

/-- The number the next class gets. -/
def next (g : ClassRegistry) : Nat := g.classes.size

/-- The class registered in a position. -/
def byNumber? (g : ClassRegistry) (n : Nat) : Option ClassRef := g.classes[n]?

def contains (g : ClassRegistry) (name : String) : Bool := (g.numbers.lookup name).isSome

/-- The class in the position a name was registered under. -/
def byName? (g : ClassRegistry) (name : String) : Option ClassRef :=
  (g.numbers.lookup name).bind g.byNumber?

/-- Append a class under its name and number. -/
def register (g : ClassRegistry) (name : String) (number : Nat) (c : ClassRef) :
    ClassRegistry :=
  { classes := g.classes.push c, numbers := (name, number) :: g.numbers }

end ClassRegistry

/-- What a machine is set up with. -/
structure VmOptions where
  /-- The interception table. -/
  rows : List Row := builtinRows
  mode : SwapMode := .standard
  /-- How many calls may be nested on one thread. -/
  maxDepth : Nat := 1024

/-- A machine that was never set up admits no call. -/
instance : Inhabited VmOptions := ⟨{ maxDepth := 0 }⟩

/-- A virtual machine. -/
structure Vm where
  classes : ClassRegistry
  core : Core
  root : ClassRef
  /-- The base class of dynamic proxies. -/
  proxy : ClassRef
  /-- Where instances of the proxy base keep their handler. -/
  proxyOffset : Nat
  options : VmOptions
  /-- Objects allocated so far, handlers included. -/
  allocations : Nat := 0
  deriving Inhabited

/-- An object: its class and its field values. -/
structure Object where
  cls : ClassRef
  fields : List Value
  deriving Inhabited

/-- All shared state. -/
structure World (β : Type) where
  cells : Store .cell (Descriptor β) := {}
  tables : Store .table (List CellRef) := {}
  classes : Store .cls (Class β) := {}
  objects : Store .object Object := {}
  registries : Store .registry Registry := {}
  vms : Store .vm Vm := {}
  deriving Inhabited

/-- Objects are numbered from one, in the order they were made. -/
def Ref.objectId (o : ObjectRef) : Nat := o.index + 1

namespace World

variable {β : Type}

/-! ### Reading -/

/-- The descriptor now in a cell. -/
def content (w : World β) (m : CellRef) : Descriptor β := w.cells.get m

/-- The cells of a class's current table, in slot order. -/
def tableOf (w : World β) (c : ClassRef) : List CellRef := w.tables.get (w.classes.get c).table

/-- The cell a class's current table holds in a slot. -/
def methodAt (w : World β) (c : ClassRef) (slot : Nat) : Option CellRef := (w.tableOf c)[slot]?

def className (w : World β) (c : ClassRef) : String := (w.classes.get c).name

/-- The class of an object. -/
def classOf (w : World β) (o : ObjectRef) : ClassRef := (w.objects.get o).cls

/-- A class followed by its superclasses, nearest first. -/
def lineage (w : World β) (c : ClassRef) : List ClassRef := c :: (w.classes.get c).ancestors

/-- Some class of the lineage has this number. -/
def derivesFrom (w : World β) (c : ClassRef) (number : Nat) : Bool :=
  (w.lineage c).any fun a => (w.classes.get a).number == number

/-- A field of an object, if it has that many. -/
def field? (w : World β) (o : ObjectRef) (i : Nat) : Option Value := (w.objects.get o).fields[i]?

/-- The class a machine has registered under a name. -/
def findClass (w : World β) (v : VmRef) (name : String) : Option ClassRef :=
  (w.vms.get v).classes.byName? name

/-- The interception core a machine drives. -/
def coreOf (w : World β) (v : VmRef) : Core := (w.vms.get v).core

/-- How many calls a machine lets one thread nest. -/
def maxDepth (w : World β) (v : VmRef) : Nat := (w.vms.get v).options.maxDepth

/-- The largest of the machines' limits; no machine admits a deeper call. -/
def depthBound (w : World β) : Nat :=
  w.vms.items.foldl (fun n v => max n v.options.maxDepth) 0

/-! ### Writing -/

/-- Overwrite the content of a cell. -/
def overwrite (w : World β) (m : CellRef) (d : Descriptor β) : World β :=
  { w with cells := w.cells.set m d }

/-- Make a table the current one of a class. -/
def install (w : World β) (c : ClassRef) (t : TableRef) : World β :=
  { w with classes := w.classes.modify c fun k => { k with table := t } }

/-- Change one entry of a registry. -/
def modifyEntry (w : World β) (g : RegistryRef) (i : Nat) (f : Entry → Entry) : World β :=
  { w with registries := w.registries.modify g (·.modifyEntry i f) }

/-- Change the record of a machine. -/
def modifyVm (w : World β) (v : VmRef) (f : Vm → Vm) : World β :=
  { w with vms := w.vms.modify v f }

/-- A new object of a class, all its fields null. -/
def newObject (w : World β) (c : ClassRef) : ObjectRef × World β :=
  let fields := List.replicate (w.classes.get c).fields.length Value.null
  (w.objects.next, { w with objects := w.objects.add ⟨c, fields⟩ })

/-- Write a field of an object. -/
def setField (w : World β) (o : ObjectRef) (i : Nat) (v : Value) : Except VmError (World β) :=
  let count := (w.objects.get o).fields.length
  if i < count then
    .ok { w with objects := w.objects.modify o fun x => { x with fields := x.fields.set i v } }
  else
    .error (.fieldOutOfBounds i count)

/-! ### What a write leaves alone -/

/-- An overwritten cell reads as the new descriptor. -/
theorem content_overwrite_self {w : World β} {m : CellRef} (h : w.cells.Live m)
    (d : Descriptor β) : (w.overwrite m d).content m = d :=
  Store.get_set_self h d

/-- Overwriting a cell is not seen in any other. -/
theorem content_overwrite_of_ne {w : World β} {m n : CellRef} (h : n ≠ m)
    (d : Descriptor β) : (w.overwrite m d).content n = w.content n :=
  Store.get_set_of_ne h d

@[simp] theorem tableOf_overwrite (w : World β) (m : CellRef) (d : Descriptor β)
    (c : ClassRef) : (w.overwrite m d).tableOf c = w.tableOf c := rfl

@[simp] theorem content_install (w : World β) (c : ClassRef) (t : TableRef) (m : CellRef) :
    (w.install c t).content m = w.content m := rfl

/-- An installed table is the current one. -/
theorem tableOf_install_self {w : World β} {c : ClassRef} (h : w.classes.Live c)
    (t : TableRef) : (w.install c t).tableOf c = w.tables.get t := by
  simp only [tableOf, install]
  rw [Store.get_modify_self h]

/-- Installing a table is not seen in any other class. -/
theorem tableOf_install_of_ne {w : World β} {c a : ClassRef} (h : a ≠ c) (t : TableRef) :
    (w.install c t).tableOf a = w.tableOf a := by
  simp only [tableOf, install]
  rw [Store.get_modify_of_ne h]

@[simp] theorem className_install (w : World β) (c : ClassRef) (t : TableRef) (a : ClassRef) :
    (w.install c t).className a = w.className a :=
  Store.part_get_modify Class.name (by intro k; rfl) w.classes c a

@[simp] theorem lineage_install (w : World β) (c : ClassRef) (t : TableRef) (a : ClassRef) :
    (w.install c t).lineage a = w.lineage a :=
  congrArg (a :: ·) (Store.part_get_modify Class.ancestors (by intro k; rfl) w.classes c a)

end World

end Interception
