/-
Finding the row that speaks for a class.

Rows are keyed by class name, and an entry is resolved for one class object.  A
lookup is either by the class's own name or by the nearest name on its lineage that
has a row.  The entry found that way applies to the class only if the class object
it was resolved for lies on the same lineage: a registry shared between machines
can hold an entry for a class of the same name elsewhere.
-/
import Interception.World

namespace Interception.World

variable {β : Type}

/-- The entry whose row names the class itself. -/
def ownEntry (w : World β) (g : RegistryRef) (c : ClassRef) : Option Nat :=
  (w.registries.get g).position? (w.className c)

/-- The entry whose row names the nearest class of the lineage that has one. -/
def nearestEntry (w : World β) (g : RegistryRef) (c : ClassRef) : Option Nat :=
  (w.lineage c).findSome? (w.ownEntry g)

/-- The entry at a position of a registry. -/
def entry (w : World β) (g : RegistryRef) (i : Nat) : Entry := (w.registries.get g).entry i

/-- What an entry settled, if it was settled for a class on this lineage. -/
def resolvedFor (w : World β) (e : Entry) (c : ClassRef) : Option Resolution :=
  e.resolution.filter fun r => (w.lineage c).contains r.cls

/-- The nearest entry of a class together with what it settled for the class. -/
def interceptionOf (w : World β) (g : RegistryRef) (c : ClassRef) : Option (Nat × Resolution) :=
  (w.nearestEntry g c).bind fun i => (w.resolvedFor (w.entry g i) c).map (i, ·)

/-- How many of the replaced cells carry a name the row lists. -/
def trampolineCount (w : World β) (e : Entry) : Nat :=
  match e.resolution with
  | none => 0
  | some r => (w.tables.get r.unpatched).countP fun m => e.row.intercepts (w.content m).name

end Interception.World
