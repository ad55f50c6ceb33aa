/-
Patching a class.

A class that has a row of its own gets a new table in which every cell is a fresh
copy of the one it replaces, and the copies of the listed methods are trampolines
that remember it.  The replaced table is left as it was; it is what a class-wide
window puts back.

Whatever stands in the way is found before anything is allocated or installed, so
an outcome other than `patched` leaves no trace, and a class that could not be
patched stays usable and may be patched later.
-/
import Interception.Lookup

namespace Interception

/-- Why a class with a row could not be patched. -/
inductive ResolveError where
  /-- No class has the row's handler class name. -/
  | handlerClassNotFound (name : String)
  /-- The row was settled for another class of the same name. -/
  | boundToOtherClass (name : String)
  /-- The class has no field for its handler. -/
  | handlerFieldMissing (cls : String)
  deriving DecidableEq, Repr

/-- The wording of each reason. -/
def ResolveError.message : ResolveError → String
  | handlerClassNotFound name => s!"handler class {name} not found"
  | boundToOtherClass name => s!"row for {name} is already bound to another class"
  | handlerFieldMissing cls => s!"class {cls} has no field {handlerFieldName}: {handlerFieldType}"

/-- What patching did with a class. -/
inductive PatchOutcome where
  /-- No row names the class. -/
  | notIntercepted
  /-- The row was settled for this class before. -/
  | alreadyPatched
  | skipped (why : ResolveError)
  /-- A new table was installed, with this many trampolines. -/
  | patched (trampolines : Nat)
  deriving DecidableEq, Repr

/-- The call installed a table. -/
def PatchOutcome.isPatched : PatchOutcome → Bool
  | patched _ => true
  | _ => false

/-- A fresh copy of each cell, those of listed methods turned into trampolines. -/
def copyTable {β : Type} (row : Row) (cells : Store .cell (Descriptor β)) :
    List CellRef → List CellRef × Store .cell (Descriptor β)
  | [] => ([], cells)
  | m :: ms =>
    let d := cells.get m
    let copy := cells.next
    let (rest, cells) := copyTable row
      (cells.add (if row.intercepts d.name then d.toTrampoline m else d)) ms
    (copy :: rest, cells)

namespace World

variable {β : Type}

/-- What stands in the way of patching a class under an unresolved row, or the
handler class and the offset of the handler field. -/
def resolveRow (w : World β) (v : VmRef) (row : Row) (c : ClassRef) :
    Except ResolveError (ClassRef × Nat) :=
  match w.findClass v row.handlerClass with
  | none => .error (.handlerClassNotFound row.handlerClass)
  | some handler =>
    match (w.classes.get c).fieldOffset handlerFieldName handlerFieldType with
    | none => .error (.handlerFieldMissing (w.className c))
    | some offset => .ok (handler, offset)

/-- Build and install the intercepted table of a class, and fill in its entry. -/
def installTrampolines (w : World β) (g : RegistryRef) (i : Nat) (c : ClassRef)
    (handler : ClassRef) (offset : Nat) : World β :=
  let row := (w.entry g i).row
  let old := w.tableOf c
  let intercepted := w.tables.next
  let unpatched := (w.classes.get c).table
  let (copies, cells) := copyTable row w.cells old
  { w with
    cells
    tables := w.tables.add copies
    classes := w.classes.modify c fun k =>
      { k with
        table := intercepted
        scope := (k.scope.afterCells old.length).afterTable intercepted }
    registries := w.registries.modify g (·.modifyEntry i (·.resolve
      { cls := c, handlerClass := handler, handlerOffset := offset, intercepted, unpatched })) }

/-- Patch a class if it has a row of its own; handler classes are looked up in the
machine `v`. -/
def patch (w : World β) (v : VmRef) (core : Core) (c : ClassRef) : PatchOutcome × World β :=
  match w.ownEntry core.registry c with
  | none => (.notIntercepted, w)
  | some i =>
    let e := w.entry core.registry i
    if (w.resolvedFor e c).isSome then (.alreadyPatched, w)
    else if e.isResolved then (.skipped (.boundToOtherClass (w.className c)), w)
    else
      match w.resolveRow v e.row c with
      | .error why => (.skipped why, w)
      | .ok (handler, offset) =>
        let listed := (w.tableOf c).countP fun m => e.row.intercepts (w.content m).name
        (.patched listed, w.installTrampolines core.registry i c handler offset)

end World

end Interception
