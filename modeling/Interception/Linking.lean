/-
Linking a declared class.

A class starts from its superclass's current table: the cells are shared, an
override puts a fresh cell in its slot, and a new name appends one.  Inherited
fields come first, so an offset found in a superclass is valid in every class
derived from it.  Every cell and table made here is charged to the new class's own
scope.
-/
import Interception.World

namespace Interception

/-- A table in the making: the cells so far and the slots of their names. -/
structure Layout (β : Type) where
  cells : Store .cell (Descriptor β)
  table : List CellRef
  slots : List (String × Nat)

namespace Layout

variable {β : Type}

/-- Give a virtual method a fresh cell, in the slot of its name if it has one and
in a new slot at the end otherwise. -/
def declare (number : Nat) (owner : String) (l : Layout β) (m : MethodDecl (Option β)) :
    Layout β :=
  let slot := (l.slots.lookup m.name).getD l.table.length
  let cell := l.cells.next
  { cells := l.cells.add
      { name := m.name, owner := number, ownerName := owner, slot := slot
        visibility := m.visibility, code := Code.ofBody? m.body }
    table := if slot < l.table.length then l.table.set slot cell else l.table ++ [cell]
    slots := if (l.slots.lookup m.name).isSome then l.slots else (m.name, slot) :: l.slots }

end Layout

/-- Give each direct method a fresh cell; its slot is its position in the list. -/
def declareDirects {β : Type} (number : Nat) (owner : String) :
    Nat → List (MethodDecl β) → Store .cell (Descriptor β) →
      List CellRef × Store .cell (Descriptor β)
  | _, [], cells => ([], cells)
  | i, m :: ms, cells =>
    let cell := cells.next
    let (rest, cells) := declareDirects number owner (i + 1) ms <| cells.add
      { name := m.name, owner := number, ownerName := owner, slot := i
        visibility := m.visibility, code := .native m.body }
    (cell :: rest, cells)

namespace World

variable {β : Type}

/-- Lay out the fields and build the dispatch table of a declared class. -/
def link (w : World β) (d : ClassDecl β) (number : Nat) (super? : Option ClassRef) :
    ClassRef × World β :=
  let inherited : Layout β :=
    match super? with
    | some s => ⟨w.cells, w.tableOf s, (w.classes.get s).slots⟩
    | none => ⟨w.cells, [], []⟩
  let layout := d.virtuals.foldl (Layout.declare number d.name) inherited
  let table := w.tables.next
  let (directs, cells) := declareDirects number d.name 0 d.directs layout.cells
  let cls : Class β :=
    { number
      name := d.name
      ancestors := match super? with
        | some s => w.lineage s
        | none => []
      fields := (match super? with
        | some s => (w.classes.get s).fields
        | none => []) ++ d.fields
      table
      slots := layout.slots
      declared := d.virtuals
      directs
      scope := ((({ loader := d.loader } : Scope).afterCells d.virtuals.length).afterTable
        table).afterCells d.directs.length }
  (w.classes.next,
    { w with cells, tables := w.tables.add layout.table, classes := w.classes.add cls })

end World

end Interception
