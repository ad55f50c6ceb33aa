/-
The interception registry.

A registry has one entry per row of the table, except that a row whose class name
already occurred is dropped.  Beside the entries it keeps an index from class names
to positions.  An entry is filled in at most once, when a class is patched under
its row; its counters follow the windows opened on it.
-/
import Interception.Row
import Interception.SwapMode
import Interception.Store

namespace Interception

/-- What patching a class settles about its row. -/
structure Resolution where
  /-- The class that was patched. -/
  cls : ClassRef
  /-- The class instantiated for each new object. -/
  handlerClass : ClassRef
  /-- Where an instance keeps its handler. -/
  handlerOffset : Nat
  /-- The table with trampolines. -/
  intercepted : TableRef
  /-- The table the class had before. -/
  unpatched : TableRef
  deriving DecidableEq, Repr, Inhabited

/-- One row and what has happened to it. -/
structure Entry where
  row : Row
  resolution : Option Resolution := none
  /-- Windows now open on this entry. -/
  openWindows : Nat := 0
  /-- Windows opened on this entry and closed again. -/
  calls : Nat := 0
  deriving DecidableEq, Repr, Inhabited

namespace Entry

def isResolved (e : Entry) : Bool := e.resolution.isSome

def windowOpened (e : Entry) : Entry := { e with openWindows := e.openWindows + 1 }

def windowClosed (e : Entry) : Entry :=
  { e with openWindows := e.openWindows - 1, calls := e.calls + 1 }

/-- Fill in the entry, unless it is filled in already. -/
def resolve (e : Entry) (r : Resolution) : Entry :=
  { e with resolution := e.resolution.or (some r) }

end Entry

/-- The entries of a table with an index of them by class name. -/
structure Registry where
  /-- Entries in table order. -/
  entries : Array Entry := #[]
  /-- Position of each class name's entry. -/
  index : List (String × Nat) := []
  deriving Inhabited

namespace Registry

/-- Add a row, unless its class name already has one. -/
def addRow (g : Registry) (r : Row) : Registry :=
  match g.index.lookup r.className with
  | some _ => g
  | none =>
    { entries := g.entries.push { row := r }
      index := (r.className, g.entries.size) :: g.index }

/-- The registry over a table. -/
def ofRows (rows : List Row) : Registry := rows.foldl addRow {}

/-- Position of the entry for a class name. -/
def position? (g : Registry) (className : String) : Option Nat := g.index.lookup className

/-- The entry at a position. -/
def entry (g : Registry) (i : Nat) : Entry := g.entries.getD i default

/-- Change the entry at a position. -/
def modifyEntry (g : Registry) (i : Nat) (f : Entry → Entry) : Registry :=
  { g with entries := g.entries.modify i f }

/-- Some entry's row has this handler class. -/
def isHandlerClass (g : Registry) (name : String) : Bool :=
  g.entries.any fun e => e.row.handlerClass == name

/-- The rows that were kept, in table order. -/
def rows (g : Registry) : List Row := g.entries.toList.map Entry.row

/-! ### Changing an entry -/

@[simp] theorem position?_modifyEntry (g : Registry) (i : Nat) (f : Entry → Entry)
    (className : String) : (g.modifyEntry i f).position? className = g.position? className := rfl

@[simp] theorem size_entries_modifyEntry (g : Registry) (i : Nat) (f : Entry → Entry) :
    (g.modifyEntry i f).entries.size = g.entries.size := by
  simp [modifyEntry]

/-- A change is seen in its own position. -/
theorem entry_modifyEntry_self {g : Registry} {i : Nat} (h : i < g.entries.size)
    (f : Entry → Entry) : (g.modifyEntry i f).entry i = f (g.entry i) := by
  simp [entry, modifyEntry, Array.getD_eq_getD_getElem?, h, Array.getElem_modify_self]

/-- A change is not seen in any other position. -/
theorem entry_modifyEntry_of_ne {g : Registry} {i j : Nat} (h : j ≠ i) (f : Entry → Entry) :
    (g.modifyEntry i f).entry j = g.entry j := by
  simp [entry, modifyEntry, Array.getD_eq_getD_getElem?, Array.getElem?_modify, h.symm]

end Registry

/-- An interception core: a registry, possibly shared, and a way of opening windows. -/
structure Core where
  registry : RegistryRef
  mode : SwapMode
  deriving DecidableEq, Repr, Inhabited

end Interception
