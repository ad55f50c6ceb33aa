/-
Method descriptors.

A descriptor is one whole record: who declared the method, where it sits in a
dispatch table, who may call it, and what to run.  Cells hold descriptors, and a
cell is always read and overwritten as a unit, so no caller ever sees half of one
record and half of another.

What a native body is is left open as `β`: the machine only ever hands it to an
interpretation of bodies, so everything said about dispatch holds for every
language of bodies at once.
-/
import Interception.Store

namespace Interception

/-- Who may call a method reflectively. -/
inductive Visibility where
  /-- Anyone. -/
  | everyone
  /-- The declaring class and the classes derived from it. -/
  | derived
  /-- The declaring class alone. -/
  | declaring
  deriving DecidableEq, Repr, Inhabited

/-- What a descriptor runs. -/
inductive Code (β : Type) where
  | native (body : β)
  /-- There is no body; reaching it is an error. -/
  | abstract
  /-- Hand the call to interception; carries the cell the trampoline stands in for. -/
  | trampoline (replaced : CellRef)
  deriving DecidableEq, Inhabited

/-- The content of a descriptor cell. -/
structure Descriptor (β : Type) where
  name : String
  /-- The declaring class, by its number within its machine. -/
  owner : Nat
  ownerName : String
  /-- Position in the dispatch table, or in the list of direct methods. -/
  slot : Nat
  visibility : Visibility
  code : Code β
  deriving DecidableEq, Inhabited

namespace Descriptor

variable {β : Type}

/-- The cell a trampoline stands in for. -/
def replaced? (d : Descriptor β) : Option CellRef :=
  match d.code with
  | .trampoline r => some r
  | _ => none

def isTrampoline (d : Descriptor β) : Bool := d.replaced?.isSome

/-- The same record, routed to interception and remembering the cell it came from. -/
def toTrampoline (d : Descriptor β) (replaced : CellRef) : Descriptor β :=
  { d with code := .trampoline replaced }

theorem replaced?_eq_some_iff {d : Descriptor β} {r : CellRef} :
    d.replaced? = some r ↔ d.code = .trampoline r := by
  unfold replaced?; split <;> simp_all

theorem isTrampoline_iff {d : Descriptor β} :
    d.isTrampoline = true ↔ ∃ r, d.code = .trampoline r := by
  simp only [isTrampoline, Option.isSome_iff_exists, replaced?_eq_some_iff]

theorem isTrampoline_of_replaced? {d : Descriptor β} {r : CellRef} (h : d.replaced? = some r) :
    d.isTrampoline = true := by
  rw [isTrampoline, h]
  rfl

@[simp] theorem isTrampoline_toTrampoline (d : Descriptor β) (r : CellRef) :
    (d.toTrampoline r).isTrampoline = true := rfl

/-- `Owner.name`, as errors show it. -/
def qualifiedName (d : Descriptor β) : String := s!"{d.ownerName}.{d.name}"

end Descriptor

end Interception
