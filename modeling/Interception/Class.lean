/-
Classes, and the declarations they are linked from.

A class owns a current dispatch table, which may be replaced as a whole, and a
scope that counts what was allocated for it and keeps every table it was given.
Everything else about a class is settled when it is linked: its number, its chain
of superclasses, its field layout, the virtual methods it declares, and the map from
method names to slots.  The superclass chain is kept in full, nearest first, so that
walking it needs no recursion and it can be seen not to change.
-/
import Interception.Method

namespace Interception

/-! ### Declarations -/

/-- An instance field: its name and the name of its type. -/
structure FieldDecl where
  name : String
  type : String
  deriving DecidableEq, Repr, Inhabited

/-- A method as declared; `γ` is what stands for its body. -/
structure MethodDecl (γ : Type) where
  name : String
  visibility : Visibility := .everyone
  body : γ
  deriving Inhabited

/-- Loader of classes that name none. -/
def systemLoader : String := "system"

/-- A class to be linked.  Later declarations of one virtual name override earlier
ones; a virtual method without a body is abstract. -/
structure ClassDecl (β : Type) where
  name : String
  /-- Name of the superclass; the root class when missing. -/
  extends? : Option String := none
  loader : String := systemLoader
  fields : List FieldDecl := []
  virtuals : List (MethodDecl (Option β)) := []
  directs : List (MethodDecl β) := []
  deriving Inhabited

/-- The code an optional body stands for. -/
def Code.ofBody? {β : Type} : Option β → Code β
  | some b => .native b
  | none => .abstract

/-! ### Linked classes -/

/-- What has been allocated on behalf of one class, and by which loader. -/
structure Scope where
  loader : String
  /-- Cells and tables served so far. -/
  allocations : Nat := 0
  /-- Tables kept for as long as the class exists, oldest first. -/
  tables : List TableRef := []
  deriving DecidableEq, Repr, Inhabited

namespace Scope

/-- The scope after serving `n` descriptor cells. -/
def afterCells (s : Scope) (n : Nat) : Scope := { s with allocations := s.allocations + n }

/-- The scope after serving a table, which it keeps. -/
def afterTable (s : Scope) (t : TableRef) : Scope :=
  { s with allocations := s.allocations + 1, tables := s.tables ++ [t] }

end Scope

/-- A class, as linked. -/
structure Class (β : Type) where
  /-- Position among the classes of its machine. -/
  number : Nat
  name : String
  /-- The proper superclasses, nearest first. -/
  ancestors : List ClassRef
  /-- Field layout, inherited fields first; a field's offset is its position. -/
  fields : List FieldDecl
  /-- The current dispatch table. -/
  table : TableRef
  /-- Slot of each virtual method name, fixed at linking. -/
  slots : List (String × Nat)
  /-- The virtual methods this class itself declares, in order. -/
  declared : List (MethodDecl (Option β))
  /-- Cells of the direct methods this class declares. -/
  directs : List CellRef
  scope : Scope
  /-- Set once the class-initialization hook has run. -/
  initialized : Bool := false
  deriving Inhabited

namespace Class

variable {β : Type}

/-- The immediate superclass; the root has none. -/
def super? (c : Class β) : Option ClassRef := c.ancestors.head?

/-- Slot of a virtual method. -/
def slotOf (c : Class β) (method : String) : Option Nat := c.slots.lookup method

/-- The class itself declares a virtual method of this name. -/
def declares (c : Class β) (method : String) : Bool := c.declared.any (·.name == method)

/-- Offset of the first field with this name and type. -/
def fieldOffset (c : Class β) (name type : String) : Option Nat :=
  c.fields.findIdx? fun f => f.name == name && f.type == type

end Class

end Interception
