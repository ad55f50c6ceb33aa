/-
Answers of a session.

An answer is what a statement lets be seen: values, descriptors, classes, entries.
References never appear in it.  Objects are shown by class name and number, method
handles by owner, name and slot, marked when the cell now holds a trampoline.
-/
import Interception.Patching
import Interception.Stats

namespace Interception.Session

/-- How a method handle is shown. -/
structure MethodLabel where
  owner : String
  name : String
  slot : Nat
  /-- The cell now holds a trampoline. -/
  armed : Bool
  deriving DecidableEq, Repr

def MethodLabel.text (l : MethodLabel) : String :=
  s!"{l.owner}.{l.name}@{l.slot}" ++ (if l.armed then "*" else "")

/-- How an object is shown. -/
structure ObjectLabel where
  cls : String
  id : Nat
  deriving DecidableEq, Repr

def ObjectLabel.text (l : ObjectLabel) : String := s!"{l.cls}#{l.id}"

/-- How a value is shown. -/
inductive Shown where
  | null
  | bool (b : Bool)
  | int (n : Int64)
  | float (x : Float)
  | str (s : String)
  | object (label : ObjectLabel)
  | method (label : MethodLabel)
  deriving Inhabited

/-- How a descriptor is shown. -/
structure DescriptorView where
  name : String
  owner : Nat
  ownerName : String
  slot : Nat
  visibility : Visibility
  code : String
  deriving DecidableEq, Repr

/-- A descriptor followed by those it stands for, as far as they are shown. -/
abbrev DescriptorChain := List DescriptorView

/-- A slot of a class's table. -/
structure SlotView where
  chain : DescriptorChain
  /-- The superclass's current table has the same cell there. -/
  shared : Bool
  /-- The slot that the descriptor's present name was linked to. -/
  slotOf : Option Nat
  deriving DecidableEq, Repr

/-- Everything about a class. -/
structure ClassView where
  id : Nat
  name : String
  super? : Option String
  fields : List FieldDecl
  table : List SlotView
  count : Nat
  direct : List DescriptorChain
  loader : String
  allocations : Nat
  tables : Nat
  initialized : Bool
  lineage : List String
  deriving DecidableEq, Repr

/-- Everything about a machine. -/
structure VmView where
  classes : Nat
  allocations : Nat
  mode : SwapMode
  optionMode : SwapMode
  optionRows : Nat
  maxDepth : Nat
  root : String
  proxy : String
  proxyOffset : Nat
  deriving DecidableEq, Repr

/-- Which of its tables a resolved class now has. -/
inductive TableState where
  | intercepted
  | unpatched
  | other
  deriving DecidableEq, Repr

/-- What a resolved entry settled. -/
structure ResolutionView where
  cls : String × Nat
  handlerClass : String
  offset : Nat
  table : TableState
  unpatched : List MethodLabel
  intercepted : List MethodLabel
  deriving DecidableEq, Repr

/-- An entry as seen by a class. -/
structure EntryView where
  row : Row
  resolved : Bool
  /-- It was resolved for a class on the asking class's lineage. -/
  resolvedFor : Bool
  trampolines : Nat
  openWindows : Nat
  calls : Nat
  resolution : Option ResolutionView
  deriving DecidableEq, Repr

/-- A free-standing class registry. -/
structure ClassRegistryView where
  registered : Option Nat
  size : Nat
  next : Nat
  ids : List (Option String)
  names : List (Bool × Option (String × Nat))
  deriving DecidableEq, Repr

/-- A free-standing scope after serving a request. -/
structure ScopeView where
  loader : String
  allocations : Nat
  tables : Nat
  /-- The cells of the new table, if one was made. -/
  table : Option (List MethodLabel)
  deriving DecidableEq, Repr

/-- What a value can be read as. -/
structure Readings where
  null : Bool
  int : Option Int64
  str : Option String
  object : Bool
  method : Bool

/-- The answer of a statement. -/
inductive Answer where
  | nothing
  | value (v : Shown)
  /-- An error that was caught. -/
  | caught (e : VmError)
  | flag (b : Bool)
  | number (n : Option Nat)
  | name (s : Option String)
  | allowed
  | left
  | defined (id count fields : Nat)
  | foundClass (c : Option (String × Nat))
  | vm (v : VmView)
  | cls (c : ClassView)
  | descriptor (chain : DescriptorChain)
  | cell (name : String) (slot owner : Nat) (armed : Bool)
  | installed (was : List MethodLabel)
  | field (v : Option Shown)
  | object (label : ObjectLabel) (fields : List Shown)
  | readings (r : Readings)
  | texts (ts : List String)
  | core (mode : SwapMode) (rows : Nat)
  | patched (outcome : PatchOutcome)
  | entered (passthrough : Bool)
  | entry (e : Option EntryView)
  | stats (rows : List EntryStats)
  | registry (rows : List Row) (handlers : Option (List Bool))
  | flags (bs : List Bool)
  | classRegistry (v : ClassRegistryView)
  | scope (v : ScopeView)
  deriving Inhabited

end Interception.Session
