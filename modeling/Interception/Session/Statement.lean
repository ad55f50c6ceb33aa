/-
The language of sessions.

A session drives the machines by statements; native bodies are lists of statements
in the same language.  Expressions only read: variables, arguments, fields, counters
and literals, with wrapping integer arithmetic.  An action carries notes on which
machine and core it uses, where its value is stored, and, inside a body, whether its
answer is logged and whether its error is caught.  Bodies have two statements beside
actions, to return and to branch; these carry no notes, so that an error in them, or
in a branch, is caught only by notes on an action inside.  A step of the session is an
action: there is no body that it could return from.
-/
import Interception.Method
import Interception.Class
import Interception.Error
import Interception.Registry

namespace Interception.Session

/-- An expression. -/
inductive Expr where
  | null
  | bool (b : Bool)
  | int (n : Int64)
  | str (s : String)
  /-- An integer given as text. -/
  | intText (text : String)
  /-- A float given as text. -/
  | floatText (text : String)
  | var (name : String)
  /-- The receiver of the running body; null outside bodies. -/
  | this
  /-- An argument of the running body; null if there are fewer. -/
  | arg (n : Nat)
  /-- How many arguments the running body has. -/
  | argc
  /-- A field of an object; null if it has fewer. -/
  | field (object : Expr) (index : Nat)
  | add (a b : Expr)
  | mul (a b : Expr)
  | counter (name : String)
  deriving Inhabited

/-- The arguments of a call. -/
inductive Args where
  | these (es : List Expr)
  /-- The arguments of the running body from a position on. -/
  | rest (n : Nat)

/-- A way of naming a class. -/
inductive ClassTerm where
  /-- By name, in the statement's machine. -/
  | named (name : String)
  /-- By name, in another machine. -/
  | inVm (vm : Nat) (name : String)
  /-- The class of an object. -/
  | ofObject (object : Expr)

/-- Which table a handle is taken from. -/
inductive TableKind where
  /-- The table the class has. -/
  | current
  /-- The table the class had before it was patched. -/
  | unpatched
  | intercepted
  deriving DecidableEq, Repr

/-- Which cell of a table: that of the slot a method name has, or by position. -/
inductive CellPosition where
  | named (name : String)
  | slot (n : Nat)
  deriving DecidableEq, Repr

/-- Where the table of a stand-alone core comes from. -/
inductive CoreSource where
  /-- A new registry over these rows. -/
  | rows (mode : SwapMode) (rows : List Row)
  /-- The registry of a machine's core. -/
  | registryOf (mode : SwapMode) (vm : Nat)

/-- Which table to install. -/
inductive TableSource where
  /-- The current table of a class. -/
  | ofClass (c : ClassTerm)
  /-- A new table of these handles. -/
  | handles (methods : List Expr)

/-- What a statement does; `β` is what bodies of declared methods are. -/
inductive Action (β : Type) where
  -- the host machine
  | define (d : ClassDecl β)
  | alloc (c : ClassTerm)
  | call (on : Expr) (name : String) (args : Args)
  | slot (on : Expr) (slot : Nat) (args : Args)
  | direct (on : Expr) (name : String) (args : Args)
  | reflect (method on : Expr) (args : Args) (caller : Option ClassTerm)
  | exec (method on : Expr) (args : Args)
  | access (method : Expr) (caller : Option ClassTerm)
  | byId (id : Nat)
  | find (name : String)
  | vm
  -- classes, methods and values
  | cls (c : ClassTerm)
  | subclass (c : ClassTerm) (id : Nat)
  | slotOf (c : ClassTerm) (name : String)
  | offset (c : ClassTerm) (name type : String)
  | method (c : ClassTerm) (position : CellPosition) (table : TableKind)
  | directMethod (c : ClassTerm) (index : Nat)
  | origin (method : Expr)
  | desc (method : Expr)
  | cell (method : Expr)
  | overwrite (method other : Expr)
  | clone (method : Expr)
  | install (c : ClassTerm) (source : TableSource)
  | get (on : Expr) (index : Nat)
  | set (on : Expr) (index : Nat) (value : Expr)
  | object (on : Expr)
  | letValue (value : Expr)
  | log (value : Expr)
  | count (name : String)
  | eq (a b : Expr)
  | asValue (value : Expr)
  | debug (value : Expr)
  | fail (e : VmError)
  | panic (text : String)
  -- the interception core
  | core (id : String) (source : CoreSource)
  | patch (c : ClassTerm)
  | bind (on : Expr)
  | handler (on : Expr)
  | gate (c : ClassTerm)
  | trampoline (method on : Expr) (args : Args)
  | enter (on method : Expr) (guard : String)
  | leave (guard : String)
  | entry (c : ClassTerm) (recursive : Bool)
  | stats
  | registry (names : Option (List String))
  | intercepts (rows : List Row) (name : String)
  -- free-standing pieces
  | classRegistry (id : String) (register : Option ClassTerm) (ids : List Nat)
      (names : List String)
  | scope (id : String) (loader : String) (methods : List Expr) (table : Bool)
  | unknown (word : String)

/-- What accompanies an action. -/
structure Notes where
  /-- The machine; that of the frame when missing. -/
  vm : Option Nat := none
  /-- A stand-alone core to use instead of the machine's. -/
  core : Option String := none
  /-- The variable that receives the value. -/
  saveAs : Option String := none
  /-- Log the answer. -/
  shown : Bool := false
  /-- Catch and log an error. -/
  tried : Bool := false
  deriving Inhabited

/-- A statement of a body. -/
inductive Statement where
  | act (notes : Notes) (action : Action (List Statement))
  /-- End the body with a value. -/
  | ret (value : Expr)
  /-- Run one list or the other, by equality of two values. -/
  | branch (a b : Expr) (yes no : List Statement)

instance : Inhabited Statement := ⟨.ret .null⟩

instance {β : Type} : Inhabited (Action β) := ⟨.vm⟩

/-- A native body. -/
abbrev Body := List Statement

/-- A step of a session. -/
structure Step where
  notes : Notes := {}
  action : Action Body

end Interception.Session
