/-
What a session keeps beside the world, and the monad its statements run in.

The bench holds global variables, counters, the log, guards and cores kept by name,
and free-standing class registries and scopes.  A frame holds what belongs to one
run of a body: its machine, receiver, arguments and local variables.  A statement
that fails keeps what it already did to the frame and the bench; a panic does not
come back to the frame at all.
-/
import Interception.Decimal.Reading
import Interception.Program
import Interception.Session.Statement
import Interception.Session.View

namespace Interception.Session

/-- Named things; a new binding of a name replaces the old one. -/
abbrev Named (α : Type) := List (String × α)

/-- Bind a name. -/
def Named.put {α : Type} (xs : Named α) (name : String) (a : α) : Named α :=
  (name, a) :: xs.filter fun (k, _) => k != name

/-- Forget a name. -/
def Named.drop {α : Type} (xs : Named α) (name : String) : Named α :=
  xs.filter fun (k, _) => k != name

/-- The state of a session beside the world. -/
structure Bench where
  globals : Named Value := []
  counters : Named Int64 := []
  /-- Logged answers, newest first. -/
  log : List Answer := []
  guards : Named (Guard Body) := []
  cores : Named Core := []
  classRegistries : Named ClassRegistry := []
  scopes : Named Scope := []

/-- What belongs to one run of a body. -/
structure Frame where
  vm : VmRef
  this? : Option ObjectRef := none
  args : List Value := []
  locals : Named Value := []

/-- Names of global variables start with a dollar sign. -/
def isGlobal (name : String) : Bool := name.toList.head? == some '$'

namespace Bench

def counter (b : Bench) (name : String) : Int64 := (b.counters.lookup name).getD 0

def push (b : Bench) (a : Answer) : Bench := { b with log := a :: b.log }

end Bench

/-! ### Expressions -/

def expectObject (v : Value) : Except VmError ObjectRef :=
  match v.asObject? with
  | some o => .ok o
  | none => .error (.typeError "expected object")

def expectMethod (v : Value) : Except VmError CellRef :=
  match v.asMethod? with
  | some m => .ok m
  | none => .error (.typeError "expected method")

/-- What an expression stands for. -/
def Expr.eval (w : World Body) (b : Bench) (f : Frame) : Expr → Except VmError Value
  | null => .ok .null
  | bool x => .ok (.bool x)
  | int n => .ok (.int n)
  | str s => .ok (.str s)
  | intText text =>
    match Decimal.int64? text with
    | some n => .ok (.int n)
    | none => .error (.typeError "bad int")
  | floatText text =>
    match Decimal.float? text with
    | some x => .ok (.float x)
    | none => .error (.typeError "bad float")
  | var name =>
    match (if isGlobal name then b.globals else f.locals).lookup name with
    | some v => .ok v
    | none => .error (.typeError s!"unbound {name}")
  | this => .ok ((f.this?.map Value.object).getD .null)
  | arg n => .ok (f.args[n]?.getD .null)
  | argc => .ok (.int (Int64.ofNat f.args.length))
  | field object index =>
    match object.eval w b f with
    | .error e => .error e
    | .ok v => (expectObject v).map fun o => (w.field? o index).getD .null
  | add x y => combine (· + ·) (x.eval w b f) (y.eval w b f)
  | mul x y => combine (· * ·) (x.eval w b f) (y.eval w b f)
  | counter name => .ok (.int (b.counter name))
where
  /-- Arithmetic on two values; one that is no integer counts as zero. -/
  combine (op : Int64 → Int64 → Int64) (x y : Except VmError Value) :
      Except VmError Value :=
    match x, y with
    | .error e, _ => .error e
    | .ok _, .error e => .error e
    | .ok x, .ok y => .ok (.int (op (x.asInt?.getD 0) (y.asInt?.getD 0)))

/-! ### Statements -/

/-- Running statements: a program that keeps the frame when it fails. -/
abbrev Script (α : Type) := ExceptT VmError (StateT Frame (Program Body Bench)) α

namespace Script

/-- Look at everything. -/
def look {α : Type} (f : World Body → Bench → Frame → Except VmError α) : Script α :=
  fun frame => Program.host (fun _ b => b) fun w b => .pure (f w b frame, frame)

/-- Look at the world. -/
def see {α : Type} (f : World Body → α) : Script α := look fun w _ _ => .ok (f w)

/-- Change the bench. -/
def edit (f : Bench → Bench) : Script Unit :=
  fun frame => Program.host (fun _ b => f b) fun _ _ => .pure (.ok (), frame)

/-- Ask the machines for an operation. -/
def ask (op : Op Body) : Script op.Answer :=
  fun frame => .call op fun r => .pure (r, frame)

/-- Tear the run down. -/
def panic {α : Type} (text : String) : Script α := fun _ => .panic text

def eval (e : Expr) : Script Value := look fun w b f => e.eval w b f

def object (e : Expr) : Script ObjectRef := do
  let v ← eval e
  MonadExcept.ofExcept (expectObject v)

def method (e : Expr) : Script CellRef := do
  let v ← eval e
  MonadExcept.ofExcept (expectMethod v)

def args : Args → Script (List Value)
  | .these es => es.mapM eval
  | .rest n => look fun _ _ f => .ok (f.args.drop n)

/-- The machine with an index. -/
def vmAt (i : Nat) : Script VmRef := look fun w _ _ =>
  if i < w.vms.size then .ok ⟨i⟩ else .error (.typeError "no such vm")

/-- The class a machine knows by a name. -/
def classIn (v : VmRef) (name : String) : Script ClassRef := look fun w _ _ =>
  match w.findClass v name with
  | some c => .ok c
  | none => .error (.classNotFound name)

/-- The class a term stands for, names being those of machine `v`. -/
def cls (v : VmRef) : ClassTerm → Script ClassRef
  | .named name => classIn v name
  | .inVm i name => do classIn (← vmAt i) name
  | .ofObject e => do
    let o ← object e
    see fun w => w.classOf o

/-- Bind a variable. -/
def assign (name : String) (v : Value) : Script Unit := do
  if isGlobal name then edit fun b => { b with globals := b.globals.put name v }
  else modify fun f => { f with locals := f.locals.put name v }

end Script

end Interception.Session
