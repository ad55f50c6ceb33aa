/-
Bodies that only see objects and scalars.

A recipe is a body that reads and writes fields, looks at scalars, calls methods by name
and returns or fails; an error it is answered with is its own.  It holds what it was given
and what it was answered in numbered registers, the receiver first.  It decides nothing by
the identity of an object and it has no access to the fields that handlers are kept in.

A routine is a recipe or the documented body of handlers.  A play is a session that
allocates objects and calls methods on them, in any order, naming objects by when they were
allocated.
-/
import Interception.Proofs.Binding

namespace Interception

/-! ### Scalars -/

/-- A value that refers to nothing. -/
inductive Scalar where
  | null
  | bool (b : Bool)
  | int (n : Int64)
  | float (x : Float)
  | str (s : String)

def Scalar.toValue : Scalar → Value
  | null => .null
  | bool b => .bool b
  | int n => .int n
  | float x => .float x
  | str s => .str s

/-- What a value is, unless it is a reference. -/
def Value.scalar? : Value → Option Scalar
  | null => some .null
  | bool b => some (.bool b)
  | int n => some (.int n)
  | float x => some (.float x)
  | str s => some (.str s)
  | object _ => none
  | method _ => none

/-! ### Recipes -/

/-- What a recipe does; numbers are registers, but for the positions of fields. -/
inductive Recipe where
  /-- Return what a register holds. -/
  | give (x : Nat)
  | fail (e : VmError)
  /-- Go on by what the scalars in some registers are. -/
  | inspect (xs : List Nat) (next : List (Option Scalar) → Recipe)
  /-- A scalar, in a new register. -/
  | put (x : Scalar) (next : Recipe)
  /-- A field, in a new register. -/
  | read (o : Nat) (i : Nat) (next : Recipe)
  | write (o : Nat) (i : Nat) (x : Nat) (next : Recipe)
  /-- Call a method by name, with the answer in a new register. -/
  | call (o : Nat) (name : String) (args : List Nat) (next : Recipe)

/-- The bodies of a play. -/
inductive Routine where
  /-- The documented body of handlers. -/
  | callThrough
  | recipe (r : Recipe)

/-- What a register holds. -/
def register (env : List Value) (x : Nat) : Value := env.getD x .null

/-- Why a recipe that asks for a field or a call was refused. -/
def Recipe.noObject : VmError := .typeError "not an object"

/-- Why a recipe has no access to a field. -/
def Recipe.handlerField : VmError := .typeError "not a field of recipes"

variable {H : Type}

/-- What a recipe asks for, with these registers. -/
def Recipe.program (v : VmRef) : Recipe → List Value → Program Routine H Value
  | .give x, env => .pure (register env x)
  | .fail e, _ => .fail e
  | .inspect xs next, env => (next (xs.map fun x => (register env x).scalar?)).program v env
  | .put x next, env => next.program v (env ++ [x.toValue])
  | .read o i next, env =>
    match (register env o).asObject? with
    | none => .fail noObject
    | some o => .host (fun _ h => h) fun w _ =>
      if w.isHandlerField o i then .fail handlerField
      else next.program v (env ++ [(w.field? o i).getD .null])
  | .write o i x next, env =>
    match (register env o).asObject? with
    | none => .fail noObject
    | some o => .host (fun _ h => h) fun w _ =>
      if w.isHandlerField o i then .fail handlerField
      else .call (.setField o i (register env x)) fun
        | .ok _ => next.program v env
        | .error e => .fail e
  | .call o name args next, env =>
    match (register env o).asObject? with
    | none => .fail noObject
    | some o => .call (.callVirtual v o name (args.map (register env))) fun
      | .ok (x : Value) => next.program v (env ++ [x])
      | .error e => .fail e

/-- What unwrapping nothing says. -/
def unwrapPanic : String := "called `Option::unwrap()` on a `None` value"

/-- What looking past the end of the arguments says. -/
def indexPanic (count index : Nat) : String :=
  s!"index out of bounds: the len is {count} but the index is {index}"

/-- The documented body of handlers. -/
def callThrough (v : VmRef) (handler : ObjectRef) (args : List Value) :
    Program Routine H Value :=
  match args[0]? with
  | none => .panic (indexPanic args.length 0)
  | some x =>
    match x.asObject? with
    | none => .panic unwrapPanic
    | some target =>
      match args[1]? with
      | none => .panic (indexPanic args.length 1)
      | some y =>
        match y.asMethod? with
        | none => .panic unwrapPanic
        | some m => .host (fun _ h => h) fun w _ =>
          .perform (.callMethod v (some (w.classOf handler)) m target (args.drop 2))

/-- The meaning of routines. -/
def routines : Host Routine H where
  body
    | .callThrough => callThrough
    | .recipe r => fun v this args => r.program v (.object this :: args)

theorem callsThrough_callThrough : (routines : Host Routine H).CallsThrough .callThrough :=
  fun _ _ _ _ _ => ⟨_, rfl⟩

/-! ### Plays -/

/-- What a call from outside is given. -/
inductive Given where
  | scalar (x : Scalar)
  /-- The object that was allocated at this point. -/
  | object (k : Nat)

/-- What is done from outside. -/
inductive Step where
  | allocate (className : String)
  /-- Call a method on the object that was allocated at some point. -/
  | call (k : Nat) (method : String) (args : List Given)

/-- A session between two steps, with the objects that were allocated from outside. -/
structure Play where
  state : State Routine Unit
  objects : List ObjectRef := []

namespace Play

/-- What was given, null if it is an object that was never allocated. -/
def given (p : Play) : Given → Value
  | .scalar x => x.toValue
  | .object k => ((p.objects[k]?).map Value.object).getD .null

/-- Allocate an object and keep it. -/
def allocate (p : Play) (v : VmRef) (c : ClassRef) : Ending Value × Play :=
  match (Program.perform (.allocate v c)).start routines p.state with
  | (.value (o : ObjectRef), s) => (.value (.object o), ⟨s, p.objects ++ [o]⟩)
  | (.error e, s) => (.error e, ⟨s, p.objects⟩)
  | (.panic text, s) => (.panic text, ⟨s, p.objects⟩)
  | (.endless, s) => (.endless, ⟨s, p.objects⟩)

/-- Take a step; calling an object that was never allocated does nothing. -/
def step (v : VmRef) (p : Play) : Step → Ending Value × Play
  | .allocate name =>
    match p.state.world.findClass v name with
    | none => (.error (.classNotFound name), p)
    | some c => p.allocate v c
  | .call k name args =>
    match p.objects[k]? with
    | none => (.value .null, p)
    | some o =>
      let x := (Program.perform (.callVirtual v o name (args.map p.given))).start routines p.state
      (x.1, ⟨x.2, p.objects⟩)

/-- Take some steps, and note how each ends. -/
def steps (v : VmRef) : List Step → Play → List (Ending Value) × Play
  | [], p => ([], p)
  | s :: rest, p =>
    let x := p.step v s
    let y := steps v rest x.2
    (x.1 :: y.1, y.2)

end Play

end Interception
