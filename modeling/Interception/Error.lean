/-
The errors a machine reports, and how anything that runs on it can end.

An error is a cause with the data that identifies it; the wording is in `message`
and nowhere else.  A run ends in a value, in an error, in a panic that no body can
catch, or never: the last is a definite answer of the model, reached only by an
allocation whose handlers need handlers without end.
-/
namespace Interception

/-- Why a machine refused an operation. -/
inductive VmError where
  /-- A call would have been deeper than the machine allows; carries that depth. -/
  | stackOverflow (depth : Nat)
  /-- No class of this name is defined. -/
  | classNotFound (name : String)
  /-- A class of this name is already defined. -/
  | duplicateClass (name : String)
  /-- The class has no method of this name, or no such slot. -/
  | methodNotFound (cls method : String)
  /-- Dispatch reached a method without a body. -/
  | abstractMethod (name : String)
  /-- A reflective call by a class that may not see the method. -/
  | illegalAccess (caller owner method : String)
  /-- A field write past the end of the object. -/
  | fieldOutOfBounds (index count : Nat)
  | typeError (text : String)
  | runtimeError (text : String)
  deriving DecidableEq, Repr

namespace VmError

/-- The wording of each error. -/
def message : VmError → String
  | stackOverflow depth => s!"Stack overflow (call depth {depth})"
  | classNotFound name => s!"Class not found: {name}"
  | duplicateClass name => s!"Duplicate class: {name}"
  | methodNotFound cls method => s!"Method not found: {cls}.{method}"
  | abstractMethod name => s!"Abstract method invoked: {name}"
  | illegalAccess caller owner method =>
    s!"Illegal access: {caller} cannot invoke {owner}.{method}"
  | fieldOutOfBounds index count =>
    s!"Field index {index} out of bounds (object has {count} fields)"
  | typeError text => s!"Type error: {text}"
  | runtimeError text => s!"Runtime error: {text}"

end VmError

/-- How a run can end. -/
inductive Ending (α : Type) where
  | value (a : α)
  | error (e : VmError)
  /-- The run was torn down; only the cleanup of open calls still happened. -/
  | panic (text : String)
  /-- The run never ends. -/
  | endless
  deriving DecidableEq, Repr

namespace Ending

variable {α β : Type}

def map (f : α → β) : Ending α → Ending β
  | value a => value (f a)
  | error e => error e
  | panic text => panic text
  | endless => endless

/-- Results that carry no panic are endings. -/
def ofExcept : Except VmError α → Ending α
  | .ok a => value a
  | .error e => error e

/-- Go on from a value; any other ending stands. -/
def andThen {σ : Type} (r : Ending α × σ) (k : α → σ → Ending β × σ) : Ending β × σ :=
  match r with
  | (value a, s) => k a s
  | (error e, s) => (error e, s)
  | (panic text, s) => (panic text, s)
  | (endless, s) => (endless, s)

section
variable {σ : Type} (k : α → σ → Ending β × σ) (s : σ)

@[simp] theorem andThen_value (a : α) : andThen (value a, s) k = k a s := rfl
@[simp] theorem andThen_error (e : VmError) : andThen (error e, s) k = (error e, s) := rfl
@[simp] theorem andThen_panic (t : String) : andThen (panic t, s) k = (panic t, s) := rfl
@[simp] theorem andThen_endless : andThen (endless, s) k = (endless, s) := rfl

end

@[simp] theorem map_value (f : α → β) (a : α) : map f (value a) = value (f a) := rfl
@[simp] theorem map_error (f : α → β) (e : VmError) : map f (error e) = error e := rfl
@[simp] theorem map_panic (f : α → β) (t : String) : map f (panic t) = panic t := rfl
@[simp] theorem map_endless (f : α → β) : map f endless = endless := rfl

@[simp] theorem map_eq_error {f : α → β} {r : Ending α} {e : VmError} :
    r.map f = error e ↔ r = error e := by
  cases r <;> simp

end Ending

end Interception
