/-
Values passed between bodies, handlers and the dispatcher.

Objects and method handles are reference values, so equality on them is identity.
Floats compare as numbers do, which makes `same` not reflexive: a value that is
not a number differs from itself.
-/
import Interception.Store

namespace Interception

/-- A value of the machine. -/
inductive Value where
  | null
  | bool (b : Bool)
  | int (n : Int64)
  | float (x : Float)
  | str (s : String)
  | object (o : ObjectRef)
  /-- A method handle: a reference to a descriptor cell. -/
  | method (m : CellRef)
  deriving Inhabited

namespace Value

def isNull : Value → Bool
  | null => true
  | _ => false

def asObject? : Value → Option ObjectRef
  | object o => some o
  | _ => none

def asMethod? : Value → Option CellRef
  | method m => some m
  | _ => none

def asInt? : Value → Option Int64
  | int n => some n
  | _ => none

def asStr? : Value → Option String
  | str s => some s
  | _ => none

/-- Equality as bodies see it: scalars by content, references by identity, and
values of different sorts never. -/
def same : Value → Value → Bool
  | null, null => true
  | bool a, bool b => a == b
  | int a, int b => a == b
  | float a, float b => a == b
  | str a, str b => a == b
  | object a, object b => a == b
  | method a, method b => a == b
  | _, _ => false

theorem same_object_iff {a b : ObjectRef} : same (object a) (object b) = true ↔ a = b := by
  simp [same]

theorem same_method_iff {a b : CellRef} : same (method a) (method b) = true ↔ a = b := by
  simp [same]

theorem asObject?_eq_some_iff {v : Value} {o : ObjectRef} :
    v.asObject? = some o ↔ v = object o := by
  cases v <;> simp [asObject?]

theorem asMethod?_eq_some_iff {v : Value} {m : CellRef} :
    v.asMethod? = some m ↔ v = method m := by
  cases v <;> simp [asMethod?]

end Value

end Interception
