/-
The interception table.

A row names a class, the methods of it to redirect, and the class whose instances
handle them.  A handler lives in a field of the intercepted object with a fixed
name and type, and is called through its `invoke` method.
-/
namespace Interception

/-- One row of the interception table. -/
structure Row where
  className : String
  /-- Methods to redirect, in declaration order. -/
  methods : List String
  handlerClass : String
  deriving DecidableEq, Repr, Inhabited

/-- The row redirects this method. -/
def Row.intercepts (r : Row) (method : String) : Bool := r.methods.any (· == method)

theorem Row.intercepts_iff {r : Row} {m : String} : r.intercepts m = true ↔ m ∈ r.methods := by
  simp [Row.intercepts]

/-- The table used where none is given. -/
def builtinRows : List Row :=
  [⟨"App.Activity", ["onResume"], "App.ActivityInvocationHandler"⟩]

/-- Name of the field that holds an object's handler. -/
def handlerFieldName : String := "h"

/-- Type of the field that holds an object's handler. -/
def handlerFieldType : String := "interpose.reflect.InvocationHandler"

/-- The virtual method through which handlers receive redirected calls. -/
def handlerMethod : String := "invoke"

end Interception
