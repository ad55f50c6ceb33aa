/-
The checks of a reflective call.

The receiver must belong to the class that declared the method, and a caller, if
one is named, must be allowed to see the method or be trusted as a handler class.
Both checks compare class numbers.
-/
import Interception.Handlers

namespace Interception.World

variable {β : Type}

/-- Visibility alone lets a class call a method. -/
def isVisibleTo (w : World β) (d : Descriptor β) (caller : ClassRef) : Bool :=
  match d.visibility with
  | .everyone => true
  | .derived => w.derivesFrom caller d.owner
  | .declaring => (w.classes.get caller).number == d.owner

/-- Whether a caller may invoke a method on this machine; no caller is a trusted one. -/
def checkAccess (w : World β) (v : VmRef) (caller : Option ClassRef) (d : Descriptor β) :
    Except VmError Unit :=
  match caller with
  | none => .ok ()
  | some c =>
    if w.isVisibleTo d c || w.isHandlerClass (w.coreOf v) c then .ok ()
    else .error (.illegalAccess (w.className c) d.ownerName d.name)

/-- Whether an object belongs to the class that declared a method. -/
def checkReceiver (w : World β) (o : ObjectRef) (d : Descriptor β) : Except VmError Unit :=
  if w.derivesFrom (w.classOf o) d.owner then .ok ()
  else .error (.typeError s!"{w.className (w.classOf o)} is not an instance of {d.ownerName}")

end Interception.World
