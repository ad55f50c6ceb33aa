/-
Windows around intercepted calls.

While a handler runs, a call through the trampoline it was entered by must reach
the replaced method and not the handler again.  A window arranges that, in one of
two ways: it notes the trampoline and the receiver on the calling thread, or it puts
the unpatched table of the resolved class back and overwrites the trampoline with
what that table has in its slot.  A guard remembers what closing the window has to
undo.

Closing a thread's note removes the innermost equal one, whichever guard made it.
Closing a class-wide window always installs the intercepted table and writes back
what the trampoline held when the window opened.
-/
import Interception.Handlers

namespace Interception

/-- What a per-call window is keyed by. -/
structure WindowKey where
  trampoline : CellRef
  receiver : ObjectRef
  deriving DecidableEq, Repr

/-- What each thread has to itself. -/
structure Thread where
  /-- Calls now nested. -/
  depth : Nat := 0
  /-- Per-call windows now open, innermost first. -/
  windows : List WindowKey := []
  deriving DecidableEq, Repr, Inhabited

/-- What closing a window undoes. -/
inductive Window (β : Type) where
  /-- Nothing was changed. -/
  | passthrough
  /-- An entry's window, noted on the thread. -/
  | perCall (entry : Nat) (key : WindowKey)
  /-- An entry's window, with what the trampoline held before. -/
  | classWide (entry : Nat) (token : Descriptor β)

/-- An open window. -/
structure Guard (β : Type) where
  registry : RegistryRef
  trampoline : CellRef
  receiver : ObjectRef
  window : Window β

def Guard.isPassthrough {β : Type} (g : Guard β) : Bool :=
  match g.window with
  | .passthrough => true
  | _ => false

/-- A window for this trampoline and receiver is open on the thread. -/
def Thread.inWindow (t : Thread) (trampoline : CellRef) (receiver : ObjectRef) : Bool :=
  t.windows.contains ⟨trampoline, receiver⟩

namespace World

variable {β : Type}

/-- Put the unpatched table back, and what it has in the trampoline's slot into the
trampoline. -/
def disarm (w : World β) (r : Resolution) (m : CellRef) : World β :=
  let w' := w.install r.cls r.unpatched
  match (w.tables.get r.unpatched)[(w.content m).slot]? with
  | some plain => w'.overwrite m (w.content plain)
  | none => w'

/-- Install the intercepted table and give the trampoline its earlier content. -/
def rearm (w : World β) (r : Resolution) (m : CellRef) (token : Descriptor β) : World β :=
  (w.install r.cls r.intercepted).overwrite m token

/-- Open a window for a call on `o` through the trampoline `m`. -/
def openWindow (w : World β) (t : Thread) (v : VmRef) (core : Core) (o : ObjectRef)
    (m : CellRef) : Guard β × World β × Thread :=
  let guard : Window β → Guard β := fun window =>
    { registry := core.registry, trampoline := m, receiver := o, window }
  if w.isProxyInstance v o then (guard .passthrough, w, t)
  else
    match w.interceptionOf core.registry (w.classOf o) with
    | none => (guard .passthrough, w, t)
    | some (i, r) =>
      match core.mode with
      | .perCall =>
        let key : WindowKey := ⟨m, o⟩
        (guard (.perCall i key), w.modifyEntry core.registry i Entry.windowOpened,
          { t with windows := key :: t.windows })
      | .classWide =>
        (guard (.classWide i (w.content m)),
          (w.disarm r m).modifyEntry core.registry i Entry.windowOpened, t)

/-- Close a window. -/
def closeWindow (w : World β) (t : Thread) (g : Guard β) : World β × Thread :=
  match g.window with
  | .passthrough => (w, t)
  | .perCall i key =>
    (w.modifyEntry g.registry i Entry.windowClosed, { t with windows := t.windows.erase key })
  | .classWide i token =>
    let w' := match (w.entry g.registry i).resolution with
      | some r => w.rearm r g.trampoline token
      | none => w
    (w'.modifyEntry g.registry i Entry.windowClosed, t)

end World

end Interception
