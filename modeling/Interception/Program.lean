/-
Programs: what a native body, or a host, asks of the machines.

A program is a finite tree.  It ends in a value, an error or a panic, or it asks
for an operation and goes on with the answer, which is either what the operation
returned or the error it was refused with.  Between operations it may look at the
world and change the state of its host.  A panic inside an operation is not an
answer: it ends the program that asked.  Nothing is lost by that for a body that
catches panics: on its way out a panic leaves frames and closes windows just as an
error does, so that such a body goes on from a state in which it might as well have
been answered with an error.

Since the tree is finite whatever the answers are, a body always ends by itself; how
deep bodies can call each other is the dispatcher's business.
-/
import Interception.Allocation
import Interception.Definition
import Interception.Windows

namespace Interception

/-- What can be asked of the machines. -/
inductive Op (β : Type) where
  /-- Define a class. -/
  | define (v : VmRef) (d : ClassDecl β)
  /-- Allocate an instance and its handlers. -/
  | allocate (v : VmRef) (c : ClassRef)
  /-- Call a virtual method by name. -/
  | callVirtual (v : VmRef) (this : ObjectRef) (name : String) (args : List Value)
  /-- Call what the receiver's current table holds in a slot. -/
  | callSlot (v : VmRef) (this : ObjectRef) (slot : Nat) (args : List Value)
  /-- Call a direct method by name. -/
  | callDirect (v : VmRef) (this : ObjectRef) (name : String) (args : List Value)
  /-- Call a method handle after the receiver and access checks. -/
  | callMethod (v : VmRef) (caller : Option ClassRef) (m : CellRef) (this : ObjectRef)
      (args : List Value)
  /-- Run what a cell now references. -/
  | execute (v : VmRef) (m : CellRef) (this : ObjectRef) (args : List Value)
  /-- Write a field. -/
  | setField (o : ObjectRef) (i : Nat) (x : Value)
  /-- Enter interception by hand. -/
  | callTrampoline (v : VmRef) (core : Core) (m : CellRef) (this : ObjectRef)
      (args : List Value)
  /-- Run the class-initialization hook's patch by hand. -/
  | patch (v : VmRef) (core : Core) (c : ClassRef)
  /-- Run the allocation hook by hand. -/
  | bind (v : VmRef) (core : Core) (o : ObjectRef)
  /-- Open a window by hand. -/
  | openWindow (v : VmRef) (core : Core) (o : ObjectRef) (m : CellRef)
  /-- Close a window opened by hand. -/
  | closeWindow (g : Guard β)
  /-- Overwrite a cell, answering what it held. -/
  | overwrite (m : CellRef) (d : Descriptor β)
  /-- Install a table, answering the one it replaces. -/
  | install (c : ClassRef) (t : TableRef)
  /-- Make a cell. -/
  | newCell (d : Descriptor β)
  /-- Make a table. -/
  | newTable (cells : List CellRef)
  /-- Make a registry. -/
  | newRegistry (rows : List Row)

/-- What an operation returns. -/
def Op.Answer {β : Type} : Op β → Type
  | define .. => ClassRef
  | allocate .. => ObjectRef
  | callVirtual .. | callSlot .. | callDirect .. | callMethod .. | execute .. => Value
  | callTrampoline .. => Value
  | setField .. => Unit
  | patch .. => PatchOutcome
  | bind .. => Option ObjectRef
  | openWindow .. => Guard β
  | closeWindow .. => Unit
  | overwrite .. => Descriptor β
  | install .. => TableRef
  | newCell .. => CellRef
  | newTable .. => TableRef
  | newRegistry .. => RegistryRef

/-- A program over bodies `β` and host state `H`, returning an `α`. -/
inductive Program (β H α : Type) where
  | pure (a : α)
  | fail (e : VmError)
  | panic (text : String)
  /-- Change the host's state, going on with the world and the state before it. -/
  | host (update : World β → H → H) (next : World β → H → Program β H α)
  | call (op : Op β) (next : Except VmError op.Answer → Program β H α)

namespace Program

variable {β H α γ δ : Type}

/-- Run one program after another. -/
def bind : Program β H α → (α → Program β H γ) → Program β H γ
  | pure a, f => f a
  | fail e, _ => fail e
  | panic text, _ => panic text
  | host update next, f => host update fun w h => (next w h).bind f
  | call op next, f => call op fun r => (next r).bind f

instance : Monad (Program β H) where
  pure := Program.pure
  bind := Program.bind

theorem bind_pure (p : Program β H α) : p.bind pure = p := by
  induction p with
  | host update next ih => simp only [bind]; congr 1; funext w h; exact ih w h
  | call op next ih => simp only [bind]; congr 1; funext r; exact ih r
  | _ => rfl

theorem bind_assoc (p : Program β H α) (f : α → Program β H γ) (g : γ → Program β H δ) :
    (p.bind f).bind g = p.bind fun a => (f a).bind g := by
  induction p with
  | host update next ih => simp only [bind]; congr 1; funext w h; exact ih w h
  | call op next ih => simp only [bind]; congr 1; funext r; exact ih r
  | _ => rfl

/-- Turn an error into an answer. -/
def attempt : Program β H α → Program β H (Except VmError α)
  | pure a => pure (.ok a)
  | fail e => pure (.error e)
  | panic text => panic text
  | host update next => host update fun w h => (next w h).attempt
  | call op next => call op fun r => (next r).attempt

/-- Ask for one operation, failing with its error. -/
def perform (op : Op β) : Program β H op.Answer :=
  call op fun
    | .ok a => pure a
    | .error e => fail e

/-- Look at the world. -/
def look (f : World β → α) : Program β H α := host (fun _ h => h) fun w _ => pure (f w)

/-- Look at the world and the host's state, and change the latter. -/
def modifyGet (f : World β → H → α × H) : Program β H α :=
  host (fun w h => (f w h).2) fun w h => pure (f w h).1

/-- Every operation the program can ask for satisfies `allowed`. -/
def Uses (allowed : Op β → Prop) : Program β H α → Prop
  | pure _ => True
  | fail _ => True
  | panic _ => True
  | host _ next => ∀ w h, (next w h).Uses allowed
  | call op next => allowed op ∧ ∀ r, (next r).Uses allowed

theorem Uses.perform {allowed : Op β → Prop} {op : Op β} (h : allowed op) :
    (Program.perform op : Program β H op.Answer).Uses allowed := by
  refine ⟨h, fun r => ?_⟩
  cases r <;> trivial

theorem Uses.bind {allowed : Op β → Prop} {p : Program β H α} {f : α → Program β H γ}
    (hp : p.Uses allowed) (hf : ∀ a, (f a).Uses allowed) : (p.bind f).Uses allowed := by
  induction p with
  | pure a => exact hf a
  | fail e => trivial
  | panic text => trivial
  | host update next ih => exact fun w h => ih w h (hp w h)
  | call op next ih => exact ⟨hp.1, fun r => ih r (hp.2 r)⟩

end Program

/-- The operations of ordinary bodies: defining classes, allocating, calling and
writing fields, but nothing that reaches into tables, cells or windows by hand. -/
def Op.IsOrdinary {β : Type} : Op β → Bool
  | define .. | allocate .. | callVirtual .. | callSlot .. | callDirect .. | callMethod ..
  | execute .. | setField .. => true
  | _ => false

end Interception
