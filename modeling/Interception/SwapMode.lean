/-
How an open window keeps a call-through from coming back to its handler.

The mode is written `per-call` or `class-wide`.  Reading folds ASCII case only and
also accepts both words without the hyphen; a text that is neither is reported in
its folded form.
-/
namespace Interception

/-- The two ways of opening a window. -/
inductive SwapMode where
  /-- Remember the trampoline and receiver on the calling thread; change nothing
  that other calls could see. -/
  | perCall
  /-- Put the class's unpatched table back and overwrite the trampoline for as long
  as the window is open. -/
  | classWide
  deriving DecidableEq, Repr, Inhabited

namespace SwapMode

/-- The written form of a mode. -/
def name : SwapMode → String
  | perCall => "per-call"
  | classWide => "class-wide"

/-- The mode used where none is given. -/
def standard : SwapMode := perCall

/-- A text that names no mode, in folded form. -/
structure Unknown where
  folded : String
  deriving DecidableEq, Repr

def Unknown.message (u : Unknown) : String :=
  s!"unknown swap mode '{u.folded}' (expected per-call or class-wide)"

/-- Read a mode. -/
def parse (text : String) : Except Unknown SwapMode :=
  let folded := text.map Char.toLower
  if folded = "per-call" ∨ folded = "percall" then .ok perCall
  else if folded = "class-wide" ∨ folded = "classwide" then .ok classWide
  else .error ⟨folded⟩

end SwapMode

end Interception
