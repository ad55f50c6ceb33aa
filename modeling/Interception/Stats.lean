/-
Statistics of an interception core, one row per entry in table order.
-/
import Interception.Lookup

namespace Interception

/-- What one entry shows of itself. -/
structure EntryStats where
  row : Row
  resolved : Bool
  trampolines : Nat
  openWindows : Nat
  calls : Nat
  deriving DecidableEq, Repr

namespace World

variable {β : Type}

def entryStats (w : World β) (e : Entry) : EntryStats :=
  { row := e.row
    resolved := e.isResolved
    trampolines := w.trampolineCount e
    openWindows := e.openWindows
    calls := e.calls }

/-- The statistics of a core. -/
def stats (w : World β) (core : Core) : List EntryStats :=
  (w.registries.get core.registry).entries.toList.map w.entryStats

end World

end Interception
