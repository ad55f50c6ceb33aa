/-
Worlds in which only objects and counters move.

Once its classes are defined, a world in which windows are noted per call changes in two ways
only: objects are made and written to, and windows are counted.  `Calm` is the second alone,
from one moment to a later one.  `Still` is both, seen from the world as it was when the last
class had been defined: everything that a call looks up is what it was then.
-/
import Interception.Proofs.Binding

namespace Interception.World

variable {β : Type} {b w w' w'' : World β} {v : VmRef} {c : ClassRef}

/-! ### Counting windows -/

/-- Nothing has changed but counters. -/
structure Calm (w w' : World β) : Prop where
  shifts : w.Shifts w'
  cells : w'.cells = w.cells
  classes : w'.classes = w.classes

namespace Calm

theorem refl (w : World β) : w.Calm w := ⟨.refl w, rfl, rfl⟩

theorem trans (h : w.Calm w') (h' : w'.Calm w'') : w.Calm w'' :=
  ⟨h.shifts.trans h'.shifts, h'.cells.trans h.cells, h'.classes.trans h.classes⟩

theorem content (h : w.Calm w') (m : CellRef) : w'.content m = w.content m := by
  rw [World.content, h.cells, World.content]

theorem methodAt (h : w.Calm w') (c : ClassRef) (k : Nat) : w'.methodAt c k = w.methodAt c k := by
  rw [World.methodAt, World.tableOf, h.classes, h.shifts.tables, World.methodAt, World.tableOf]

theorem classOf (h : w.Calm w') (o : ObjectRef) : w'.classOf o = w.classOf o := by
  rw [World.classOf, h.shifts.objects, World.classOf]

theorem slotOf (h : w.Calm w') (c : ClassRef) (name : String) :
    w'.slotOf c name = w.slotOf c name := by
  rw [World.slotOf, h.classes, World.slotOf]

theorem maxDepth (h : w.Calm w') (v : VmRef) : w'.maxDepth v = w.maxDepth v := by
  rw [World.maxDepth, h.shifts.vms, World.maxDepth]

theorem coreOf (h : w.Calm w') (v : VmRef) : w'.coreOf v = w.coreOf v := by
  rw [World.coreOf, h.shifts.vms, World.coreOf]

theorem handledBy (h : w.Calm w') {l : Nat} {m : CellRef} {x : β} (hm : w.HandledBy c l m x) :
    w'.HandledBy c l m x := by
  refine ⟨?_, ?_, ?_⟩
  · rw [h.slotOf]
    exact hm.slot
  · rw [h.methodAt]
    exact hm.cell
  · rw [h.content]
    exact hm.code

theorem sound (h : w.Calm w') (hw : w.Sound) : w'.Sound := by
  refine hw.of_shifts h.shifts (hw.tabled.of_turns hw.lineages hw.orderly ?_)
  refine turns_of_classes h.shifts.grows h.cells ?_ fun hr => h.shifts.resolves.mp hr
  intro a ha
  rw [h.classes] at ha ⊢
  exact ⟨ha, rfl⟩

end Calm

theorem calm_windowOpened (w : World β) (g : RegistryRef) (i : Nat) :
    w.Calm (w.modifyEntry g i Entry.windowOpened) :=
  ⟨shifts_windowOpened w g i, rfl, rfl⟩

theorem calm_windowClosed (w : World β) (g : RegistryRef) (i : Nat) :
    w.Calm (w.modifyEntry g i Entry.windowClosed) :=
  ⟨shifts_windowClosed w g i, rfl, rfl⟩

/-! ### Objects as well -/

/-- Since `b` nothing has happened but to objects, to counters of windows and to counts of
allocations. -/
structure Still (b w : World β) : Prop where
  sound : w.Sound
  cells : w.cells = b.cells
  tables : w.tables = b.tables
  classes : w.classes = b.classes
  index : ∀ g, (w.registries.get g).index = (b.registries.get g).index
  resolution : ∀ g i, (w.entry g i).resolution = (b.entry g i).resolution
  vms : ∀ v, ∃ n, w.vms.get v = { b.vms.get v with allocations := n }

namespace Still

theorem refl (hb : b.Sound) : b.Still b where
  sound := hb
  cells := rfl
  tables := rfl
  classes := rfl
  index _ := rfl
  resolution _ _ := rfl
  vms _ := ⟨_, rfl⟩

theorem calm (h : b.Still w) (hc : w.Calm w') : b.Still w' where
  sound := hc.sound h.sound
  cells := hc.cells.trans h.cells
  tables := hc.shifts.tables.trans h.tables
  classes := hc.classes.trans h.classes
  index g := (hc.shifts.registries g).2.1.trans (h.index g)
  resolution g i := (hc.shifts.entries g i).2.trans (h.resolution g i)
  vms v := by
    rw [hc.shifts.vms]
    exact h.vms v

theorem onlyObjects (h : b.Still w) (ho : w.OnlyObjects w') : b.Still w' where
  sound := h.sound.of_onlyObjects ho
  cells := ho.cells.trans h.cells
  tables := ho.tables.trans h.tables
  classes := ho.classes.trans h.classes
  index g := by
    rw [ho.registries]
    exact h.index g
  resolution g i := by
    rw [ho.entry]
    exact h.resolution g i
  vms v := by
    obtain ⟨n, hn⟩ := h.vms v
    obtain ⟨k, hk⟩ := ho.vms v
    exact ⟨k, by rw [hk, hn]⟩

theorem content (h : b.Still w) (m : CellRef) : w.content m = b.content m := by
  rw [World.content, h.cells, World.content]

theorem methodAt (h : b.Still w) (c : ClassRef) (k : Nat) : w.methodAt c k = b.methodAt c k := by
  rw [World.methodAt, World.tableOf, h.classes, h.tables, World.methodAt, World.tableOf]

theorem slotOf (h : b.Still w) (c : ClassRef) (name : String) :
    w.slotOf c name = b.slotOf c name := by
  rw [World.slotOf, h.classes, World.slotOf]

theorem className (h : b.Still w) (c : ClassRef) : w.className c = b.className c := by
  rw [World.className, h.classes, World.className]

theorem lineage (h : b.Still w) (c : ClassRef) : w.lineage c = b.lineage c := by
  rw [World.lineage, h.classes, World.lineage]

theorem declared? (h : b.Still w) (c : ClassRef) (name : String) (k : Nat) :
    w.declared? c name k = b.declared? c name k := by
  simp only [World.declared?, World.declaration?, h.lineage, h.className, h.classes]

theorem maxDepth (h : b.Still w) (v : VmRef) : w.maxDepth v = b.maxDepth v := by
  obtain ⟨n, hn⟩ := h.vms v
  rw [World.maxDepth, hn, World.maxDepth]

theorem coreOf (h : b.Still w) (v : VmRef) : w.coreOf v = b.coreOf v := by
  obtain ⟨n, hn⟩ := h.vms v
  rw [World.coreOf, hn, World.coreOf]

theorem proxy (h : b.Still w) (v : VmRef) : (w.vms.get v).proxy = (b.vms.get v).proxy := by
  obtain ⟨n, hn⟩ := h.vms v
  rw [hn]

theorem known (h : b.Still w) (v : VmRef) : (w.vms.get v).classes = (b.vms.get v).classes := by
  obtain ⟨n, hn⟩ := h.vms v
  rw [hn]

theorem findClass (h : b.Still w) (v : VmRef) (name : String) :
    w.findClass v name = b.findClass v name := by
  rw [World.findClass, h.known, World.findClass]

theorem registered (h : b.Still w) : w.Registered v c ↔ b.Registered v c := by
  rw [Registered, h.known, Registered]

theorem handledBy (h : b.Still w) {l : Nat} {m : CellRef} {x : β} (hm : b.HandledBy c l m x) :
    w.HandledBy c l m x := by
  refine ⟨?_, ?_, ?_⟩
  · rw [h.slotOf]
    exact hm.slot
  · rw [h.methodAt]
    exact hm.cell
  · rw [h.content]
    exact hm.code

theorem ownEntry (h : b.Still w) (g : RegistryRef) : w.ownEntry g = b.ownEntry g := by
  funext c
  rw [World.ownEntry, World.ownEntry, Registry.position?, Registry.position?, h.index,
    h.className]

/-- The row that speaks for a class is the one that did. -/
theorem interceptionOf (h : b.Still w) (g : RegistryRef) (c : ClassRef) :
    w.interceptionOf g c = b.interceptionOf g c := by
  simp only [World.interceptionOf, World.nearestEntry, World.resolvedFor, h.ownEntry, h.lineage,
    h.resolution]

end Still

end Interception.World
