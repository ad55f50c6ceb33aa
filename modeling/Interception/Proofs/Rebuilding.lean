/-
What patching builds.

Where patching goes ahead, what it makes is new: a table as long as the one it replaces, and for
each slot a cell that nothing else holds.  A copy carries the record of the cell it stands for, so
the checks of a reflective call cannot tell the two apart; only its code is different, and only
where the row lists the name.  A cell that already was a trampoline, taken over from a superclass,
is copied like any other, and if it is listed its copy is a trampoline for it.

All this rests on references not dangling.  A table that held a reference past the end of the
store would find its cell made by the copying itself.  `Anchored` rules this out, and every step
of a run keeps it.
-/
import Interception.Proofs.Directs
import Interception.Proofs.Dispatching

namespace Interception

variable {β H : Type}

namespace World

variable {w w' : World β} {v : VmRef} {core : Core} {c : ClassRef} {g : RegistryRef} {i n : Nat}

/-! ### Nothing dangles -/

/-- Every cell of every table was made. -/
def Stocked (w : World β) : Prop := ∀ t, ∀ m ∈ w.tables.get t, w.cells.Live m

/-- References lead to things that were made. -/
structure Anchored (w : World β) : Prop where
  indexed : ∀ g, (w.registries.get g).Indexed
  current : ∀ {c}, w.classes.Live c → w.tables.Live (w.classes.get c).table
  stocked : w.Stocked
  directs : ∀ {c m}, m ∈ (w.classes.get c).directs → w.cells.Live m

theorem Sound.anchored (hw : w.Sound) (hd : w.Directs) (hs : w.Stocked) : w.Anchored where
  indexed := hw.orderly.indexed
  current hc := (hw.tabled.current _ hc).live
  stocked := hs
  directs hm := hd.live hm

/-- What is in a table was there before, or is in the table just made. -/
theorem mem_get_add {tables : Store .table (List CellRef)} {new : List CellRef} {t : TableRef}
    {m : CellRef} (h : m ∈ (tables.add new).get t) :
    m ∈ tables.get t ∨ t = tables.next ∧ m ∈ new := by
  by_cases ht : (tables.add new).Live t
  · rcases (Store.live_add_iff _ _ t).mp ht with hold | rfl
    · rw [Store.get_add_of_live hold] at h
      exact Or.inl h
    · rw [Store.get_add_next] at h
      exact Or.inr ⟨rfl, h⟩
  · rw [Store.get_of_not_live ht] at h
    cases h

namespace Stocked

theorem empty : ({} : World β).Stocked := fun _ _ hm => by cases hm

theorem of_tables (h : w.Stocked) (htables : w'.tables = w.tables)
    (hcells : ∀ m, w.cells.Live m → w'.cells.Live m) : w'.Stocked := fun t m hm => by
  rw [htables] at hm
  exact hcells m (h t m hm)

/-- Declaring methods puts cells into the table that were just made. -/
theorem declareAll (number : Nat) (owner : String) (ds : List (MethodDecl (Option β)))
    (l : Layout β) (h : ∀ m ∈ l.table, l.cells.Live m) :
    ∀ m ∈ (ds.foldl (Layout.declare number owner) l).table,
      (ds.foldl (Layout.declare number owner) l).cells.Live m := by
  induction ds generalizing l with
  | nil => exact h
  | cons d rest ih =>
    refine ih (l.declare number owner d) fun m hm => ?_
    have hm' : m ∈ l.table ∨ m = l.cells.next := by
      unfold Layout.declare at hm
      simp only at hm
      split at hm
      · exact List.mem_or_eq_of_mem_set hm
      · simpa using hm
    rcases hm' with hold | rfl
    · exact (h m hold).add _
    · exact Store.live_next_add _ _

theorem link (h : w.Stocked) (d : ClassDecl β) (number : Nat) (super? : Option ClassRef) :
    (w.link d number super?).2.Stocked := by
  have hstart : ∀ m ∈ (w.inherited super?).table, (w.inherited super?).cells.Live m := by
    intro m hm
    cases super? with
    | none => cases hm
    | some s => exact h _ m hm
  intro t m hm
  rw [tables_link] at hm
  rcases mem_get_add hm with hold | ⟨-, hnew⟩
  · exact (extends_link 0 w d number super?).grows.cells m (h t m hold)
  · exact (keeps_link w d number super? m
      (declareAll number d.name d.virtuals _ hstart m hnew)).1

theorem installTrampolines (h : w.Stocked) (handler : ClassRef) (offset : Nat) :
    (w.installTrampolines g i c handler offset).Stocked := by
  intro t m hm
  rcases mem_get_add hm with hold | ⟨rfl, -⟩
  · exact live_installed.mpr (Or.inl (h t m hold))
  · obtain ⟨k, hk⟩ := List.mem_iff_getElem?.mp hm
    obtain ⟨hlt, rfl⟩ := installed_getElem?.mp hk
    exact live_installed.mpr (Or.inr ⟨k, hlt, rfl⟩)

theorem patch (h : w.Stocked) (v : VmRef) (core : Core) (c : ClassRef) :
    (w.patch v core c).2.Stocked := by
  have hp := patches_patch w v core c
  generalize (w.patch v core c).2 = x at hp ⊢
  cases hp with
  | nothing => exact h
  | installs _ _ _ _ => exact h.installTrampolines _ _

theorem enroll (h : w.Stocked) (v : VmRef) (c : ClassRef) : (w.enroll v c).Stocked :=
  (h.patch v (w.coreOf v) c).of_tables rfl fun _ hm => hm

theorem bareMachine (h : w.Stocked) (options : VmOptions) (core : Core) :
    (w.bareMachine options core).Stocked := by
  have hroot : w.rootLinked.Stocked := h.link _ 0 none
  have hproxy := hroot.link { name := proxyClassName
                              fields := [⟨handlerFieldName, handlerFieldType⟩] } 1
    (some w.classes.next)
  exact hproxy.of_tables rfl fun _ hm => hm

end Stocked

/-- A class that was not made has no field, so there is no patching it. -/
theorem live_of_fieldOffset {name type : String} {offset : Nat}
    (h : (w.classes.get c).fieldOffset name type = some offset) : w.classes.Live c := by
  by_contra hc
  rw [Store.get_of_not_live hc] at h
  cases h

theorem directs_installTrampolines {handler a : ClassRef} {offset : Nat} :
    ((w.installTrampolines g i c handler offset).classes.get a).directs =
      (w.classes.get a).directs :=
  Store.part_get_modify Class.directs (by intro k; rfl) w.classes c a

/-- Patching makes what it refers to. -/
theorem Anchored.patch (hw : w.Anchored) (v : VmRef) (core : Core) (c : ClassRef) :
    (w.patch v core c).2.Anchored := by
  have hg := (extends_patch w v core (Nat.zero_le c.index)).grows
  have hp := patches_patch w v core c
  generalize (w.patch v core c).2 = x at hp hg ⊢
  cases hp with
  | nothing => exact hw
  | @installs i handler offset _ _ _ hoffset =>
    refine
      { indexed := hg.indexed (fun g hlive => (live_modifyEntry w _ _ _ g).mp hlive) hw.indexed
        current := fun {a} ha => ?_
        stocked := hw.stocked.installTrampolines handler offset
        directs := fun {a m} hm => ?_ }
    · have ha' : w.classes.Live a := (Store.live_modify ..).mp ha
      by_cases hac : a = c
      · subst hac
        rw [show ((w.installTrampolines core.registry i a handler offset).classes.get a).table =
          w.tables.next from congrArg Class.table (Store.get_modify_self ha' _)]
        exact Store.live_next_add _ _
      · rw [show (w.installTrampolines core.registry i c handler offset).classes.get a =
          w.classes.get a from Store.get_modify_of_ne hac _]
        exact (hg.tables _ (hw.current ha')).1
    · rw [directs_installTrampolines] at hm
      exact hg.cells m (hw.directs hm)

end World

/-- Ordinary runs put into tables only what they made. -/
theorem upheld_stocked : Upheld (β := β) (fun op => op.IsOrdinary = true) World.Stocked
    (fun _ _ => True) where
  ordinary h := h
  start := .empty
  refl := trivial
  trans _ _ _ _ _ _ := trivial
  registry _ _ h := ⟨h.of_tables rfl fun _ hm => hm, trivial⟩
  machine options core hw h := ⟨hw.newVmAround_keeps options core (P := World.Stocked)
    (h.bareMachine options core)
    fun _ _ _ _ hx => hx.enroll _ _, trivial⟩
  define hw h hd :=
    ⟨hw.define_induct (P := World.Stocked) hd (fun _ => h.link _ _ _)
      fun _ _ _ _ hx => hx.enroll _ _, trivial⟩
  objects _ h hstep := by
    have honly := hstep.onlyObjects
    exact ⟨h.of_tables honly.tables fun m hm => by rw [honly.cells]; exact hm, trivial⟩
  opening {w th v this m _} _ h _ _ := by
    have hshift := World.shifts_openWindow w th v (w.coreOf v) this m
    exact ⟨h.of_tables hshift.tables fun a ha => (hshift.cells a).mpr ha, trivial⟩
  closing {w x th v this m _ u} _ _ _ _ _ h _ _ := by
    have hshift := World.shifts_closeWindow x u (w.openWindow th v (w.coreOf v) this m).1
    exact ⟨h.of_tables hshift.tables fun a ha => (hshift.cells a).mpr ha, trivial⟩

/-- At every moment of a run of ordinary bodies no reference dangles. -/
theorem Reached.anchored {host : Host β H} {s : State β (Logged β H)}
    (hb : ∀ b v this args, (host.body b v this args).Uses fun op => op.IsOrdinary = true)
    (hs : Reached host (fun op => op.IsOrdinary = true) s) {w : World β} {th : Thread}
    (hat : s.trail.At w th) : w.Anchored := by
  obtain ⟨hw, hstocked⟩ := upheld_stocked.everywhere hb hs hat
  exact hw.anchored (Reached.directs hb hs hat).2 hstocked

namespace World

variable {w w' : World β} {v : VmRef} {core : Core} {c : ClassRef} {g : RegistryRef} {i n : Nat}

/-! ### What a patched class goes by -/

/-- Cell `m` of `w'` was made as a copy of cell `o` of `w`. -/
structure CopiedFrom (w w' : World β) (row : Row) (o m : CellRef) : Prop where
  fresh : ¬ w.cells.Live m
  live : w'.cells.Live m
  name : (w'.content m).name = (w.content o).name
  owner : (w'.content m).owner = (w.content o).owner
  ownerName : (w'.content m).ownerName = (w.content o).ownerName
  slot : (w'.content m).slot = (w.content o).slot
  visibility : (w'.content m).visibility = (w.content o).visibility
  code : (w'.content m).code =
    if (w.content o).name ∈ row.methods then .trampoline o else (w.content o).code
  /-- A name that is not listed is routed to interception only if it was before. -/
  unlisted : (w.content o).name ∉ row.methods →
    (w'.content m).isTrampoline = (w.content o).isTrampoline
  /-- The checks of a reflective call cannot tell the two apart. -/
  receiver : ∀ (x : World β) (this : ObjectRef),
    x.checkReceiver this (w'.content m) = x.checkReceiver this (w'.content o)
  access : ∀ (x : World β) (u : VmRef) (caller : Option ClassRef),
    x.checkAccess u caller (w'.content m) = x.checkAccess u caller (w'.content o)

/-- What `w'` is if it came from patching class `c` of `w` under entry `i` of registry `g`, with
handler classes looked up on machine `v`, and `n` trampolines were installed; `r` is what the entry
was filled in with. -/
structure Rebuilt (w : World β) (v : VmRef) (g : RegistryRef) (c : ClassRef) (i n : Nat)
    (r : Resolution) (w' : World β) : Prop where
  own : w.ownEntry g c = some i
  unresolved : (w.entry g i).resolution = none
  /-- The entry is filled in, and neither this nor any other has changed besides. -/
  entry : w'.entry g i = { w.entry g i with resolution := some r }
  entries : ∀ a j, ¬ (a = g ∧ j = i) → w'.entry a j = w.entry a j
  cls : r.cls = c
  handler : w.findClass v (w.entry g i).row.handlerClass = some r.handlerClass
  /-- The handler field is the first of its name and type. -/
  field : (w.classes.get c).fields[r.handlerOffset]? = some ⟨handlerFieldName, handlerFieldType⟩
  first : ∀ k < r.handlerOffset,
    (w.classes.get c).fields[k]? ≠ some ⟨handlerFieldName, handlerFieldType⟩
  unpatched : r.unpatched = (w.classes.get c).table
  intercepted : r.intercepted = (w'.classes.get c).table
  /-- The table is new and as long as the old one. -/
  fresh : ¬ w.tables.Live r.intercepted
  live : w'.tables.Live r.intercepted
  length : (w'.tableOf c).length = (w.tableOf c).length
  /-- Each slot has a copy of what it had, in a cell that is nowhere else. -/
  copies : ∀ {k : Nat} {o m : CellRef}, (w.tableOf c)[k]? = some o → (w'.tableOf c)[k]? = some m →
    w.CopiedFrom w' (w.entry g i).row o m
  distinct : (w'.tableOf c).Nodup
  alone : ∀ m ∈ w'.tableOf c, (∀ t, m ∈ w'.tables.get t → t = r.intercepted) ∧
    ∀ a, m ∉ (w'.classes.get a).directs
  /-- The old table and its cells are as they were. -/
  replaced : w'.tables.get r.unpatched = w.tableOf c ∧
    ∀ o ∈ w.tableOf c, w'.content o = w.content o
  /-- The listed slots are counted twice, before and after. -/
  count : n = (w.tableOf c).countP fun o => decide ((w.content o).name ∈ (w.entry g i).row.methods)
  trampolines : w'.trampolineCount (w'.entry g i) = n
  /-- The class has changed in its table and in what its scope has served and kept. -/
  patched : w'.classes.get c = { w.classes.get c with
    table := r.intercepted
    scope := { (w.classes.get c).scope with
      allocations := (w.classes.get c).scope.allocations + ((w.tableOf c).length + 1)
      tables := (w.classes.get c).scope.tables ++ [r.intercepted] } }
  classes : ∀ a, a ≠ c → w'.classes.get a = w.classes.get a
  tables : ∀ t, w.tables.Live t → w'.tables.get t = w.tables.get t
  cells : ∀ m, w.cells.Live m → w'.content m = w.content m
  objects : w'.objects = w.objects
  vms : w'.vms = w.vms

theorem fieldOffset_eq_some {k : Class β} {name type : String} {offset : Nat}
    (h : k.fieldOffset name type = some offset) : k.fields[offset]? = some ⟨name, type⟩ ∧
      ∀ j < offset, k.fields[j]? ≠ some ⟨name, type⟩ := by
  obtain ⟨hlt, hfield, hbefore⟩ := List.findIdx?_eq_some_iff_getElem.mp h
  simp only [Bool.and_eq_true, beq_iff_eq] at hfield hbefore
  refine ⟨?_, fun j hj hfirst => ?_⟩
  · rw [List.getElem?_eq_getElem hlt, ← hfield.1, ← hfield.2]
  · obtain ⟨hlt', heq⟩ := List.getElem?_eq_some_iff.mp hfirst
    exact hbefore j hj (by rw [heq]; exact ⟨rfl, rfl⟩)

/-- The checks of a reflective call read the declaring class, the name and the visibility, and these
a copy has from what it was made from. -/
theorem checks_copyOf (row : Row) (d : Descriptor β) (o : CellRef) (x : World β) :
    (∀ this, x.checkReceiver this (row.copyOf d o) = x.checkReceiver this d) ∧
      ∀ u caller, x.checkAccess u caller (row.copyOf d o) = x.checkAccess u caller d := by
  refine ⟨fun this => ?_, fun u caller => ?_⟩
  · simp only [checkReceiver, Row.owner_copyOf, Row.ownerName_copyOf]
  · cases caller with
    | none => rfl
    | some a =>
      rw [checkAccess, checkAccess, isVisibleTo, isVisibleTo, Row.owner_copyOf,
        Row.ownerName_copyOf, Row.name_copyOf, Row.visibility_copyOf]

section Install

variable {handler : ClassRef} {offset : Nat} (hw : w.Anchored)

theorem tableOf_installed (hc : w.classes.Live c) :
    (w.installTrampolines g i c handler offset).tableOf c =
      (w.installTrampolines g i c handler offset).tables.get w.tables.next := by
  have hget : ((w.installTrampolines g i c handler offset).classes.get c).table = w.tables.next :=
    congrArg Class.table (Store.get_modify_self hc _)
  rw [tableOf, hget]

/-- The new table, position by position. -/
theorem tableOf_installed_getElem? (hc : w.classes.Live c) {k : Nat} {m : CellRef} :
    ((w.installTrampolines g i c handler offset).tableOf c)[k]? = some m ↔
      k < (w.tableOf c).length ∧ m = ⟨w.cells.size + k⟩ := by
  rw [tableOf_installed hc]
  exact installed_getElem?

theorem length_tableOf_installed (hc : w.classes.Live c) :
    ((w.installTrampolines g i c handler offset).tableOf c).length = (w.tableOf c).length := by
  rw [tableOf_installed hc]
  show ((w.tables.add (copyTable (w.entry g i).row w.cells (w.tableOf c)).1).get _).length = _
  rw [Store.get_add_next, length_copyTable]

/-- No two of its positions have the same cell. -/
theorem nodup_tableOf_installed (hc : w.classes.Live c) :
    ((w.installTrampolines g i c handler offset).tableOf c).Nodup := by
  refine List.pairwise_iff_getElem.mpr fun j k hj hk hlt heq => ?_
  obtain ⟨-, hjm⟩ := (tableOf_installed_getElem? hc).mp (List.getElem?_eq_getElem hj)
  obtain ⟨-, hkm⟩ := (tableOf_installed_getElem? hc).mp (List.getElem?_eq_getElem hk)
  have hindex : w.cells.size + j = w.cells.size + k :=
    congrArg Ref.index (hjm.symm.trans (heq.trans hkm))
  omega

include hw

/-- The cell in a slot of the new table is a copy of the one in that slot of the old. -/
theorem Anchored.copiedFrom {k : Nat} {o : CellRef} (hk : (w.tableOf c)[k]? = some o) :
    w.CopiedFrom (w.installTrampolines g i c handler offset) (w.entry g i).row o
      ⟨w.cells.size + k⟩ := by
  have hlt := (List.getElem?_eq_some_iff.mp hk).1
  have hlive : w.cells.Live o := hw.stocked _ o (List.mem_of_getElem? hk)
  have hcontent : (w.installTrampolines g i c handler offset).content ⟨w.cells.size + k⟩ =
      (w.entry g i).row.copyOf (w.content o) o :=
    content_copy (fun m hm => hw.stocked _ m hm) hk
  have hold := (extends_installTrampolines w g i handler offset (Nat.zero_le c.index)).content hlive
  have hchecks := checks_copyOf (w.entry g i).row (w.content o) o
  exact
    { fresh := fun hm => by
        have hm' : w.cells.size + k < w.cells.size := hm
        omega
      live := live_installed.mpr (Or.inr ⟨k, hlt, rfl⟩)
      name := by rw [hcontent, Row.name_copyOf]
      owner := by rw [hcontent, Row.owner_copyOf]
      ownerName := by rw [hcontent, Row.ownerName_copyOf]
      slot := by rw [hcontent, Row.slot_copyOf]
      visibility := by rw [hcontent, Row.visibility_copyOf]
      code := by rw [hcontent, Row.code_copyOf]
      unlisted := fun hun => by
        rw [hcontent, Row.copyOf, if_neg fun hlisted => hun (Row.intercepts_iff.mp hlisted)]
      receiver := fun x this => by rw [hcontent, hold, (hchecks x).1]
      access := fun x u caller => by rw [hcontent, hold, (hchecks x).2] }

/-- What patching made is nowhere but in the new table. -/
theorem Anchored.alone (k : Nat) :
    (∀ t, (⟨w.cells.size + k⟩ : CellRef) ∈
      (w.installTrampolines g i c handler offset).tables.get t → t = w.tables.next) ∧
    ∀ a, (⟨w.cells.size + k⟩ : CellRef) ∉
      ((w.installTrampolines g i c handler offset).classes.get a).directs := by
  have hfresh : ¬ w.cells.Live ⟨w.cells.size + k⟩ := fun hm => by
    have hm' : w.cells.size + k < w.cells.size := hm
    omega
  refine ⟨fun t hm => ?_, fun a hm => ?_⟩
  · rcases mem_get_add hm with hold | ⟨ht, -⟩
    · exact absurd (hw.stocked t _ hold) hfresh
    · exact ht
  · rw [directs_installTrampolines] at hm
    exact hfresh (hw.directs hm)

/-- What installing trampolines under the class's own entry makes of a world. -/
theorem Anchored.rebuilt_installed (hc : w.classes.Live c) (hi : w.ownEntry g c = some i)
    (hnone : (w.entry g i).resolution = none)
    (hfind : w.findClass v (w.entry g i).row.handlerClass = some handler)
    (hoffset : (w.classes.get c).fieldOffset handlerFieldName handlerFieldType = some offset) :
    w.Rebuilt v g c i
      ((w.tableOf c).countP fun o => decide ((w.content o).name ∈ (w.entry g i).row.methods))
      (w.patchOf c handler offset) (w.installTrampolines g i c handler offset) := by
  have hlive := Orderly.registry_live hi
  have hlt := (hw.indexed g _ i hi).1
  have hext := extends_installTrampolines w g i handler offset (Nat.zero_le c.index)
  have hself : (w.installTrampolines g i c handler offset).classes.get c =
      { w.classes.get c with
        table := w.tables.next
        scope := ((w.classes.get c).scope.afterCells (w.tableOf c).length).afterTable
          w.tables.next } := Store.get_modify_self hc _
  have hentry : (w.installTrampolines g i c handler offset).entry g i =
      { w.entry g i with resolution := some (w.patchOf c handler offset) } :=
    entry_patchOf hlive hlt hnone
  have hunpatched : (w.installTrampolines g i c handler offset).tables.get
      (w.classes.get c).table = w.tableOf c := (hext.grows.tables _ (hw.current hc)).2
  have hcontents : ∀ o ∈ w.tableOf c,
      (w.installTrampolines g i c handler offset).content o = w.content o := fun o ho =>
    hext.content (hw.stocked _ o ho)
  refine
    { own := hi
      unresolved := hnone
      entry := hentry
      entries := fun a j h => by rw [entry_installTrampolines, entry_modifyEntry_of_ne w g i _ h]
      cls := rfl
      handler := hfind
      field := (fieldOffset_eq_some hoffset).1
      first := (fieldOffset_eq_some hoffset).2
      unpatched := rfl
      intercepted := congrArg Class.table hself.symm
      fresh := w.tables.not_live_next
      live := Store.live_next_add _ _
      length := length_tableOf_installed hc
      copies := fun {k o m} hk hm => ?_
      distinct := nodup_tableOf_installed hc
      alone := fun m hm => ?_
      replaced := ⟨hunpatched, hcontents⟩
      count := rfl
      trampolines := ?_
      patched := hself
      classes := fun a ha => Store.get_modify_of_ne ha _
      tables := fun t ht => (hext.grows.tables t ht).2
      cells := fun m hm => hext.content hm
      objects := rfl
      vms := rfl }
  · obtain ⟨-, rfl⟩ := (tableOf_installed_getElem? hc).mp hm
    exact hw.copiedFrom hk
  · obtain ⟨k, hk⟩ := List.mem_iff_getElem?.mp hm
    obtain ⟨-, rfl⟩ := (tableOf_installed_getElem? hc).mp hk
    exact hw.alone k
  · rw [trampolineCount, hentry]
    show ((w.installTrampolines g i c handler offset).tables.get
      (w.classes.get c).table).countP _ = _
    rw [hunpatched]
    refine List.countP_congr fun o ho => ?_
    rw [hcontents o ho, Row.intercepts_iff, decide_eq_true_iff]

end Install

/-- **Patching builds exactly the table the row asks for.**  In any world in which no reference
dangles, for any machine, any core, any class with a table of any length and any row: if patching
the class answers that `n` trampolines were installed, the class now has a new table, as long as the
one before, that holds in each slot a fresh copy of what was there, in a cell that no other table
and no list of direct methods holds.  A copy has the record of the cell it was made from, so that
the checks of a reflective call decide the same for both, and its code is a trampoline for that cell
if the row lists the name and the code of that cell otherwise.  The table before and all cells are
as they were.  The entry now holds the class, the class found under the row's handler name, the
first offset of a field with the handler field's name and type, and both tables; `n` is the number
of listed slots, however they are counted; and the class's scope has served one allocation for each
cell and one for the table, which it keeps.  Nothing else has changed. -/
theorem Anchored.rebuilt (hw : w.Anchored) (hp : (w.patch v core c).1 = .patched n) :
    ∃ i r, w.Rebuilt v core.registry c i n r (w.patch v core c).2 := by
  have hans := answers_patch w v core c
  generalize w.patch v core c = x at hans hp ⊢
  cases hans with
  | @patched i handler offset hi hnone hfind hoffset =>
    have hbuilt := hw.rebuilt_installed (live_of_fieldOffset hoffset) hi hnone hfind hoffset
    have hn : n = (w.tableOf c).countP fun m =>
        (w.entry core.registry i).row.intercepts (w.content m).name :=
      (PatchOutcome.patched.inj hp).symm
    rw [hn, List.countP_congr fun m _ => Row.intercepts_iff.trans decide_eq_true_iff.symm]
    exact ⟨i, _, hbuilt⟩
  | _ => cases hp

end World

/-! ### A row settled late -/

namespace Demo

/-- The name of a class below the activity, of a method it adds and of the class that handles it. -/
def pausableName : String := "App.PausableActivity"
def pauseName : String := "onPause"
def pauseHandlerName : String := "App.PauseInvocationHandler"

/-- Both classes have a row, each for the method it declares. -/
def pausableRows : List Row :=
  [⟨activityName, [methodName], handlerName⟩, ⟨pausableName, [pauseName], pauseHandlerName⟩]

def pausableDecl : ClassDecl Body :=
  { name := pausableName
    extends? := some activityName
    virtuals := [{ name := pauseName, body := some .onResume }] }

/-- Define the class below before the class of its handlers. -/
def pausing (v : VmRef) : Program Body Tally ClassRef := do
  let _ ← Program.perform (.define v handlerDecl)
  let _ ← Program.perform (.define v activityDecl)
  let _ ← Program.perform (.define v pausableDecl)
  Program.perform (.define v { handlerDecl with name := pauseHandlerName })

/-- The state after that, on a machine set up for it. -/
def paused : State Body (Logged Body Tally) :=
  ((pausing ⟨0⟩).lift.start host.logged
    ⟨(World.newVm {} { rows := pausableRows, maxDepth }).2, {}, ({}, [])⟩).2

theorem reached_paused : Reached host (fun op => op.IsOrdinary = true) paused := by
  have hmachine : Reached host (fun op => op.IsOrdinary = true) _ :=
    .newVm ({} : Tally) { rows := pausableRows, maxDepth }
  refine hmachine.run (pausing ⟨0⟩) (.bind (.perform rfl) fun _ => ?_)
  exact .bind (.perform rfl) fun _ => .bind (.perform rfl) fun _ => .perform rfl

/-- The world after patching the class below by hand. -/
def repatched : World Body := (paused.world.patch ⟨0⟩ (paused.world.coreOf ⟨0⟩) ⟨4⟩).2

/-- The table of the class below begins with the trampoline of the class above.  Its own row does
not list that method, so the copy is a trampoline for what the one above is a trampoline for; the
copy of the method it does list is a trampoline for the cell it was made from. -/
theorem rebuilt_paused :
    (paused.world.patch ⟨0⟩ (paused.world.coreOf ⟨0⟩) ⟨4⟩).1 = .patched 1 ∧
    ∃ o p m q, paused.world.tableOf ⟨4⟩ = [o, p] ∧ repatched.tableOf ⟨4⟩ = [m, q] ∧
      ¬ paused.world.cells.Live m ∧ ¬ paused.world.cells.Live q ∧
      (repatched.content m).code = .trampoline ⟨1⟩ ∧
      (repatched.content o).code = .trampoline ⟨1⟩ ∧
      (repatched.content q).code = .trampoline p ∧
      repatched.trampolineCount (repatched.entry ⟨0⟩ 1) = 1 := by
  have hp : (paused.world.patch ⟨0⟩ (paused.world.coreOf ⟨0⟩) ⟨4⟩).1 = .patched 1 := by
    decide +kernel
  have hold : paused.world.tableOf ⟨4⟩ = [⟨2⟩, ⟨3⟩] := by decide +kernel
  have hnew : repatched.tableOf ⟨4⟩ = [⟨5⟩, ⟨6⟩] := by decide +kernel
  have hregistry : (paused.world.coreOf ⟨0⟩).registry = ⟨0⟩ := by decide +kernel
  have howner : paused.world.ownEntry ⟨0⟩ ⟨4⟩ = some 1 := by decide +kernel
  have hanchored : paused.world.Anchored :=
    reached_paused.anchored uses_body paused.at_present
  obtain ⟨i, r, hbuilt⟩ := hanchored.rebuilt hp
  rw [hregistry] at hbuilt
  obtain rfl : i = 1 := Option.some.inj (hbuilt.own.symm.trans howner)
  have hinherited : (paused.world.content ⟨2⟩).code = .trampoline ⟨1⟩ ∧
      (paused.world.content ⟨2⟩).name ∉ (paused.world.entry ⟨0⟩ 1).row.methods := by
    decide +kernel
  have hlisted : (paused.world.content ⟨3⟩).name ∈ (paused.world.entry ⟨0⟩ 1).row.methods := by
    decide +kernel
  have hfirst : paused.world.CopiedFrom repatched (paused.world.entry ⟨0⟩ 1).row ⟨2⟩ ⟨5⟩ :=
    hbuilt.copies (k := 0) (by rw [hold]; rfl) (hnew ▸ rfl)
  have hsecond : paused.world.CopiedFrom repatched (paused.world.entry ⟨0⟩ 1).row ⟨3⟩ ⟨6⟩ :=
    hbuilt.copies (k := 1) (by rw [hold]; rfl) (hnew ▸ rfl)
  have hkept : repatched.content ⟨2⟩ = paused.world.content ⟨2⟩ :=
    hbuilt.replaced.2 ⟨2⟩ (by rw [hold]; exact List.mem_cons_self)
  refine ⟨hp, ⟨2⟩, ⟨3⟩, ⟨5⟩, ⟨6⟩, hold, hnew, hfirst.fresh, hsecond.fresh, ?_, ?_, ?_,
    hbuilt.trampolines⟩
  · rw [hfirst.code, if_neg hinherited.2, hinherited.1]
  · rw [hkept, hinherited.1]
  · rw [hsecond.code, if_pos hlisted]

end Demo

end Interception
