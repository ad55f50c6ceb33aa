/-
What opening and closing a window does.

Both touch one entry's counters.  A per-call window changes nothing else in the world,
a class-wide one also changes which of two tables a class has now and the content of the
trampoline.  Which table and which entry is settled by the entry that speaks for the
receiver, and an entry that was filled in stays as it is, so a window closes on the
entry, and with the tables, that it was opened with.
-/
import Interception.Proofs.Operations

namespace Interception

namespace Entry

@[simp] theorem row_windowOpened (e : Entry) : e.windowOpened.row = e.row := rfl
@[simp] theorem row_windowClosed (e : Entry) : e.windowClosed.row = e.row := rfl

@[simp] theorem resolution_windowOpened (e : Entry) :
    e.windowOpened.resolution = e.resolution := rfl

@[simp] theorem resolution_windowClosed (e : Entry) :
    e.windowClosed.resolution = e.resolution := rfl

end Entry

namespace World

variable {β : Type}

/-! ### The entry that speaks for a class -/

theorem resolvedFor_eq_some {w : World β} {e : Entry} {c : ClassRef} {r : Resolution} :
    w.resolvedFor e c = some r ↔ e.resolution = some r ∧ r.cls ∈ w.lineage c := by
  rw [resolvedFor, Option.filter_eq_some_iff, List.contains_iff_mem]

/-- An entry speaks for a class if it is the nearest one and was filled in for a class on
the lineage. -/
theorem interceptionOf_eq_some {w : World β} {g : RegistryRef} {c : ClassRef} {i : Nat}
    {r : Resolution} : w.interceptionOf g c = some (i, r) ↔
      w.nearestEntry g c = some i ∧ w.Resolves g i r ∧ r.cls ∈ w.lineage c := by
  rw [interceptionOf, Option.bind_eq_some_iff]
  constructor
  · rintro ⟨j, hj, h⟩
    rw [Option.map_eq_some_iff] at h
    obtain ⟨r', hr', heq⟩ := h
    cases heq
    exact ⟨hj, resolvedFor_eq_some.mp hr'⟩
  · rintro ⟨hi, hr⟩
    exact ⟨i, hi, by rw [resolvedFor_eq_some.mpr hr]; rfl⟩

theorem nearestEntry_eq_some {w : World β} {g : RegistryRef} {c : ClassRef} {i : Nat}
    (h : w.nearestEntry g c = some i) : ∃ a ∈ w.lineage c, w.ownEntry g a = some i :=
  List.exists_of_findSome?_eq_some h

/-- How an intercepted call finds its window. -/
inductive Opens (w : World β) (t : Thread) (v : VmRef) (core : Core) (o : ObjectRef)
    (m : CellRef) : Guard β × World β × Thread → Prop
  | passthrough (h : w.isProxyInstance v o = true ∨
      w.interceptionOf core.registry (w.classOf o) = none) :
      Opens w t v core o m (⟨core.registry, m, o, .passthrough⟩, w, t)
  | perCall {i : Nat} {r : Resolution} (hp : w.isProxyInstance v o = false)
      (hr : w.interceptionOf core.registry (w.classOf o) = some (i, r))
      (hm : core.mode = .perCall) :
      Opens w t v core o m (⟨core.registry, m, o, .perCall i ⟨m, o⟩⟩,
        w.modifyEntry core.registry i Entry.windowOpened,
        { t with windows := ⟨m, o⟩ :: t.windows })
  | classWide {i : Nat} {r : Resolution} (hp : w.isProxyInstance v o = false)
      (hr : w.interceptionOf core.registry (w.classOf o) = some (i, r))
      (hm : core.mode = .classWide) :
      Opens w t v core o m (⟨core.registry, m, o, .classWide i (w.content m)⟩,
        (w.disarm r m).modifyEntry core.registry i Entry.windowOpened, t)

theorem opens_openWindow (w : World β) (t : Thread) (v : VmRef) (core : Core) (o : ObjectRef)
    (m : CellRef) : Opens w t v core o m (w.openWindow t v core o m) := by
  unfold openWindow
  by_cases hp : w.isProxyInstance v o = true
  · rw [if_pos hp]
    exact .passthrough (Or.inl hp)
  · rw [if_neg hp]
    cases hr : w.interceptionOf core.registry (w.classOf o) with
    | none => exact .passthrough (Or.inr hr)
    | some x =>
      obtain ⟨i, r⟩ := x
      simp only
      cases hm : core.mode with
      | perCall => exact .perCall (by simpa using hp) hr hm
      | classWide => exact .classWide (by simpa using hp) hr hm

/-- The window of a receiver that has a row, noted on the thread. -/
theorem openWindow_perCall {w : World β} {v : VmRef} {core : Core} {o : ObjectRef} {i : Nat}
    {r : Resolution} (hp : w.isProxyInstance v o = false)
    (hr : w.interceptionOf core.registry (w.classOf o) = some (i, r))
    (hm : core.mode = .perCall) (t : Thread) (m : CellRef) :
    w.openWindow t v core o m = (⟨core.registry, m, o, .perCall i ⟨m, o⟩⟩,
      w.modifyEntry core.registry i Entry.windowOpened,
      { t with windows := ⟨m, o⟩ :: t.windows }) := by
  simp [openWindow, hp, hr, hm]

/-- The window of a receiver that has a row, over the whole class. -/
theorem openWindow_classWide {w : World β} {v : VmRef} {core : Core} {o : ObjectRef} {i : Nat}
    {r : Resolution} (hp : w.isProxyInstance v o = false)
    (hr : w.interceptionOf core.registry (w.classOf o) = some (i, r))
    (hm : core.mode = .classWide) (t : Thread) (m : CellRef) :
    w.openWindow t v core o m = (⟨core.registry, m, o, .classWide i (w.content m)⟩,
      (w.disarm r m).modifyEntry core.registry i Entry.windowOpened, t) := by
  simp [openWindow, hp, hr, hm]

/-! ### What a window can change -/

/-- Nothing has changed but contents of cells, current tables and counters. -/
structure Shifts (w w' : World β) : Prop where
  tables : w'.tables = w.tables
  objects : w'.objects = w.objects
  vms : w'.vms = w.vms
  cells : ∀ m, w'.cells.Live m ↔ w.cells.Live m
  liveClasses : ∀ c, w'.classes.Live c ↔ w.classes.Live c
  classes : ∀ c, ∃ t, w'.classes.get c = { w.classes.get c with table := t }
  registries : ∀ g, (w'.registries.Live g ↔ w.registries.Live g) ∧
    (w'.registries.get g).index = (w.registries.get g).index ∧
    (w'.registries.get g).entries.size = (w.registries.get g).entries.size
  entries : ∀ g i, (w'.entry g i).row = (w.entry g i).row ∧
    (w'.entry g i).resolution = (w.entry g i).resolution

namespace Shifts

variable {w w' w'' : World β}

theorem refl (w : World β) : w.Shifts w where
  tables := rfl
  objects := rfl
  vms := rfl
  cells _ := Iff.rfl
  liveClasses _ := Iff.rfl
  classes _ := ⟨_, rfl⟩
  registries _ := ⟨Iff.rfl, rfl, rfl⟩
  entries _ _ := ⟨rfl, rfl⟩

theorem trans (h : w.Shifts w') (h' : w'.Shifts w'') : w.Shifts w'' where
  tables := h'.tables.trans h.tables
  objects := h'.objects.trans h.objects
  vms := h'.vms.trans h.vms
  cells m := (h'.cells m).trans (h.cells m)
  liveClasses c := (h'.liveClasses c).trans (h.liveClasses c)
  classes c := by
    obtain ⟨t, ht⟩ := h.classes c
    obtain ⟨t', ht'⟩ := h'.classes c
    exact ⟨t', by rw [ht', ht]⟩
  registries g := by
    obtain ⟨h1, h2, h3⟩ := h.registries g
    obtain ⟨h4, h5, h6⟩ := h'.registries g
    exact ⟨h4.trans h1, h5.trans h2, h6.trans h3⟩
  entries g i := by
    obtain ⟨h1, h2⟩ := h.entries g i
    obtain ⟨h3, h4⟩ := h'.entries g i
    exact ⟨h3.trans h1, h4.trans h2⟩

theorem resolves (h : w.Shifts w') {g : RegistryRef} {i : Nat} {r : Resolution} :
    w'.Resolves g i r ↔ w.Resolves g i r := by
  rw [Resolves, (h.entries g i).2, Resolves]

theorem alike (h : w.Shifts w') (c : ClassRef) :
    (w.classes.get c).Alike (w'.classes.get c) := by
  obtain ⟨t, ht⟩ := h.classes c
  rw [ht]
  exact ⟨rfl, rfl, rfl, rfl, rfl, rfl, rfl, fun hi => hi⟩

theorem grows (h : w.Shifts w') : w.Grows w' where
  cells m hm := (h.cells m).mpr hm
  tables := by rw [h.tables]; exact .refl _
  classes c hc := ⟨(h.liveClasses c).mpr hc, h.alike c⟩
  objects o ho := by rw [classOf, h.objects]; exact ⟨ho, rfl, rfl⟩
  registries g hg := ⟨(h.registries g).1.mpr hg, (h.registries g).2⟩
  rows g i _ := (h.entries g i).1
  resolved hr := h.resolves.mpr hr
  vms v hv := by rw [h.vms]; exact ⟨hv, .refl _⟩

end Shifts

theorem shifts_modifyEntry (w : World β) (g : RegistryRef) (i : Nat) {f : Entry → Entry}
    (hrow : ∀ e, (f e).row = e.row) (hres : ∀ e, (f e).resolution = e.resolution) :
    w.Shifts (w.modifyEntry g i f) :=
  { Shifts.refl w with
    registries := fun a =>
      ⟨live_modifyEntry w g i f a, index_modifyEntry w g i f a, size_modifyEntry w g i f a⟩
    entries := fun a j =>
      ⟨part_entry_modifyEntry w g i f Entry.row hrow a j,
        part_entry_modifyEntry w g i f Entry.resolution hres a j⟩ }

theorem shifts_windowOpened (w : World β) (g : RegistryRef) (i : Nat) :
    w.Shifts (w.modifyEntry g i Entry.windowOpened) :=
  shifts_modifyEntry w g i Entry.row_windowOpened Entry.resolution_windowOpened

theorem shifts_windowClosed (w : World β) (g : RegistryRef) (i : Nat) :
    w.Shifts (w.modifyEntry g i Entry.windowClosed) :=
  shifts_modifyEntry w g i Entry.row_windowClosed Entry.resolution_windowClosed

theorem shifts_overwrite (w : World β) (m : CellRef) (d : Descriptor β) :
    w.Shifts (w.overwrite m d) :=
  { Shifts.refl w with cells := fun _ => Store.live_set .. }

theorem shifts_install (w : World β) (c : ClassRef) (t : TableRef) : w.Shifts (w.install c t) :=
  { Shifts.refl w with
    liveClasses := fun _ => Store.live_modify ..
    classes := fun a => by
      by_cases hac : a = c
      · subst hac
        by_cases ha : w.classes.Live a
        · exact ⟨t, Store.get_modify_self ha _⟩
        · refine ⟨(w.classes.get a).table, ?_⟩
          rw [install, Store.get_of_not_live ha,
            Store.get_of_not_live (by rw [Store.live_modify]; exact ha)]
      · exact ⟨_, Store.get_modify_of_ne hac _⟩ }

theorem shifts_disarm (w : World β) (r : Resolution) (m : CellRef) :
    w.Shifts (w.disarm r m) := by
  unfold disarm
  simp only
  split
  · exact (shifts_install w r.cls r.unpatched).trans (shifts_overwrite _ _ _)
  · exact shifts_install w r.cls r.unpatched

theorem shifts_rearm (w : World β) (r : Resolution) (m : CellRef) (token : Descriptor β) :
    w.Shifts (w.rearm r m token) :=
  (shifts_install w r.cls r.intercepted).trans (shifts_overwrite _ _ _)

theorem shifts_openWindow (w : World β) (t : Thread) (v : VmRef) (core : Core) (o : ObjectRef)
    (m : CellRef) : w.Shifts (w.openWindow t v core o m).2.1 := by
  have h := opens_openWindow w t v core o m
  generalize w.openWindow t v core o m = x at h ⊢
  cases h with
  | passthrough _ => exact .refl w
  | perCall _ _ _ => exact shifts_windowOpened w _ _
  | classWide _ _ _ => exact (shifts_disarm w _ m).trans (shifts_windowOpened _ _ _)

theorem shifts_closeWindow (w : World β) (t : Thread) (g : Guard β) :
    w.Shifts (w.closeWindow t g).1 := by
  unfold closeWindow
  split
  · exact .refl w
  · exact shifts_windowClosed w _ _
  · simp only
    split
    · exact (shifts_rearm w _ _ _).trans (shifts_windowClosed _ _ _)
    · exact shifts_windowClosed w _ _

/-! ### Counters -/

section

variable {w : World β} {g : RegistryRef} {i : Nat} {r : Resolution}

/-- A window opened is counted on its entry, and on no other. -/
theorem Resolves.windowOpened (h : w.Resolves g i r) (a : RegistryRef) (j : Nat) :
    ((w.modifyEntry g i Entry.windowOpened).entry a j).openWindows =
      (w.entry a j).openWindows + (if g = a ∧ i = j then 1 else 0) ∧
    ((w.modifyEntry g i Entry.windowOpened).entry a j).calls = (w.entry a j).calls := by
  by_cases haj : a = g ∧ j = i
  · obtain ⟨rfl, rfl⟩ := haj
    rw [entry_modifyEntry_self w a j _ h.live h.lt_size, if_pos ⟨rfl, rfl⟩]
    exact ⟨rfl, rfl⟩
  · rw [entry_modifyEntry_of_ne w g i _ haj, if_neg fun hgi => haj ⟨hgi.1.symm, hgi.2.symm⟩]
    exact ⟨rfl, rfl⟩

/-- A window closed is counted off there, and is a call more. -/
theorem Resolves.windowClosed (h : w.Resolves g i r) (a : RegistryRef) (j : Nat) :
    ((w.modifyEntry g i Entry.windowClosed).entry a j).openWindows =
      (w.entry a j).openWindows - (if g = a ∧ i = j then 1 else 0) ∧
    ((w.modifyEntry g i Entry.windowClosed).entry a j).calls =
      (w.entry a j).calls + (if g = a ∧ i = j then 1 else 0) := by
  by_cases haj : a = g ∧ j = i
  · obtain ⟨rfl, rfl⟩ := haj
    rw [entry_modifyEntry_self w a j _ h.live h.lt_size, if_pos ⟨rfl, rfl⟩]
    exact ⟨rfl, rfl⟩
  · rw [entry_modifyEntry_of_ne w g i _ haj, if_neg fun hgi => haj ⟨hgi.1.symm, hgi.2.symm⟩]
    exact ⟨rfl, rfl⟩

end

/-! ### Closing -/

section

variable (w : World β) (t : Thread) (g : RegistryRef) (m : CellRef) (o : ObjectRef)

@[simp] theorem closeWindow_passthrough :
    w.closeWindow t ⟨g, m, o, .passthrough⟩ = (w, t) := rfl

@[simp] theorem closeWindow_perCall (i : Nat) (key : WindowKey) :
    w.closeWindow t ⟨g, m, o, .perCall i key⟩ =
      (w.modifyEntry g i Entry.windowClosed, { t with windows := t.windows.erase key }) := rfl

theorem closeWindow_classWide {i : Nat} {r : Resolution} (token : Descriptor β)
    (hr : w.Resolves g i r) :
    w.closeWindow t ⟨g, m, o, .classWide i token⟩ =
      ((w.rearm r m token).modifyEntry g i Entry.windowClosed, t) := by
  have hr' : (w.entry g i).resolution = some r := hr
  simp only [closeWindow, hr']

end

/-! ### Contents and tables -/

theorem registries_disarm (w : World β) (r : Resolution) (m : CellRef) :
    (w.disarm r m).registries = w.registries := by
  unfold disarm
  simp only
  split
  · rfl
  · rfl

theorem content_disarm_of_ne {w : World β} {r : Resolution} {m n : CellRef} (h : n ≠ m) :
    (w.disarm r m).content n = w.content n := by
  unfold disarm
  simp only
  split
  · rw [content_overwrite_of_ne h, content_install]
  · rw [content_install]

/-- The trampoline holds what the unpatched table has in its slot. -/
theorem content_disarm_self {w : World β} {r : Resolution} {m o : CellRef}
    (h : w.cells.Live m) (ho : (w.tables.get r.unpatched)[(w.content m).slot]? = some o) :
    (w.disarm r m).content m = w.content o := by
  have hinstalled : (w.install r.cls r.unpatched).cells.Live m := h
  simp only [disarm, ho]
  exact content_overwrite_self hinstalled _

theorem content_rearm_of_ne {w : World β} {r : Resolution} {m n : CellRef} (h : n ≠ m)
    (token : Descriptor β) : (w.rearm r m token).content n = w.content n := by
  rw [rearm, content_overwrite_of_ne h, content_install]

theorem content_rearm_self {w : World β} {m : CellRef} (h : w.cells.Live m) (r : Resolution)
    (token : Descriptor β) : (w.rearm r m token).content m = token :=
  content_overwrite_self h token

theorem table_disarm_of_ne {w : World β} {r : Resolution} {c : ClassRef} (h : c ≠ r.cls)
    (m : CellRef) : (w.disarm r m).classes.get c = w.classes.get c := by
  have hinstall : (w.install r.cls r.unpatched).classes.get c = w.classes.get c :=
    Store.get_modify_of_ne h _
  unfold disarm
  simp only
  split
  · exact hinstall
  · exact hinstall

theorem table_disarm_self {w : World β} {r : Resolution} (h : w.classes.Live r.cls)
    (m : CellRef) : ((w.disarm r m).classes.get r.cls).table = r.unpatched := by
  have hinstall : (w.install r.cls r.unpatched).classes.get r.cls =
      { w.classes.get r.cls with table := r.unpatched } := Store.get_modify_self h _
  unfold disarm
  simp only
  split
  · exact congrArg Class.table hinstall
  · exact congrArg Class.table hinstall

theorem table_rearm_of_ne {w : World β} {r : Resolution} {c : ClassRef} (h : c ≠ r.cls)
    (m : CellRef) (token : Descriptor β) :
    (w.rearm r m token).classes.get c = w.classes.get c :=
  Store.get_modify_of_ne h _

theorem table_rearm_self {w : World β} {r : Resolution} (h : w.classes.Live r.cls)
    (m : CellRef) (token : Descriptor β) :
    ((w.rearm r m token).classes.get r.cls).table = r.intercepted := by
  have hinstall : (w.install r.cls r.intercepted).classes.get r.cls =
      { w.classes.get r.cls with table := r.intercepted } := Store.get_modify_self h _
  exact congrArg Class.table hinstall

end World

end Interception
