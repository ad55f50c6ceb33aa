/-
What the operations of a machine leave alone.

Allocating and writing fields touch objects and the count of allocations, nothing else.
Linking, patching, initializing and publishing make new cells, tables and classes and
work on the class they are given.  So every one of them extends the world it starts
from, and so do defining a class and setting up a registry or a machine, which are made
of them.
-/
import Interception.Proofs.Growth

namespace Interception

/-! ### Registries over a table -/

namespace Registry

/-- The index leads to entries of rows for the class name looked up. -/
def Indexed (g : Registry) : Prop :=
  ∀ name i, g.position? name = some i →
    i < g.entries.size ∧ (g.entry i).row.className = name

/-- And it leads to every entry. -/
def Complete (g : Registry) : Prop :=
  ∀ i, i < g.entries.size → g.position? (g.entry i).row.className = some i

/-- Nothing has happened to an entry yet. -/
def Untouched (e : Entry) : Prop := e.resolution = none ∧ e.openWindows = 0 ∧ e.calls = 0

private theorem entry_push (es : Array Entry) (ix ix' : List (String × Nat)) (e : Entry)
    {i : Nat} (h : i < es.size) : (⟨es.push e, ix⟩ : Registry).entry i =
      (⟨es, ix'⟩ : Registry).entry i := by
  simp [entry, Array.getD_eq_getD_getElem?, Array.getElem?_push, Nat.ne_of_lt h]

private theorem entry_push_size (es : Array Entry) (ix : List (String × Nat)) (e : Entry) :
    (⟨es.push e, ix⟩ : Registry).entry es.size = e := by
  simp [entry, Array.getD_eq_getD_getElem?]

theorem indexed_addRow {g : Registry} (h : g.Indexed) (r : Row) : (g.addRow r).Indexed := by
  unfold addRow
  split
  · exact h
  · intro name i hi
    have hi' : ((r.className, g.entries.size) :: g.index).lookup name = some i := hi
    rw [Array.size_push]
    by_cases hn : name = r.className
    · subst hn
      rw [List.lookup_cons_self] at hi'
      cases hi'
      exact ⟨Nat.lt_succ_self _, by rw [entry_push_size]⟩
    · rw [List.lookup_cons, beq_eq_false_iff_ne.mpr hn] at hi'
      obtain ⟨hlt, hrow⟩ := h name i hi'
      exact ⟨Nat.lt_succ_of_lt hlt, by rw [entry_push _ _ g.index _ hlt]; exact hrow⟩

theorem complete_addRow {g : Registry} (h : g.Complete) (r : Row) : (g.addRow r).Complete := by
  unfold addRow
  split
  · exact h
  · rename_i hnone
    intro i hi
    show ((r.className, g.entries.size) :: g.index).lookup _ = some i
    rw [Array.size_push] at hi
    rcases Nat.lt_succ_iff_lt_or_eq.mp hi with hlt | rfl
    · have hold : g.index.lookup (g.entry i).row.className = some i := h i hlt
      rw [entry_push _ _ g.index _ hlt, List.lookup_cons, beq_eq_false_iff_ne.mpr]
      · exact hold
      · intro hname
        rw [← hname] at hnone
        cases hold.symm.trans hnone
    · rw [entry_push_size, List.lookup_cons_self]

theorem untouched_addRow {g : Registry} (h : ∀ i, Untouched (g.entry i)) (r : Row) (i : Nat) :
    Untouched ((g.addRow r).entry i) := by
  unfold addRow
  split
  · exact h i
  · rcases Nat.lt_trichotomy i g.entries.size with hi | rfl | hi
    · rw [entry_push _ _ g.index _ hi]
      exact h i
    · rw [entry_push_size]
      exact ⟨rfl, rfl, rfl⟩
    · rw [entry, Array.getD_eq_getD_getElem?, Array.getElem?_eq_none (by simp; omega)]
      exact ⟨rfl, rfl, rfl⟩

/-- A registry over a table is indexed, and nothing has happened to its entries. -/
theorem ofRows_fresh (rows : List Row) :
    (ofRows rows).Indexed ∧ ∀ i, Untouched ((ofRows rows).entry i) := by
  have key : ∀ (l : List Row) (g : Registry), g.Indexed → (∀ i, Untouched (g.entry i)) →
      (l.foldl addRow g).Indexed ∧ ∀ i, Untouched ((l.foldl addRow g).entry i) := by
    intro l
    induction l with
    | nil => exact fun g h h' => ⟨h, h'⟩
    | cons r rest ih =>
      exact fun g h h' => ih _ (indexed_addRow h r) (untouched_addRow h' r)
  refine key rows {} (fun name i hi => by cases hi) fun i => ?_
  rw [entry, Array.getD_eq_getD_getElem?, Array.getElem?_eq_none (Nat.zero_le i)]
  exact ⟨rfl, rfl, rfl⟩

/-- A registry over a table finds every row it kept. -/
theorem complete_ofRows (rows : List Row) : (ofRows rows).Complete := by
  have key : ∀ (l : List Row) (g : Registry), g.Complete → (l.foldl addRow g).Complete := by
    intro l
    induction l with
    | nil => exact fun g h => h
    | cons r rest ih => exact fun g h => ih _ (complete_addRow h r)
  exact key rows {} fun i hi => absurd hi (Nat.not_lt_zero i)

end Registry

namespace World

variable {β : Type}

/-! ### Objects -/

/-- Nothing has happened but to objects and to counts of allocations. -/
structure OnlyObjects (w w' : World β) : Prop where
  rest : w' = { w with objects := w'.objects, vms := w'.vms }
  objects : ∀ o, w.objects.Live o → w'.objects.Live o ∧ w'.classOf o = w.classOf o ∧
    (w'.objects.get o).fields.length = (w.objects.get o).fields.length
  made : ∀ o, w'.objects.Live o → w.objects.Live o ∨ w.classes.Live (w'.classOf o) ∧
    (w'.objects.get o).fields.length = (w.classes.get (w'.classOf o)).fields.length
  liveVms : ∀ v, w'.vms.Live v ↔ w.vms.Live v
  vms : ∀ v, ∃ n, w'.vms.get v = { w.vms.get v with allocations := n }

namespace OnlyObjects

variable {w w' w'' : World β}

theorem refl (w : World β) : w.OnlyObjects w where
  rest := rfl
  objects _ h := ⟨h, rfl, rfl⟩
  made _ h := Or.inl h
  liveVms _ := Iff.rfl
  vms _ := ⟨_, rfl⟩

theorem classes (h : w.OnlyObjects w') : w'.classes = w.classes := by rw [h.rest]

theorem trans (h : w.OnlyObjects w') (h' : w'.OnlyObjects w'') : w.OnlyObjects w'' where
  rest := by rw [h'.rest, h.rest]
  objects o ho := by
    obtain ⟨h1, h2, h3⟩ := h.objects o ho
    obtain ⟨h4, h5, h6⟩ := h'.objects o h1
    exact ⟨h4, h5.trans h2, h6.trans h3⟩
  made o ho := by
    rcases h'.made o ho with ho' | ⟨hc, hf⟩
    · rcases h.made o ho' with ho'' | ⟨hc, hf⟩
      · exact Or.inl ho''
      · obtain ⟨-, h5, h6⟩ := h'.objects o ho'
        exact Or.inr ⟨h5 ▸ hc, by rw [h6, h5, hf]⟩
    · rw [h.classes] at hc hf
      exact Or.inr ⟨hc, hf⟩
  liveVms v := (h'.liveVms v).trans (h.liveVms v)
  vms v := by
    obtain ⟨n, hn⟩ := h.vms v
    obtain ⟨k, hk⟩ := h'.vms v
    exact ⟨k, by rw [hk, hn]⟩

theorem alike (h : w.OnlyObjects w') (v : VmRef) : (w.vms.get v).Alike (w'.vms.get v) := by
  obtain ⟨n, hn⟩ := h.vms v
  rw [hn]
  exact ⟨rfl, rfl, rfl, rfl, rfl, fun _ hc => hc⟩

theorem cells (h : w.OnlyObjects w') : w'.cells = w.cells := by rw [h.rest]

theorem tables (h : w.OnlyObjects w') : w'.tables = w.tables := by rw [h.rest]

theorem registries (h : w.OnlyObjects w') : w'.registries = w.registries := by rw [h.rest]

theorem entry (h : w.OnlyObjects w') (g : RegistryRef) (i : Nat) :
    w'.entry g i = w.entry g i := by
  rw [World.entry, h.registries, World.entry]

theorem toExtends (h : w.OnlyObjects w') (n : Nat) : Extends n w w' where
  grows :=
    { cells := fun m hm => by rw [h.cells]; exact hm
      tables := by rw [h.tables]; exact .refl _
      classes := fun c hc => by rw [h.classes]; exact ⟨hc, .refl _⟩
      objects := h.objects
      registries := fun g hg => by rw [h.registries]; exact ⟨hg, rfl, rfl⟩
      rows := fun g i _ => by rw [h.entry]
      resolved := fun {g i r} hr => by rw [Resolves, h.entry]; exact hr
      vms := fun v hv => ⟨(h.liveVms v).mpr hv, h.alike v⟩ }
  cells := by rw [h.cells]; exact .refl _
  classes := fun c _ _ => by rw [h.classes]
  counters := fun g i _ => by rw [h.entry]; exact ⟨rfl, rfl⟩
  newly := fun {g i r} hr => by rw [Resolves, h.entry] at hr; exact Or.inl hr

end OnlyObjects

theorem live_of_initialized {w : World β} {c : ClassRef}
    (h : (w.classes.get c).initialized = true) : w.classes.Live c := by
  by_contra hc
  rw [Store.get_of_not_live hc] at h
  cases h

theorem onlyObjects_newObject {w : World β} {c : ClassRef} (hc : w.classes.Live c) :
    w.OnlyObjects (w.newObject c).2 where
  rest := rfl
  objects o ho := by
    have hget : (w.newObject c).2.objects.get o = w.objects.get o :=
      Store.get_add_of_live ho _
    exact ⟨ho.add _, congrArg Object.cls hget, congrArg (fun x => x.fields.length) hget⟩
  made o ho := by
    rcases (Store.live_add_iff _ _ o).mp ho with ho' | rfl
    · exact Or.inl ho'
    · have hget : (w.newObject c).2.objects.get w.objects.next = ⟨c, _⟩ :=
        Store.get_add_next _ _
      refine Or.inr ?_
      rw [classOf, hget]
      exact ⟨hc, List.length_replicate⟩
  liveVms _ := Iff.rfl
  vms _ := ⟨_, rfl⟩

theorem onlyObjects_setField {w w' : World β} {o : ObjectRef} {i : Nat} {x : Value}
    (h : w.setField o i x = .ok w') : w.OnlyObjects w' := by
  unfold setField at h
  simp only at h
  split at h
  · cases h
    have hcls : ∀ q, (World.classOf { w with objects := w.objects.modify o fun y =>
        { y with fields := y.fields.set i x } } q) = w.classOf q := fun q =>
      Store.part_get_modify Object.cls (f := fun y => { y with fields := y.fields.set i x })
        (fun _ => rfl) w.objects o q
    have hlen : ∀ q, ((w.objects.modify o fun y =>
        { y with fields := y.fields.set i x }).get q).fields.length =
          (w.objects.get q).fields.length := fun q =>
      Store.part_get_modify (fun y : Object => y.fields.length)
        (f := fun y => { y with fields := y.fields.set i x })
        (fun y => List.length_set ..) w.objects o q
    exact
      { rest := rfl
        objects := fun q hq => ⟨(Store.live_modify ..).mpr hq, hcls q, hlen q⟩
        made := fun q hq => Or.inl ((Store.live_modify ..).mp hq)
        liveVms := fun _ => Iff.rfl
        vms := fun _ => ⟨_, rfl⟩ }
  · cases h

theorem onlyObjects_countAllocation (w : World β) (v : VmRef) (f : Vm → Nat) :
    w.OnlyObjects (w.modifyVm v fun k => { k with allocations := f k }) where
  rest := rfl
  objects _ h := ⟨h, rfl, rfl⟩
  made _ h := Or.inl h
  liveVms _ := Store.live_modify ..
  vms u := by
    by_cases hu : u = v
    · subst hu
      by_cases hlive : w.vms.Live u
      · exact ⟨_, Store.get_modify_self hlive _⟩
      · refine ⟨(w.vms.get u).allocations, ?_⟩
        rw [modifyVm, Store.get_of_not_live hlive,
          Store.get_of_not_live (by rw [Store.live_modify]; exact hlive)]
    · exact ⟨_, Store.get_modify_of_ne hu _⟩

theorem onlyObjects_bindWith {allocate : World β → ClassRef → Ending ObjectRef × World β}
    (ha : ∀ (w : World β) c, w.OnlyObjects (allocate w c).2) (w : World β) (g : RegistryRef)
    (o : ObjectRef) : w.OnlyObjects (bindWith allocate w g o).2 := by
  unfold bindWith
  split
  · exact .refl w
  · rename_i r _
    have hmade := ha w r.handlerClass
    generalize allocate w r.handlerClass = x at hmade ⊢
    obtain ⟨e, w'⟩ := x
    cases e with
    | value h =>
      rw [Ending.andThen_value]
      split
      · rename_i w'' hset
        exact hmade.trans (onlyObjects_setField hset)
      · exact hmade
    | _ => exact hmade

theorem onlyObjects_allocateWithin (v : VmRef) (fuel : Nat) (w : World β) (c : ClassRef) :
    w.OnlyObjects (allocateWithin v fuel w c).2 := by
  induction fuel generalizing w c with
  | zero => exact .refl w
  | succ fuel ih =>
    rw [allocateWithin]
    split
    · rename_i hinit
      have hnew := onlyObjects_newObject (live_of_initialized hinit)
      have hbind := onlyObjects_bindWith ih (w.newObject c).2
        ((w.newObject c).2.coreOf v).registry (w.newObject c).1
      generalize hx : bindWith (allocateWithin v fuel) (w.newObject c).2
        ((w.newObject c).2.coreOf v).registry (w.newObject c).1 = x at hbind
      obtain ⟨e, w'⟩ := x
      simp only [hx]
      cases e with
      | value h =>
        rw [Ending.andThen_value]
        exact (hnew.trans hbind).trans (onlyObjects_countAllocation w' v fun k => k.allocations + 1)
      | _ => exact hnew.trans hbind
    · exact .refl w

/-- Allocating touches objects and the count of allocations only. -/
theorem onlyObjects_allocate (w : World β) (v : VmRef) (c : ClassRef) :
    w.OnlyObjects (w.allocate v c).2 :=
  onlyObjects_allocateWithin v _ w c

theorem extends_allocate (n : Nat) (w : World β) (v : VmRef) (c : ClassRef) :
    Extends n w (w.allocate v c).2 :=
  (onlyObjects_allocate w v c).toExtends n

theorem extends_setField (n : Nat) {w w' : World β} {o : ObjectRef} {i : Nat} {x : Value}
    (h : w.setField o i x = .ok w') : Extends n w w' :=
  (onlyObjects_setField h).toExtends n

/-! ### Cells and tables in the making -/

theorem keeps_declareAll (number : Nat) (owner : String) (ds : List (MethodDecl (Option β)))
    (l : Layout β) : l.cells.Keeps (ds.foldl (Layout.declare number owner) l).cells := by
  induction ds generalizing l with
  | nil => exact .refl _
  | cons d rest ih =>
    exact (Store.keeps_add l.cells _).trans (ih (Layout.declare number owner l d))

theorem keeps_declareDirects (number : Nat) (owner : String) (ds : List (MethodDecl β)) :
    ∀ (i : Nat) (cells : Store .cell (Descriptor β)),
      cells.Keeps (declareDirects number owner i ds cells).2 := by
  induction ds with
  | nil => exact fun i cells => .refl _
  | cons d rest ih => exact fun i cells => (Store.keeps_add cells _).trans (ih _ _)

theorem keeps_copyTable (row : Row) (ms : List CellRef) :
    ∀ cells : Store .cell (Descriptor β), cells.Keeps (copyTable row cells ms).2 := by
  induction ms with
  | nil => exact fun cells => .refl _
  | cons m rest ih => exact fun cells => (Store.keeps_add cells _).trans (ih _)

/-! ### Defining a class -/

theorem extends_link (n : Nat) (w : World β) (d : ClassDecl β) (number : Nat)
    (super? : Option ClassRef) : Extends n w (w.link d number super?).2 := by
  have hcells : w.cells.Keeps (w.link d number super?).2.cells := by
    refine Store.Keeps.trans ?_ (keeps_declareDirects number d.name d.directs 0 _)
    cases super? with
    | none => exact keeps_declareAll number d.name d.virtuals ⟨w.cells, [], []⟩
    | some s =>
      exact keeps_declareAll number d.name d.virtuals
        ⟨w.cells, w.tableOf s, (w.classes.get s).slots⟩
  exact
    { grows :=
        { cells := fun m hm => (hcells m hm).1
          tables := Store.keeps_add _ _
          classes := fun c hc => ⟨hc.add _, .of_eq (Store.get_add_of_live hc _)⟩
          objects := fun o ho => ⟨ho, rfl, rfl⟩
          registries := fun g hg => ⟨hg, rfl, rfl⟩
          rows := fun g i _ => rfl
          resolved := fun hr => hr
          vms := fun v hv => ⟨hv, .refl _⟩ }
      cells := hcells
      classes := fun c hc _ => Store.get_add_of_live hc _
      counters := fun g i _ => ⟨rfl, rfl⟩
      newly := fun hr => Or.inl hr }

/-- A change to one class that leaves all but its table, its scope and its
initialization alone. -/
theorem extends_modifyClass {n : Nat} (w : World β) {c : ClassRef} (hn : n ≤ c.index)
    (f : Class β → Class β) (hf : ∀ k : Class β, k.Alike (f k)) :
    Extends n w { w with classes := w.classes.modify c f } where
  grows :=
    { Grows.refl w with
      classes := fun a ha => by
        refine ⟨(Store.live_modify ..).mpr ha, ?_⟩
        by_cases hac : a = c
        · subst hac
          show (w.classes.get a).Alike ((w.classes.modify a f).get a)
          rw [Store.get_modify_self ha]
          exact hf _
        · exact .of_eq (Store.get_modify_of_ne hac f) }
  cells := .refl _
  classes a _ han := Store.get_modify_of_ne (fun hac => by subst hac; omega) f
  counters _ _ _ := ⟨rfl, rfl⟩
  newly hr := Or.inl hr

/-- Filling in an entry for a class from number `n` on. -/
theorem extends_resolve {n : Nat} (w : World β) (g : RegistryRef) (i : Nat) {r : Resolution}
    (hn : n ≤ r.cls.index) : Extends n w (w.modifyEntry g i (·.resolve r)) where
  grows :=
    { Grows.refl w with
      registries := fun a ha =>
        ⟨(live_modifyEntry w g i _ a).mpr ha, index_modifyEntry w g i _ a,
          size_modifyEntry w g i _ a⟩
      rows := fun a j _ => part_entry_modifyEntry w g i (·.resolve r) Entry.row (fun _ => rfl) a j
      resolved := fun {a j r'} hr => by
        by_cases h : a = g ∧ j = i
        · obtain ⟨rfl, rfl⟩ := h
          rw [Resolves, entry_modifyEntry_self w a j _ hr.live hr.lt_size]
          show (w.entry a j).resolution.or (some r) = some r'
          rw [show (w.entry a j).resolution = some r' from hr]
          rfl
        · rw [Resolves, entry_modifyEntry_of_ne w g i _ h]
          exact hr }
  cells := .refl _
  classes _ _ _ := rfl
  counters a j _ :=
    ⟨part_entry_modifyEntry w g i (·.resolve r) Entry.openWindows (fun _ => rfl) a j,
      part_entry_modifyEntry w g i (·.resolve r) Entry.calls (fun _ => rfl) a j⟩
  newly {a j r'} hr := by
    by_cases h : a = g ∧ j = i
    · obtain ⟨rfl, rfl⟩ := h
      have hlive := (live_modifyEntry w a j _ a).mp hr.live
      have hsize := size_modifyEntry w a j (·.resolve r) a ▸ hr.lt_size
      rw [Resolves, entry_modifyEntry_self w a j _ hlive hsize] at hr
      have hr' : (w.entry a j).resolution.or (some r) = some r' := hr
      cases he : (w.entry a j).resolution with
      | some r'' =>
        rw [he] at hr'
        exact Or.inl (he.trans hr')
      | none =>
        rw [he] at hr'
        cases hr'
        exact Or.inr hn
    · rw [Resolves, entry_modifyEntry_of_ne w g i _ h] at hr
      exact Or.inl hr

theorem extends_installTrampolines {n : Nat} (w : World β) (g : RegistryRef) (i : Nat)
    {c : ClassRef} (handler : ClassRef) (offset : Nat) (hn : n ≤ c.index) :
    Extends n w (w.installTrampolines g i c handler offset) := by
  let w₁ : World β :=
    { w with
      cells := (copyTable (w.entry g i).row w.cells (w.tableOf c)).2
      tables := w.tables.add (copyTable (w.entry g i).row w.cells (w.tableOf c)).1 }
  have hmake : Extends n w w₁ :=
    { grows :=
        { Grows.refl w with
          cells := fun m hm => (keeps_copyTable _ _ w.cells m hm).1
          tables := Store.keeps_add _ _ }
      cells := keeps_copyTable _ _ w.cells
      classes := fun _ _ _ => rfl
      counters := fun _ _ _ => ⟨rfl, rfl⟩
      newly := fun hr => Or.inl hr }
  have hclass : Extends n w₁ { w₁ with classes := w₁.classes.modify c fun k =>
      { k with
        table := w.tables.next
        scope := (k.scope.afterCells (w.tableOf c).length).afterTable w.tables.next } } :=
    extends_modifyClass w₁ hn _ fun k => ⟨rfl, rfl, rfl, rfl, rfl, rfl, rfl, fun h => h⟩
  exact (hmake.trans hclass).trans
    (extends_resolve _ g i (r := ⟨c, handler, offset, w.tables.next, (w.classes.get c).table⟩) hn)

theorem extends_patch {n : Nat} (w : World β) (v : VmRef) (core : Core) {c : ClassRef}
    (hn : n ≤ c.index) : Extends n w (w.patch v core c).2 := by
  unfold patch
  split
  · exact .refl n w
  · simp only
    split
    · exact .refl n w
    · split
      · exact .refl n w
      · split
        · exact .refl n w
        · exact extends_installTrampolines w _ _ _ _ hn

theorem extends_initializeClass {n : Nat} (w : World β) (v : VmRef) {c : ClassRef}
    (hn : n ≤ c.index) : Extends n w (w.initializeClass v c) :=
  (extends_patch w v (w.coreOf v) hn).trans
    (extends_modifyClass _ hn _ fun _ => ⟨rfl, rfl, rfl, rfl, rfl, rfl, rfl, fun _ => rfl⟩)

theorem extends_modifyVm (n : Nat) (w : World β) (v : VmRef) (f : Vm → Vm)
    (hf : ∀ k : Vm, k.Alike (f k)) : Extends n w (w.modifyVm v f) where
  grows :=
    { Grows.refl w with
      vms := fun u hu => by
        refine ⟨(Store.live_modify ..).mpr hu, ?_⟩
        by_cases huv : u = v
        · subst huv
          show (w.vms.get u).Alike ((w.vms.modify u f).get u)
          rw [Store.get_modify_self hu]
          exact hf _
        · show (w.vms.get u).Alike ((w.vms.modify v f).get u)
          rw [Store.get_modify_of_ne huv]
          exact .refl _ }
  cells := .refl _
  classes _ _ _ := rfl
  counters _ _ _ := ⟨rfl, rfl⟩
  newly hr := Or.inl hr

theorem extends_publish (n : Nat) (w : World β) (v : VmRef) (c : ClassRef) :
    Extends n w (w.publish v c) :=
  extends_modifyVm n w v _ fun k =>
    ⟨rfl, rfl, rfl, rfl, rfl, fun x hx => by
      simp only [ClassRegistry.register, Array.mem_push]
      exact Or.inl hx⟩

/-- What a successful definition is made of. -/
theorem define_eq_ok {w w' : World β} {v : VmRef} {d : ClassDecl β} {c : ClassRef}
    (h : w.define v d = .ok (c, w')) :
    (w.vms.get v).classes.contains d.name = false ∧ c = w.classes.next ∧
    ∃ s, w.findClass v (d.extends?.getD rootClassName) = some s ∧
      w' = (((w.link d (w.vms.get v).classes.next (some s)).2.initializeClass v c).publish
        v c) := by
  unfold define at h
  simp only at h
  split at h
  · cases h
  · rename_i hname
    split at h
    · cases h
    · rename_i s hs
      cases h
      exact ⟨by simpa using hname, rfl, s, hs, rfl⟩

theorem extends_define {w w' : World β} {v : VmRef} {d : ClassDecl β} {c : ClassRef}
    (h : w.define v d = .ok (c, w')) : Extends w.classes.size w w' := by
  obtain ⟨-, rfl, s, -, rfl⟩ := define_eq_ok h
  exact ((extends_link _ w d _ (some s)).trans
    (extends_initializeClass _ v (Nat.le_refl w.classes.size))).trans (extends_publish _ _ v _)

/-! ### Setting up -/

theorem extends_newRegistry (n : Nat) (w : World β) (rows : List Row) :
    Extends n w (w.newRegistry rows).2 := by
  have hkeep : w.registries.Keeps (w.newRegistry rows).2.registries := Store.keeps_add _ _
  have hentry : ∀ g i, w.registries.Live g → (w.newRegistry rows).2.entry g i = w.entry g i :=
    fun g i hg => congrArg (Registry.entry · i) (hkeep g hg).2
  exact
    { grows :=
        { Grows.refl w with
          registries := fun g hg => by
            obtain ⟨hlive, hget⟩ := hkeep g hg
            exact ⟨hlive, by rw [hget], by rw [hget]⟩
          rows := fun g i hg => by rw [hentry g i hg]
          resolved := fun {g i r} hr => by rw [Resolves, hentry g i hr.live]; exact hr }
      cells := .refl _
      classes := fun _ _ _ => rfl
      counters := fun g i hg => by rw [hentry g i hg]; exact ⟨rfl, rfl⟩
      newly := fun {g i r} hr => by
        rcases (Store.live_add_iff _ _ g).mp hr.live with hg | rfl
        · exact Or.inl (by rw [Resolves, ← hentry g i hg]; exact hr)
        · have hget : (w.newRegistry rows).2.registries.get w.registries.next = .ofRows rows :=
            Store.get_add_next _ _
          rw [Resolves, entry, hget, ((Registry.ofRows_fresh rows).2 i).1] at hr
          cases hr }

/-- One registry is new, and is the one over the rows. -/
theorem get_newRegistry (w : World β) (rows : List Row) (g : RegistryRef) :
    (w.newRegistry rows).2.registries.get g =
      if g = w.registries.next then .ofRows rows else w.registries.get g := by
  by_cases hg : g = w.registries.next
  · rw [if_pos hg, hg]
    exact Store.get_add_next _ _
  · rw [if_neg hg]
    by_cases hlive : w.registries.Live g
    · exact Store.get_add_of_live hlive _
    · rw [Store.get_of_not_live hlive, Store.get_of_not_live]
      exact fun hnew => ((Store.live_add_iff _ _ g).mp hnew).elim hlive hg

/-- No entry of a new registry is filled in. -/
theorem resolves_newRegistry {w : World β} {rows : List Row} {g : RegistryRef} {i : Nat}
    {r : Resolution} (h : (w.newRegistry rows).2.Resolves g i r) : w.Resolves g i r := by
  rcases (extends_newRegistry (r.cls.index + 1) w rows).newly h with h | hn
  · exact h
  · omega

theorem extends_addVm (n : Nat) (w : World β) (k : Vm) :
    Extends n w { w with vms := w.vms.add k } where
  grows :=
    { Grows.refl w with
      vms := fun v hv => by
        refine ⟨hv.add k, ?_⟩
        show (w.vms.get v).Alike ((w.vms.add k).get v)
        rw [Store.get_add_of_live hv]
        exact .refl _ }
  cells := .refl _
  classes _ _ _ := rfl
  counters _ _ _ := ⟨rfl, rfl⟩
  newly hr := Or.inl hr

/-- The machine with its two classes linked and nothing published. -/
def bareMachine (w : World β) (options : VmOptions) (core : Core) : World β :=
  let w₁ := (w.link { name := rootClassName } 0 none).2
  let w₂ := (w₁.link { name := proxyClassName, fields := [⟨handlerFieldName, handlerFieldType⟩] }
    1 (some w.classes.next)).2
  { w₂ with
    vms := w₂.vms.add
      { classes := {}, core, root := w.classes.next, proxy := w₁.classes.next
        proxyOffset := (w₂.classes.get w₁.classes.next).fields.length - 1, options } }

/-- Setting up a machine: link its two classes, then initialize and publish each. -/
theorem newVmAround_eq (w : World β) (options : VmOptions) (core : Core) :
    w.newVmAround options core =
      (w.vms.next,
        ((((w.bareMachine options core).initializeClass w.vms.next w.classes.next).publish
            w.vms.next w.classes.next).initializeClass w.vms.next ⟨w.classes.size + 1⟩).publish
          w.vms.next ⟨w.classes.size + 1⟩) := by
  have hproxy : (w.link { name := rootClassName } 0 none).2.classes.next =
      ⟨w.classes.size + 1⟩ := by
    simp [link, Store.next]
  rw [← hproxy]
  rfl

theorem extends_bareMachine (n : Nat) (w : World β) (options : VmOptions) (core : Core) :
    Extends n w (w.bareMachine options core) := by
  refine ((extends_link n w { name := rootClassName } 0 none).trans
    (extends_link n _ { name := proxyClassName, fields := [⟨handlerFieldName, handlerFieldType⟩] }
      1 (some w.classes.next))).trans ?_
  exact extends_addVm n _ _

theorem extends_newVmAround (w : World β) (options : VmOptions) (core : Core) :
    Extends w.classes.size w (w.newVmAround options core).2 := by
  rw [newVmAround_eq]
  have hroot : w.classes.size ≤ w.classes.next.index := Nat.le_refl _
  have hproxy : w.classes.size ≤ (⟨w.classes.size + 1⟩ : ClassRef).index := Nat.le_succ _
  exact (((((extends_bareMachine _ w options core).trans
    (extends_initializeClass _ _ hroot)).trans (extends_publish _ _ _ _)).trans
    (extends_initializeClass _ _ hproxy)).trans (extends_publish _ _ _ _))

end World

end Interception
