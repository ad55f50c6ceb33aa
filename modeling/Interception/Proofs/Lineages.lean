/-
What classes inherit.

A class is linked below a class that is there already, and nothing of what it takes over
changes afterwards.  So a superclass's lineage is the end of the class's own, its fields
come first, and its slots mean the same in the class.  `Lineages` says this for all proper
superclasses at once, which makes it easy to use and no harder to keep: a new class's
superclasses are one class and that class's superclasses.
-/
import Interception.Proofs.Entries
import Interception.Proofs.Layouts

namespace Interception.World

variable {β : Type} {w w' : World β}

/-! ### The same classes -/

/-- The same classes, up to their current tables, scopes and initialization. -/
structure SameClasses (w w' : World β) : Prop where
  live : ∀ c, w'.classes.Live c ↔ w.classes.Live c
  alike : ∀ c, (w.classes.get c).Alike (w'.classes.get c)

namespace SameClasses

/-- Nothing was lost and nothing was made. -/
theorem of_grows (h : w.Grows w') (hsize : w'.classes.size = w.classes.size) :
    w.SameClasses w' where
  live c := by rw [Store.Live, hsize, Store.Live]
  alike c := by
    by_cases hc : w.classes.Live c
    · exact (h.classes c hc).2
    · have hc' : ¬ w'.classes.Live c := by rw [Store.Live, hsize]; exact hc
      rw [Store.get_of_not_live hc, Store.get_of_not_live hc']
      exact .refl _

theorem trans {w'' : World β} (h : w.SameClasses w') (h' : w'.SameClasses w'') :
    w.SameClasses w'' where
  live c := (h'.live c).trans (h.live c)
  alike c := (h.alike c).trans (h'.alike c)

theorem lineage (h : w.SameClasses w') (c : ClassRef) : w'.lineage c = w.lineage c :=
  congrArg (c :: ·) (h.alike c).ancestors

theorem className (h : w.SameClasses w') (c : ClassRef) : w'.className c = w.className c :=
  (h.alike c).name

end SameClasses

theorem size_installTrampolines (w : World β) (g : RegistryRef) (i : Nat) (c handler : ClassRef)
    (offset : Nat) :
    (w.installTrampolines g i c handler offset).classes.size = w.classes.size :=
  Store.size_modify ..

theorem size_patch (w : World β) (v : VmRef) (core : Core) (c : ClassRef) :
    (w.patch v core c).2.classes.size = w.classes.size := by
  have hp := patches_patch w v core c
  generalize (w.patch v core c).2 = x at hp
  cases hp with
  | nothing => rfl
  | installs _ _ _ _ => exact size_installTrampolines ..

theorem sameClasses_initializeClass (w : World β) (v : VmRef) (c : ClassRef) :
    w.SameClasses (w.initializeClass v c) := by
  refine .of_grows (extends_initializeClass w v (Nat.zero_le c.index)).grows ?_
  exact (Store.size_modify ..).trans (size_patch ..)

theorem Shifts.sameClasses (h : w.Shifts w') : w.SameClasses w' where
  live := h.liveClasses
  alike := h.alike

theorem OnlyObjects.sameClasses (h : w.OnlyObjects w') : w.SameClasses w' :=
  .of_grows (h.toExtends 0).grows (by rw [h.classes])

/-! ### Superclasses -/

/-- The class itself declares a virtual method of this name. -/
def Declares (w : World β) (c : ClassRef) (name : String) : Prop :=
  (w.classes.get c).declares name = true

/-- The slot of a virtual method name in a class. -/
def slotOf (w : World β) (c : ClassRef) (name : String) : Option Nat :=
  (w.classes.get c).slotOf name

/-- The proper superclasses of a class, nearest first. -/
def ancestors (w : World β) (c : ClassRef) : List ClassRef := (w.classes.get c).ancestors

theorem lineage_eq (w : World β) (c : ClassRef) : w.lineage c = c :: w.ancestors c := rfl

theorem mem_lineage_self (w : World β) (c : ClassRef) : c ∈ w.lineage c :=
  List.mem_cons_self

theorem mem_lineage_of_mem_ancestors {c a : ClassRef} (h : a ∈ w.ancestors c) :
    a ∈ w.lineage c := List.mem_cons_of_mem c h

/-- What every class has from its superclasses. -/
structure Lineages (w : World β) : Prop where
  live : ∀ {c a}, a ∈ w.ancestors c → w.classes.Live a
  lt : ∀ {c a}, a ∈ w.ancestors c → a.index < c.index
  nested : ∀ {c a}, a ∈ w.ancestors c → w.lineage a <:+ w.ancestors c
  headed : ∀ {c s}, (w.ancestors c).head? = some s → w.ancestors c = w.lineage s
  fields : ∀ {c a}, a ∈ w.ancestors c → (w.classes.get a).fields <+: (w.classes.get c).fields
  slots : ∀ {c a name k}, a ∈ w.ancestors c → w.slotOf a name = some k → w.slotOf c name = some k
  /-- A class has a slot for what it or a superclass declares, and for nothing else. -/
  slotted : ∀ {c} name, w.classes.Live c →
    ((w.slotOf c name).isSome = true ↔ ∃ a ∈ w.lineage c, w.Declares a name)
  distinct : ∀ {c name name' k}, w.slotOf c name = some k → w.slotOf c name' = some k →
    name = name'

namespace Lineages

theorem empty : ({} : World β).Lineages where
  live h := by cases h
  lt h := by cases h
  nested h := by cases h
  headed h := by cases h
  fields h := by cases h
  slots h := by cases h
  slotted _ h := absurd h (Nat.not_lt_zero _)
  distinct h := by cases h

theorem of_sameClasses (h : w.Lineages) (hs : w.SameClasses w') : w'.Lineages := by
  have hancestors : ∀ c, w'.ancestors c = w.ancestors c := fun c => (hs.alike c).ancestors
  have hslots : ∀ c name, w'.slotOf c name = w.slotOf c name :=
    fun c name => (hs.alike c).slotOf name
  have hdeclares : ∀ c name, w'.Declares c name ↔ w.Declares c name := by
    intro c name
    rw [Declares, Class.declares, (hs.alike c).declared, Declares, Class.declares]
  exact
    { live := fun ha => (hs.live _).mpr (h.live (hancestors _ ▸ ha))
      lt := fun ha => h.lt (hancestors _ ▸ ha)
      nested := fun ha => by
        rw [hs.lineage, hancestors]
        exact h.nested (hancestors _ ▸ ha)
      headed := fun {c s} hc => by
        rw [hs.lineage, hancestors]
        exact h.headed (hancestors c ▸ hc)
      fields := fun ha => by
        rw [(hs.alike _).fields, (hs.alike _).fields]
        exact h.fields (hancestors _ ▸ ha)
      slots := fun ha hk => by
        rw [hslots] at hk ⊢
        exact h.slots (hancestors _ ▸ ha) hk
      slotted := fun {c} name hc => by
        rw [hslots, h.slotted name ((hs.live c).mp hc), hs.lineage]
        simp only [hdeclares]
      distinct := fun hk hk' => h.distinct (hslots _ _ ▸ hk) (hslots _ _ ▸ hk') }

variable {c a b : ClassRef}

theorem live_of_mem_lineage (h : w.Lineages) (hc : w.classes.Live c) (ha : a ∈ w.lineage c) :
    w.classes.Live a := by
  rcases List.mem_cons.mp ha with rfl | ha
  · exact hc
  · exact h.live ha

theorem lineage_suffix (h : w.Lineages) (ha : a ∈ w.lineage c) : w.lineage a <:+ w.lineage c := by
  rcases List.mem_cons.mp ha with rfl | ha
  · exact List.suffix_refl _
  · exact (h.nested ha).trans (List.suffix_cons c _)

theorem mem_lineage_trans (h : w.Lineages) (ha : a ∈ w.lineage b) (hb : b ∈ w.lineage c) :
    a ∈ w.lineage c :=
  (h.lineage_suffix hb).subset ha

theorem slots_of_mem_lineage (h : w.Lineages) {name : String} {k : Nat} (ha : a ∈ w.lineage c)
    (hk : w.slotOf a name = some k) : w.slotOf c name = some k := by
  rcases List.mem_cons.mp ha with rfl | ha
  · exact hk
  · exact h.slots ha hk

/-- Of two classes on one lineage one is the other or a superclass of it. -/
theorem comparable (h : w.Lineages) (ha : a ∈ w.lineage c) (hb : b ∈ w.lineage c) :
    a = b ∨ a ∈ w.ancestors b ∨ b ∈ w.ancestors a := by
  have key : a ∈ w.lineage b ∨ b ∈ w.lineage a := by
    rcases List.suffix_or_suffix_of_suffix (h.lineage_suffix ha) (h.lineage_suffix hb) with
      hab | hba
    · exact Or.inl (hab.subset (w.mem_lineage_self a))
    · exact Or.inr (hba.subset (w.mem_lineage_self b))
  rcases key with hab | hba
  · rcases List.mem_cons.mp hab with rfl | hab
    · exact Or.inl rfl
    · exact Or.inr (Or.inl hab)
  · rcases List.mem_cons.mp hba with rfl | hba
    · exact Or.inl rfl
    · exact Or.inr (Or.inr hba)

theorem ordered_slots (h : w.Lineages) {table : List CellRef}
    {cells : Store .cell (Descriptor β)}
    (hlt : ∀ {name k}, w.slotOf c name = some k → k < table.length)
    (hnamed : ∀ {k}, k < table.length → ∃ name, w.slotOf c name = some k) :
    (⟨cells, table, (w.classes.get c).slots⟩ : Layout β).Ordered where
  lt hk := hlt hk
  named hk := hnamed hk
  inj hk hk' := h.distinct hk hk'

end Lineages

/-! ### Linking -/

/-- Where linking below a class starts from. -/
def inherited (w : World β) : Option ClassRef → Layout β
  | some s => ⟨w.cells, w.tableOf s, (w.classes.get s).slots⟩
  | none => ⟨w.cells, [], []⟩

/-- The layout of a class linked below another. -/
def laidOut (w : World β) (d : ClassDecl β) (number : Nat) (super? : Option ClassRef) :
    Layout β :=
  d.virtuals.foldl (Layout.declare number d.name) (w.inherited super?)

section Link

variable (w : World β) (d : ClassDecl β) (number : Nat) (super? : Option ClassRef)

/-- What is settled about a linked class. -/
structure LinkedAs (k : Class β) : Prop where
  position : k.number = number
  name : k.name = d.name
  ancestors : k.ancestors = (super?.map w.lineage).getD []
  fields : k.fields = (super?.map fun s => (w.classes.get s).fields).getD [] ++ d.fields
  table : k.table = w.tables.next
  slots : k.slots = (w.laidOut d number super?).slots
  declared : k.declared = d.virtuals
  initialized : k.initialized = false

theorem get_link_next :
    LinkedAs w d number super? ((w.link d number super?).2.classes.get w.classes.next) := by
  have hget : (w.link d number super?).2.classes.get w.classes.next =
      { number
        name := d.name
        ancestors := match super? with
          | some s => w.lineage s
          | none => []
        fields := (match super? with
          | some s => (w.classes.get s).fields
          | none => []) ++ d.fields
        table := w.tables.next
        slots := (w.laidOut d number super?).slots
        declared := d.virtuals
        directs := (declareDirects number d.name 0 d.directs
          (w.laidOut d number super?).cells).1
        scope := ((({ loader := d.loader } : Scope).afterCells d.virtuals.length).afterTable
          w.tables.next).afterCells d.directs.length } := by
    cases super? with
    | none => exact Store.get_add_next _ _
    | some s => exact Store.get_add_next _ _
  rw [hget]
  cases super? with
  | none => exact ⟨rfl, rfl, rfl, rfl, rfl, rfl, rfl, rfl⟩
  | some s => exact ⟨rfl, rfl, rfl, rfl, rfl, rfl, rfl, rfl⟩

theorem get_link_of_ne {c : ClassRef} (hc : c ≠ w.classes.next) :
    (w.link d number super?).2.classes.get c = w.classes.get c := by
  by_cases hlive : w.classes.Live c
  · exact Store.get_add_of_live hlive _
  · have hlive' : ¬ (w.link d number super?).2.classes.Live c := fun h =>
      ((Store.live_add_iff _ _ c).mp h).elim hlive hc
    rw [Store.get_of_not_live hlive, Store.get_of_not_live hlive']

theorem live_link_iff (c : ClassRef) :
    (w.link d number super?).2.classes.Live c ↔ w.classes.Live c ∨ c = w.classes.next :=
  Store.live_add_iff _ _ c

theorem tables_link :
    (w.link d number super?).2.tables = w.tables.add (w.laidOut d number super?).table := by
  cases super? with
  | none => rfl
  | some s => rfl

theorem keeps_link :
    (w.laidOut d number super?).cells.Keeps (w.link d number super?).2.cells := by
  cases super? with
  | none => exact keeps_declareDirects number d.name d.directs 0 _
  | some s => exact keeps_declareDirects number d.name d.directs 0 _

end Link

theorem laid_laidOut (d : ClassDecl β) (number : Nat) {super? : Option ClassRef}
    (h : (w.inherited super?).Ordered) :
    Layout.Laid number d.name (w.inherited super?) d.virtuals (w.laidOut d number super?) :=
  Layout.laid_foldl h d.virtuals

/-- What linking a class does to the classes: one is new, the others are as they were. -/
structure Links (w w' : World β) (d : ClassDecl β) (number : Nat) (super? : Option ClassRef) :
    Prop where
  new : LinkedAs w d number super? (w'.classes.get w.classes.next)
  old : ∀ {c}, c ≠ w.classes.next → w'.classes.get c = w.classes.get c
  live : ∀ c, w'.classes.Live c ↔ w.classes.Live c ∨ c = w.classes.next

theorem links_link (w : World β) (d : ClassDecl β) (number : Nat) (super? : Option ClassRef) :
    Links w (w.link d number super?).2 d number super? where
  new := get_link_next w d number super?
  old := get_link_of_ne w d number super?
  live := live_link_iff w d number super?

namespace Links

variable {d : ClassDecl β} {number : Nat} {super? : Option ClassRef} {c s a : ClassRef}

theorem ancestors_old (h : Links w w' d number super?) (hc : c ≠ w.classes.next) :
    w'.ancestors c = w.ancestors c :=
  congrArg Class.ancestors (h.old hc)

theorem lineage_old (h : Links w w' d number super?) (hc : c ≠ w.classes.next) :
    w'.lineage c = w.lineage c :=
  congrArg (c :: ·) (h.ancestors_old hc)

theorem slotOf_old (h : Links w w' d number super?) (hc : c ≠ w.classes.next) (name : String) :
    w'.slotOf c name = w.slotOf c name :=
  congrArg (Class.slotOf · name) (h.old hc)

theorem declares_old (h : Links w w' d number super?) (hc : c ≠ w.classes.next)
    (name : String) : w'.Declares c name ↔ w.Declares c name := by
  rw [Declares, h.old hc, Declares]

theorem slotOf_new (h : Links w w' d number super?) (name : String) :
    w'.slotOf w.classes.next name = (w.laidOut d number super?).slots.lookup name := by
  rw [slotOf, Class.slotOf, h.new.slots]

theorem declares_new (h : Links w w' d number super?) (name : String) :
    w'.Declares w.classes.next name ↔ (lastNamed d.virtuals name).isSome = true := by
  rw [Declares, Class.declares, h.new.declared, lastNamed_isSome]

/-- The superclasses of the new class are one class and that class's superclasses. -/
theorem ancestors_new (h : Links w w' d number (some s)) :
    w'.ancestors w.classes.next = w.lineage s := h.new.ancestors

theorem ancestors_new_none (h : Links w w' d number none) : w'.ancestors w.classes.next = [] :=
  h.new.ancestors

theorem of_mem_ancestors_new (h : Links w w' d number super?)
    (ha : a ∈ w'.ancestors w.classes.next) : ∃ s, super? = some s ∧ a ∈ w.lineage s := by
  cases super? with
  | none => rw [h.ancestors_new_none] at ha; cases ha
  | some s => exact ⟨s, rfl, h.ancestors_new ▸ ha⟩

/-- Seen from any class, a superclass was there already and is as it was. -/
theorem live_of_mem_ancestors (h : Links w w' d number super?) (hl : w.Lineages)
    (hsuper : ∀ s, super? = some s → w.classes.Live s) (ha : a ∈ w'.ancestors c) :
    w.classes.Live a := by
  by_cases hc : c = w.classes.next
  · subst hc
    obtain ⟨s, hs, ha⟩ := h.of_mem_ancestors_new ha
    exact hl.live_of_mem_lineage (hsuper s hs) ha
  · exact hl.live (h.ancestors_old hc ▸ ha)

theorem fields_new (h : Links w w' d number (some s)) (hl : w.Lineages)
    (ha : a ∈ w.lineage s) :
    (w.classes.get a).fields <+: (w'.classes.get w.classes.next).fields := by
  have hsuper : (w.classes.get a).fields <+: (w.classes.get s).fields := by
    rcases List.mem_cons.mp ha with rfl | ha
    · exact List.prefix_refl _
    · exact hl.fields ha
  rw [h.new.fields]
  exact hsuper.trans (List.prefix_append _ _)

/-- The new class declares a name, or it has the slot from above. -/
theorem slotted_new (h : Links w w' d number super?) (hl : w.Lineages)
    (hsuper : ∀ s, super? = some s → w.classes.Live s)
    (hlaid : Layout.Laid number d.name (w.inherited super?) d.virtuals
      (w.laidOut d number super?)) (name : String) :
    (w'.slotOf w.classes.next name).isSome = true ↔
      ∃ a ∈ w'.lineage w.classes.next, w'.Declares a name := by
  rw [h.slotOf_new, hlaid.slotted, ← h.declares_new, lineage_eq]
  simp only [List.mem_cons, exists_eq_or_imp]
  rw [or_comm]
  refine or_congr Iff.rfl ?_
  cases super? with
  | none =>
    rw [h.ancestors_new_none]
    simp [inherited]
  | some s =>
    have hstart : ((w.inherited (some s)).slots.lookup name).isSome = true ↔
        ∃ a ∈ w.lineage s, w.Declares a name := hl.slotted name (hsuper s rfl)
    rw [hstart, h.ancestors_new]
    refine exists_congr fun a => and_congr_right fun ha => ?_
    rw [h.declares_old (hl.live_of_mem_lineage (hsuper s rfl) ha).ne_next]

end Links

/-- A class linked below another takes everything over from it. -/
theorem Lineages.link (h : w.Lineages) (d : ClassDecl β) (number : Nat)
    {super? : Option ClassRef} (hsuper : ∀ s, super? = some s → w.classes.Live s)
    (hordered : (w.inherited super?).Ordered) : (w.link d number super?).2.Lineages := by
  have hlaid := laid_laidOut d number hordered
  have hlinks := links_link w d number super?
  generalize (w.link d number super?).2 = w' at hlinks
  have hup : ∀ {c a}, a ∈ w'.ancestors c → w.classes.Live a :=
    fun ha => hlinks.live_of_mem_ancestors h hsuper ha
  -- Every field is split alike: the new class, whose superclasses are old, or an old class.
  refine
    { live := fun {c a} ha => (hlinks.live a).mpr (Or.inl (hup ha))
      lt := fun {c a} ha => ?_
      nested := fun {c a} ha => ?_
      headed := fun {c s} hc => ?_
      fields := fun {c a} ha => ?_
      slots := fun {c a name k} ha hk => ?_
      slotted := fun {c} name hc' => ?_
      distinct := fun {c name name' k} hk hk' => ?_ }
  · by_cases hc : c = w.classes.next
    · exact hc ▸ hup ha
    · exact h.lt (hlinks.ancestors_old hc ▸ ha)
  · rw [hlinks.lineage_old (hup ha).ne_next]
    by_cases hc : c = w.classes.next
    · subst hc
      obtain ⟨s, rfl, ha⟩ := hlinks.of_mem_ancestors_new ha
      rw [hlinks.ancestors_new]
      exact h.lineage_suffix ha
    · rw [hlinks.ancestors_old hc] at ha ⊢
      exact h.nested ha
  · rw [hlinks.lineage_old (hup (List.mem_of_mem_head? hc)).ne_next]
    by_cases hnext : c = w.classes.next
    · subst hnext
      obtain ⟨p, rfl, -⟩ := hlinks.of_mem_ancestors_new (List.mem_of_mem_head? hc)
      rw [hlinks.ancestors_new, lineage_eq] at hc ⊢
      cases hc
      rfl
    · rw [hlinks.ancestors_old hnext] at hc ⊢
      exact h.headed hc
  · rw [hlinks.old (hup ha).ne_next]
    by_cases hc : c = w.classes.next
    · subst hc
      obtain ⟨s, rfl, ha⟩ := hlinks.of_mem_ancestors_new ha
      exact hlinks.fields_new h ha
    · rw [hlinks.old hc]
      exact h.fields (hlinks.ancestors_old hc ▸ ha)
  · rw [hlinks.slotOf_old (hup ha).ne_next] at hk
    by_cases hc : c = w.classes.next
    · subst hc
      obtain ⟨s, rfl, ha⟩ := hlinks.of_mem_ancestors_new ha
      rw [hlinks.slotOf_new]
      exact hlaid.kept (h.slots_of_mem_lineage ha hk)
    · rw [hlinks.slotOf_old hc]
      exact h.slots (hlinks.ancestors_old hc ▸ ha) hk
  · by_cases hc : c = w.classes.next
    · subst hc
      exact hlinks.slotted_new h hsuper hlaid name
    · have hlive : w.classes.Live c := ((hlinks.live c).mp hc').resolve_right hc
      rw [hlinks.slotOf_old hc, hlinks.lineage_old hc, h.slotted name hlive]
      refine exists_congr fun a => and_congr_right fun ha => ?_
      rw [hlinks.declares_old (h.live_of_mem_lineage hlive ha).ne_next]
  · by_cases hc : c = w.classes.next
    · subst hc
      rw [hlinks.slotOf_new] at hk hk'
      exact hlaid.inj hk hk'
    · rw [hlinks.slotOf_old hc] at hk hk'
      exact h.distinct hk hk'

end Interception.World
